import TrainOS.Iommu

/-!
# The walk of the IOMMU is the kernel's walk

Where no superpage is on the way, the walk of `device/iommu.rs` does what `walk_process_pt`
does, since the reserved bits it keeps are zero in every pointer of a tree.  Under a superpage
of 2 MiB the entry goes into the memory that the superpage maps.
-/

namespace TrainOS.Iommu

open Sv39

/-! ### Words -/

theorem getLsbD_setPpn {n i : Nat} (hn : n < 2 ^ 44) (hi : i < 64) :
    (PTE.empty.setPpn n).bits.getLsbD i = (n <<< 10).testBit i := by
  have hmask : BitVec.ofNat 64 n &&& (2 ^ 44 - 1 : BitVec 64) = BitVec.ofNat 64 n := by
    apply BitVec.eq_of_toNat_eq
    have hval : (2 ^ 44 - 1 : BitVec 64).toNat = 2 ^ 44 - 1 := rfl
    rw [BitVec.toNat_and, hval, Nat.and_two_pow_sub_one_eq_mod, BitVec.toNat_ofNat]
    omega
  have hlow : decide (10 ≤ i) = !decide (i < 10) := by
    by_cases h10 : i < 10
    · simp [h10]
    · simp [h10, not_lt.mp h10]
  have hrest : i - 10 < 64 := by omega
  unfold PTE.setPpn PTE.empty
  rw [hmask]
  simp only [BitVec.ofNat_eq_ofNat, BitVec.zero_and, BitVec.zero_or, BitVec.getLsbD_shiftLeft,
    BitVec.getLsbD_ofNat, Nat.testBit_shiftLeft, ge_iff_le, hlow, hi, hrest, decide_true,
    Bool.true_and]

theorem testBit_frame_low {n i : Nat} (hi : i < 10) : (n <<< 10).testBit i = false := by
  simp [hi]

theorem tableWord_eq {page : Nat} (hpage : page < 2 ^ 56) : tableWord page = .table page := by
  have hbits : (tableWord page).bits = (PTE.table page).bits := by
    apply BitVec.eq_of_getLsbD_eq
    intro i hi
    have hone : (1 : Nat).testBit i = (1 : BitVec 64).getLsbD i := rfl
    unfold tableWord PTE.table
    rw [PTE.getLsbD_setFlags, BitVec.getLsbD_ofNat, Nat.testBit_or, hone]
    simp only [hi, decide_true, Bool.true_and]
    split
    case isTrue hlow =>
      rw [testBit_frame_low (by omega), Bool.false_or]
      rfl
    case isFalse hhigh =>
      rw [getLsbD_setPpn (PTE.frame_lt hpage) hi,
        PTE.getLsbD_high (c := 1) (k := 1) (by decide) (by omega), Bool.or_false]
  exact congrArg PTE.mk hbits

theorem pageWord_eq {pa : Nat} (hpa : pa < 2 ^ 56) (r w : Bool) :
    pageWord pa r w = .page pa r w false false := by
  have hflags : (1 ||| (if r then 2 else 0) ||| (if w then 4 else 0) : BitVec 64) =
      PTE.flagByte r w false false := by
    cases r <;> cases w <;> rfl
  have hbits : (pageWord pa r w).bits = (PTE.page pa r w false false).bits := by
    apply BitVec.eq_of_getLsbD_eq
    intro i hi
    unfold pageWord PTE.page
    rw [PTE.getLsbD_setDirty, PTE.getLsbD_setAccessed, PTE.getLsbD_setFlags, hflags]
    simp only [BitVec.getLsbD_or, BitVec.getLsbD_ofNat, hi, decide_true, Bool.true_and]
    split
    case isTrue hlow => rw [testBit_frame_low (by omega), Bool.or_false]
    case isFalse hhigh =>
      rw [getLsbD_setPpn (PTE.frame_lt hpa) hi,
        PTE.getLsbD_high (PTE.flagByte_lt r w false false) (by omega), Bool.false_or]
  exact congrArg PTE.mk hbits

def plainWord (e : PTE) : Prop := ∀ i, 54 ≤ i → e.bits.getLsbD i = false

/-- The reserved bits of a pointer are zero. -/
def plainPointer : PTE → Prop := fun e => e.isBranch = true → plainWord e

theorem plainWord_setPpn (n : Nat) : plainWord (PTE.empty.setPpn n) := by
  intro i hi
  have hval : (2 ^ 44 - 1 : BitVec 64).toNat < 2 ^ 44 := by decide
  have hmask : (2 ^ 44 - 1 : BitVec 64).getLsbD (i - 10) = false :=
    PTE.getLsbD_high hval (by omega)
  unfold PTE.setPpn PTE.empty
  simp only [BitVec.ofNat_eq_ofNat, BitVec.zero_and, BitVec.zero_or, BitVec.getLsbD_shiftLeft,
    BitVec.getLsbD_and] at hmask ⊢
  rw [hmask, Bool.and_false, Bool.and_false]

variable {e : PTE}

theorem plainWord_setFlags (h : plainWord e) (r w x u : Bool) : plainWord (e.setFlags r w x u) := by
  intro i hi
  rw [PTE.getLsbD_setFlags, if_neg (by omega)]
  exact h i hi

theorem plainWord_page (pa : Nat) (r w x u : Bool) : plainWord (.page pa r w x u) := by
  intro i hi
  rw [PTE.getLsbD_page pa r w x u ⟨PTE.getLsbD_high (k := 7) (by decide) (by omega),
    PTE.getLsbD_high (k := 8) (by decide) (by omega)⟩]
  exact plainWord_setFlags (plainWord_setPpn _) r w x u i hi

theorem plainWord_empty : plainWord .empty := by
  intro i _
  exact BitVec.getLsbD_zero

theorem plainWord_table (p : Nat) : plainWord (.table p) :=
  plainWord_setFlags (plainWord_setPpn _) _ _ _ _

theorem entryRule_plainPointer : EntryRule plainPointer where
  empty := fun _ => plainWord_empty
  table := fun p _ => plainWord_table p
  page := fun pa r w x u _ => plainWord_page pa r w x u

theorem nextPhys_eq (h : plainWord e) : nextPhys e = e.physAddr := by
  apply Nat.eq_of_testBit_eq
  intro i
  have hleft : (nextPhys e).testBit i =
      (decide (i < 64) && (!decide (i < 12) && e.bits.getLsbD (10 + (i - 12)))) := by
    unfold nextPhys
    rw [BitVec.testBit_toNat, BitVec.getLsbD_shiftLeft, BitVec.getLsbD_ushiftRight, Bool.and_assoc]
  unfold PTE.physAddr
  rw [hleft, Nat.testBit_shiftLeft, PTE.ppn_testBit]
  by_cases hlow : i < 12
  · simp [hlow]
  · by_cases hhigh : i < 56
    · have h64 : i < 64 := by omega
      have h44 : i - 12 < 44 := by omega
      have h12 : 12 ≤ i := by omega
      simp [hlow, h64, h44, h12, Nat.add_comm 10]
    · have hzero : e.bits.getLsbD (10 + (i - 12)) = false := h _ (by omega)
      have h44 : ¬ i - 12 < 44 := by omega
      simp [hzero, h44]

/-! ### The walk -/

variable {ok : PTE → Prop} {s : Phys} {own : Own} {t f va pa : Nat} {i : Fin 512}

theorem linkTable_eq (hpool : PoolOk s.pool) (table : Nat) (i : Fin 512) :
    linkTable s table i = newTable s table i := by
  unfold linkTable newTable
  rcases halloc : s.allocPage with ⟨_ | p, s1⟩
  · rfl
  · rcases Phys.allocPage_cases halloc with ⟨hnone, _⟩ | ⟨q, rest, hq, hcons, _⟩
    · cases hnone
    · cases hq
      rw [hcons] at hpool
      dsimp only
      rw [tableWord_eq (hpool.frame p List.mem_cons_self).2]

variable {o : Nat × List (Fin 512)}

theorem walkL2_eq (alloc : Bool) (h : Tree plainPointer s own) (hf : own f = some o) :
    walkL2 s (f * PAGE_SIZE) i alloc = nextTable s (f * PAGE_SIZE) i alloc := by
  have hplain := h.entries f o hf i
  unfold walkL2 nextTable PTE.isLeaf
  rw [linkTable_eq h.pool]
  cases hv : (readPte s.mem (f * PAGE_SIZE) i).isValid with
  | false => simp [hv]
  | true =>
    by_cases hrwx : ((readPte s.mem (f * PAGE_SIZE) i).isReadable ||
        (readPte s.mem (f * PAGE_SIZE) i).isWritable ||
        (readPte s.mem (f * PAGE_SIZE) i).isExecutable) = true
    · simp [hv, hrwx]
    · have hbranch : (readPte s.mem (f * PAGE_SIZE) i).isBranch = true := by
        unfold PTE.isBranch
        rw [hv, Bool.eq_false_of_not_eq_true hrwx]
        rfl
      simp [hv, hrwx, nextPhys_eq (hplain hbranch)]

theorem walkL1_eq (alloc : Bool) (h : Tree plainPointer s own)
    (hf : own f = some o) (hleaf : ∀ e, tables s.mem f i ≠ .leaf e) :
    walkL1 s (f * PAGE_SIZE) i alloc = nextTable s (f * PAGE_SIZE) i alloc := by
  rw [← walkL2_eq alloc h hf]
  unfold walkL1 walkL2
  have hno : (readPte s.mem (f * PAGE_SIZE) i).isLeaf = false := by
    apply Bool.eq_false_of_not_eq_true
    intro hl
    exact hleaf _ (decode_eq_leaf.mpr ⟨rfl, hl⟩)
  unfold PTE.isLeaf at hno
  cases hv : (readPte s.mem (f * PAGE_SIZE) i).isValid with
  | false => simp [hv]
  | true =>
    rw [hv, Bool.true_and] at hno
    simp [hv, hno]

/-- **The walk of the IOMMU** is the kernel's where there is no superpage. -/
theorem iommuWalkPt_eq (alloc : Bool) (h : Tree plainPointer s own) (hroot : own t = some (t, []))
    (hsmall : NoSuperpage s.mem t va) :
    iommuWalkPt s (t * PAGE_SIZE) va alloc = walkProcessPt s (t * PAGE_SIZE) va alloc := by
  unfold iommuWalkPt walkProcessPt
  rw [walkL2_eq alloc h hroot]
  rcases hfirst : nextTable s (t * PAGE_SIZE) (vpn2 va) alloc with ⟨_ | l1, s1⟩
  · rfl
  · obtain ⟨f1, _, rfl, heff, _, hf1, h1⟩ := hsmall.second h hroot hfirst
    dsimp only
    rewrite [walkL1_eq alloc heff.tree hf1 h1]
    rfl

section

variable (h : Tree plainPointer s own) (hroot : own t = some (t, []))
  (hsmall : NoSuperpage s.mem t va)
include h hroot hsmall

theorem iommuMapPte_eq (hpa : pa < 2 ^ 56) (r w : Bool) : iommuMapPte s (t * PAGE_SIZE) va pa r w =
      (mapWith "" s (t * PAGE_SIZE) va pa r w false false).2 := by
  unfold iommuMapPte mapWith
  rewrite [iommuWalkPt_eq true h hroot hsmall, pageWord_eq hpa]
  rcases walkProcessPt s (t * PAGE_SIZE) va true with ⟨_ | ⟨l0, i⟩, s1⟩
  · rfl
  · rfl

theorem iommuUnmapPte_eq :
    iommuUnmapPte s (t * PAGE_SIZE) va = unmapUserPage s (t * PAGE_SIZE) va := by
  unfold iommuUnmapPte unmapUserPage
  rewrite [iommuWalkPt_eq false h hroot hsmall]
  rcases walkProcessPt s (t * PAGE_SIZE) va false with ⟨_ | ⟨l0, i⟩, s1⟩
  · rfl
  · rfl

end

/-! ### Writes stay in the tables -/

section

variable (h : Tree ok s own) (hroot : own t = some (t, []))
include h hroot

theorem unmapUserPage_within (va : Nat) :
    WritesWithin t s (unmapUserPage s (t * PAGE_SIZE) va) := by
  unfold unmapUserPage
  rcases walkProcessPt_read s t va with ⟨f0, hreach, hwalk⟩ | ⟨hwalk, _⟩
  · rw [hwalk]
    exact writeLeaf_within h hroot h.rule.empty hreach
  · rw [hwalk]
    exact .refl t s

end

end TrainOS.Iommu
