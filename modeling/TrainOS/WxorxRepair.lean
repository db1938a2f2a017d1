import TrainOS.ElfLoading
import TrainOS.MemoryCalls

/-!
# What `force_wxorx` repairs

`force_wxorx` returns the number of pages it fixed.  Along its loops the set of repaired
leaves grows with the count, and a lookup differs from the one at the start only below a
repaired leaf, which lost X.  At the end all leaves in question are repaired.  The setter that
clears X also clears G, A and D of the leaf.
-/

namespace TrainOS.Sv39

open ByteMemory List RadixTable

/-! ### The loops with their count -/

def fixX (table : Nat) (st : Nat × Memory) (i : Fin 512) : Nat × Memory :=
  if (readPte st.2 table i).isWx then (st.1 + 1, clearX table st.2 i) else st

def fixPage (l0 : Nat) (st : Nat × Memory) (i : Fin 512) : Nat × Memory :=
  if !(readPte st.2 l0 i).isValid then st else fixX l0 st i

def fixTable (l1 : Nat) (st : Nat × Memory) (i : Fin 512) : Nat × Memory :=
  let e := readPte st.2 l1 i
  if !e.isValid then st
  else if e.isLeaf then fixX l1 st i
  else (finRange 512).foldl (fixPage e.physAddr) st

def fixRegion (root : Nat) (st : Nat × Memory) (i : Fin 512) : Nat × Memory :=
  let e := readPte st.2 root i
  if !e.isValid || e.isLeaf then st
  else (finRange 512).foldl (fixTable e.physAddr) st

/-- `force_wxorx` with its result, the number of leaves that lost X. -/
def forceWxorxFixed (root : Nat) (m : Memory) : Nat × Memory :=
  userEntries.foldl (fixRegion root) (0, m)

theorem snd_fixX (table : Nat) (st : Nat × Memory) (i : Fin 512) :
    (fixX table st i).2 = clearX table st.2 i := by
  unfold fixX
  split
  · rfl
  · rename_i hwx
    exact (clearX_of_not_wx hwx).symm

theorem snd_fixPage (l0 : Nat) (st : Nat × Memory) (i : Fin 512) :
    (fixPage l0 st i).2 = wxorxPage l0 st.2 i := by
  unfold fixPage wxorxPage
  split
  · rfl
  · exact snd_fixX l0 st i

theorem snd_fixTable (l1 : Nat) (st : Nat × Memory) (i : Fin 512) :
    (fixTable l1 st i).2 = wxorxTable l1 st.2 i := by
  unfold fixTable wxorxTable
  dsimp only
  split
  · rfl
  · split
    · exact snd_fixX l1 st i
    · exact (foldl_hom Prod.snd fun _ _ => (snd_fixPage _ _ _).symm).symm

theorem snd_fixRegion (root : Nat) (st : Nat × Memory) (i : Fin 512) :
    (fixRegion root st i).2 = wxorxRegion root st.2 i := by
  unfold fixRegion wxorxRegion
  dsimp only
  split
  · rfl
  · exact (foldl_hom Prod.snd fun _ _ => (snd_fixTable _ _ _).symm).symm

theorem snd_forceWxorxFixed (root : Nat) (m : Memory) :
    (forceWxorxFixed root m).2 = forceWxorx root m :=
  (foldl_hom Prod.snd fun _ _ => (snd_fixRegion _ _ _).symm).symm

/-! ### What a repaired entry loses -/

section

variable {e : PTE}

/-- The entry without X, in all other bits as before. -/
def PTE.clearExecutable (e : PTE) : PTE := ⟨e.bits &&& ~~~0x8⟩

/-- The bit G, for which the source has no accessor. -/
def PTE.isGlobal (e : PTE) : Bool := e.bits[5]

theorem PTE.getLsbD_clearExecutable (e : PTE) (i : Nat) :
    e.clearExecutable.bits.getLsbD i = (e.bits.getLsbD i && decide (i ≠ 3)) := by
  have hmask : (0x8 : BitVec 64).getLsbD i = decide (i = 3) := by
    have hpow : (0x8 : BitVec 64).getLsbD i = Nat.testBit (2 ^ 3) i := rfl
    rw [hpow, Nat.testBit_two_pow]
    exact decide_eq_decide.mpr eq_comm
  rw [clearExecutable, BitVec.getLsbD_and, BitVec.getLsbD_not, hmask, decide_not]
  by_cases hi : i < 64
  · rw [decide_eq_true hi, Bool.true_and]
  · rw [BitVec.getLsbD_of_ge _ i (not_lt.mp hi), Bool.false_and, Bool.false_and]

/-- `set_flags` rewrites the whole low byte, so that a repaired entry loses X alone exactly if
    none of G, A and D was set. -/
theorem PTE.withoutX_eq_clearExecutable (hvalid : e.isValid = true) (hwx : e.isWx = true) :
    e.withoutX = e.clearExecutable ↔
      e.isGlobal = false ∧ e.isAccessed = false ∧ e.isDirty = false := by
  obtain ⟨hv, hr, hw, hx, hu⟩ := flagByte_bits e.isReadable e.isWritable false e.isUser
  have hflags (i : Nat) : e.withoutX.bits.getLsbD i = if i < 8 then
      (flagByte e.isReadable e.isWritable false e.isUser).getLsbD i else e.bits.getLsbD i := by
    rw [withoutX, if_pos hwx, getLsbD_setFlags]
  have hhigh (i : Nat) (hi : 5 ≤ i) :=
    getLsbD_high (flagByte_lt e.isReadable e.isWritable false e.isUser) hi
  have hlost (i : Nat) (hi : 5 ≤ i) (hi' : i < 8) (heq : e.withoutX = e.clearExecutable) :
      e.bits.getLsbD i = false := by
    have hbit := e.getLsbD_clearExecutable i
    rw [← heq, hflags, if_pos hi', hhigh i hi, decide_eq_true (show i ≠ 3 by omega),
      Bool.and_true] at hbit
    exact hbit.symm
  constructor
  · intro heq
    exact ⟨hlost 5 (by omega) (by omega) heq, hlost 6 (by omega) (by omega) heq,
      hlost 7 (by omega) (by omega) heq⟩
  · rintro ⟨hg, ha, hd⟩
    have hbits : e.withoutX.bits = e.clearExecutable.bits := by
      refine BitVec.eq_of_getLsbD_eq fun i _ => ?_
      rw [hflags, getLsbD_clearExecutable]
      split
      · rename_i hi
        interval_cases i
        · exact hv.trans hvalid.symm |>.trans (Bool.and_true _).symm
        · exact hr.trans (Bool.and_true _).symm
        · exact hw.trans (Bool.and_true _).symm
        · exact hx.trans (Bool.and_false _).symm
        · exact hu.trans (Bool.and_true _).symm
        · exact (hhigh 5 le_rfl).trans (hg.symm.trans (Bool.and_true _).symm)
        · exact (hhigh 6 (by omega)).trans (ha.symm.trans (Bool.and_true _).symm)
        · exact (hhigh 7 (by omega)).trans (hd.symm.trans (Bool.and_true _).symm)
      · rw [decide_eq_true (show i ≠ 3 by omega), Bool.and_true]
    exact congrArg PTE.mk hbits

theorem isLeaf_of_lookup {m : Memory} {f : Nat} {is rest : List (Fin 512)}
    (h : lookup (tables m) f is = some (e, rest)) : e.isLeaf = true := by
  induction is generalizing f with
  | nil => cases h
  | cons i is ih =>
    rcases lookup_cons_eq_some.mp h with ⟨hentry, _⟩ | ⟨g, _, h⟩
    · obtain ⟨rfl, hleaf⟩ := decode_eq_leaf.mp hentry
      exact hleaf
    · exact ih h

end

/-! ### Repaired leaves -/

/-- The path leads to a leaf of 4 KiB or 2 MiB below `2 ^ 38` that users may both write and
    execute. -/
def WxLeaf (m : Memory) (t : Nat) (p : List (Fin 512)) : Prop :=
  (∃ a ∈ userEntries, [a] <+: p) ∧ 2 ≤ p.length ∧ p.length ≤ 3 ∧
    ∃ e, lookup (tables m) t p = some (e, []) ∧ e.isWx = true

/-- Since `m0` the leaves at the paths in `fixed` have lost X. -/
structure Repaired (t : Nat) (m0 : Memory) (fixed : Finset (List (Fin 512)))
    (st : Nat × Memory) : Prop where
  count : st.1 = fixed.card
  scrub : Scrubbed (fun _ => True) m0 st.2
  leaf : ∀ p ∈ fixed, WxLeaf m0 t p
  lookup : ∀ p, p.length ≤ 3 → lookup (tables st.2) t p =
    (lookup (tables m0) t p).map
      (Prod.map (if ∃ q ∈ fixed, q <+: p then PTE.withoutX else id) id)
  same : fixed = ∅ → st.2 = m0

section Repair

variable {t f : Nat} {m0 : Memory} {st : Nat × Memory} {own : Own}
  {fixed : Finset (List (Fin 512))} {a i : Fin 512} {q : List (Fin 512)}

/-- One entry is repaired and counted, or left alone. -/
theorem Repaired.fixX (h : Repaired t m0 fixed st) (howned : Owned 3 (tables m0) own)
    (hroot : own t = some (t, [])) (ha : a ∈ userEntries) (hq : q.length ≤ 1)
    (hf : frameAt (tables m0) t (a :: q) = some f)
    (hvalid : (readPte st.2 (f * PAGE_SIZE) i).isValid = true) :
    ∃ fixed', Repaired t m0 fixed' (fixX (f * PAGE_SIZE) st i) := by
  unfold Sv39.fixX
  split
  · rename_i hwx
    have hscrub := (clearX_scrubbed (F := fun _ => True) trivial hvalid).1
    have hframe : frameAt (tables st.2) t (a :: q) = some f := (h.scrub.frameAt t _).trans hf
    have hleaf : tables st.2 f i = .leaf (readPte st.2 (f * PAGE_SIZE) i) := by
      refine decode_eq_leaf.mpr ⟨rfl, ?_⟩
      rw [PTE.isLeaf, hvalid, PTE.isWritable_of_isWx hwx]
      simp
    have hwrite : tables (clearX (f * PAGE_SIZE) st.2 i) = write (tables st.2) f i
        (readPte st.2 (f * PAGE_SIZE) i).withoutX.decode := by
      rw [clearX_of_wx hwx, tables_writePte]
    set e := readPte st.2 (f * PAGE_SIZE) i
    have hnow : RadixTable.lookup (tables st.2) t (a :: q ++ [i]) = some (e, []) :=
      (lookup_frameAt hframe [i]).trans (lookup_leaf [] hleaf)
    -- a leaf that still has X was not repaired yet, so it is as at the start
    have hshow := h.lookup (a :: q ++ [i]) (by simp; omega)
    have hnot : ¬ ∃ q' ∈ fixed, q' <+: a :: q ++ [i] := by
      intro hex
      rw [if_pos hex, hnow] at hshow
      obtain ⟨⟨e', _⟩, -, heq⟩ := Option.map_eq_some_iff.mp hshow.symm
      rw [← (Prod.mk.inj heq).1, PTE.isWx_withoutX] at hwx
      cases hwx
    rw [if_neg hnot, Prod.map_id, Option.map_id, id, hnow] at hshow
    refine ⟨insert (a :: q ++ [i]) fixed, ?_, h.scrub.trans hscrub, ?_, ?_, ?_⟩
    · rw [Finset.card_insert_of_notMem fun hmem => hnot ⟨_, hmem, prefix_rfl⟩, ← h.count]
    · exact (Finset.forall_mem_insert _ _ _).mpr
        ⟨⟨⟨a, ha, _, rfl⟩, by simp, by simp; omega, e, hshow.symm, hwx⟩, h.leaf⟩
    · intro p hp
      by_cases hpre : a :: q ++ [i] <+: p
      · obtain ⟨rest, rfl⟩ := hpre
        have hnew : tables (clearX (f * PAGE_SIZE) st.2 i) f i = .leaf e.withoutX := by
          rw [hwrite, write_self]
          exact decode_eq_leaf.mpr ⟨rfl, PTE.isLeaf_withoutX (decode_eq_leaf.mp hleaf).2⟩
        have hlook := lookup_append hshow.symm rest
        rw [if_pos ⟨_, Finset.mem_insert_self _ _, prefix_append _ _⟩, hlook,
          append_assoc, lookup_frameAt ((hscrub.frameAt t _).trans hframe)]
        exact lookup_leaf rest hnew
      · have hiff : (∃ q' ∈ insert (a :: q ++ [i]) fixed, q' <+: p) ↔ ∃ q' ∈ fixed, q' <+: p := by
          simp only [Finset.mem_insert, exists_eq_or_imp, hpre, false_or]
        have howned' : Owned 3 (tables st.2) own := fun g r p j k hg hlevel hbranch =>
          howned g r p j k hg hlevel (h.scrub.branch_iff.mp hbranch)
        have hown : own f = some (t, a :: q) := howned.frameAt hroot (by simp; omega) hf
        simp only [hiff, ← h.lookup p hp, hwrite]
        exact lookup_write howned' hown hroot (by simpa using hp) (.inr hpre)
    · intro hempty
      exact absurd hempty (Finset.insert_ne_empty _ _)
  · exact ⟨fixed, h⟩

theorem Repaired.branch (h : Repaired t m0 fixed st) (hf : frameAt (tables m0) t q = some f)
    (hvalid : (readPte st.2 (f * PAGE_SIZE) i).isValid = true)
    (hleaf : (readPte st.2 (f * PAGE_SIZE) i).isLeaf = false) :
    frameAt (tables m0) t (q ++ [i]) = some (readPte st.2 (f * PAGE_SIZE) i).ppn :=
  frameAt_snoc.mpr ⟨f, hf, h.scrub.branch_iff.mp (decode_eq_branch.mpr ⟨hvalid, hleaf, rfl⟩)⟩

section

variable (h : ∃ fixed, Repaired t m0 fixed st) (howned : Owned 3 (tables m0) own)
  (hroot : own t = some (t, [])) (ha : a ∈ userEntries)
include h howned hroot ha

theorem repaired_fixTable (hf : frameAt (tables m0) t [a] = some f) (i : Fin 512) :
    ∃ fixed, Repaired t m0 fixed (fixTable (f * PAGE_SIZE) st i) := by
  unfold fixTable
  dsimp only
  obtain ⟨fixed, hst⟩ := h
  cases hvalid : (readPte st.2 (f * PAGE_SIZE) i).isValid with
  | false => exact ⟨fixed, hst⟩
  | true =>
    cases hleaf : (readPte st.2 (f * PAGE_SIZE) i).isLeaf with
    | true => exact hst.fixX (q := []) howned hroot ha (Nat.zero_le 1) hf hvalid
    | false =>
      rw [physAddr_eq]
      refine foldlRecOn (motive := fun st => ∃ fixed, Repaired t m0 fixed st) _ _ ⟨fixed, hst⟩
        fun st' hst' j _ => ?_
      unfold fixPage
      split
      · exact hst'
      · rename_i hpage
        obtain ⟨fixed', hst'⟩ := hst'
        exact hst'.fixX howned hroot ha (q := [i]) le_rfl (hst.branch hf hvalid hleaf)
          (by simpa using hpage)

theorem repaired_fixRegion : ∃ fixed, Repaired t m0 fixed (fixRegion (t * PAGE_SIZE) st a) := by
  unfold fixRegion
  dsimp only
  obtain ⟨fixed, hst⟩ := h
  cases hvalid : (readPte st.2 (t * PAGE_SIZE) a).isValid with
  | false => exact ⟨fixed, hst⟩
  | true =>
    cases hleaf : (readPte st.2 (t * PAGE_SIZE) a).isLeaf with
    | true => exact ⟨fixed, hst⟩
    | false =>
      rw [physAddr_eq]
      refine foldlRecOn (motive := fun st => ∃ fixed, Repaired t m0 fixed st) _ _ ⟨fixed, hst⟩
        fun st' hst' j _ => ?_
      exact repaired_fixTable hst' howned hroot ha (hst.branch (frameAt_nil _ _) hvalid hleaf) j

end

theorem repaired_forceWxorx (howned : Owned 3 (tables m0) own) (hroot : own t = some (t, [])) :
    ∃ fixed, Repaired t m0 fixed (forceWxorxFixed (t * PAGE_SIZE) m0) := by
  have hstart : Repaired t m0 ∅ (0, m0) := ⟨rfl, .refl m0, by simp, by simp, fun _ => rfl⟩
  exact foldlRecOn (motive := fun st => ∃ fixed, Repaired t m0 fixed st) _ _ ⟨∅, hstart⟩
    fun st hst a ha => repaired_fixRegion hst howned hroot ha

/-- After `force_wxorx` none of these leaves is left. -/
theorem forceWxorx_clean (t : Nat) (m : Memory) (p : List (Fin 512)) :
    ¬ WxLeaf (forceWxorx (t * PAGE_SIZE) m) t p := by
  rintro ⟨⟨a, ha, q, rfl⟩, h2, h3, e, hl, hwx⟩
  have hclean := (forceWxorx_cleanBelow (t := t) (F := fun _ => True) m (by simp)).2 a ha
  apply Bool.false_ne_true
  rcases lookup_cons_eq_some.mp hl with ⟨-, rfl⟩ | ⟨g, hg, hl⟩
  · simp at h2
  rcases q with _ | ⟨b, q⟩
  · cases hl
  rcases lookup_cons_eq_some.mp hl with ⟨hleaf, -⟩ | ⟨g0, hg0, hl⟩
  · exact ((hclean g hg b).1 e hleaf).symm.trans hwx
  obtain _ | ⟨c, _ | _⟩ := q
  · cases hl
  · rcases lookup_cons_eq_some.mp hl with ⟨hleaf, -⟩ | ⟨_, -, hl⟩
    · exact ((hclean g hg b).2 g0 hg0 c e hleaf).symm.trans hwx
    · cases hl
  · simp only [length_append, length_cons] at h3
    omega

/-- All of these leaves are repaired. -/
theorem Repaired.complete (h : Repaired t m0 fixed st) (hclean : ∀ p, ¬ WxLeaf st.2 t p)
    (p : List (Fin 512)) : p ∈ fixed ↔ WxLeaf m0 t p := by
  refine ⟨h.leaf p, ?_⟩
  rintro ⟨hstart, h2, h3, e, hl, hwx⟩
  have hshow := h.lookup p h3
  by_cases hex : ∃ q ∈ fixed, q <+: p
  · obtain ⟨q, hq, rest, rfl⟩ := hex
    obtain ⟨-, -, -, e', hl', -⟩ := h.leaf q hq
    rw [lookup_append hl' rest] at hl
    cases hl
    rwa [append_nil]
  · rw [if_neg hex, Prod.map_id, Option.map_id, id, hl] at hshow
    exact absurd ⟨hstart, h2, h3, e, hshow, hwx⟩ (hclean p)

theorem PTE.translation_withoutX {e : PTE} (hwx : e.isWx = true) (size va : Nat) :
    e.withoutX.translation size va = { e.translation size va with x := false } := by
  obtain ⟨hr, hw, hu, hx⟩ := e.flags_withoutX
  rw [isWx, Bool.and_eq_true] at hwx
  rw [hwx.1, Bool.not_true, Bool.and_false] at hx
  simp [PTE.translation, physAddr_eq, ppn_withoutX, hr, hw, hu, hx]

theorem Repaired.translate (h : Repaired t m0 fixed st) (va : Nat) :
    translate st.2 (t * PAGE_SIZE) va = (translate m0 (t * PAGE_SIZE) va).map fun tr =>
      { tr with x := tr.x && !decide (∃ p ∈ fixed, p <+: path va) } := by
  rw [translate_eq_lookup, translate_eq_lookup, h.lookup (path va) (by simp [path])]
  cases hl : RadixTable.lookup (tables m0) t (path va) with
  | none => rfl
  | some l =>
    obtain ⟨e, rest⟩ := l
    by_cases hex : ∃ p ∈ fixed, p <+: path va
    · simp only [hex, if_true, decide_true, Bool.not_true, Bool.and_false]
      obtain ⟨q, hq, rest', hpath⟩ := hex
      obtain ⟨-, -, -, e', hl', hwx⟩ := h.leaf q hq
      have hsame := lookup_append hl' rest'
      rw [hpath, hl] at hsame
      cases hsame
      exact congrArg some (PTE.translation_withoutX hwx _ va)
    · simp [hex]

theorem Repaired.lookup_fixed (h : Repaired t m0 fixed st) {p : List (Fin 512)} {e : PTE}
    (hp : p ∈ fixed) (hl : RadixTable.lookup (tables m0) t p = some (e, [])) :
    RadixTable.lookup (tables st.2) t p = some (e.withoutX, []) := by
  have hlen : p.length ≤ 3 := (h.leaf p hp).2.2.1
  rw [h.lookup p hlen, hl, if_pos ⟨p, hp, prefix_rfl⟩]
  rfl

/-- The repaired leaves have lost X alone exactly if none of them had G, A or D. -/
theorem Repaired.only_x_iff (h : Repaired t m0 fixed st) :
    (∀ p ∈ fixed, ∀ e, RadixTable.lookup (tables m0) t p = some (e, []) →
      RadixTable.lookup (tables st.2) t p = some (e.clearExecutable, [])) ↔
    ∀ p ∈ fixed, ∀ e, RadixTable.lookup (tables m0) t p = some (e, []) →
      e.isGlobal = false ∧ e.isAccessed = false ∧ e.isDirty = false := by
  refine forall₄_congr fun p hp e hl => ?_
  obtain ⟨-, -, -, e', hl', hwx⟩ := h.leaf p hp
  cases hl.symm.trans hl'
  have hvalid := PTE.isValid_of_isLeaf (isLeaf_of_lookup hl)
  rw [h.lookup_fixed hp hl, ← PTE.withoutX_eq_clearExecutable hvalid hwx]
  simp

/-- **What `force_wxorx` repairs.**  On a table that is a tree it returns the number of user leaves
    below `2 ^ 38` that were writable and executable; afterwards there are none, every address
    translates as before but for the X of these leaves, and a second call changes nothing.  The
    repaired leaves have lost only X exactly if none of them had G, A or D. -/
theorem force_wxorx_minimal {s : Phys} (htree : Tree anyEntry s own)
    (hroot : own t = some (t, [])) :
    let r := forceWxorxFixed (t * PAGE_SIZE) s.mem
    ∃ fixed : Finset (List (Fin 512)), (∀ p, p ∈ fixed ↔ WxLeaf s.mem t p) ∧ r.1 = fixed.card ∧
      (∀ p, ¬ WxLeaf r.2 t p) ∧
      (∀ va, translate r.2 (t * PAGE_SIZE) va =
        (translate s.mem (t * PAGE_SIZE) va).map fun tr =>
          { tr with x := tr.x && !decide (∃ p ∈ fixed, p <+: path va) }) ∧
      forceWxorxFixed (t * PAGE_SIZE) r.2 = (0, r.2) ∧
      ((∀ p ∈ fixed, ∀ e, lookup (tables s.mem) t p = some (e, []) →
          lookup (tables r.2) t p = some (e.clearExecutable, [])) ↔
        ∀ p ∈ fixed, ∀ e, lookup (tables s.mem) t p = some (e, []) →
          e.isGlobal = false ∧ e.isAccessed = false ∧ e.isDirty = false) := by
  intro r
  obtain ⟨fixed, h⟩ := repaired_forceWxorx htree.owned hroot
  have hclean : ∀ p, ¬ WxLeaf r.2 t p := by
    rw [snd_forceWxorxFixed]
    exact forceWxorx_clean t s.mem
  refine ⟨fixed, h.complete hclean, h.count, hclean, h.translate, ?_, h.only_x_iff⟩
  have howned : Owned 3 (tables r.2) own := fun g r p j k hg hlevel hbranch =>
    htree.owned g r p j k hg hlevel (h.scrub.branch_iff.mp hbranch)
  obtain ⟨again, h'⟩ := repaired_forceWxorx howned hroot
  have hnone : again = ∅ := Finset.eq_empty_of_forall_notMem fun p hp => hclean p (h'.leaf p hp)
  exact Prod.ext (by rw [h'.count, hnone]; rfl) (h'.same hnone)

/-- A table with one page that users may write and execute, accessed and dirty as the kernel maps
    it. -/
theorem exists_wx_page : ∃ s own, Tree anyEntry s own ∧ own 1 = some (1, []) ∧
    lookup (tables s.mem) 1 (path 0x5000) = some (.page 0x7000 true true true true, []) := by
  obtain ⟨own, htable⟩ := heapKernel_tableOf
  have hok : (mapWith "" heapKernel.phys 0x1000 0x5000 0x7000 true true true true).1 = .ok () := by
    decide +kernel
  rcases hrun : mapWith "" heapKernel.phys 0x1000 0x5000 0x7000 true true true true with ⟨res, s⟩
  obtain ⟨own', heff, -, hfound⟩ := mapWith_effect htable.tree htable.root_own hrun
  rw [hrun] at hok
  exact ⟨s, own', heff.tree, heff.keep _ _ htable.root_own, hfound hok⟩

theorem wxLeaf_of_lookup {m : Memory}
    (h : lookup (tables m) 1 (path 0x5000) = some (.page 0x7000 true true true true, [])) :
    WxLeaf m 1 (path 0x5000) :=
  ⟨⟨0, by decide, by decide⟩, by decide, by decide, _, h, by decide⟩

/-- One page that users may write and execute is repaired. -/
theorem force_wxorx_minimal_page :
    ∃ s own, Tree anyEntry s own ∧ own 1 = some (1, []) ∧ WxLeaf s.mem 1 (path 0x5000) ∧
      ∀ p, ¬ WxLeaf (forceWxorxFixed 0x1000 s.mem).2 1 p := by
  obtain ⟨s, own, htree, hroot, hl⟩ := exists_wx_page
  obtain ⟨fixed, -, -, hclean, -⟩ := force_wxorx_minimal htree hroot
  exact ⟨s, own, htree, hroot, wxLeaf_of_lookup hl, hclean⟩

/-- Its leaf loses A and D together with X. -/
theorem force_wxorx_clears_dirty : ∃ s own e e', Tree anyEntry s own ∧ own 1 = some (1, []) ∧
    lookup (tables s.mem) 1 (path 0x5000) = some (e, []) ∧
    lookup (tables (forceWxorxFixed 0x1000 s.mem).2) 1 (path 0x5000) = some (e', []) ∧
    (e.isExecutable, e.isAccessed, e.isDirty) = (true, true, true) ∧
    (e'.isExecutable, e'.isAccessed, e'.isDirty) = (false, false, false) := by
  obtain ⟨s, own, htree, hroot, hl⟩ := exists_wx_page
  obtain ⟨fixed, h⟩ := repaired_forceWxorx htree.owned hroot
  have hclean : ∀ p, ¬ WxLeaf (forceWxorxFixed 0x1000 s.mem).2 1 p := by
    rw [snd_forceWxorxFixed]
    exact forceWxorx_clean 1 s.mem
  have hmem : path 0x5000 ∈ fixed := (h.complete hclean _).mpr (wxLeaf_of_lookup hl)
  exact ⟨s, own, _, _, htree, hroot, hl, h.lookup_fixed hmem hl, by decide, by decide⟩

end Repair

end TrainOS.Sv39
