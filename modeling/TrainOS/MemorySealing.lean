import TrainOS.SealTable
import TrainOS.WritableExecutable

/-!
# Sealed memory

The calls ask `is_sealed` with the bytes of their range, but they work on whole pages, at
addresses whose sum wraps; and `brk` does not ask at all.  A call keeps a seal when its pages
avoid the sealed ones or the check sees it (`sealed_pages_immutable`); for a seal of whole
pages that is every `mmap` and `munmap` below `2 ^ 39` (`rangeAvoids_of_whole_pages`).
-/

namespace TrainOS.Sv39

open List MachineWord Runs

/-! ### The promise -/

/-- The page of `va` has a byte in `start..stop`. -/
def Overlaps (va start stop : Nat) : Prop :=
  ∃ b, b / PAGE_SIZE = va / PAGE_SIZE ∧ start ≤ b ∧ b < stop

/-- The pages of the range translate alike in both states. -/
def SamePages (root start stop : Nat) (k k' : Kernel) : Prop :=
  ∀ va, Overlaps va start stop → translate k'.phys.mem (root * PAGE_SIZE) va =
    translate k.phys.mem (root * PAGE_SIZE) va

/-! ### Calls that avoid the range -/

/-- None of the pages has the page number of a page of the range. -/
def PagesAvoid (start stop : Nat) (vas : List Nat) : Prop :=
  ∀ va ∈ vas, ∀ va', Overlaps va' start stop → vpn va ≠ vpn va'

/-- The range of a call shares a byte with the sealed one, so that the check sees it, or
    its pages avoid it. -/
def RangeAvoids (start stop base length : Nat) : Prop :=
  (length ≠ 0 ∧ start < satAdd base length ∧ base < stop) ∨
    PagesAvoid start stop (pagesFrom base (pageCount length))

/-- The call does not get past the check with a page of the range. -/
def Avoids (pid start stop : Nat) (k : Kernel) : MemCall → Prop
  | .mmap addr length _ => RangeAvoids start stop (mmapBase addr) length
  | .munmap addr length => RangeAvoids start stop addr length
  | .mprotect _ _ _ => True
  | .brk addr => PagesAvoid start stop (brkWork k pid addr).pages

variable {seals : Table MemSeal MAX_SEALS} {pid root start stop length base va : Nat}
  {k k' : Kernel} {own : Own}

theorem rangeWork_avoids {make : Nat → List Nat → Work} {go : Bool}
    (hmake : ∀ r vas, (make r vas).pages = vas) (hmem : ⟨pid, start, stop⟩ ∈ seals.entries)
    (havoid : RangeAvoids start stop base length)
    (hgo : isSealed seals pid base length = true → go = false) :
    PagesAvoid start stop (rangeWork make k pid base length go).pages := by
  unfold rangeWork
  cases k.getPageTableRoot pid with
  | none => exact fun va hva => absurd hva not_mem_nil
  | some ptRoot =>
    rcases havoid with ⟨hlen, hlo, hhi⟩ | hpages
    · have hsealed : isSealed seals pid base length = true := by
        rw [isSealed, if_neg hlen]
        exact any_eq_true.mpr ⟨_, hmem, by simp [hlo, hhi]⟩
      rw [hgo hsealed]
      exact fun va hva => absurd hva not_mem_nil
    · cases go with
      | false => exact fun va hva => absurd hva not_mem_nil
      | true =>
        show PagesAvoid start stop (make ptRoot _).pages
        rw [hmake]
        exact hpages

variable {c : MemCall}

theorem work_avoids (hmem : ⟨pid, start, stop⟩ ∈ seals.entries)
    (havoid : Avoids pid start stop k c) : PagesAvoid start stop (c.work seals pid k).pages := by
  cases c with
  | mmap addr length isAuthorized =>
    exact rangeWork_avoids (fun _ _ => rfl) hmem havoid fun h => by rw [h]; rfl
  | munmap addr length =>
    exact rangeWork_avoids (fun _ _ => rfl) hmem havoid fun h => by rw [h]; rfl
  | mprotect addr length prot => exact fun va hva => absurd hva not_mem_nil
  | brk addr => exact havoid

theorem TableOf.avoids {ok : PTE → Prop} (h : TableOf ok k pid root own)
    (hmem : ⟨pid, start, stop⟩ ∈ seals.entries) (havoid : Avoids pid start stop k c) :
    (∃ own', TableOf ok (c.run seals pid k).2 pid root own') ∧
      SamePages root start stop k (c.run seals pid k).2 := by
  obtain ⟨own', htable, heff⟩ := h.effect seals c
  refine ⟨⟨own', htable⟩, fun va hva => heff.translate_same h.root_own ?_⟩
  exact fun va' hva' => work_avoids hmem havoid va' hva' va hva

/-- **Sealed memory.**  Once a range is sealed, calls of the process that avoid it leave
    the translation of all its pages as it was. -/
theorem sealed_pages_immutable {ok : PTE → Prop} {seals0 : Table MemSeal MAX_SEALS} {len : Nat}
    {calls : List MemCall} (htable : TableOf ok k pid root own)
    (hseal : mseal seals0 pid start len = .ok seals)
    (hrun : Run (Guarded (MemStep seals pid) (Avoids pid start (wrapAdd start len))) k calls k') :
    SamePages root start (wrapAdd start len) k k' := by
  obtain ⟨-, -, -, -, hentries⟩ := mseal_eq_ok hseal
  have hmem : ⟨pid, start, wrapAdd start len⟩ ∈ seals.entries := by simp [hentries]
  suffices h : (∃ own, TableOf ok k' pid root own) ∧
      SamePages root start (wrapAdd start len) k k' from h.2
  apply hrun.invariant
  · rintro k1 c _ ⟨⟨own1, htable1⟩, hsame⟩ ⟨havoid, rfl⟩
    obtain ⟨htable2, hkept⟩ := htable1.avoids hmem havoid
    exact ⟨htable2, fun va hva => (hkept va hva).trans (hsame va hva)⟩
  · exact ⟨⟨own, htable⟩, fun _ _ => rfl⟩

/-- Every process of a kernel that keeps the invariant of the safe events has a table of
    its own. -/
theorem KernelInv.tableOf {K : List (Fin 512) → Found} {kr ptRoot : Nat}
    (h : KernelInv K kr k own) (hroot : k.getPageTableRoot pid = some ptRoot) :
    ∃ t, ptRoot = t * PAGE_SIZE ∧ TableOf plainEntry k pid t own := by
  obtain ⟨t, rfl, ht⟩ := h.root_of_pid hroot
  exact ⟨t, rfl, hroot, h.tables.tree, h.tables.root_own t ht⟩

/-! ### Seals of whole pages -/

theorem vpn_of_lt (h : va < 2 ^ 39) : vpn va = va / PAGE_SIZE := by
  unfold vpn PAGE_SIZE
  omega

theorem mem_pagesFrom (hrange : base + length ≤ 2 ^ 39)
    (hva : va ∈ pagesFrom base (pageCount length)) : base ≤ va ∧ va < base + length := by
  obtain ⟨i, hi, rfl⟩ := mem_map.mp hva
  rw [mem_range, pageCount, wrapAdd_of_lt (by unfold WORD PAGE_SIZE; omega),
    Nat.shiftRight_eq_div_pow] at hi
  unfold PAGE_SIZE at hi ⊢
  rw [wrapMul_of_lt (by unfold WORD; omega), wrapAdd_of_lt (by unfold WORD; omega)]
  omega

/-- For a seal of whole pages the check sees every range that touches one of its pages,
    as long as both end below `2 ^ 39`. -/
theorem rangeAvoids_of_whole_pages (hstart : start % PAGE_SIZE = 0)
    (hstop : stop % PAGE_SIZE = 0) (hseal : stop ≤ 2 ^ 39) (hrange : base + length ≤ 2 ^ 39) :
    RangeAvoids start stop base length := by
  by_cases hbytes : length ≠ 0 ∧ start < satAdd base length ∧ base < stop
  · exact .inl hbytes
  · right
    rintro va hva va' ⟨b, hpage, hlo, hhi⟩
    obtain ⟨hbase, hend⟩ := mem_pagesFrom hrange hva
    have hsat : satAdd base length = base + length :=
      Nat.min_eq_left (by unfold WORD; omega)
    -- the page of `va` lies before or after the sealed ones
    unfold PAGE_SIZE at hpage hstart hstop
    rw [vpn_of_lt (by omega), vpn_of_lt (by omega)]
    unfold PAGE_SIZE
    omega

/-! ### Where the promise is broken -/

def grownKernel : Kernel := (sysBrk 7 0x401000 heapKernel).2

theorem not_samePages (hover : Overlaps va start stop)
    (hbefore : translate k.phys.mem (root * PAGE_SIZE) va ≠ none)
    (hafter : translate k'.phys.mem (root * PAGE_SIZE) va = none) :
    ¬ SamePages root start stop k k' :=
  fun hsame => hbefore ((hsame va hover).symm.trans hafter)

/-- A sealed heap page is lost to `brk` and to `munmap` at an address 512 GiB above it,
    which has the same page number; when the seal ends inside the page, also to `munmap`
    of the rest of the page. -/
theorem sealed_page_unmapped : (∃ seals, mseal .empty 7 0x400000 0x1000 = .ok seals ∧
      ∀ c ∈ [MemCall.brk 0x400000, .munmap (2 ^ 39 + 0x400000) 1], ∃ k',
        Run (MemStep seals 7) grownKernel [c] k' ∧
          ¬ SamePages 1 0x400000 (wrapAdd 0x400000 0x1000) grownKernel k') ∧
    ∃ seals, mseal .empty 7 0x400000 1 = .ok seals ∧ ∃ k',
      Run (MemStep seals 7) grownKernel [.munmap 0x400800 1] k' ∧
        ¬ SamePages 1 0x400000 (wrapAdd 0x400000 1) grownKernel k' := by
  have hover : ∀ stop, 0x400000 < stop → Overlaps 0x400000 0x400000 stop :=
    fun stop hstop => ⟨0x400000, rfl, le_rfl, hstop⟩
  have hmapped : translate grownKernel.phys.mem (1 * PAGE_SIZE) 0x400000 ≠ none := by
    decide +kernel
  refine ⟨⟨_, rfl, ?_⟩, _, rfl, _, .cons rfl (.nil _), ?_⟩
  · intro c hc
    refine ⟨_, .cons rfl (.nil _), not_samePages (hover _ (by decide)) hmapped ?_⟩
    rcases mem_pair.mp hc with rfl | rfl <;> decide +kernel
  · exact not_samePages (hover _ (by decide)) hmapped (by decide +kernel)

/-! ### A sealed heap page -/

theorem grownKernel_tableOf : ∃ own, TableOf anyEntry grownKernel 7 1 own := by
  obtain ⟨own, htable⟩ := heapKernel_tableOf
  obtain ⟨own', htable', -⟩ := htable.effect .empty (.brk 0x401000)
  exact ⟨own', htable'⟩

/-- The heap page stays mapped through a refused `munmap` and a growing heap. -/
theorem sealed_pages_immutable_heap : ∃ seals, mseal .empty 7 0x400000 0x1000 = .ok seals ∧
      SamePages 1 0x400000 (wrapAdd 0x400000 0x1000) grownKernel
        (sysBrk 7 0x402000 (sysMunmap 7 0x400000 0x1000
          (isSealed seals 7 0x400000 0x1000) grownKernel).2).2 := by
  have hseal : mseal .empty 7 0x400000 0x1000 = .ok ⟨[⟨7, 0x400000, 0x401000⟩], by decide⟩ := rfl
  refine ⟨_, hseal, ?_⟩
  obtain ⟨own, htable⟩ := grownKernel_tableOf
  have hrefused : Avoids 7 0x400000 (wrapAdd 0x400000 0x1000) grownKernel
      (.munmap 0x400000 0x1000) := .inl (by decide)
  have hgrow : ∀ k, (brkWork k 7 0x402000).pages = [0x401000] →
      Avoids 7 0x400000 (wrapAdd 0x400000 0x1000) k (.brk 0x402000) := by
    rintro k hwork va hva va' ⟨b, hpage, hlo, hhi⟩
    obtain rfl := mem_singleton.mp (hwork ▸ hva)
    have hstop : wrapAdd 0x400000 0x1000 = 0x401000 := by decide
    unfold vpn PAGE_SIZE at *
    omega
  apply sealed_pages_immutable htable hseal
  exact .cons ⟨hrefused, rfl⟩ (.cons ⟨hgrow _ (by decide +kernel), rfl⟩ (.nil _))

end TrainOS.Sv39
