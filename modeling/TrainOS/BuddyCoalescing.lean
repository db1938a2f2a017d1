import Mathlib.Data.Nat.Log
import TrainOS.BuddyRuns
import TrainOS.Pte

/-!
# Joined buddies, what a full release restores, and alignment

Two buddies are never free at the same time (`coalescing_maximal`), so a full release makes the
block sizes of `init` available again, unless pages are missing: single pages stay in the
caches of the harts, and a push onto a list headed by page `0` loses the list
(`free_restores_iff`).  Blocks are aligned only as far as the base of the region is
(`block_aligned_iff`).
-/

namespace TrainOS.Buddy

open ByteMemory DyadicBlocks LinkedChain List MachineWord Option Runs

variable {B H C : List Block} {L : Nat → List Nat} {base total : Nat}
  {sys : System}

/-! ### Maximal coalescing -/

/-- **Coalescing is maximal.**  After every run no two buddies below the largest order are
    both free, the free lists are chains without repetitions, so that every search of
    `try_merge` ends, and every release of a held block returns. -/
theorem coalescing_maximal {base limit : Nat} {mem : Memory} {calls : List Call} {sys : System}
    (hle : base ≤ limit) (hword : limit < WORD)
    (hrun : Run Step (System.boot base limit mem) calls sys) :
    (∀ order < MAX_ORDER, ∀ page ∈ sys.alloc.inner.freeBlocks order,
      buddy page order ∉ sys.alloc.inner.freeBlocks order) ∧
    (∀ order ≤ MAX_ORDER,
      Chain sys.alloc.inner.next (sys.alloc.inner.freeLists order)
        (sys.alloc.inner.freeBlocks order) ∧
      (sys.alloc.inner.freeBlocks order).Nodup ∧
      ∀ page prev, scan sys.alloc.inner.next page sys.alloc.inner.totalPages prev
        (sys.alloc.inner.freeLists order) ≠ .diverged) ∧
    ∀ hart addr order, (addr, order) ∈ sys.handed →
      ∃ a, sys.alloc.freePage hart addr order = some a := by
  obtain ⟨hboot, _, htidy⟩ := boot_inv mem hle hword
  obtain ⟨H, C, hinv, horderly, _⟩ := Inv.run hrun hboot
  refine ⟨horderly.coalesced htidy.coalesced, fun order horder => ?_,
    fun hart addr order hheld => ?_⟩
  · have hchain := hinv.shape.chain order horder
    exact ⟨hchain, hinv.shape.list_nodup horder,
      fun page prev => scan_ne_diverged hchain (hinv.shape.list_length_le horder)⟩
  · obtain ⟨a, _, _, hcall, _⟩ := hinv.freePage hart hheld
    exact ⟨a, hcall⟩

/-- Three pages are allocated and two of them released: page 2 joins page 3, page 1 stays alone. -/
theorem coalescing_maximal_four_pages :
    ∃ sys, Run Step fourPages [.allocPages 0, .allocPages 0, .allocPages 0,
        .freePage 8 0x80001000 0, .freePage 8 0x80002000 0] sys ∧
      sys.alloc.inner.freeBlocks 0 = [1] ∧ sys.alloc.inner.freeBlocks 1 = [2] ∧
      (∀ order < MAX_ORDER, ∀ page ∈ sys.alloc.inner.freeBlocks order,
        buddy page order ∉ sys.alloc.inner.freeBlocks order) ∧
      ∃ a, sys.alloc.freePage 8 0x80000000 0 = some a := by
  obtain ⟨sys, hrun, hsingle, hpair, hheld⟩ := fourPages_run
    (P := fun sys => sys.alloc.inner.freeBlocks 0 = [1] ∧ sys.alloc.inner.freeBlocks 1 = [2] ∧
      (0x80000000, 0) ∈ sys.handed)
    [.allocPages 0, .allocPages 0, .allocPages 0, .freePage 8 0x80001000 0,
      .freePage 8 0x80002000 0] (by decide +kernel)
  obtain ⟨hapart, -, hreturns⟩ := coalescing_maximal (by decide) (by decide) hrun
  exact ⟨sys, hrun, hsingle, hpair, hapart, hreturns 8 _ _ hheld⟩

/-! ### The sizes that can be allocated -/

/-- A block of the given order can be allocated. -/
def Allocator.CanAllocate (a : Allocator) (order : Nat) : Prop :=
  ∃ addr a', a.allocPages order = some (some addr, a')

variable {order lo addr : Nat}

theorem Shape.canAllocate_iff {a : Allocator} (h : Shape a.inner B L) :
    a.CanAllocate order ↔ ∃ b ∈ pool L, order ≤ b.order := by
  unfold Allocator.CanAllocate Allocator.allocPages
  rcases h.allocPages order with ⟨hfail, hsmall⟩ | ⟨p, s', L', hrun, _, hlarge, _⟩
  · rw [hfail]
    constructor
    · rintro ⟨addr, a', hcall⟩
      cases hcall
    · rintro ⟨b, hb, hle⟩
      exact absurd hle (not_le.mpr (hsmall b hb))
  · rw [hrun]
    exact iff_of_true ⟨_, _, rfl⟩ hlarge

theorem Coalesced.pool (h : Coalesced L) :
    ∀ b ∈ pool L, b.order < MAX_ORDER → (⟨buddy b.start b.order, b.order⟩ : Block) ∉ pool L := by
  intro b hb hlt hbuddy
  exact h b.order hlt b.start (mem_pool.mp hb).2 (mem_pool.mp hbuddy).2

theorem Inv.canAllocate_of_covered {p : Nat} (h : Inv base total sys [] [])
    (hjoined : Coalesced sys.alloc.inner.freeBlocks) (horder : order ≤ MAX_ORDER)
    (hp : 2 ^ order ∣ p)
    (hcov : ∀ q, p ≤ q → q < p + 2 ^ order → q ∈ pages (pool sys.alloc.inner.freeBlocks)) :
    sys.alloc.CanAllocate order := by
  obtain ⟨b, hb, hle, _⟩ := h.placed.block_of_covered hjoined.pool horder hp hcov
  exact h.shape.canAllocate_iff.mpr ⟨b, hb, hle⟩

/-! ### Nothing is held -/

theorem Inv.eq_nil (h : Inv base total sys H C) (hfreed : sys.handed = [])
    (hcached : sys.alloc.cached = []) : H = [] ∧ C = [] := by
  have hH := h.handed
  have hC := h.cached
  rw [hfreed] at hH
  rw [hcached] at hC
  exact ⟨map_eq_nil_iff.mp hH.symm.eq_nil, map_eq_nil_iff.mp hC.symm.eq_nil⟩

theorem Inv.allocated_eq_zero (h : Inv base total sys H C) (hfreed : sys.handed = []) :
    sys.alloc.allocatedPages = 0 ↔ sys.alloc.cached = [] := by
  have hcounted : sys.alloc.allocatedPages = (pages (H ++ C)).length := h.counted
  constructor
  · intro hzero
    have hC : C = [] := by
      by_contra hne
      obtain ⟨b, hb⟩ := exists_mem_of_ne_nil C hne
      have hpage : b.start ∈ pages (H ++ C) :=
        mem_pages.mpr ⟨b, mem_append_right H hb, b.start_mem_pages⟩
      have hlen := length_pos_of_mem hpage
      omega
    have hcached := h.cached
    rw [hC] at hcached
    exact hcached.eq_nil
  · intro hcached
    obtain ⟨rfl, rfl⟩ := h.eq_nil hfreed hcached
    exact hcounted

theorem exists_largest (hpos : 0 < total) (hsmall : total < 8192) :
    ∃ k ≤ MAX_ORDER, 2 ^ k ≤ total ∧ total < 2 * 2 ^ k := by
  refine ⟨Nat.log 2 total, ?_, Nat.pow_log_le_self 2 hpos.ne', ?_⟩
  · exact Nat.lt_succ_iff.mp (Nat.log_lt_of_lt_pow hpos.ne' hsmall)
  · rw [← pow_succ']
    exact Nat.lt_pow_succ_log_self (by decide) total

section

variable (h : Inv base total sys [] []) (htidy : Tidy sys.alloc.inner.freeBlocks lo)
include h htidy

theorem Inv.covers_from {q : Nat} (hreached : sys.reached + lo = total)
    (hlo : lo ≤ q) (hq : q < total) : q ∈ pages (pool sys.alloc.inner.freeBlocks) := by
  have hsub : pages (pool sys.alloc.inner.freeBlocks) <+~ range' lo (total - lo) := by
    refine h.placed.nodup.subperm fun p hp => mem_range'_1.mpr ⟨htidy.above p hp, ?_⟩
    have hp' := h.placed.inside p hp
    omega
  have hlen : (pages (pool sys.alloc.inner.freeBlocks)).length = sys.reached :=
    h.reached_eq.symm
  have hperm := hsub.perm_of_length_le (by
    rw [length_range', hlen]
    omega)
  rw [hperm.mem_iff, mem_range'_1]
  omega

theorem Inv.fits_of_canAllocate (hcan : sys.alloc.CanAllocate order) :
    order ≤ MAX_ORDER ∧ lo + 2 ^ order ≤ total := by
  obtain ⟨b, hb, hle⟩ := h.shape.canAllocate_iff.mp hcan
  have hstop := h.placed.stop_le hb
  have hstart := htidy.above b.start (mem_pages.mpr ⟨b, hb, b.start_mem_pages⟩)
  have hpow : 2 ^ order ≤ 2 ^ b.order := Nat.pow_le_pow_right (by decide) hle
  exact ⟨hle.trans (mem_pool.mp hb).1, by omega⟩

end

/-! ### Losses -/

variable {c : Call}

theorem Inv.lossless (h : Inv base total sys H C)
    (hzero : 0 ∉ pages (H ++ C ++ pool sys.alloc.inner.freeBlocks)) (hallowed : Allowed sys c) :
    Lossless sys c := by
  cases c with
  | freePage hart addr order =>
    refine .inr fun hhead => hzero ?_
    set target := sys.alloc.inner.freeTarget (addrToPage sys.alloc.inner.base addr) order
    have horder := h.order_le hallowed
    have htarget : target ≤ MAX_ORDER := by
      have hbound : target ≤ MAX_ORDER - order + order := restOrder_bounds.2
      omega
    rw [h.shape.freeLists_eq htarget] at hhead
    have hfirst := Shape.mem_pool_of_mem htarget (mem_of_head? hhead)
    exact mem_pages.mpr ⟨_, mem_append_right _ hfirst, Block.start_mem_pages _⟩
  | _ => trivial

variable {sys' : System}

theorem Step.allowed (h : Step sys c sys') : Allowed sys c := by
  cases h with
  | freePage hheld _ => exact hheld
  | store hheld hlo hhi => exact ⟨_, hheld, hlo, hhi⟩
  | _ => trivial

variable {calls : List Call}

theorem Inv.run_lossless (hrun : Run Step sys calls sys') :
    ∀ {H C : List Block}, Inv base total sys H C →
      0 ∉ pages (H ++ C ++ pool sys.alloc.inner.freeBlocks) →
      Run (Guarded Step Lossless) sys calls sys' := by
  induction hrun with
  | nil sys =>
    intro H C _ _
    exact .nil sys
  | cons hfirst _ ih =>
    intro H C h hzero
    obtain ⟨H', C', heffect⟩ := h.step hfirst
    exact .cons ⟨h.lossless hzero hfirst.allowed, hfirst⟩
      (ih heffect.inv fun hcovered => hzero (heffect.orderly.covered hcovered))

/-- **What a full release restores.**  After every run that ends with all blocks released,
    no page counts as allocated and every size that could be allocated after `init` can be
    allocated again, exactly if no page is left in a cache and no call of the run pushed
    onto a free list headed by page `0`. -/
theorem free_restores_iff {base limit : Nat} {mem : Memory} {calls : List Call} {sys : System}
    (hle : base ≤ limit) (hword : limit < WORD)
    (hrun : Run Step (System.boot base limit mem) calls sys) (hfreed : sys.handed = []) :
    (sys.alloc.allocatedPages = 0 ∧
      ∀ order, (System.boot base limit mem).alloc.CanAllocate order →
        sys.alloc.CanAllocate order) ↔
    sys.alloc.cached = [] ∧
      Run (Guarded Step Lossless) (System.boot base limit mem) calls sys := by
  obtain ⟨hboot, hinit, htidy⟩ := boot_inv mem hle hword
  obtain ⟨H, C, hinv, horderly, hless, hiff, hlossy⟩ := Inv.run hrun hboot
  rw [hinv.allocated_eq_zero hfreed, ← hiff]
  refine and_congr_right fun hcached => ?_
  obtain ⟨rfl, rfl⟩ := hinv.eq_nil hfreed hcached
  set total := (limit - base) / PAGE_SIZE
  have hjoined := horderly.coalesced htidy.coalesced
  constructor
  · intro hsizes
    by_contra hne
    have hzero : 0 ∉ pages (pool sys.alloc.inner.freeBlocks) := hlossy hne
    have hstart : 0 ∈ pages (pool (System.boot base limit mem).alloc.inner.freeBlocks) := by
      by_contra hstart
      exact hne (hiff.mpr (Inv.run_lossless hrun hboot hstart))
    -- page `0` was free after `init`, so the region is small and has one largest block
    have hpos : 0 < total := hboot.placed.inside 0 hstart
    have hnone : initLoss total = 0 := Nat.le_zero.mp (htidy.above 0 hstart)
    have hsmall : total < 8192 := by
      by_contra hlarge
      simp [initLoss, hlarge] at hnone
    obtain ⟨k, hk, hfit, htwice⟩ := exists_largest hpos hsmall
    have hcan : sys.alloc.CanAllocate k := by
      apply hsizes
      apply hboot.canAllocate_of_covered htidy.coalesced hk (dvd_zero _)
      intro q _ hq
      exact hboot.covers_from htidy hinit (by omega) (by omega)
    obtain ⟨b, hb, hkb⟩ := hinv.shape.canAllocate_iff.mp hcan
    have hstop : b.start + 2 ^ b.order ≤ total := hinv.placed.stop_le hb
    have hpow : 2 ^ k ≤ 2 ^ b.order := Nat.pow_le_pow_right (by decide) hkb
    have hfirst : b.start = 0 := by
      by_contra hne'
      have hdvd : 2 ^ b.order ∣ b.start := hinv.placed.aligned b hb
      have hge := Nat.le_of_dvd (Nat.pos_of_ne_zero hne') hdvd
      omega
    exact hzero (mem_pages.mpr ⟨b, hb, hfirst ▸ b.start_mem_pages⟩)
  · intro hreached order hcan
    obtain ⟨horder, hfit⟩ := hboot.fits_of_canAllocate htidy hcan
    have htidy' : Tidy sys.alloc.inner.freeBlocks (initLoss total) :=
      ⟨hjoined, fun p hp => htidy.above p (horderly.covered hp)⟩
    have hdvd : 2 ^ order ∣ initLoss total := by
      unfold initLoss
      split
      · exact dvd_zero _
      · exact pow_dvd_pow 2 horder
    apply hinv.canAllocate_of_covered hjoined horder hdvd
    intro q hlo hq
    exact hinv.covers_from htidy' (by omega) hlo (by omega)

/-! ### Block alignment -/

/-- **Blocks are aligned as the region is.**  After every run, the address returned by
    `alloc_pages` is a multiple of the block size exactly if the base given to `init` is one,
    and likewise a superpage that `try_map_2m` makes of a block of order 9. -/
theorem block_aligned_iff {base limit : Nat} {mem : Memory} {calls : List Call} {sys : System}
    {order addr : Nat} {a : Allocator} (hbase : PAGE_SIZE ∣ base) (hle : base ≤ limit)
    (hword : limit < WORD) (hrun : Run Step (System.boot base limit mem) calls sys)
    (halloc : sys.alloc.allocPages order = some (some addr, a)) :
    (PAGE_SIZE * 2 ^ order ∣ addr ↔ PAGE_SIZE * 2 ^ order ∣ base) ∧
      (order = 9 → ∀ r w x u,
        (Sv39.PTE.page addr r w x u).ppn % 512 = 0 ↔ PAGE_SIZE * 2 ^ 9 ∣ base) := by
  obtain ⟨hboot, _⟩ := boot_inv mem hle hword
  obtain ⟨H, C, hinv, _⟩ := Inv.run hrun hboot
  obtain ⟨i, rfl, hi⟩ : ∃ i, addr = base + PAGE_SIZE * i ∧ 2 ^ order ∣ i := by
    obtain ⟨_, _, hcall, ⟨H', C', hinv', _⟩, _⟩ := hinv.allocPages rfl rfl order
    cases hcall.symm.trans halloc
    obtain ⟨b, hb, hextent⟩ := mem_map.mp (hinv'.handed.subset mem_cons_self)
    cases hextent
    refine ⟨b.start, by rw [Nat.mul_comm], ?_⟩
    exact hinv'.placed.aligned b (mem_append_left _ (mem_append_left _ hb))
  have haligned : PAGE_SIZE * 2 ^ order ∣ base + PAGE_SIZE * i ↔ PAGE_SIZE * 2 ^ order ∣ base :=
    (Nat.dvd_add_iff_left (Nat.mul_dvd_mul_left PAGE_SIZE hi)).symm
  refine ⟨haligned, ?_⟩
  rintro rfl r w x u
  rw [Sv39.PTE.ppn_page_mod, Nat.shiftRight_eq_div_pow, ← haligned]
  unfold PAGE_SIZE at *
  omega

/-! ### Runs on one block -/

/-- A block of order 1 is allocated and released. -/
theorem free_restores_iff_block :
    ∃ sys, Run Step fourPages [.allocPages 1, .freePage 0 0x80000000 1] sys ∧
      sys.handed = [] ∧ sys.alloc.allocatedPages = 0 ∧
      ∀ order, fourPages.alloc.CanAllocate order → sys.alloc.CanAllocate order := by
  obtain ⟨sys, hrun, hfreed, hcached, hreached⟩ := fourPages_run
    (P := fun sys => sys.handed = [] ∧ sys.alloc.cached = [] ∧ sys.reached = 4)
    [.allocPages 1, .freePage 0 0x80000000 1] (by decide +kernel)
  exact ⟨sys, hrun, hfreed, (free_restores_iff (by decide) (by decide) hrun hfreed).mpr
    ⟨hcached, fourPages_lossless hrun hreached⟩⟩

/-- A page that stays in a cache, and four pages released in an order that loses page `0`. -/
theorem release_not_restoring :
    (∃ sys, Run Step fourPages [.allocPage 0, .freePage 0 0x80000000 0] sys ∧
      sys.handed = [] ∧ sys.alloc.allocatedPages = 1) ∧
    (∃ sys, Run Step fourPages [.allocPages 0, .allocPages 0, .allocPages 0, .allocPages 0,
          .freePage 8 0x80000000 0, .freePage 8 0x80002000 0, .freePage 8 0x80001000 0,
          .freePage 8 0x80003000 0] sys ∧
      sys.handed = [] ∧ sys.alloc.allocatedPages = 0 ∧
      fourPages.alloc.CanAllocate 2 ∧ ¬ sys.alloc.CanAllocate 2) := by
  refine ⟨fourPages_run _ (by decide +kernel), ?_⟩
  refine (fourPages_run (P := fun sys => sys.handed = [] ∧ sys.alloc.allocatedPages = 0 ∧
    (sys.alloc.allocPages 2).map Prod.fst = some none) _ ?_).imp
    fun sys h => ⟨h.1, h.2.1, h.2.2.1, ?_, ?_⟩
  · decide +kernel
  · rw [fourPages_eq]
    exact ⟨_, _, rfl⟩
  · rintro ⟨addr, a, hcall⟩
    obtain ⟨-, -, -, hnone⟩ := h
    rw [hcall] at hnone
    cases hnone

theorem block_aligned_iff_half :
    ∃ a, fourPages.alloc.allocPages 1 = some (some 0x80000000, a) ∧
      PAGE_SIZE * 2 ^ 1 ∣ 0x80000000 := by
  have hcall : (fourPages.alloc.allocPages 1).map Prod.fst = some (some 0x80000000) := by
    rw [fourPages_eq]
    decide +kernel
  obtain ⟨⟨_, a⟩, halloc, rfl⟩ := map_eq_some_iff.mp hcall
  exact ⟨a, halloc, (block_aligned_iff (by decide) (by decide) (by decide) (.nil _)
    halloc).1.mpr (by decide)⟩

/-- A region that starts one page behind a multiple of 2 MiB. -/
theorem superpage_misaligned :
    ∃ a, (System.boot 0x80001000 0x80201000 fun _ => 0).alloc.allocPages 9 =
        some (some 0x80001000, a) ∧
      ¬ PAGE_SIZE * 2 ^ 9 ∣ 0x80001000 ∧
      (Sv39.PTE.page 0x80001000 true true false true).ppn % 512 = 1 := by
  have hpages : wrapSub 0x80201000 0x80001000 / PAGE_SIZE = 512 := by decide
  have hboot : System.boot 0x80001000 0x80201000 (fun _ => 0) =
      oneBlock 0x80001000 0x80201000 9 := by
    simp [System.boot, Allocator.boot, BuddyInner.init, hpages, oneBlock, MAX_ORDER,
      BuddyInner.initLoop]
  have hcall : ((oneBlock 0x80001000 0x80201000 9).alloc.allocPages 9).map Prod.fst =
      some (some 0x80001000) := by decide +kernel
  obtain ⟨⟨_, a⟩, halloc, rfl⟩ := map_eq_some_iff.mp hcall
  rw [← hboot] at halloc
  exact ⟨a, halloc, by decide, by decide +kernel⟩

end TrainOS.Buddy
