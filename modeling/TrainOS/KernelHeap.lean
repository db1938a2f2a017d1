import Mathlib.Order.CompletePartialOrder
import Mathlib.Data.Set.Lattice
import TrainOS.ByteMemory
import TrainOS.MachineWord
import TrainOS.Runs

/-!
# The kernel heap (`mem/heap.rs`)

An allocation is a guard word, the payload and a second guard word; `next` moves behind it and
never goes back.  The payload stands eight bytes behind the aligned position, and near the top
of the address space the sums wrap.  `alloc_contract_iff` says when the results are aligned,
inside the range and disjoint.
-/

namespace TrainOS.Heap

open ByteMemory List MachineWord Option Runs

def HEAP_CANARY : Nat := 0xDEADBEEFCAFEBABE

/-! ### The allocator -/

/-- `core::alloc::Layout`. -/
structure Layout where
  size : Nat
  align : Nat
  size_lt : size < WORD
  isPowerOfTwo : ∃ k < 64, align = 2 ^ k

instance : DecidableEq Layout := fun a b =>
  decidable_of_iff (a.size = b.size ∧ a.align = b.align) (by cases a; cases b; simp)

/-- `BumpAllocator` together with the memory the guard words are written to. -/
structure BumpAllocator where
  next : Nat
  limit : Nat
  allocations : Nat
  mem : Memory

/-- `(bump.next + layout.align() - 1) & !(layout.align() - 1)`. -/
def BumpAllocator.aligned (bump : BumpAllocator) (layout : Layout) : Nat :=
  wrapSub (wrapAdd bump.next layout.align) 1 &&& (WORD - 1 - (layout.align - 1))

/-- The result `none` of the call is the null pointer; the call itself has no outcome where
    `checked_add` overflows and the kernel panics. -/
def BumpAllocator.alloc (bump : BumpAllocator) (layout : Layout) :
    Option (Option Nat × BumpAllocator) :=
  let aligned := bump.aligned layout
  let payload := wrapAdd aligned 8
  if payload + layout.size < WORD then
    let payloadEnd := payload + layout.size
    let totalEnd := wrapAdd payloadEnd 8
    if bump.limit < totalEnd then some (none, bump)
    else
      let mem := writeLE bump.mem aligned 8 HEAP_CANARY
      let mem := writeLE mem payloadEnd 8 HEAP_CANARY
      some (some payload,
        { bump with mem, next := totalEnd, allocations := wrapAdd bump.allocations 1 })
  else none

/-- A damaged guard word sends the kernel into its idle loop: no outcome. -/
def BumpAllocator.dealloc (bump : BumpAllocator) (ptr : Nat) (layout : Layout) :
    Option BumpAllocator :=
  let before := wrapSub ptr 8
  let after := wrapAdd ptr layout.size
  if readLE bump.mem before 8 ≠ HEAP_CANARY ∨ readLE bump.mem after 8 ≠ HEAP_CANARY then none
  else some { bump with allocations := wrapSub bump.allocations 1 }

def initRange (mem : Memory) (start limit : Nat) : BumpAllocator :=
  { next := start, limit, allocations := 0, mem }

/-! ### Runs -/

/-- An allocation that was made: the addresses of its two guard words and of its payload. -/
structure Grant where
  layout : Layout
  guard : Nat
  payload : Nat
  trailer : Nat
  deriving DecidableEq

def Grant.pieces (g : Grant) : List (Nat × Nat) :=
  [(g.guard, g.guard + 8), (g.payload, g.payload + g.layout.size), (g.trailer, g.trailer + 8)]

/-- The allocator and all allocations ever made, the newest first. -/
structure System where
  bump : BumpAllocator
  grants : List Grant

def System.results (sys : System) : List Grant := sys.grants.filter fun g => g.payload ≠ 0

def System.boot (mem : Memory) (start limit : Nat) : System := ⟨initRange mem start limit, []⟩

def System.granted (sys : System) (layout : Layout) (bump : BumpAllocator) (payload : Nat) :
    System :=
  ⟨bump, ⟨layout, sys.bump.aligned layout, payload, payload + layout.size⟩ :: sys.grants⟩

inductive Call where
  | alloc (layout : Layout)
  | dealloc (g : Grant)
  | store (addr : Nat) (x : UInt8)

/-- The calls: an allocation, the release of an allocation, a store into a payload. -/
inductive Step (sys : System) : Call → System → Prop
  | refused {layout : Layout} {bump : BumpAllocator} :
      sys.bump.alloc layout = some (none, bump) → Step sys (.alloc layout) ⟨bump, sys.grants⟩
  | granted {layout : Layout} {payload : Nat} {bump : BumpAllocator} :
      sys.bump.alloc layout = some (some payload, bump) →
      Step sys (.alloc layout) (sys.granted layout bump payload)
  | dealloc {g : Grant} {bump : BumpAllocator} :
      g ∈ sys.results → sys.bump.dealloc g.payload g.layout = some bump →
      Step sys (.dealloc g) ⟨bump, sys.grants⟩
  | store {g : Grant} {addr : Nat} {x : UInt8} :
      g ∈ sys.results → g.payload ≤ addr → addr < g.payload + g.layout.size →
      Step sys (.store addr x)
        ⟨{ sys.bump with mem := Function.update sys.bump.mem addr x }, sys.grants⟩

/-- Two ranges without a common address. -/
def Apart (p q : Nat × Nat) : Prop := Disjoint (Set.Ico p.1 p.2) (Set.Ico q.1 q.2)

/-- The allocation contract for the range `[start, limit)`. -/
structure Contract (start limit : Nat) (results : List Grant) : Prop where
  aligned : ∀ g ∈ results, g.layout.align ∣ g.payload
  inside : ∀ g ∈ results, ∀ p ∈ g.pieces, start ≤ p.1 ∧ p.2 ≤ limit
  apart : (results.flatMap Grant.pieces).Pairwise Apart

def roundUp (n a : Nat) : Nat := (n + a - 1) / a * a

/-- The sums of the call stay below the end of the address space. -/
def NoWrap (sys : System) : Call → Prop
  | .alloc layout => roundUp sys.bump.next layout.align + 16 + layout.size < WORD
  | _ => True

/-- A call that returns an address other than null has an alignment up to eight, its sums do
    not wrap, and no earlier call has wrapped around to the address null. -/
def Sound (sys : System) : Call → Prop
  | .alloc layout => ∀ payload bump, sys.bump.alloc layout = some (some payload, bump) →
      payload ≠ 0 → layout.align ≤ 8 ∧ NoWrap sys (.alloc layout) ∧
        ∀ g ∈ sys.grants, g.payload ≠ 0
  | _ => True

/-! ### What one allocation does -/

theorem align_pos (layout : Layout) : 0 < layout.align := by
  obtain ⟨k, _, hk⟩ := layout.isPowerOfTwo
  exact hk ▸ Nat.two_pow_pos k

theorem align_dvd_word (layout : Layout) : layout.align ∣ WORD := by
  obtain ⟨k, hlt, hk⟩ := layout.isPowerOfTwo
  rw [hk]
  exact Nat.pow_dvd_pow 2 hlt.le

theorem align_dvd_eight (layout : Layout) : layout.align ∣ 8 ↔ layout.align ≤ 8 := by
  obtain ⟨k, _, hk⟩ := layout.isPowerOfTwo
  rw [hk, show (8 : Nat) = 2 ^ 3 from rfl, Nat.pow_dvd_pow_iff_le_right (by decide),
    Nat.pow_le_pow_iff_right (by decide)]

variable {n a : Nat}

theorem le_roundUp (ha : 0 < a) : n ≤ roundUp n a := by
  have hdiv := Nat.div_add_mod' (n + a - 1) a
  have hmod := Nat.mod_lt (n + a - 1) ha
  unfold roundUp
  omega

theorem roundUp_lt (ha : 0 < a) : roundUp n a < n + a := by
  have hdiv := Nat.div_mul_le_self (n + a - 1) a
  unfold roundUp
  omega

theorem dvd_roundUp : a ∣ roundUp n a := Nat.dvd_mul_left a _

theorem roundUp_le {m : Nat} (hm : a ∣ m) (h : n ≤ m) : roundUp n a ≤ m := by
  obtain ⟨q, rfl⟩ := hm
  rcases Nat.eq_zero_or_pos a with rfl | ha
  · simp [roundUp]
  · have hlt : n + a - 1 < a * (q + 1) := by
      rw [Nat.mul_add_one]
      omega
    rw [roundUp, Nat.mul_comm]
    exact Nat.mul_le_mul_left a (Nat.le_of_lt_succ (Nat.div_lt_of_lt_mul hlt))

variable {bump bump' : BumpAllocator} {layout : Layout} {payload : Nat}

theorem aligned_eq (bump : BumpAllocator) (layout : Layout) :
    bump.aligned layout = roundUp bump.next layout.align % WORD := by
  obtain ⟨k, hk, hpow⟩ := layout.isPowerOfTwo
  unfold BumpAllocator.aligned roundUp
  rw [hpow]
  exact and_mask_wrapAdd hk

/-- What a call that makes an allocation has computed. -/
structure Granted (bump : BumpAllocator) (layout : Layout) (payload : Nat)
    (bump' : BumpAllocator) : Prop where
  payload_eq : payload = wrapAdd (bump.aligned layout) 8
  fits : payload + layout.size < WORD
  le_limit : wrapAdd (payload + layout.size) 8 ≤ bump.limit
  after : bump' =
    { bump with
      mem := writeLE (writeLE bump.mem (bump.aligned layout) 8 HEAP_CANARY)
        (payload + layout.size) 8 HEAP_CANARY
      next := wrapAdd (payload + layout.size) 8
      allocations := wrapAdd bump.allocations 1 }

theorem alloc_granted (h : bump.alloc layout = some (some payload, bump')) :
    Granted bump layout payload bump' := by
  obtain ⟨hfits, hrun⟩ := ite_none_right_eq_some.mp h
  split at hrun <;> cases hrun
  exact ⟨rfl, hfits, Nat.le_of_not_lt ‹_›, rfl⟩

theorem Granted.next_lt (h : Granted bump layout payload bump') : bump'.next < WORD := by
  rw [h.after]
  exact Nat.mod_lt _ (by decide)

theorem Granted.limit_eq (h : Granted bump layout payload bump') : bump'.limit = bump.limit := by
  rw [h.after]

theorem aligned_cases (layout : Layout) (hnext : bump.next < WORD) :
    bump.aligned layout = roundUp bump.next layout.align ∨
      (roundUp bump.next layout.align = WORD ∧ bump.aligned layout = 0) := by
  have hle : roundUp bump.next layout.align ≤ WORD := roundUp_le (align_dvd_word layout) hnext.le
  rw [aligned_eq]
  rcases hle.lt_or_eq with hlt | heq
  · exact .inl (Nat.mod_eq_of_lt hlt)
  · exact .inr ⟨heq, by rw [heq, Nat.mod_self]⟩

theorem Granted.null (h : Granted bump layout 0 bump') (hnext : bump.next < WORD) :
    WORD < bump.next + 16 := by
  have hlt : bump.aligned layout < WORD := by
    rw [aligned_eq]
    exact Nat.mod_lt _ (by decide)
  have hword : 8 < WORD := by decide
  have hend : bump.aligned layout + 8 = WORD := Nat.eq_of_dvd_of_lt_two_mul (by omega)
    (Nat.dvd_of_mod_eq_zero h.payload_eq.symm) (by omega)
  have hround : roundUp bump.next layout.align = WORD - 8 := by
    rcases aligned_cases layout hnext with heq | ⟨_, hzero⟩ <;> omega
  have height : layout.align ≤ 8 := by
    rw [← align_dvd_eight, Nat.dvd_add_iff_right (hround ▸ dvd_roundUp),
      Nat.sub_add_cancel hword.le]
    exact align_dvd_word layout
  have hclose := roundUp_lt (n := bump.next) (align_pos layout)
  omega

theorem Granted.regular (h : Granted bump layout payload bump')
    (hsum : roundUp bump.next layout.align + 16 + layout.size < WORD) :
    bump.aligned layout = roundUp bump.next layout.align ∧
      payload = roundUp bump.next layout.align + 8 ∧
      bump'.next = payload + layout.size + 8 := by
  have haligned : bump.aligned layout = roundUp bump.next layout.align := by
    rw [aligned_eq]
    exact Nat.mod_eq_of_lt (by omega)
  have hpayload : payload = roundUp bump.next layout.align + 8 := by
    rw [h.payload_eq, haligned]
    exact wrapAdd_of_lt (by omega)
  refine ⟨haligned, hpayload, ?_⟩
  rw [h.after]
  exact wrapAdd_of_lt (by omega)

/-! ### Ranges laid out one after another -/

variable {start limit top : Nat} {gs : List Grant} {g : Grant} {p : Nat × Nat}

theorem mem_pieces : p ∈ g.pieces ↔
    p = (g.guard, g.guard + 8) ∨ p = (g.payload, g.payload + g.layout.size) ∨
      p = (g.trailer, g.trailer + 8) := by
  simp [Grant.pieces]

theorem apart_of_le {q : Nat × Nat} (h : p.2 ≤ q.1) : Apart q p :=
  Set.disjoint_left.mpr fun _ hq hp => absurd (hp.2.trans_le h) (Nat.not_lt.mpr hq.1)

/-- The payload follows the guard word, and the second guard word the payload. -/
def Grant.Regular (g : Grant) : Prop :=
  g.payload = g.guard + 8 ∧ g.trailer = g.payload + g.layout.size

/-- Allocations in the range `[start, limit)`, all of them below `top`. -/
structure Laid (start limit top : Nat) (gs : List Grant) : Prop where
  inside : ∀ g ∈ gs, ∀ p ∈ g.pieces, start ≤ p.1 ∧ p.2 ≤ limit
  below : ∀ g ∈ gs, ∀ p ∈ g.pieces, p.2 ≤ top
  apart : (gs.flatMap Grant.pieces).Pairwise Apart

theorem Grant.Regular.between (h : g.Regular) (hp : p ∈ g.pieces) :
    g.guard ≤ p.1 ∧ p.2 ≤ g.trailer + 8 := by
  obtain ⟨hpayload, htrailer⟩ := h
  rcases mem_pieces.mp hp with rfl | rfl | rfl <;> constructor <;> dsimp only <;> omega

theorem Grant.Regular.pieces_apart (h : g.Regular) : g.pieces.Pairwise fun p q => p.2 ≤ q.1 := by
  obtain ⟨hpayload, htrailer⟩ := h
  simp only [Grant.pieces, pairwise_cons, mem_cons, not_mem_nil, or_false,
    forall_eq_or_imp, forall_eq, List.Pairwise.nil, IsEmpty.forall_iff, implies_true, and_true]
  omega

theorem Laid.cons (h : Laid start limit top gs) (hg : g.Regular) (hstart : start ≤ g.guard)
    (htop : top ≤ g.guard) (hlimit : g.trailer + 8 ≤ limit) :
    Laid start limit (g.trailer + 8) (g :: gs) where
  inside := forall_mem_cons.mpr ⟨fun p hp =>
    ⟨hstart.trans (hg.between hp).1, (hg.between hp).2.trans hlimit⟩, h.inside⟩
  below := by
    refine forall_mem_cons.mpr ⟨fun p hp => (hg.between hp).2, fun g' hg' p hp => ?_⟩
    have hlen : g.guard ≤ g.trailer := by
      obtain ⟨hpayload, htrailer⟩ := hg
      omega
    exact (h.below g' hg' p hp).trans (by omega)
  apart := by
    rw [flatMap_cons, pairwise_append]
    refine ⟨hg.pieces_apart.imp fun hle => (apart_of_le hle).symm, h.apart, ?_⟩
    intro p hp q hq
    obtain ⟨g', hg', hq⟩ := mem_flatMap.mp hq
    exact apart_of_le (((h.below g' hg' q hq).trans htop).trans (hg.between hp).1)

/-! ### The invariant -/

/-- What holds while the contract does: the allocations lie below `top` without a gap of eight
    bytes, and `next` is `top`, unless a call has wrapped around to the address null. -/
structure Inv (start limit top : Nat) (sys : System) : Prop where
  limit_eq : sys.bump.limit = limit
  next_lt : sys.bump.next < WORD
  start_le : start ≤ top
  laid : Laid start limit top sys.results
  aligned : ∀ g ∈ sys.results, g.layout.align ∣ g.payload
  dense : ∀ x, start ≤ x → x < top → ∃ g ∈ sys.results, ∃ p ∈ g.pieces,
    ∃ y ∈ Set.Ico p.1 p.2, y ∈ Set.Ico x (x + 8)
  phase : (∀ g ∈ sys.grants, g.payload ≠ 0) ∧ sys.bump.next = top ∨
    (∃ g ∈ sys.grants, g.payload = 0) ∧ WORD < top + 16

variable {sys sys' : System}

theorem results_granted (hpayload : payload ≠ 0) : (sys.granted layout bump' payload).results =
      ⟨layout, sys.bump.aligned layout, payload, payload + layout.size⟩ :: sys.results := by
  simp [System.results, System.granted, hpayload]

section

variable (h : Inv start limit top sys)
include h

theorem Inv.granted_null (hcall : Granted sys.bump layout 0 bump') :
    Inv start limit top (sys.granted layout bump' 0) where
  __ := h
  limit_eq := hcall.limit_eq.trans h.limit_eq
  next_lt := hcall.next_lt
  phase := by
    refine .inr ⟨⟨_, mem_cons_self, rfl⟩, ?_⟩
    rcases h.phase with ⟨_, hnext⟩ | ⟨_, htop⟩
    · exact hnext ▸ hcall.null h.next_lt
    · exact htop

/-- A sound allocation keeps the layout of the heap. -/
theorem Inv.granted (hcall : Granted sys.bump layout payload bump') (height : layout.align ≤ 8)
    (hsum : roundUp sys.bump.next layout.align + 16 + layout.size < WORD)
    (hnull : ∀ g ∈ sys.grants, g.payload ≠ 0) :
    Inv start limit (payload + layout.size + 8) (sys.granted layout bump' payload) := by
  obtain ⟨haligned, hpayload, hnext⟩ := hcall.regular hsum
  have hne : payload ≠ 0 := by omega
  have htop : sys.bump.next = top := by
    rcases h.phase with ⟨_, hnext⟩ | ⟨⟨g, hg, hzero⟩, _⟩
    · exact hnext
    · exact absurd hzero (hnull g hg)
  have hpos := align_pos layout
  have hle := le_roundUp (n := sys.bump.next) hpos
  have hclose := roundUp_lt (n := sys.bump.next) hpos
  have hstart := h.start_le
  have hlimit : payload + layout.size + 8 ≤ limit := by
    rw [← hnext, ← h.limit_eq, hcall.after]
    exact hcall.le_limit
  constructor
  case limit_eq => exact hcall.limit_eq.trans h.limit_eq
  case next_lt => exact hcall.next_lt
  case start_le => omega
  case phase => exact .inl ⟨forall_mem_cons.mpr ⟨hne, hnull⟩, hnext⟩
  all_goals rw [results_granted hne]
  case laid =>
    have hregular : Grant.Regular ⟨layout, sys.bump.aligned layout, payload,
        payload + layout.size⟩ := ⟨hpayload.trans (haligned ▸ rfl), rfl⟩
    exact h.laid.cons hregular (by dsimp only; omega) (by dsimp only; omega) hlimit
  case aligned =>
    refine forall_mem_cons.mpr ⟨?_, h.aligned⟩
    rw [hpayload]
    exact Nat.dvd_add dvd_roundUp ((align_dvd_eight layout).mpr height)
  case dense =>
    intro x hx hlast
    rcases Nat.lt_or_ge x top with hold | hnew
    · obtain ⟨g, hg, hcovered⟩ := h.dense x hx hold
      exact ⟨g, mem_cons_of_mem _ hg, hcovered⟩
    · -- the first address from `x` on that the new allocation covers, in one of its pieces
      refine ⟨_, mem_cons_self, ?_⟩
      simp only [mem_pieces, exists_eq_or_imp, exists_eq_left, Set.mem_Ico]
      rcases Nat.lt_or_ge (max x (sys.bump.aligned layout)) payload with hguard | hrest
      · exact .inl ⟨max x (sys.bump.aligned layout), by omega, by omega⟩
      · rcases Nat.lt_or_ge x (payload + layout.size) with hdata | htrailer
        · exact .inr (.inl ⟨x, by omega, by omega⟩)
        · exact .inr (.inr ⟨x, by omega, by omega⟩)

/-- Conversely, the contract makes the call sound. -/
theorem Inv.sound_of_contract (hlimit : limit < WORD)
    (hcall : Granted sys.bump layout payload bump') (hne : payload ≠ 0)
    (hcontract : Contract start limit (sys.granted layout bump' payload).results) :
    layout.align ≤ 8 ∧ roundUp sys.bump.next layout.align + 16 + layout.size < WORD ∧
      ∀ g ∈ sys.grants, g.payload ≠ 0 := by
  rw [results_granted hne] at hcontract
  obtain ⟨haligned, hinside, hapart⟩ := hcontract
  have hnew := hinside _ mem_cons_self
  obtain ⟨hstart, hguard⟩ := hnew _ (mem_pieces.mpr (.inl rfl))
  obtain ⟨_, htrailer⟩ := hnew _ (mem_pieces.mpr (.inr (.inr rfl)))
  -- the new guard word would overlap one of the older pieces
  have htop : top ≤ sys.bump.aligned layout := by
    by_contra hbelow
    obtain ⟨g, hg, p, hp, y, hy, hclose⟩ := h.dense _ hstart (Nat.lt_of_not_le hbelow)
    rw [flatMap_cons, pairwise_append] at hapart
    have hdisjoint := hapart.2.2 _ (mem_pieces.mpr (.inl rfl)) p
      (mem_flatMap.mpr ⟨g, hg, hp⟩)
    exact Set.disjoint_left.mp hdisjoint hclose hy
  have hround : sys.bump.aligned layout = roundUp sys.bump.next layout.align := by
    rcases aligned_cases layout h.next_lt with heq | ⟨hend, hzero⟩
    · exact heq
    · have hword : 16 < WORD := by decide
      rcases h.phase with ⟨_, hnext⟩ | ⟨_, hlast⟩
      · have hfirst : roundUp sys.bump.next layout.align ≤ 0 :=
          roundUp_le (Nat.dvd_zero _) (by omega)
        omega
      · omega
  have hpayload : payload = sys.bump.aligned layout + 8 :=
    hcall.payload_eq.trans (wrapAdd_of_lt (hguard.trans_lt hlimit))
  dsimp only at htrailer
  refine ⟨?_, by omega, ?_⟩
  · have hdvd : layout.align ∣ roundUp sys.bump.next layout.align + 8 := by
      rw [← hround, ← hpayload]
      exact haligned _ mem_cons_self
    exact (align_dvd_eight layout).mp ((Nat.dvd_add_right dvd_roundUp).mp hdvd)
  · rcases h.phase with ⟨hnull, _⟩ | ⟨_, hlast⟩
    · exact hnull
    · omega

theorem Inv.congr (hnext : bump'.next = sys.bump.next) (hlimit : bump'.limit = sys.bump.limit) :
    Inv start limit top ⟨bump', sys.grants⟩ where
  __ := h
  limit_eq := hlimit.trans h.limit_eq
  next_lt := hnext ▸ h.next_lt
  phase := by
    rw [hnext]
    exact h.phase

end

theorem dealloc_eq {ptr : Nat} (h : bump.dealloc ptr layout = some bump') :
    bump' = { bump with allocations := wrapSub bump.allocations 1 } := by
  simp only [BumpAllocator.dealloc] at h
  split at h
  · cases h
  · exact (some.inj h).symm

variable {c : Call}

theorem Inv.step_sound (h : Inv start limit top sys) (hsound : Sound sys c)
    (hstep : Step sys c sys') : ∃ top', Inv start limit top' sys' := by
  cases hstep with
  | refused hcall =>
    obtain ⟨-, hrun⟩ := ite_none_right_eq_some.mp hcall
    split at hrun <;> cases hrun
    exact ⟨top, h⟩
  | granted hcall =>
    rename_i layout payload bump'
    by_cases hnull : payload = 0
    · subst hnull
      exact ⟨top, h.granted_null (alloc_granted hcall)⟩
    · obtain ⟨height, hsum, hgrants⟩ := hsound _ _ hcall hnull
      exact ⟨_, h.granted (alloc_granted hcall) height hsum hgrants⟩
  | dealloc _ hcall =>
    rw [dealloc_eq hcall]
    exact ⟨top, h.congr rfl rfl⟩
  | store _ _ _ => exact ⟨top, h.congr rfl rfl⟩

theorem Inv.step_contract (h : Inv start limit top sys) (hlimit : limit < WORD)
    (hstep : Step sys c sys') (hcontract : Contract start limit sys'.results) : Sound sys c := by
  cases hstep with
  | refused hcall =>
    intro payload bump' hother
    rw [hcall] at hother
    cases hother
  | granted hcall =>
    intro payload' bump'' hother hne
    rw [hcall] at hother
    cases hother
    exact h.sound_of_contract hlimit (alloc_granted hcall) hne hcontract
  | dealloc _ _ => trivial
  | store _ _ _ => trivial

theorem Contract.of_step (hstep : Step sys c sys')
    (h : Contract start limit sys'.results) : Contract start limit sys.results := by
  cases hstep with
  | granted hcall =>
    rename_i layout payload bump'
    by_cases hnull : payload = 0
    · subst hnull
      simpa [System.results, System.granted] using h
    · rw [results_granted hnull] at h
      exact ⟨fun g hg => h.aligned g (mem_cons_of_mem _ hg),
        fun g hg => h.inside g (mem_cons_of_mem _ hg),
        (pairwise_append.mp (flatMap_cons ▸ h.apart)).2.1⟩
  | refused _ => exact h
  | dealloc _ _ => exact h
  | store _ _ _ => exact h

theorem boot_inv (mem : Memory) (hstart : start < WORD) :
    Inv start limit start (System.boot mem start limit) where
  limit_eq := rfl
  next_lt := hstart
  start_le := le_rfl
  laid := ⟨by simp [System.boot, System.results], by simp [System.boot, System.results],
    by simp [System.boot, System.results]⟩
  aligned := by simp [System.boot, System.results]
  dense := fun x hx hlt => absurd hlt (Nat.not_lt.mpr hx)
  phase := .inl ⟨by simp [System.boot], rfl⟩

/-- **The allocation contract.**  After every run the results are aligned, inside the range and
    disjoint, exactly if every call of the run that returned an address had an alignment up to
    eight, did not wrap, and came after no call that wrapped around to the address null. -/
theorem alloc_contract_iff {mem : Memory} {calls : List Call} (hstart : start < WORD)
    (hlimit : limit < WORD) (hrun : Run Step (System.boot mem start limit) calls sys) :
    Contract start limit sys.results ↔
      Run (Guarded Step Sound) (System.boot mem start limit) calls sys := by
  have hboot : ∃ top, Inv start limit top (System.boot mem start limit) :=
    ⟨start, boot_inv mem hstart⟩
  constructor
  · intro hcontract
    refine .guarded (fun sys => ∃ top, Inv start limit top sys)
      (fun sys => Contract start limit sys.results) ?_ ?_ hrun hboot hcontract
    · rintro s c t ⟨top, hinv⟩ hstep hgood
      have hsound := hinv.step_contract hlimit hstep hgood
      exact ⟨hsound, hinv.step_sound hsound hstep⟩
    · exact fun s c t hstep => .of_step hstep
  · intro hguarded
    have hpreserved : ∀ s c t, (∃ top, Inv start limit top s) → Guarded Step Sound s c t →
        ∃ top, Inv start limit top t := by
      rintro s c t ⟨top, hinv⟩ ⟨hsound, hstep⟩
      exact hinv.step_sound hsound hstep
    obtain ⟨top, hinv⟩ := hguarded.invariant hpreserved hboot
    exact ⟨hinv.aligned, hinv.laid.inside, hinv.laid.apart⟩

def System.exec (sys : System) : Call → Option System
  | .alloc layout => (sys.bump.alloc layout).map fun
      | (none, bump) => ⟨bump, sys.grants⟩
      | (some payload, bump) => sys.granted layout bump payload
  | .dealloc g =>
      if g ∈ sys.results then
        (sys.bump.dealloc g.payload g.layout).map fun bump => ⟨bump, sys.grants⟩
      else none
  | .store addr x =>
      if ∃ g ∈ sys.results, g.payload ≤ addr ∧ addr < g.payload + g.layout.size then
        some ⟨{ sys.bump with mem := Function.update sys.bump.mem addr x }, sys.grants⟩
      else none

theorem step_of_exec {calls : List Call} (c : Call) (_ : c ∈ calls) (sys sys' : System)
    (h : sys.exec c = some sys') : Step sys c sys' := by
  cases c with
  | alloc layout =>
    obtain ⟨⟨_ | payload, bump⟩, hcall, rfl⟩ := map_eq_some_iff.mp h
    · exact .refused hcall
    · exact .granted hcall
  | dealloc g =>
    obtain ⟨hheld, hrun⟩ := ite_none_right_eq_some.mp h
    obtain ⟨bump, hcall, rfl⟩ := map_eq_some_iff.mp hrun
    exact .dealloc hheld hcall
  | store addr x =>
    obtain ⟨⟨g, hg, hlo, hhi⟩, hrun⟩ := ite_none_right_eq_some.mp h
    cases hrun
    exact .store hg hlo hhi

def Layout.ofLog (size : UInt64) (k : Fin 64) : Layout :=
  ⟨size.toNat, 2 ^ k.val, size.toNat_lt, k, k.isLt, rfl⟩

def System.execSound (sys : System) (c : Call) : Option System :=
  match c with
  | .alloc layout =>
      if layout.align ≤ 8 ∧ roundUp sys.bump.next layout.align + 16 + layout.size < WORD ∧
          ∀ g ∈ sys.grants, g.payload ≠ 0 then sys.exec c
      else none
  | _ => sys.exec c

theorem guarded_of_execSound {calls : List Call} (c : Call) (hc : c ∈ calls) (sys sys' : System)
    (h : sys.execSound c = some sys') : Guarded Step Sound sys c sys' := by
  cases c with
  | alloc layout =>
    obtain ⟨hsound, hexec⟩ := ite_none_right_eq_some.mp h
    exact ⟨fun _ _ _ _ => hsound, step_of_exec _ hc _ _ hexec⟩
  | dealloc g => exact ⟨trivial, step_of_exec _ hc _ _ h⟩
  | store addr x => exact ⟨trivial, step_of_exec _ hc _ _ h⟩

/-- Three allocations up to an alignment of eight, a store into the first and its release. -/
theorem alloc_contract_three :
    ∃ sys, Run Step (System.boot (fun _ => 0) 0x80100000 0x80200000)
        [.alloc (.ofLog 24 3), .alloc (.ofLog 5 0), .store 0x80100008 0xFF, .alloc (.ofLog 16 3),
          .dealloc ⟨.ofLog 24 3, 0x80100000, 0x80100008, 0x80100020⟩] sys ∧
      sys.results.map Grant.payload = [0x80100048, 0x80100030, 0x80100008] ∧
      Contract 0x80100000 0x80200000 sys.results := by
  obtain ⟨sys, hguarded, hpayloads⟩ :=
    exists_run_of_foldlM (P := fun sys : System =>
        sys.results.map Grant.payload = [0x80100048, 0x80100030, 0x80100008])
      (System.boot (fun _ => 0) 0x80100000 0x80200000)
      [.alloc (.ofLog 24 3), .alloc (.ofLog 5 0), .store 0x80100008 0xFF,
        .alloc (.ofLog 16 3), .dealloc ⟨.ofLog 24 3, 0x80100000, 0x80100008, 0x80100020⟩]
      guarded_of_execSound (by decide +kernel)
  have hrun := hguarded.unguarded
  exact ⟨sys, hrun, hpayloads, (alloc_contract_iff (by decide) (by decide) hrun).mpr hguarded⟩

/-- An alignment of sixteen is missed, and near the end of the address space a second guard word
    lies outside the range. -/
theorem alloc_contract_broken : (∃ sys, Run Step (System.boot (fun _ => 0) 0x80100000 0x80200000)
        [.alloc (.ofLog 32 4)] sys ∧
      sys.results.map (fun g => (g.layout.align, g.payload)) = [(16, 0x80100008)] ∧
      ¬ 16 ∣ 0x80100008) ∧
    (∃ sys, Run Step (System.boot (fun _ => 0) (WORD - 64) (WORD - 1))
        [.alloc (.ofLog 36 0), .alloc (.ofLog 0 2)] sys ∧
      sys.results.map (fun g => (g.payload, g.trailer + 8)) =
        [(WORD - 4, WORD + 4), (WORD - 56, WORD - 12)] ∧
      WORD - 1 < WORD + 4) := by
  constructor <;> exact exists_run_of_foldlM _ _ step_of_exec (by decide +kernel)

end TrainOS.Heap
