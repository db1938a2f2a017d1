import TrainOS.Bitmap
import TrainOS.Runs

/-!
# Pages of the key-value cache (`ai/kvcache.rs`)

The page table keeps two records of which pages are in use: a bit map of the free pages and a
flag in the entry of each page.  They agree after any calls (`kv_pages_owned`): every operation
changes both for the same page, by `claim` or `release`, or neither.
-/

namespace TrainOS.KvCache

open Bitmap MachineWord Runs

def MAX_KV_PAGES : Nat := 1024

structure KvPageEntry where
  tokenStart : Nat
  tokenCount : Nat
  gpuPhysAddr : Nat
  dirty : Bool
  refCount : Nat
  allocated : Bool
  lastAccessTick : Nat
deriving DecidableEq, Repr

def EMPTY_PAGE_ENTRY : KvPageEntry := ⟨0, 0, 0, false, 0, false, 0⟩

/-- The array `entries` is the part of the function below `MAX_KV_PAGES`; `freeMap` is the field
    `free_pages`. -/
structure KvPageTable where
  entries : Nat → KvPageEntry
  freeMap : Fin 16 → BitVec 64
  totalPages : Nat

def bitmapAlloc (freeMap : Fin 16 → BitVec 64) : Option (Nat × (Fin 16 → BitVec 64)) :=
  takeFirst freeMap

def bitmapFree (freeMap : Fin 16 → BitVec 64) (page : Nat) : Fin 16 → BitVec 64 :=
  insert freeMap page

namespace KvPageTable

def new (totalPages : Nat) : KvPageTable :=
  let total := if totalPages > MAX_KV_PAGES then MAX_KV_PAGES else totalPages
  { entries := fun _ => EMPTY_PAGE_ENTRY
    freeMap := (List.range total).foldl insert fun _ => 0
    totalPages := total }

def setEntry (t : KvPageTable) (page : Nat) (e : KvPageEntry) : KvPageTable :=
  { t with entries := Function.update t.entries page e }

/-- The loop of `alloc_pages`; `ticks i` is the tick count in its `i`th pass from the end.
    Pages that were taken before the bit map runs out stay taken.  Reserving the vector for the
    result is left out: it changes no page, and a failure there ends the run. -/
def allocLoop (ticks : Nat → Nat) : Nat → KvPageTable → Option (List Nat) × KvPageTable
  | 0, t => (some [], t)
  | n + 1, t =>
      match bitmapAlloc t.freeMap with
      | none => (none, t)
      | some (page, free) =>
          let t1 := { t with freeMap := free }.setEntry page ⟨0, 0, 0, true, 1, true, ticks n⟩
          let (pages, t2) := allocLoop ticks n t1
          (pages.map (page :: ·), t2)

def allocPages (t : KvPageTable) (tokenCount : Nat) (ticks : Nat → Nat) :
    Option (List Nat) × KvPageTable :=
  allocLoop ticks (max 1 (wrapAdd tokenCount 63 / 64)) t

def freeOne (t : KvPageTable) (page : Nat) : KvPageTable :=
  if page ≥ MAX_KV_PAGES ∨ !(t.entries page).allocated then t
  else if (t.entries page).refCount - 1 = 0 then
    { t with freeMap := bitmapFree t.freeMap page }.setEntry page ⟨0, 0, 0, false, 0, false, 0⟩
  else t.setEntry page { t.entries page with refCount := (t.entries page).refCount - 1 }

def freePages (t : KvPageTable) (pages : List Nat) : KvPageTable := pages.foldl freeOne t

/-- The pages before an unallocated one are shared when the call fails. -/
def sharePages (t : KvPageTable) : List Nat → Except String Unit × KvPageTable
  | [] => (.ok (), t)
  | page :: pages =>
      if page ≥ MAX_KV_PAGES ∨ !(t.entries page).allocated then
        (.error "invalid or unallocated page", t)
      else
        let count := min ((t.entries page).refCount + 1) 255
        (t.setEntry page
          { t.entries page with refCount := if count > 10 then 10 else count }).sharePages pages

/-- The loop keeps the oldest evictable page so far and its tick. -/
def findLruEvictable (t : KvPageTable) : Option Nat :=
  ((List.range t.totalPages).foldl (fun (oldest : Option Nat × Nat) i =>
    let e := t.entries i
    if e.allocated ∧ e.refCount = 1 ∧ e.lastAccessTick < oldest.2 then (some i, e.lastAccessTick)
    else oldest) (none, 2 ^ 64 - 1)).1

def evictOne (t : KvPageTable) (page : Nat) : KvPageTable :=
  { t with freeMap := bitmapFree t.freeMap page }.setEntry page
    { t.entries page with dirty := false, allocated := false, refCount := 0, gpuPhysAddr := 0 }

def evictLru (t : KvPageTable) : Nat → Nat × KvPageTable
  | 0 => (0, t)
  | n + 1 =>
      match t.findLruEvictable with
      | none => (0, t)
      | some page =>
          let (evicted, t') := (t.evictOne page).evictLru n
          (evicted + 1, t')

end KvPageTable

/-! ### Runs -/

inductive KvCall where
  | allocPages (tokenCount : Nat) (ticks : Nat → Nat)
  | freePages (pages : List Nat)
  | sharePages (pages : List Nat)
  | evictLru (targetCount : Nat)

def KvCall.exec (t : KvPageTable) : KvCall → KvPageTable
  | .allocPages tokenCount ticks => (t.allocPages tokenCount ticks).2
  | .freePages pages => t.freePages pages
  | .sharePages pages => (t.sharePages pages).2
  | .evictLru targetCount => (t.evictLru targetCount).2

def KvStep (t : KvPageTable) (c : KvCall) (t' : KvPageTable) : Prop := t' = c.exec t

/-! ### The two records agree -/

/-- A page below the capacity `n` is free in the bit map exactly if its entry is not allocated;
    pages beyond are neither. -/
structure Inv (n : Nat) (t : KvPageTable) : Prop where
  total : t.totalPages = n
  total_le : n ≤ MAX_KV_PAGES
  free_iff : ∀ i, has t.freeMap i = true ↔ i < n ∧ (t.entries i).allocated = false
  bound : ∀ i, (t.entries i).allocated = true → i < n

variable {n page : Nat} {t t' : KvPageTable} {e : KvPageEntry} {free : Fin 16 → BitVec 64}

theorem inv_new (totalPages : Nat) : Inv (min totalPages MAX_KV_PAGES) (.new totalPages) := by
  have htotal : (KvPageTable.new totalPages).totalPages = min totalPages MAX_KV_PAGES := by
    simp only [KvPageTable.new]
    split <;> omega
  refine ⟨htotal, Nat.min_le_right _ _, fun i => ?_, fun i h => by cases h⟩
  have hfree : has (KvPageTable.new totalPages).freeMap i =
      decide (i < (KvPageTable.new totalPages).totalPages) :=
    has_foldl_insert (htotal.trans_le (Nat.min_le_right _ _))
  rw [hfree, decide_eq_true_eq, htotal]
  exact (and_iff_left rfl).symm

/-- The page changes its entry and, in the same way, its bit. -/
theorem Inv.change (h : Inv n t) (hlt : page < n)
    (hfree : ∀ i, has free i = if i = page then !e.allocated else has t.freeMap i) :
    Inv n ({ t with freeMap := free }.setEntry page e) := by
  refine ⟨h.total, h.total_le, fun i => ?_, fun i hi => ?_⟩
  · show has free i = true ↔ _
    rw [hfree]
    by_cases hi : i = page
    · simp [KvPageTable.setEntry, hi, hlt]
    · simp [KvPageTable.setEntry, hi, h.free_iff]
  · by_cases hpage : i = page
    · rw [hpage]
      exact hlt
    · simp only [KvPageTable.setEntry, Function.update_of_ne hpage] at hi
      exact h.bound i hi

theorem Inv.claim (h : Inv n t)
    (hfree : bitmapAlloc t.freeMap = some (page, free)) (he : e.allocated = true) :
    Inv n ({ t with freeMap := free }.setEntry page e) := by
  obtain ⟨hpage, hothers⟩ := has_of_takeFirst hfree
  refine h.change ((h.free_iff page).mp hpage).1 fun i => ?_
  rw [hothers]
  by_cases hi : i = page <;> simp [hi, he]

section

variable (h : Inv n t) (hpage : (t.entries page).allocated = true)
include h hpage

theorem Inv.setEntry (he : e.allocated = true) : Inv n (t.setEntry page e) := by
  refine h.change (h.bound page hpage) fun i => ?_
  by_cases hi : i = page
  · simp [hi, he, ← Bool.not_eq_true, h.free_iff, hpage]
  · rw [if_neg hi]

theorem Inv.release (he : e.allocated = false) :
    Inv n ({ t with freeMap := bitmapFree t.freeMap page }.setEntry page e) := by
  have hlt := h.bound page hpage
  refine h.change hlt fun i => ?_
  rw [bitmapFree, has_insert (hlt.trans_le h.total_le)]
  by_cases hi : i = page
  · simp [hi, he]
  · simp [hi, Ne.symm hi]

end

/-! ### The operations -/

/-- What an allocation returns: pages that were free, each once. -/
structure Allotted (t : KvPageTable) (pages : List Nat) : Prop where
  nodup : pages.Nodup
  free : ∀ p ∈ pages, has t.freeMap p = true

/-- The pages of an allocation were free. -/
theorem allocLoop_spec (ticks : Nat → Nat) (needed : Nat) (h : Inv n t) :
    Inv n (KvPageTable.allocLoop ticks needed t).2 ∧
      ∀ pages ∈ (KvPageTable.allocLoop ticks needed t).1, Allotted t pages := by
  induction needed generalizing t with
  | zero =>
    refine ⟨h, fun pages hpages => ?_⟩
    cases hpages
    exact ⟨List.nodup_nil, fun p hp => absurd hp List.not_mem_nil⟩
  | succ needed ih =>
    unfold KvPageTable.allocLoop
    split
    · exact ⟨h, fun pages hpages => by cases hpages⟩
    · next page free halloc =>
      obtain ⟨hpage, hothers⟩ := has_of_takeFirst halloc
      obtain ⟨hinv, hrest⟩ := ih (h.claim halloc (e := ⟨0, 0, 0, true, 1, true, ticks needed⟩) rfl)
      refine ⟨hinv, fun pages hpages => ?_⟩
      obtain ⟨tail, htail, rfl⟩ := Option.map_eq_some_iff.mp hpages
      obtain ⟨hnodup, hfree⟩ := hrest tail htail
      -- the tail is free after the first page was taken
      have hleft : ∀ p ∈ tail, has t.freeMap p = true ∧ p ≠ page := by
        intro p hp
        have hbit : has free p = true := hfree p hp
        rw [hothers, Bool.and_eq_true, decide_eq_true_eq] at hbit
        exact hbit
      refine ⟨List.nodup_cons.mpr ⟨fun hmem => (hleft page hmem).2 rfl, hnodup⟩, ?_⟩
      exact List.forall_mem_cons.mpr ⟨hpage, fun p hp => (hleft p hp).1⟩

theorem Inv.freeOne (h : Inv n t) (page : Nat) : Inv n (t.freeOne page) := by
  unfold KvPageTable.freeOne
  split
  · exact h
  · next hvalid =>
    have hallocated : (t.entries page).allocated = true := by
      simpa using (not_or.mp hvalid).2
    split
    · exact h.release hallocated rfl
    · exact h.setEntry hallocated hallocated

theorem Inv.freePages (h : Inv n t) (pages : List Nat) : Inv n (t.freePages pages) := by
  exact List.foldlRecOn (motive := Inv n) pages _ h fun _ h page _ => h.freeOne page

theorem Inv.sharePages (h : Inv n t) (pages : List Nat) : Inv n (t.sharePages pages).2 := by
  induction pages generalizing t with
  | nil => exact h
  | cons page pages ih =>
    unfold KvPageTable.sharePages
    split
    · exact h
    · next hvalid =>
      have hallocated : (t.entries page).allocated = true := by
        simpa using (not_or.mp hvalid).2
      exact ih (h.setEntry hallocated hallocated)

theorem allocated_of_findLruEvictable (hpage : t.findLruEvictable = some page) :
    (t.entries page).allocated = true := by
  -- the page that the loop keeps, if any, is allocated
  revert page
  refine List.foldlRecOn (motive := fun oldest : Option Nat × Nat => ∀ {p}, oldest.1 = some p →
    (t.entries p).allocated = true) _ _ (fun hp => by cases hp) fun oldest h i _ => ?_
  dsimp only
  split
  · next hnew =>
    intro p hp
    cases hp
    exact hnew.1
  · exact h

theorem Inv.evictLru (h : Inv n t) (targetCount : Nat) : Inv n (t.evictLru targetCount).2 := by
  induction targetCount generalizing t with
  | zero => exact h
  | succ targetCount ih =>
    unfold KvPageTable.evictLru
    split
    · exact h
    · next page hpage => exact ih (h.release (allocated_of_findLruEvictable hpage) rfl)

theorem Inv.step {c : KvCall} (h : Inv n t) (hstep : KvStep t c t') : Inv n t' := by
  rw [hstep]
  cases c with
  | allocPages tokenCount ticks => exact (allocLoop_spec ticks _ h).1
  | freePages pages => exact h.freePages pages
  | sharePages pages => exact h.sharePages pages
  | evictLru targetCount => exact h.evictLru targetCount

/-- After any calls the two records agree on every page below the capacity, and an allocation
    that succeeds returns distinct pages below the capacity that were free. -/
theorem kv_pages_owned (capacity : Nat) {calls : List KvCall} {t : KvPageTable}
    (hrun : Run KvStep (.new capacity) calls t) : t.totalPages = min capacity MAX_KV_PAGES ∧
      (∀ page < t.totalPages,
        (has t.freeMap page = true ↔ (t.entries page).allocated = false)) ∧
      ∀ (tokenCount : Nat) (ticks : Nat → Nat) (pages : List Nat),
        (t.allocPages tokenCount ticks).1 = some pages →
          pages.Nodup ∧ ∀ page ∈ pages,
            page < t.totalPages ∧ has t.freeMap page = true ∧
              (t.entries page).allocated = false := by
  have hinv : Inv (min capacity MAX_KV_PAGES) t :=
    hrun.invariant (fun _ _ _ h hstep => h.step hstep) (inv_new capacity)
  refine ⟨hinv.total, fun page hpage => ?_, fun tokenCount ticks pages hpages => ?_⟩
  · rw [hinv.free_iff, and_iff_right (hinv.total ▸ hpage)]
  · obtain ⟨hnodup, hfree⟩ := (allocLoop_spec ticks _ hinv).2 pages hpages
    refine ⟨hnodup, fun page hpage => ?_⟩
    obtain ⟨hlt, hunallocated⟩ := (hinv.free_iff page).mp (hfree page hpage)
    exact ⟨hinv.total ▸ hlt, hfree page hpage, hunallocated⟩

/-- Two pages are allocated and the second is shared; after both were freed once, the second is
    still allocated and is evicted.  The next allocation takes both again. -/
theorem kv_pages_owned_evicted : let calls : List KvCall :=
      [.allocPages 100 fun _ => 7, .sharePages [1], .freePages [0, 1], .evictLru 3]
    let t := calls.foldl KvCall.exec (.new 4)
    t.totalPages = min 4 MAX_KV_PAGES ∧ (t.allocPages 70 fun _ => 9).1 = some [0, 1] ∧
      ∀ page ∈ [0, 1], has t.freeMap page = true := by
  intro calls t
  have hrun : Run KvStep (.new 4) calls t :=
    run_foldl KvCall.exec calls (fun c _ t => show KvStep t c (c.exec t) from rfl) _
  have hpages : (t.allocPages 70 fun _ => 9).1 = some [0, 1] := by decide +kernel
  obtain ⟨htotal, -, halloc⟩ := kv_pages_owned 4 hrun
  exact ⟨htotal, hpages, fun page hpage => ((halloc 70 _ _ hpages).2 page hpage).2.1⟩

end TrainOS.KvCache
