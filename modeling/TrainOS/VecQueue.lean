import Mathlib.Algebra.BigOperators.Fin

/-!
# Queues on a growable vector

Entries are pushed onto a vector, a head index moves over those that have been taken, and now
and then the taken ones are drained.  Every operation is described by what it does to the list
of the entries from the head on (`toList`).  In a queue in the order of a key an entry goes in
front of the first one with a larger key.
-/

namespace TrainOS

open Function List

/-- The entries of `items` from `head` on, in the order in which they leave. -/
structure VecQueue (α : Type*) where
  items : List α
  head : Nat
  head_le : head ≤ items.length

namespace VecQueue

variable {α : Type*}

def new : VecQueue α where
  items := []
  head := 0
  head_le := Nat.le_refl 0

def toList (q : VecQueue α) : List α := q.items.drop q.head

def isEmpty (q : VecQueue α) : Bool := decide (q.items.length ≤ q.head)

def pushBack (q : VecQueue α) (a : α) : VecQueue α where
  items := q.items ++ [a]
  head := q.head
  head_le := q.head_le.trans (by simp)

/-- Move the head over the first entry, and drain what is in front of it "when head is
    large to avoid unbounded growth". -/
def advance (q : VecQueue α) (h : q.head < q.items.length) : VecQueue α :=
  if 64 < q.head + 1 ∧ q.items.length / 2 ≤ q.head + 1 then
    { items := q.items.drop (q.head + 1), head := 0, head_le := Nat.zero_le _ }
  else { items := q.items, head := q.head + 1, head_le := h }

def popFront (q : VecQueue α) : Option (α × VecQueue α) :=
  if h : q.head < q.items.length then some (q.items[q.head], q.advance h) else none

def insertAt (q : VecQueue α) (i : Nat) (a : α) : VecQueue α where
  items := q.items.insertIdx (q.head + i) a
  head := q.head
  head_le := q.head_le.trans length_le_length_insertIdx

variable {q : VecQueue α} {a : α}

@[simp] theorem toList_new : (new : VecQueue α).toList = [] := rfl

theorem isEmpty_iff : q.isEmpty = true ↔ q.toList = [] := by
  simp [isEmpty, toList]

@[simp] theorem toList_pushBack : (q.pushBack a).toList = q.toList ++ [a] :=
  drop_append_of_le_length q.head_le

@[simp] theorem toList_advance (h : q.head < q.items.length) :
    (q.advance h).toList = q.toList.tail := by
  unfold advance toList
  split <;> simp [drop_drop]

theorem popFront_eq_none : q.popFront = none ↔ q.toList = [] := by
  simp [popFront, toList]

/-- What is taken is the first entry, and the others stay. -/
theorem popFront_eq_some {rest : VecQueue α} (h : q.popFront = some (a, rest)) :
    q.toList = a :: rest.toList := by
  unfold popFront at h
  split at h
  · next hlt =>
    cases h
    rw [toList_advance, toList, drop_eq_getElem_cons hlt, tail_cons]
  · cases h

variable {l : List α}

theorem drop_insertIdx {n i : Nat} (h : n ≤ l.length) :
    (l.insertIdx (n + i) a).drop n = (l.drop n).insertIdx i a := by
  induction n generalizing l with
  | zero => simp
  | succ n ih =>
    cases l with
    | nil => simp at h
    | cons b l =>
      rw [Nat.succ_add, insertIdx_succ_cons, drop_succ_cons, drop_succ_cons]
      exact ih (Nat.le_of_succ_le_succ h)

theorem toList_insertAt {i : Nat} : (q.insertAt i a).toList = q.toList.insertIdx i a :=
  drop_insertIdx q.head_le

/-! ### Queues in the order of a key -/

section Keys

variable {κ : Type*} [LinearOrder κ]

/-- Insert `a` in front of the first entry whose key is larger than `k`, or at the end. -/
def insertSorted (q : VecQueue α) (key : α → κ) (a : α) (k : κ) : VecQueue α :=
  q.insertAt (q.toList.findIdx fun b => decide (k < key b)) a

variable {key : α → κ}

theorem insertIdx_findIdx (l : List α) : l.insertIdx (l.findIdx fun b => decide (key a < key b)) a =
      l.orderedInsert (fun x y => key x < key y) a := by
  induction l with
  | nil => rfl
  | cons b l ih =>
    rw [findIdx_cons, orderedInsert_cons]
    by_cases hlt : key a < key b
    · simp [hlt]
    · simp [hlt, ih]

theorem toList_insertSorted : (q.insertSorted key a (key a)).toList =
    q.toList.orderedInsert (fun x y => key x < key y) a := by
  rw [insertSorted, toList_insertAt, insertIdx_findIdx]

/-- `a` is to leave before `b`: it has the smaller key, or they have the same key and it
    arrived first. -/
def Before (key : α → κ) (arrival : α → Nat) (a b : α) : Prop :=
  key a < key b ∨ key a = key b ∧ arrival a < arrival b

variable {arrival : α → Nat} {b : α}

theorem Before.key_le (h : Before key arrival a b) : key a ≤ key b :=
  h.elim le_of_lt fun h => h.1.le

theorem Before.congr {key' : α → κ} {arrival' : α → Nat} (h : Before key arrival a b)
    (ha : key' a = key a ∧ arrival' a = arrival a)
    (hb : key' b = key b ∧ arrival' b = arrival b) : Before key' arrival' a b := by
  unfold Before
  rwa [ha.1, ha.2, hb.1, hb.2]

/-- An entry that arrives last goes behind those with the same key. -/
theorem pairwise_orderedInsert (hl : l.Pairwise (Before key arrival))
    (hlast : ∀ b ∈ l, arrival b < arrival a) :
    (l.orderedInsert (fun x y => key x < key y) a).Pairwise (Before key arrival) := by
  induction l with
  | nil => simp
  | cons b l ih =>
    obtain ⟨hb, hrest⟩ := pairwise_cons.mp hl
    rw [orderedInsert_cons]
    split
    · next hlt =>
      refine pairwise_cons.mpr ⟨?_, hl⟩
      intro c hc
      rcases mem_cons.mp hc with rfl | hc
      · exact .inl hlt
      · exact .inl (hlt.trans_le (hb c hc).key_le)
    · next hle =>
      refine pairwise_cons.mpr ⟨?_, ih hrest fun c hc => hlast c (mem_cons_of_mem b hc)⟩
      intro c hc
      rcases (mem_orderedInsert _).mp hc with rfl | hc
      · rcases lt_or_eq_of_le (not_lt.mp hle) with hlt | heq
        · exact .inl hlt
        · exact .inr ⟨heq, hlast b mem_cons_self⟩
      · exact hb c hc

end Keys

/-! ### Families of queues -/

section Families

variable {n : Nat}

def entries (f : Fin n → List α) : List α := (finRange n).flatMap f

variable {f : Fin n → List α} {i : Fin n}

@[simp] theorem mem_entries : a ∈ entries f ↔ ∃ i, a ∈ f i := by
  simp [entries]

theorem length_entries (f : Fin n → List α) : (entries f).length = ∑ i, (f i).length := by
  rw [entries, length_flatMap, Fin.sum_univ_def]

theorem entries_update_perm (h : l.Perm (a :: f i)) :
    (entries (update f i l)).Perm (a :: entries f) := by
  have hpart : ∀ is : List (Fin n), is.Nodup → i ∈ is →
      (is.flatMap (update f i l)).Perm (a :: is.flatMap f) := by
    intro is hnodup hi
    induction is with
    | nil => cases hi
    | cons j is ih =>
      obtain ⟨hj, hrest⟩ := nodup_cons.mp hnodup
      rw [flatMap_cons, flatMap_cons]
      by_cases hij : j = i
      · have hsame : is.flatMap (update f i l) = is.flatMap f := by
          apply flatMap_congr
          intro k hk
          exact update_of_ne (fun hki => hj (by rwa [hij, ← hki])) _ _
        rw [hsame, hij, update_self, ← cons_append]
        exact h.append_right _
      · have hmem : i ∈ is := (mem_cons.mp hi).resolve_left fun h => hij h.symm
        rw [update_of_ne hij]
        exact ((ih hrest hmem).append_left (f j)).trans perm_middle
  exact hpart (finRange n) (nodup_finRange n) (mem_finRange i)

/-- An entry that leaves one queue leaves all entries. -/
theorem entries_perm_update (h : (f i).Perm (a :: l)) :
    (entries f).Perm (a :: entries (update f i l)) := by
  have hback := entries_update_perm (f := update f i l) (i := i) (l := f i) (a := a)
    (by rwa [update_self])
  rwa [update_idem, update_eq_self] at hback

/-- In a family without repetition an entry is on one queue only. -/
theorem eq_of_mem_entries {j : Fin n} (h : (entries f).Nodup) (hi : a ∈ f i) (hj : a ∈ f j) :
    i = j := by
  by_contra hij
  have : Std.Symm (onFun List.Disjoint f) := ⟨fun _ _ h => (fun _ hx hy => h hy hx)⟩
  exact (nodup_flatMap.mp h).2.forall (mem_finRange i) (mem_finRange j) hij hi hj

theorem nodup_of_entries (h : (entries f).Nodup) (i : Fin n) :
    (f i).Nodup :=
  (nodup_flatMap.mp h).1 i (mem_finRange i)

end Families

end VecQueue

end TrainOS
