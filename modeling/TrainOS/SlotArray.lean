import Mathlib.Data.List.Range

/-!
# Arrays of slots with an empty mark

A short array holds a set of identifiers in any order; a mark `e` stands in the empty slots.
`Tracks e l ids` says that the slots of `l` hold exactly the identifiers `ids`.  An identifier is
added in the first empty slot and removed from the first slot that holds it, both by
`List.replace`.
-/

namespace TrainOS.SlotArray

open List

variable {α : Type*} [DecidableEq α] {e a x : α} {l ids : List α}

def occupied (e : α) (l : List α) : List α := l.filter (· ≠ e)

def Tracks (e : α) (l ids : List α) : Prop := (occupied e l).Perm ids

theorem mem_occupied : x ∈ occupied e l ↔ x ∈ l ∧ x ≠ e := by
  simp [occupied]

theorem occupied_cons_of_ne (hx : x ≠ e) : occupied e (x :: l) = x :: occupied e l :=
  filter_cons_of_pos (decide_eq_true hx)

theorem occupied_add (he : e ∈ l) (ha : a ≠ e) :
    (occupied e (l.replace e a)).Perm (a :: occupied e l) := by
  induction l with
  | nil => cases he
  | cons x l ih =>
    rw [replace_cons]
    by_cases hx : e = x
    · subst hx
      simp [occupied, ha]
    · have hmem : e ∈ l := (mem_cons.mp he).resolve_left hx
      simp only [beq_eq_false_iff_ne.mpr hx, occupied_cons_of_ne (Ne.symm hx)]
      exact ((ih hmem).cons x).trans (.swap a x _)

theorem occupied_remove (hmem : a ∈ l) (ha : a ≠ e) :
    (occupied e l).Perm (a :: occupied e (l.replace a e)) := by
  induction l with
  | nil => cases hmem
  | cons x l ih =>
    rw [replace_cons]
    by_cases hx : a = x
    · subst hx
      simp [occupied, ha]
    · simp only [beq_eq_false_iff_ne.mpr hx]
      have htail := ih ((mem_cons.mp hmem).resolve_left hx)
      by_cases hempty : x = e
      · simpa [occupied, hempty] using htail
      · simp only [occupied_cons_of_ne hempty]
        exact (htail.cons x).trans (.swap a x _)

theorem Tracks.exists_empty (h : Tracks e l ids) (hlen : ids.length < l.length) : e ∈ l := by
  by_contra hno
  have hall : occupied e l = l :=
    filter_eq_self.mpr fun x hx => decide_eq_true fun (heq : x = e) => hno (heq ▸ hx)
  have := h.length_eq
  rw [hall] at this
  omega

theorem Tracks.add (h : Tracks e l ids) (he : e ∈ l) (ha : a ≠ e) :
    Tracks e (l.replace e a) (a :: ids) :=
  (occupied_add he ha).trans (h.cons a)

theorem Tracks.remove (h : Tracks e l (a :: ids)) : Tracks e (l.replace a e) ids := by
  obtain ⟨hmem, ha⟩ := mem_occupied.mp (h.mem_iff.mpr mem_cons_self)
  exact ((occupied_remove hmem ha).symm.trans h).cons_inv

theorem Tracks.replace_absent (h : Tracks e l ids) (hno : a ∉ ids) (ha : a ≠ e) :
    l.replace a e = l :=
  replace_of_not_mem fun hmem => hno (h.mem_iff.mp (mem_occupied.mpr ⟨hmem, ha⟩))

/-- A number that leaves a decidable set of numbers below `n`. -/
theorem perm_filter_range {p q : Nat → Bool} {i n : Nat} (hi : i < n) (hp : p i = true)
    (hq : q i = false) (hothers : ∀ j, j ≠ i → p j = q j) :
    ((range n).filter p).Perm (i :: (range n).filter q) := by
  have hnodup : (i :: (range n).filter q).Nodup := by
    refine nodup_cons.mpr ⟨fun hmem => ?_, nodup_range.filter q⟩
    rw [(mem_filter.mp hmem).2] at hq
    cases hq
  refine (perm_ext_iff_of_nodup (nodup_range.filter p) hnodup).mpr fun j => ?_
  by_cases hj : j = i
  · simp [hj, hi, hp]
  · simp [hj, hothers j hj]

end TrainOS.SlotArray
