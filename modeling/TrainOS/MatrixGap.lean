import Mathlib.Data.List.Range

/-!
# Closing a gap in a square table

When an object leaves a compact array, a table indexed by pairs of slots loses a row and a
column.  `closeGap` moves rows and columns down line by line; on the diagonal the two moves
meet, and off the diagonal the result is the table without the line (`closeGap_apply`).
-/

namespace TrainOS.MatrixGap

variable {α : Type*}

/-- A table indexed by pairs of slots. -/
abbrev Grid (α : Type*) := Nat → Nat → α

def setCell (m : Grid α) (r c : Nat) (a : α) : Grid α :=
  fun r' c' => if r' = r ∧ c' = c then a else m r' c'

theorem setCell_apply (m : Grid α) (r c : Nat) (a : α) (r' c' : Nat) :
    setCell m r c a r' c' = if r' = r ∧ c' = c then a else m r' c' := rfl

/-- Move cell `j` of row `i + 1` and of column `i + 1` to line `i`. -/
def moveCell (i : Nat) (m : Grid α) (j : Nat) : Grid α :=
  let m1 := setCell m i j (m (i + 1) j)
  setCell m1 j i (m1 j (i + 1))

def moveLine (n i : Nat) (m : Grid α) : Grid α := (List.range n).foldl (moveCell i) m

def closeGap (n idx last : Nat) (m : Grid α) : Grid α :=
  (List.range' idx (last - idx)).foldl (fun m i => moveLine n i m) m

/-! ### One line -/

/-- The table after the first `k` cells of a line were moved. -/
def lineMoved (i k : Nat) (m : Grid α) : Grid α := fun r c =>
  if r = i then
    if c < k then if c = i then m i (i + 1) else m (i + 1) c else m r c
  else if c = i then
    if r < k then m r (i + 1) else m r c
  else m r c

theorem moveCell_lineMoved (i k : Nat) (m : Grid α) :
    moveCell i (lineMoved i k m) k = lineMoved i (k + 1) m := by
  funext r c
  simp only [moveCell, setCell_apply, lineMoved]
  grind

theorem foldl_moveCell (n i : Nat) (m : Grid α) : moveLine n i m = lineMoved i n m := by
  induction n with
  | zero =>
    funext r c
    simp [moveLine, lineMoved]
  | succ n ih =>
    rw [moveLine, List.range_succ, List.foldl_append, ← moveLine, ih]
    exact moveCell_lineMoved i n m

/-! ### All lines -/

def shift (idx k x : Nat) : Nat := if idx ≤ x ∧ x < k then x + 1 else x

variable {idx k x last y n : Nat}

theorem shift_succ_self (hidx : idx ≤ k) : shift idx (k + 1) k = k + 1 :=
  if_pos ⟨hidx, Nat.lt_succ_self k⟩

theorem shift_above (hx : k ≤ x) : shift idx k x = x :=
  if_neg fun h => Nat.not_lt.mpr hx h.2

theorem shift_gap (hx : x < last) : shift idx last x ≤ last ∧ shift idx last x ≠ idx := by
  unfold shift
  split <;> omega

theorem shift_injective (hx : x < last) (hy : y < last)
    (heq : shift idx last x = shift idx last y) : x = y := by
  unfold shift at heq
  split at heq <;> split at heq <;> omega

theorem exists_shift (hidx : idx ≤ last) (hy : y ≤ last) (hne : y ≠ idx) :
    ∃ x < last, shift idx last x = y := by
  unfold shift
  by_cases hlt : y < idx
  · exact ⟨y, by omega, if_neg (by omega)⟩
  · exact ⟨y - 1, by omega, by rw [if_pos (by omega)]; omega⟩

theorem shift_succ_of_ne (hne : x ≠ k) : shift idx (k + 1) x = shift idx k x := by
  unfold shift
  congr 1
  simp only [eq_iff_iff]
  omega

theorem moveLine_shift {m0 m : Grid α} (hk : k + 1 < n) (hidx : idx ≤ k)
    (hm : ∀ r c, r < n → c < n → r ≠ c ∨ k ≤ r → m r c = m0 (shift idx k r) (shift idx k c))
    {r c : Nat} (hr : r < n) (hc : c < n) (hne : r ≠ c ∨ k + 1 ≤ r) :
    moveLine n k m r c = m0 (shift idx (k + 1) r) (shift idx (k + 1) c) := by
  rw [foldl_moveCell, lineMoved]
  split_ifs with hrk hck hck
  · omega
  · subst hrk
    rw [hm _ c hk hc (.inr (Nat.le_succ r)), shift_above (Nat.le_succ r), shift_succ_self hidx,
      shift_succ_of_ne hck]
  · subst hck
    rw [hm r _ hr hk (by omega), shift_above (Nat.le_succ c), shift_succ_self hidx,
      shift_succ_of_ne hrk]
  · rw [hm r c hr hc (by omega), shift_succ_of_ne hrk, shift_succ_of_ne hck]

/-- **The table without the line.**  Off the diagonal, the slots from `idx` on hold what the
    next slots held. -/
theorem closeGap_apply (m : Grid α) (hlast : last < n) (hidx : idx ≤ last) {r c : Nat} (hr : r < n)
    (hc : c < n) (hne : r ≠ c) :
    closeGap n idx last m r c = m (shift idx last r) (shift idx last c) := by
  have hloop : ∀ d, idx + d ≤ last → ∀ r c, r < n → c < n → r ≠ c ∨ idx + d ≤ r →
      (List.range' idx d).foldl (fun m i => moveLine n i m) m r c =
        m (shift idx (idx + d) r) (shift idx (idx + d) c) := by
    intro d
    induction d with
    | zero =>
      intro _ r c _ _ _
      have hsame : ∀ x, shift idx (idx + 0) x = x := fun x => if_neg (by omega)
      rw [hsame, hsame]
      rfl
    | succ d ih =>
      intro hd r c hr hc hne
      rw [List.range'_concat, List.foldl_append, Nat.one_mul]
      exact moveLine_shift (by omega) (Nat.le_add_right idx d) (ih (by omega)) hr hc hne
  have hend := hloop (last - idx) (by omega) r c hr hc (.inl hne)
  rwa [Nat.add_sub_cancel' hidx] at hend

end TrainOS.MatrixGap
