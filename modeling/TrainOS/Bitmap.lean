import TrainOS.MachineWord

/-!
# Bit maps of several words

A set of numbers below `64 * k` in an array of `k` words.  `has` is membership; the operations
are described by what they do to it.
-/

namespace TrainOS.Bitmap

open Function List MachineWord

variable {k i j : Nat} {m m' : Fin k → BitVec 64}

def has (m : Fin k → BitVec 64) (i : Nat) : Bool :=
  if h : i / 64 < k then (m ⟨i / 64, h⟩).getLsbD (i % 64) else false

def insert (m : Fin k → BitVec 64) (i : Nat) : Fin k → BitVec 64 :=
  if h : i / 64 < k then
    update m ⟨i / 64, h⟩ (m ⟨i / 64, h⟩ ||| 1#64 <<< (i % 64))
  else m

def takeFirst (m : Fin k → BitVec 64) : Option (Nat × (Fin k → BitVec 64)) :=
  ((finRange k).find? fun w => m w != 0).map fun w =>
    (w * 64 + (m w).ctz.toNat, update m w (m w &&& ~~~(1#64 <<< (m w).ctz.toNat)))

theorem has_insert (hi : i < 64 * k) : has (insert m i) j = (has m j || decide (i = j)) := by
  have hword : i / 64 < k := by omega
  unfold has insert
  split
  · next hj =>
    by_cases hsame : j / 64 = i / 64
    · have hfin : (⟨j / 64, hj⟩ : Fin k) = ⟨i / 64, hword⟩ := Fin.ext hsame
      have hbit : i % 64 = j % 64 ↔ i = j := by omega
      rw [hfin, update_self, getLsbD_set (Nat.mod_lt _ (by decide)), decide_eq_decide.mpr hbit]
    · have hfin : (⟨j / 64, hj⟩ : Fin k) ≠ ⟨i / 64, hword⟩ := fun h => hsame (Fin.mk.inj h)
      have hne : i ≠ j := fun h => hsame (h ▸ rfl)
      rw [update_of_ne hfin, decide_eq_false hne, Bool.or_false]
  · next hj =>
    have hne : i ≠ j := by
      rintro rfl
      exact hj hword
    rw [decide_eq_false hne]
    rfl

/-- The number that is taken was in the set, and only it is missing afterwards. -/
theorem has_of_takeFirst (h : takeFirst m = some (i, m')) :
    has m i = true ∧ ∀ j, has m' j = (has m j && decide (j ≠ i)) := by
  obtain ⟨w, hfind, hres⟩ := Option.map_eq_some_iff.mp h
  cases hres
  have hnonzero : m w ≠ 0#64 := by simpa using find?_some hfind
  have hset := BitVec.getLsbD_true_ctz_of_ne_zero hnonzero
  have hbit : (m w).ctz.toNat < 64 := BitVec.lt_of_getLsbD hset
  generalize (m w).ctz.toNat = bit at hset hbit ⊢
  have hdiv : (w * 64 + bit) / 64 = w := by omega
  have hmod : (w * 64 + bit) % 64 = bit := by omega
  have hfin : ∀ hlt : (w * 64 + bit) / 64 < k, (⟨(w * 64 + bit) / 64, hlt⟩ : Fin k) = w :=
    fun _ => Fin.ext hdiv
  constructor
  · unfold has
    have hlt : (w * 64 + bit) / 64 < k := hdiv.symm ▸ w.isLt
    rw [dif_pos hlt, hfin, hmod, hset]
  · intro j
    unfold has
    split
    · next hj =>
      by_cases hsame : (⟨j / 64, hj⟩ : Fin k) = w
      · have hne : bit ≠ j % 64 ↔ j ≠ w * 64 + bit := by
          have hval : j / 64 = w := congrArg Fin.val hsame
          omega
        rw [hsame, update_self, getLsbD_clear (Nat.mod_lt _ (by decide)), decide_eq_decide.mpr hne]
      · have hne : j ≠ w * 64 + bit := by
          rintro rfl
          exact hsame (Fin.ext hdiv)
        rw [update_of_ne hsame, decide_eq_true hne, Bool.and_true]
    · rfl

theorem has_foldl_insert {n : Nat} (hn : n ≤ 64 * k) :
    has ((range n).foldl insert (fun _ => 0 : Fin k → BitVec 64)) j = decide (j < n) := by
  induction n with
  | zero => simp [has]
  | succ n ih =>
    rw [range_succ, foldl_append, foldl_cons, foldl_nil,
      has_insert (by omega), ih (by omega), ← Bool.decide_or]
    congr 1
    apply propext
    omega

end TrainOS.Bitmap
