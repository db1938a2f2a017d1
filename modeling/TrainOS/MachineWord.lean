import Mathlib.Algebra.Order.Ring.Nat

/-!
# Machine words

The release build leaves integer overflow unchecked: addition, subtraction and
multiplication on `usize` wrap modulo `2 ^ 64`.  A word is a natural number below
`2 ^ 64`; on operands that do not overflow the operations are the usual ones.
-/

namespace TrainOS.MachineWord

def WORD : Nat := 2 ^ 64

def wrapAdd (a b : Nat) : Nat := (a + b) % WORD

def wrapSub (a b : Nat) : Nat := (a + WORD - b) % WORD

def wrapMul (a b : Nat) : Nat := (a * b) % WORD

def satAdd (a b : Nat) : Nat := min (a + b) (WORD - 1)

variable {a b : Nat}

theorem wrapAdd_of_lt (h : a + b < WORD) : wrapAdd a b = a + b :=
  Nat.mod_eq_of_lt h

theorem wrapMul_of_lt (h : a * b < WORD) : wrapMul a b = a * b :=
  Nat.mod_eq_of_lt h

theorem wrapSub_of_le (hba : b ≤ a) (ha : a < WORD) : wrapSub a b = a - b := by
  unfold wrapSub
  have hsplit : a + WORD - b = a - b + WORD := by omega
  rw [hsplit, Nat.add_mod_right]
  exact Nat.mod_eq_of_lt ((Nat.sub_le a b).trans_lt ha)

theorem wrapSub_wrapAdd {c : Nat} (hle : c ≤ a + b) (hc : c ≤ WORD) :
    wrapSub (wrapAdd a b) c = (a + b - c) % WORD := by
  have hsplit : a + b + (WORD - c) = a + b - c + WORD := by omega
  rw [wrapSub, wrapAdd, Nat.add_sub_assoc hc, Nat.mod_add_mod, hsplit, Nat.add_mod_right]

theorem one_lt_word : 1 < WORD := by decide

theorem wrapSub_one_eq_zero (ha : a < WORD) : wrapSub a 1 = 0 ↔ a = 1 := by
  rcases Nat.eq_zero_or_pos a with rfl | hpos
  · have hmax : wrapSub 0 1 = WORD - 1 := by
      exact Nat.mod_eq_of_lt (Nat.sub_lt (Nat.zero_lt_of_lt ha) Nat.one_pos)
    have hword := one_lt_word
    omega
  · rw [wrapSub_of_le hpos ha]
    omega

/-! ### Masks -/

/-- Rounding down commutes with wrapping around at a multiple. -/
theorem mod_div_mul_self {x n m : Nat} (h : n ∣ m) : x % m / n * n = x / n * n % m := by
  obtain ⟨q, rfl⟩ := h
  rw [Nat.mod_mul_right_div_self, Nat.mul_comm n q, Nat.mul_mod_mul_right]

/-- Masking with the complement of `2 ^ k - 1` rounds down to a multiple of `2 ^ k`. -/
theorem and_complement_mask {w k x : Nat} (hk : k ≤ w) (hx : x < 2 ^ w) :
    x &&& (2 ^ w - 1 - (2 ^ k - 1)) = x / 2 ^ k * 2 ^ k := by
  have hlow : 2 ^ k - 1 < 2 ^ w :=
    (Nat.sub_lt (Nat.two_pow_pos k) Nat.one_pos).trans_le (Nat.pow_le_pow_right (by decide) hk)
  rw [← Nat.shiftRight_eq_div_pow, ← Nat.shiftLeft_eq, Nat.sub_sub, Nat.add_comm 1]
  apply Nat.eq_of_testBit_eq
  intro i
  rw [Nat.testBit_and, Nat.testBit_two_pow_sub_succ hlow, Nat.testBit_two_pow_sub_one,
    Nat.testBit_shiftLeft, Nat.testBit_shiftRight]
  rcases Nat.lt_or_ge i k with hik | hki
  · simp [hik]
  · have hbit : w ≤ i → x.testBit i = false := fun hi =>
      Nat.testBit_lt_two_pow (hx.trans_le (Nat.pow_le_pow_right (by decide) hi))
    by_cases hiw : i < w
    · simp [hki, hiw]
    · simp [hki, hbit (Nat.le_of_not_lt hiw)]

/-- `(x + align - 1) & !(align - 1)` for an alignment `2 ^ k`. -/
theorem and_mask_wrapAdd {x k : Nat} (hk : k < 64) :
    wrapSub (wrapAdd x (2 ^ k)) 1 &&& (WORD - 1 - (2 ^ k - 1)) =
      (x + 2 ^ k - 1) / 2 ^ k * 2 ^ k % WORD := by
  have hpos : 1 ≤ x + 2 ^ k := Nat.le_add_left_of_le Nat.one_le_two_pow
  have hlt : (x + 2 ^ k - 1) % WORD < 2 ^ 64 := Nat.mod_lt _ (by decide)
  rw [wrapSub_wrapAdd hpos (by decide)]
  calc (x + 2 ^ k - 1) % WORD &&& (WORD - 1 - (2 ^ k - 1))
      = (x + 2 ^ k - 1) % WORD / 2 ^ k * 2 ^ k := and_complement_mask hk.le hlt
    _ = (x + 2 ^ k - 1) / 2 ^ k * 2 ^ k % WORD := mod_div_mul_self (Nat.pow_dvd_pow 2 hk.le)

/-! ### Bit maps -/

section BitMaps

variable {map : BitVec 64} {i j : Nat}

def highestBit (map : BitVec 64) : Nat := 63 - map.clz.toNat

theorem highestBit_lt : highestBit map < 64 :=
  (Nat.sub_le 63 _).trans_lt (by decide)

theorem getLsbD_highestBit (h : map ≠ 0#64) : map.getLsbD (highestBit map) = true :=
  BitVec.getLsbD_true_clz_of_ne_zero (by decide) h

theorem getLsbD_of_highestBit_lt (h : highestBit map < i) : map.getLsbD i = false := by
  apply Nat.testBit_lt_two_pow
  apply BitVec.toNat_lt_two_pow_sub_clz.trans_le
  apply Nat.pow_le_pow_right (by decide)
  unfold highestBit at h
  omega

theorem getLsbD_set (hj : j < 64) :
    (map ||| 1#64 <<< i).getLsbD j = (map.getLsbD j || decide (i = j)) := by
  by_cases hij : i = j
  · simp [hij, hj]
  · rcases Nat.lt_or_gt_of_ne hij with hlt | hgt
    · have hsub : j - i ≠ 0 := by omega
      simp [hij, hj, hsub]
    · simp [hij, hgt]

theorem getLsbD_clear (hj : j < 64) :
    (map &&& ~~~(1#64 <<< i)).getLsbD j = (map.getLsbD j && decide (i ≠ j)) := by
  by_cases hij : i = j
  · simp [hij, hj]
  · rcases Nat.lt_or_gt_of_ne hij with hlt | hgt
    · have hsub : j - i ≠ 0 := by omega
      simp [hij, hj, hsub]
    · simp [hij, hj, hgt]

end BitMaps

end TrainOS.MachineWord
