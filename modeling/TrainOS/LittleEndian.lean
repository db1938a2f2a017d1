import Mathlib.Algebra.Group.Nat.Defs
import Mathlib.Data.Nat.Basic
import Mathlib.Tactic.Common

/-!
# Little-endian bytes

`to_le_bytes` and `from_le_bytes` of the fixed-width integers, on lists of bytes.
-/

namespace TrainOS.LittleEndian

def toLE : Nat → Nat → List UInt8
  | 0, _ => []
  | n + 1, v => UInt8.ofNat v :: toLE n (v / 256)

def ofLE : List UInt8 → Nat
  | [] => 0
  | b :: bs => b.toNat + 256 * ofLE bs

@[simp] theorem length_toLE (n v : Nat) : (toLE n v).length = n := by
  induction n generalizing v with
  | zero => rfl
  | succ n ih => rw [toLE, List.length_cons, ih]

theorem ofLE_toLE {n v : Nat} (hv : v < 256 ^ n) : ofLE (toLE n v) = v := by
  induction n generalizing v with
  | zero =>
    rw [Nat.pow_zero, Nat.lt_one_iff] at hv
    rw [hv]
    rfl
  | succ n ih =>
    have hdiv : v / 256 < 256 ^ n := by
      omega
    rw [toLE, ofLE, ih hdiv, UInt8.toNat_ofNat']
    omega

theorem ofLE_take_toLE {n v : Nat} (hv : v < 256 ^ n) (rest : List UInt8) :
    ofLE ((toLE n v ++ rest).take n) = v := by
  rw [List.take_left' (length_toLE n v), ofLE_toLE hv]

theorem toLE_inj {n v w : Nat} (hv : v < 256 ^ n) (hw : w < 256 ^ n) :
    toLE n v = toLE n w ↔ v = w := by
  constructor
  · intro h
    rw [← ofLE_toLE hv, h, ofLE_toLE hw]
  · rintro rfl
    rfl

end TrainOS.LittleEndian
