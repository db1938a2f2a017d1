import Mathlib.Tactic.Ring

/-!
# Byte-addressed memory with little-endian words

A memory is a total function from addresses to bytes; words of any width are read and written in
little-endian order, and blocks are filled or copied.  The frame lemmas say that an access sees
exactly the bytes of its own range.
-/

namespace TrainOS.ByteMemory

/-- Memory as a total map from byte addresses to bytes. -/
abbrev Memory := Nat → UInt8

def readLE (m : Memory) : Nat → Nat → Nat
  | _, 0 => 0
  | a, n + 1 => (m a).toNat + 256 * readLE m (a + 1) n

def writeLE (m : Memory) (a n v : Nat) : Memory :=
  fun b => if a ≤ b ∧ b < a + n then UInt8.ofNat (v / 256 ^ (b - a)) else m b

def fill (m : Memory) (a n : Nat) (x : UInt8) : Memory :=
  fun b => if a ≤ b ∧ b < a + n then x else m b

/-- Copy the `n` bytes at `src` to `dst`; the source is read before the copy. -/
def copy (m : Memory) (src dst n : Nat) : Memory :=
  fun b => if dst ≤ b ∧ b < dst + n then m (src + (b - dst)) else m b

/-- Copy `n` bytes of another byte source, from `src` on, to `dst`. -/
def copyFrom (m : Memory) (dst : Nat) (source : Nat → UInt8) (src n : Nat) : Memory :=
  fun b => if dst ≤ b ∧ b < dst + n then source (src + (b - dst)) else m b

def storeBytes (m : Memory) (a : Nat) (bytes : List UInt8) : Memory :=
  fun b => if a ≤ b then bytes.getD (b - a) (m b) else m b

/-- Two memories agree on `[a, a + n)`. -/
def AgreeOn (m m' : Memory) (a n : Nat) : Prop := ∀ b, a ≤ b → b < a + n → m b = m' b

/-! ### Reading -/

/-- A read depends only on the bytes of its own range. -/
theorem readLE_congr {m m' : Memory} {a n : Nat} (h : AgreeOn m m' a n) :
    readLE m a n = readLE m' a n := by
  induction n generalizing a with
  | zero => rfl
  | succ n ih =>
    have hhead : m a = m' a := h a (Nat.le_refl a) (by omega)
    have htail : readLE m (a + 1) n = readLE m' (a + 1) n :=
      ih fun b hlo hhi => h b (by omega) (by omega)
    simp [readLE, hhead, htail]

theorem readLE_lt (m : Memory) (a n : Nat) : readLE m a n < 256 ^ n := by
  induction n generalizing a with
  | zero => simp [readLE]
  | succ n ih =>
    have htail := ih (a + 1)
    have hbyte : (m a).toNat < 256 := (m a).toNat_lt
    simp only [readLE, Nat.pow_succ]
    omega

theorem readLE_add (m : Memory) (a k n : Nat) :
    readLE m a (k + n) = readLE m a k + 256 ^ k * readLE m (a + k) n := by
  induction k generalizing a with
  | zero => simp [readLE]
  | succ k ih =>
    rw [Nat.succ_add, readLE, readLE, ih, Nat.pow_succ', Nat.add_right_comm a 1 k]
    ring_nf

/-! ### Writing and reading back -/

variable (m : Memory) {a b n : Nat}

theorem writeLE_apply_of_mem (v : Nat) (hlo : a ≤ b)
    (hhi : b < a + n) : writeLE m a n v b = UInt8.ofNat (v / 256 ^ (b - a)) := by
  simp [writeLE, hlo, hhi]

theorem writeLE_apply_of_not_mem (v : Nat)
    (h : b < a ∨ a + n ≤ b) : writeLE m a n v b = m b := by
  have hout : ¬ (a ≤ b ∧ b < a + n) := by omega
  simp [writeLE, hout]

/-- The bytes of a stored word, read from an inner position to its end. -/
private theorem readLE_writeLE_suffix (a n v : Nat) : ∀ k i, i + k = n →
      readLE (writeLE m a n v) (a + i) k = v / 256 ^ i % 256 ^ k := by
  intro k
  induction k with
  | zero => intro i _; simp [readLE, Nat.mod_one]
  | succ k ih =>
    intro i hik
    have htail := ih (i + 1) (by omega)
    have hbyte : writeLE m a n v (a + i) = UInt8.ofNat (v / 256 ^ i) := by
      rw [writeLE_apply_of_mem m v (by omega) (by omega)]
      simp
    have hdiv : v / 256 ^ (i + 1) = v / 256 ^ i / 256 := by
      rw [Nat.pow_succ, Nat.div_div_eq_div_mul]
    have hmod : v / 256 ^ i % 256 ^ (k + 1) =
        v / 256 ^ i % 256 + 256 * (v / 256 ^ i / 256 % 256 ^ k) := by
      rw [Nat.pow_succ', Nat.mod_mul]
    rw [readLE, hbyte, hmod, ← hdiv, ← htail]
    simp [UInt8.toNat_ofNat', Nat.add_assoc]

/-- A word that was just stored is read back modulo its width. -/
theorem readLE_writeLE_same (a n v : Nat) :
    readLE (writeLE m a n v) a n = v % 256 ^ n := by
  have h := readLE_writeLE_suffix m a n v n 0 (by omega)
  simpa using h

variable {k src dst : Nat}

theorem readLE_writeLE_disjoint (v : Nat)
    (h : b + k ≤ a ∨ a + n ≤ b) : readLE (writeLE m a n v) b k = readLE m b k :=
  readLE_congr fun c hlo hhi => writeLE_apply_of_not_mem m v (by omega)

/-! ### Blocks -/

theorem fill_apply_of_mem (x : UInt8) (hlo : a ≤ b)
    (hhi : b < a + n) : fill m a n x b = x := by
  simp [fill, hlo, hhi]

theorem fill_apply_of_not_mem (x : UInt8)
    (h : b < a ∨ a + n ≤ b) : fill m a n x b = m b := by
  have hout : ¬ (a ≤ b ∧ b < a + n) := by omega
  simp [fill, hout]

theorem copy_apply_of_mem (hlo : dst ≤ b)
    (hhi : b < dst + n) : copy m src dst n b = m (src + (b - dst)) := by
  simp [copy, hlo, hhi]

theorem copy_apply_of_not_mem (h : b < dst ∨ dst + n ≤ b) : copy m src dst n b = m b := by
  have hout : ¬ (dst ≤ b ∧ b < dst + n) := by omega
  simp [copy, hout]

theorem readLE_fill_zero (hlo : a ≤ b) (hhi : b + k ≤ a + n) :
    readLE (fill m a n 0) b k = 0 := by
  induction k generalizing b with
  | zero => rfl
  | succ k ih =>
    have htail := ih (b := b + 1) (by omega) (by omega)
    rw [readLE, fill_apply_of_mem m 0 hlo (by omega), htail]
    rfl

/-- A word inside a copied block is the corresponding word of the source. -/
theorem readLE_copy (hlo : dst ≤ b) (hhi : b + k ≤ dst + n) :
    readLE (copy m src dst n) b k = readLE m (src + (b - dst)) k := by
  induction k generalizing b with
  | zero => rfl
  | succ k ih =>
    have htail := ih (b := b + 1) (by omega) (by omega)
    have hshift : src + (b + 1 - dst) = src + (b - dst) + 1 := by omega
    rw [readLE, copy_apply_of_mem m hlo (by omega), htail, hshift, readLE]

end TrainOS.ByteMemory
