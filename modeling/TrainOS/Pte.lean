import TrainOS.ByteMemory
import Mathlib.Data.BitVec
import Mathlib.Tactic.IntervalCases

/-!
# Page-table entries (`mem/sv39.rs`)

The 64-bit entry word with the accessors and setters of `PTE`.  A flag accessor
tests one bit of the word.  The kernel builds entries in two ways only: a pointer to
the next table (`PTE.table`) and a leaf with accessed and dirty set (`PTE.page`);
what their fields read back as is collected here once.
-/

namespace TrainOS.Sv39

/-- An Sv39 page-table entry. -/
structure PTE where
  bits : BitVec 64
deriving DecidableEq, Repr

namespace PTE

def empty : PTE := ⟨0⟩

def isValid (e : PTE) : Bool := e.bits[0]

def isReadable (e : PTE) : Bool := e.bits[1]

def isWritable (e : PTE) : Bool := e.bits[2]

def isExecutable (e : PTE) : Bool := e.bits[3]

def isUser (e : PTE) : Bool := e.bits[4]

def isAccessed (e : PTE) : Bool := e.bits[6]

def isDirty (e : PTE) : Bool := e.bits[7]

def isCow (e : PTE) : Bool := e.bits[8]

def isLeaf (e : PTE) : Bool :=
  e.isValid && (e.isReadable || e.isWritable || e.isExecutable)

def isBranch (e : PTE) : Bool :=
  e.isValid && !(e.isReadable || e.isWritable || e.isExecutable)

def ppn (e : PTE) : Nat := (e.bits >>> 10 &&& (2 ^ 44 - 1 : BitVec 64)).toNat

def physAddr (e : PTE) : Nat := e.ppn <<< 12

def setPpn (e : PTE) (ppn : Nat) : PTE :=
  ⟨(e.bits &&& 0x3FF) ||| ((BitVec.ofNat 64 ppn &&& (2 ^ 44 - 1 : BitVec 64)) <<< 10)⟩

/-- The low byte written by `set_flags`: V and the given flags. -/
def flagByte (r w x u : Bool) : BitVec 64 :=
  1 ||| (if r then 2 else 0) ||| (if w then 4 else 0) ||| (if x then 8 else 0) |||
    (if u then 16 else 0)

def setFlags (e : PTE) (r w x u : Bool) : PTE :=
  ⟨(e.bits &&& ~~~0xFF) ||| flagByte r w x u⟩

def setAccessed (e : PTE) (a : Bool) : PTE :=
  if a then ⟨e.bits ||| 0x40⟩ else ⟨e.bits &&& ~~~0x40⟩

def setDirty (e : PTE) (d : Bool) : PTE :=
  if d then ⟨e.bits ||| 0x80⟩ else ⟨e.bits &&& ~~~0x80⟩

/-- A pointer to the table page at physical address `page`. -/
def table (page : Nat) : PTE :=
  (empty.setPpn (page >>> 12)).setFlags false false false false

/-- A leaf for the frame at physical address `pa`, accessed and dirty. -/
def page (pa : Nat) (r w x u : Bool) : PTE :=
  (((empty.setPpn (pa >>> 12)).setFlags r w x u).setAccessed true).setDirty true

/-! ### Reading fields back -/

variable {i pa : Nat}

theorem getLsbD_high {c : BitVec 64} {k : Nat} (hc : c.toNat < 2 ^ k) (hi : k ≤ i) :
    c.getLsbD i = false := by
  exact Nat.testBit_lt_two_pow (hc.trans_le (Nat.pow_le_pow_right Nat.two_pos hi))

theorem ppn_testBit (e : PTE) (i : Nat) :
    e.ppn.testBit i = (decide (i < 44) && e.bits.getLsbD (i + 10)) := by
  have hmask : (2 ^ 44 - 1 : BitVec 64).toNat = 2 ^ 44 - 1 := rfl
  unfold ppn
  rw [BitVec.toNat_and, hmask, Nat.and_two_pow_sub_one_eq_mod, Nat.testBit_mod_two_pow,
    BitVec.toNat_ushiftRight, Nat.testBit_shiftRight, BitVec.testBit_toNat, Nat.add_comm 10]

theorem ppn_lt (e : PTE) : e.ppn < 2 ^ 44 := by
  have hmask : (2 ^ 44 - 1 : BitVec 64).toNat = 2 ^ 44 - 1 := rfl
  unfold ppn
  rw [BitVec.toNat_and, hmask, Nat.and_two_pow_sub_one_eq_mod]
  exact Nat.mod_lt _ (by decide)

theorem ppn_congr {e e' : PTE} (h : ∀ i, 10 ≤ i → e.bits.getLsbD i = e'.bits.getLsbD i) :
    e.ppn = e'.ppn := by
  apply Nat.eq_of_testBit_eq
  intro i
  rw [ppn_testBit, ppn_testBit, h (i + 10) (Nat.le_add_left _ _)]

theorem flagByte_lt (r w x u : Bool) : (flagByte r w x u).toNat < 2 ^ 5 := by
  cases r <;> cases w <;> cases x <;> cases u <;> decide

theorem getLsbD_setFlags (e : PTE) (r w x u : Bool) (i : Nat) :
    (e.setFlags r w x u).bits.getLsbD i =
      if i < 8 then (flagByte r w x u).getLsbD i else e.bits.getLsbD i := by
  have hmask : (0xFF : BitVec 64).getLsbD i = decide (i < 8) := by
    exact Nat.testBit_two_pow_sub_one 8 i
  have hword : e.bits.getLsbD i = (e.bits.getLsbD i && decide (i < 64)) := by
    by_cases hi : i < 64
    · simp [hi]
    · simp [hi, BitVec.getLsbD_of_ge _ _ (not_lt.mp hi)]
  split
  case isTrue hi =>
    simp only [setFlags, BitVec.getLsbD_or, BitVec.getLsbD_and, BitVec.getLsbD_not, hmask, hi,
      decide_true, Bool.not_true, Bool.and_false, Bool.false_or]
  case isFalse hi =>
    have hflags : (flagByte r w x u).getLsbD i = false :=
      getLsbD_high (flagByte_lt r w x u) (by omega)
    simp only [setFlags, BitVec.getLsbD_or, BitVec.getLsbD_and, BitVec.getLsbD_not, hmask, hi,
      decide_false, Bool.not_false, Bool.and_true, hflags, Bool.or_false]
    exact hword.symm

theorem getLsbD_setAccessed (e : PTE) (i : Nat) :
    (e.setAccessed true).bits.getLsbD i = (e.bits.getLsbD i || (0x40 : BitVec 64).getLsbD i) :=
  BitVec.getLsbD_or

theorem getLsbD_setDirty (e : PTE) (i : Nat) :
    (e.setDirty true).bits.getLsbD i = (e.bits.getLsbD i || (0x80 : BitVec 64).getLsbD i) :=
  BitVec.getLsbD_or

theorem ppn_setFlags (e : PTE) (r w x u : Bool) : (e.setFlags r w x u).ppn = e.ppn := by
  apply ppn_congr
  intro i hi
  rw [getLsbD_setFlags, if_neg (by omega)]

theorem ppn_setAccessed (e : PTE) : (e.setAccessed true).ppn = e.ppn := by
  apply ppn_congr
  intro i hi
  rw [getLsbD_setAccessed, getLsbD_high (c := 0x40) (k := 7) (by decide) (by omega), Bool.or_false]

theorem ppn_setDirty (e : PTE) : (e.setDirty true).ppn = e.ppn := by
  apply ppn_congr
  intro i hi
  rw [getLsbD_setDirty, getLsbD_high (c := 0x80) (k := 8) (by decide) (by omega), Bool.or_false]

theorem ppn_setPpn_mod (n : Nat) : (empty.setPpn n).ppn = n % 2 ^ 44 := by
  apply Nat.eq_of_testBit_eq
  intro i
  rw [ppn_testBit, Nat.testBit_mod_two_pow]
  by_cases hi : i < 44
  · have hmask : (2 ^ 44 - 1 : BitVec 64).getLsbD i = true := by
      rw [← BitVec.testBit_toNat]
      have hval : (2 ^ 44 - 1 : BitVec 64).toNat = 2 ^ 44 - 1 := rfl
      rw [hval, Nat.testBit_two_pow_sub_one]
      exact decide_eq_true hi
    have hword : i + 10 < 64 := by omega
    have hlow : ¬ i + 10 < 10 := by omega
    have hsmall : i < 64 := by omega
    simp only [setPpn, empty, BitVec.ofNat_eq_ofNat, BitVec.zero_and, BitVec.zero_or,
      BitVec.getLsbD_shiftLeft, hi, hword, hlow, decide_true, decide_false, Bool.not_false,
      Bool.true_and, Nat.add_sub_cancel, BitVec.getLsbD_and, BitVec.getLsbD_ofNat, hsmall]
    rw [show (2#64 ^ 44 - 1#64).getLsbD i = true from hmask, Bool.and_true]
  · simp [hi]

theorem ppn_setPpn {n : Nat} (hn : n < 2 ^ 44) : (empty.setPpn n).ppn = n := by
  rw [ppn_setPpn_mod, Nat.mod_eq_of_lt hn]

theorem frame_lt (hpa : pa < 2 ^ 56) : pa >>> 12 < 2 ^ 44 := by
  omega

theorem ppn_page_mod (pa : Nat) (r w x u : Bool) :
    (page pa r w x u).ppn = (pa >>> 12) % 2 ^ 44 := by
  unfold page
  rw [ppn_setDirty, ppn_setAccessed, ppn_setFlags, ppn_setPpn_mod]

theorem ppn_page (hpa : pa < 2 ^ 56) (r w x u : Bool) : (page pa r w x u).ppn = pa >>> 12 := by
  rw [ppn_page_mod, Nat.mod_eq_of_lt (frame_lt hpa)]

theorem ppn_table {p : Nat} (hp : p < 2 ^ 56) : (table p).ppn = p >>> 12 := by
  unfold table
  rw [ppn_setFlags, ppn_setPpn (frame_lt hp)]

section

variable (e : PTE) (pa : Nat) (r w x u : Bool)

theorem flagByte_bits :
    (flagByte r w x u).getLsbD 0 = true ∧ (flagByte r w x u).getLsbD 1 = r ∧
      (flagByte r w x u).getLsbD 2 = w ∧ (flagByte r w x u).getLsbD 3 = x ∧
      (flagByte r w x u).getLsbD 4 = u := by
  cases r <;> cases w <;> cases x <;> cases u <;> decide

theorem flags_setFlags :
    (e.setFlags r w x u).isValid = true ∧ (e.setFlags r w x u).isWritable = w ∧
      (e.setFlags r w x u).isExecutable = x ∧ (e.setFlags r w x u).isCow = e.isCow := by
  obtain ⟨hv, -, hw, hx, -⟩ := flagByte_bits r w x u
  exact ⟨(getLsbD_setFlags e r w x u 0).trans hv, (getLsbD_setFlags e r w x u 2).trans hw,
    (getLsbD_setFlags e r w x u 3).trans hx, getLsbD_setFlags e r w x u 8⟩

theorem isReadable_setFlags : (e.setFlags r w x u).isReadable = r :=
  (getLsbD_setFlags e r w x u 1).trans (flagByte_bits r w x u).2.1

theorem isUser_setFlags : (e.setFlags r w x u).isUser = u :=
  (getLsbD_setFlags e r w x u 4).trans (flagByte_bits r w x u).2.2.2.2

theorem isLeaf_setFlags :
    (e.setFlags r w x u).isLeaf = (r || w || x) := by
  obtain ⟨hv, hw, hx, _⟩ := flags_setFlags e r w x u
  simp [isLeaf, hv, isReadable_setFlags, hw, hx]

theorem getLsbD_page
    (hi : (0x40 : BitVec 64).getLsbD i = false ∧ (0x80 : BitVec 64).getLsbD i = false) :
    (page pa r w x u).bits.getLsbD i =
      ((empty.setPpn (pa >>> 12)).setFlags r w x u).bits.getLsbD i := by
  rw [page, getLsbD_setDirty, getLsbD_setAccessed, hi.1, hi.2, Bool.or_false, Bool.or_false]

theorem flags_page :
    (page pa r w x u).isValid = true ∧ (page pa r w x u).isReadable = r ∧
      (page pa r w x u).isWritable = w ∧ (page pa r w x u).isExecutable = x ∧
      (page pa r w x u).isUser = u ∧ (page pa r w x u).isDirty = true := by
  obtain ⟨hv, hw, hx, _⟩ := flags_setFlags (empty.setPpn (pa >>> 12)) r w x u
  have hr := isReadable_setFlags (empty.setPpn (pa >>> 12)) r w x u
  have hu := isUser_setFlags (empty.setPpn (pa >>> 12)) r w x u
  refine ⟨(getLsbD_page pa r w x u (by decide)).trans hv,
    (getLsbD_page pa r w x u (by decide)).trans hr,
    (getLsbD_page pa r w x u (by decide)).trans hw,
    (getLsbD_page pa r w x u (by decide)).trans hx,
    (getLsbD_page pa r w x u (by decide)).trans hu, ?_⟩
  exact (getLsbD_setDirty _ 7).trans (Bool.or_true _)

theorem isLeaf_page : (page pa r w x u).isLeaf = (r || w || x) := by
  obtain ⟨hv, hr, hw, hx, _, _⟩ := flags_page pa r w x u
  simp [isLeaf, hv, hr, hw, hx]

end

theorem isCow_empty : empty.isCow = false := by
  simp [isCow, empty]

theorem isUser_empty : empty.isUser = false := by
  simp [isUser, empty]

theorem isCow_setPpn (n : Nat) : (empty.setPpn n).isCow = false := by
  simp [isCow, setPpn, empty]

theorem isCow_table (p : Nat) : (table p).isCow = false :=
  (flags_setFlags _ _ _ _ _).2.2.2.trans (isCow_setPpn _)

theorem isCow_page (pa : Nat) (r w x u : Bool) : (page pa r w x u).isCow = false :=
  (getLsbD_page pa r w x u (by decide)).trans
    ((flags_setFlags _ _ _ _ _).2.2.2.trans (isCow_setPpn _))

theorem isValid_of_isLeaf {e : PTE} (h : e.isLeaf = true) : e.isValid = true := by
  exact (Bool.and_eq_true_iff.mp h).1

theorem isValid_empty : empty.isValid = false := by
  simp [isValid, empty]

end PTE

end TrainOS.Sv39
