import Mathlib.Data.Nat.Bitwise

/-!
# Physical memory protection entries

An entry is a configuration byte and an address register; bits 4 and 3 of the byte select how
the register is matched.  Address registers count words of four bytes.  The registers are
modelled as they are written: that a locked entry ignores writes until the next reset is not
part of the matching rules.
-/

namespace TrainOS.Pmp

/-! ### Matching -/

/-- The field `A` of a configuration byte. -/
inductive Mode where
  | off
  | tor
  | na4
  | napot
deriving DecidableEq, Repr

def mode (cfg : BitVec 8) : Mode :=
  match (cfg >>> 3 &&& 3).toNat with
  | 0 => .off
  | 1 => .tor
  | 2 => .na4
  | _ => .napot

/-- The bits of a naturally aligned power-of-two region that an address may have as it likes:
    the ones at the end of the register and the zero before them. -/
def napotMask (addr : Nat) : Nat := addr ^^^ (addr + 1)

/-- Whether byte `a` is matched by an entry with the given register, `below` being the register
    of the entry before it. -/
def Matches (cfg : BitVec 8) (below addr a : Nat) : Prop :=
  match mode cfg with
  | .off => False
  | .tor => below ≤ a / 4 ∧ a / 4 < addr
  | .na4 => a / 4 = addr
  | .napot => a / 4 ||| napotMask addr = addr ||| napotMask addr

instance (cfg : BitVec 8) (below addr a : Nat) : Decidable (Matches cfg below addr a) := by
  unfold Matches
  split <;> infer_instance

variable {cfg : BitVec 8} {below addr a : Nat}

/-- **Top of range.**  The region goes up to the register's own address, whatever it encodes. -/
theorem matches_tor (hmode : mode cfg = .tor) :
    Matches cfg below addr a ↔ 4 * below ≤ a ∧ a < 4 * addr := by
  unfold Matches
  rw [hmode]
  omega

/-! ### Configuration registers -/

section Bytes

variable {x y : Nat}

def getByte (reg : BitVec 64) (x : Nat) : BitVec 8 := (reg >>> (8 * x)).setWidth 8

def setByte (reg : BitVec 64) (x : Nat) (cfg : BitVec 8) : BitVec 64 :=
  (reg &&& ~~~(0xFF#64 <<< (8 * x))) ||| (cfg.setWidth 64 <<< (8 * x))

theorem getElem_byteMask : ∀ {j : Nat} (hj : j < 64), (255#64)[j] = decide (j < 8) := by
  decide

theorem getByte_setByte_self (reg : BitVec 64) (cfg : BitVec 8) (hx : x < 4) :
    getByte (setByte reg x cfg) x = cfg := by
  apply BitVec.eq_of_getLsbD_eq
  intro k hk
  have hin : 8 * x + k < 64 := by omega
  have habove : ¬ 8 * x + k < 8 * x := by omega
  have hword : k < 64 := by omega
  simp [getByte, setByte, getElem_byteMask, hk, hin, habove, hword]

theorem getByte_setByte_of_ne (reg : BitVec 64) (cfg : BitVec 8) (hy : y < 4) (hne : y ≠ x) :
    getByte (setByte reg x cfg) y = getByte reg y := by
  apply BitVec.eq_of_getLsbD_eq
  intro k hk
  have hin : 8 * y + k < 64 := by omega
  rcases Nat.lt_or_gt_of_ne hne with hlt | hgt
  · have hbelow : 8 * y + k < 8 * x := by omega
    simp [getByte, setByte, hk, hin, hbelow]
  · have habove : ¬ 8 * y + k < 8 * x := by omega
    have hbeyond : 8 ≤ 8 * y + k - 8 * x := by omega
    simp [getByte, setByte, getElem_byteMask, hk, hin, habove, Nat.not_lt.mpr hbeyond,
      BitVec.getLsbD_of_ge cfg _ hbeyond]

end Bytes

end TrainOS.Pmp
