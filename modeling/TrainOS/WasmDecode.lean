import TrainOS.MachineWord

/-!
# Reading bytecode (`wasm/mod.rs`)

The LEB128 decoders and the scans for the end of a block.  A buffer is a list of bytes; an
index behind its end is a panic, which the decoders report as `none`.  Shifts use the low
bits of their amount only.
-/

namespace TrainOS.Wasm

/-! ### LEB128 -/

/-- The decoding loop from the current byte on, with the number of bytes read. -/
def leb128ULoop : List UInt8 → Nat → BitVec 32 → Nat → Option (Nat × Nat)
  | [], _, _, _ => none
  | byte :: rest, shift, result, read =>
      let result := result ||| (BitVec.ofNat 32 (byte &&& 0x7F).toNat <<< (shift % 32))
      if byte &&& 0x80 = 0 then some (result.toNat, read + 1)
      else leb128ULoop rest (shift + 7) result (read + 1)

def leb128U (buf : List UInt8) (offset : Nat) : Option (Nat × Nat) :=
  (leb128ULoop (buf.drop offset) 0 0 0).map fun r => (r.1, offset + r.2)

def leb128SLoop (w : Nat) : List UInt8 → Nat → BitVec w → Nat → Option (BitVec w × Nat)
  | [], _, _, _ => none
  | byte :: rest, shift, result, read =>
      let result := result ||| (BitVec.ofNat w (byte &&& 0x7F).toNat <<< (shift % w))
      let shift := shift + 7
      if byte &&& 0x80 = 0 then
        if shift < w ∧ byte &&& 0x40 ≠ 0 then
          some (result ||| (BitVec.allOnes w <<< shift), read + 1)
        else some (result, read + 1)
      else leb128SLoop w rest shift result (read + 1)

def leb128S (buf : List UInt8) (offset : Nat) : Option (BitVec 32 × Nat) :=
  (leb128SLoop 32 (buf.drop offset) 0 0 0).map fun r => (r.1, offset + r.2)

def leb128S64 (buf : List UInt8) (offset : Nat) : Option (BitVec 64 × Nat) :=
  (leb128SLoop 64 (buf.drop offset) 0 0 0).map fun r => (r.1, offset + r.2)

theorem leb128ULoop_lt {bytes : List UInt8} {shift read : Nat} {result : BitVec 32} {v k : Nat}
    (h : leb128ULoop bytes shift result read = some (v, k)) : v < 2 ^ 32 := by
  induction bytes generalizing shift result read with
  | nil => cases h
  | cons byte rest ih =>
    unfold leb128ULoop at h
    split at h
    · cases h
      exact BitVec.isLt _
    · exact ih h

theorem leb128U_lt {buf : List UInt8} {offset v next : Nat}
    (h : leb128U buf offset = some (v, next)) :
    v < 2 ^ 32 := by
  obtain ⟨⟨r, k⟩, hloop, hr⟩ := Option.map_eq_some_iff.mp h
  cases hr
  exact leb128ULoop_lt hloop

def continuation : List UInt8 → Nat
  | [] => 0
  | byte :: rest => if byte &&& 0x80 = 0 then 0 else continuation rest + 1

def skipLeb128 (bc : List UInt8) (pc : Nat) : Nat := pc + continuation (bc.drop pc) + 1

/-! ### Encoded values are read back -/

def leb128Size (buf : List UInt8) (offset : Nat) : Nat := continuation (buf.drop offset) + 1

/-- The LEB128 encoding of `v` in `k + 1` groups of seven bits. -/
def encode : Nat → Nat → List UInt8
  | 0, v => [UInt8.ofNat v]
  | k + 1, v => UInt8.ofNat (v % 128 + 128) :: encode k (v / 128)

/-- A signed value is encoded by the groups of its two's complement. -/
def encodeSigned (k : Nat) (v : Int) : List UInt8 := encode k (BitVec.ofInt (7 * k + 7) v).toNat

/-- Anywhere in a buffer, reading the code gives the value and moves the offset behind the code,
    which is as long as `leb128_size` says and as `skip_leb128` skips. -/
def ReadsAs {α : Type} (read : List UInt8 → Nat → Option (α × Nat)) (code : List UInt8) (v : α) :
    Prop :=
  ∀ before rest, let buf := before ++ (code ++ rest)
    read buf before.length = some (v, before.length + code.length) ∧
      leb128Size buf before.length = code.length ∧
      skipLeb128 buf before.length = before.length + code.length

theorem group : ∀ n < 128, UInt8.ofNat n &&& 0x80 = 0 ∧ (UInt8.ofNat n &&& 0x7F).toNat = n ∧
    (UInt8.ofNat n &&& 0x40 ≠ 0 ↔ n.testBit 6) ∧ UInt8.ofNat (n + 128) &&& 0x80 ≠ 0 ∧
    (UInt8.ofNat (n + 128) &&& 0x7F).toNat = n := by
  decide

theorem div_group {k v : Nat} (hv : v < 2 ^ (7 * (k + 1) + 7)) : v / 128 < 2 ^ (7 * k + 7) :=
  Nat.div_lt_of_lt_mul (Nat.lt_of_lt_of_eq hv (Nat.pow_add' 2 (7 * k + 7) 7))

/-- A group below the groups of the rest of the value. -/
theorem or_group {w : Nat} (r : BitVec w) (v shift : Nat) :
    r ||| BitVec.ofNat w (v % 128) <<< shift ||| BitVec.ofNat w (v / 128) <<< (shift + 7) =
      r ||| BitVec.ofNat w v <<< shift := by
  refine BitVec.eq_of_getLsbD_eq fun i hi => ?_
  have hlow := Nat.testBit_mod_two_pow v 7 (i - shift)
  have hhigh : (v / 2 ^ 7).testBit (i - (shift + 7)) = _ := Nat.testBit_div_two_pow _ _
  simp only [BitVec.getLsbD_or, BitVec.getLsbD_shiftLeft, BitVec.getLsbD_ofNat]
  grind

section Groups

variable {k v : Nat} (rest : List UInt8) (hv : v < 2 ^ (7 * k + 7))
include hv

theorem continuation_encode :
    continuation (encode k v ++ rest) = k ∧ (encode k v).length = k + 1 := by
  induction k generalizing v with
  | zero => exact ⟨if_pos (group v hv).1, rfl⟩
  | succ k ih =>
    obtain ⟨hmore, hlength⟩ := ih (div_group hv)
    have hgroup := group (v % 128) (Nat.mod_lt v (by decide))
    simp only [encode, List.cons_append, continuation, hgroup, hmore, List.length_cons, hlength,
      if_false, and_self]

theorem leb128ULoop_encode {shift : Nat} (r : BitVec 32) (read : Nat) (hs : shift + 7 * k < 32) :
    leb128ULoop (encode k v ++ rest) shift r read =
      some ((r ||| BitVec.ofNat 32 v <<< shift).toNat, read + (k + 1)) := by
  have hshift : shift % 32 = shift := Nat.mod_eq_of_lt (by omega)
  induction k generalizing v shift r read with
  | zero => simp [encode, leb128ULoop, group v hv, hshift]
  | succ k ih =>
    have hgroup := group (v % 128) (Nat.mod_lt v (by decide))
    simp only [encode, List.cons_append, leb128ULoop, hgroup, hshift, if_false]
    rw [ih (div_group hv) _ _ (by omega) (Nat.mod_eq_of_lt (by omega)), or_group]
    grind

theorem leb128SLoop_encode {w shift : Nat} (r : BitVec w) (read : Nat) (hs : shift + 7 * k < w) :
    leb128SLoop w (encode k v ++ rest) shift r read =
      some (r ||| BitVec.ofNat w v <<< shift ||| if shift + 7 * k + 7 < w ∧ v.testBit (7 * k + 6)
        then BitVec.allOnes w <<< (shift + 7 * k + 7) else 0, read + (k + 1)) := by
  have hshift : shift % w = shift := Nat.mod_eq_of_lt (by omega)
  induction k generalizing v shift r read with
  | zero =>
    obtain ⟨hstop, hgroup, hsign, -⟩ := group v hv
    simp only [encode, List.cons_append, leb128SLoop, hstop, hgroup, hsign, hshift, if_true]
    split <;> simp_all
  | succ k ih =>
    have hgroup := group (v % 128) (Nat.mod_lt v (by decide))
    have hbit : (v / 2 ^ 7).testBit (7 * k + 6) = _ := Nat.testBit_div_two_pow _ _
    simp only [encode, List.cons_append, leb128SLoop, hgroup, hshift, if_false]
    rw [ih (div_group hv) _ _ (by omega) (Nat.mod_eq_of_lt (by omega)), or_group]
    grind

end Groups

/-- Filling up above the groups with their sign extends it. -/
theorem fill_eq (w : Nat) {m : Nat} (v : BitVec (m + 1)) :
    (BitVec.ofNat w v.toNat ||| if m + 1 < w ∧ v.toNat.testBit m then
      BitVec.allOnes w <<< (m + 1) else 0) = v.signExtend w := by
  refine BitVec.eq_of_getLsbD_eq fun i hi => ?_
  have hmsb : v.msb = v.getLsbD m := BitVec.msb_eq_getLsbD_last v
  have hbit := BitVec.getLsbD_of_ge v i
  rw [BitVec.getLsbD_signExtend]
  split <;> simp_all [BitVec.getLsbD]
  all_goals grind

theorem readsAs_of_loop {α : Type} (loop : List UInt8 → Option (α × Nat)) {k c : Nat} {v : α}
    (hc : c < 2 ^ (7 * k + 7)) (hloop : ∀ rest, loop (encode k c ++ rest) = some (v, k + 1)) :
    ReadsAs (fun buf offset => (loop (buf.drop offset)).map fun r => (r.1, offset + r.2))
      (encode k c) v := by
  intro before rest
  obtain ⟨hmore, hlength⟩ := continuation_encode rest hc
  simp [hloop, leb128Size, skipLeb128, hmore, hlength, Nat.add_assoc]

theorem leb128SLoop_reads {w k : Nat} {v : BitVec w} (hk : 7 * k < w)
    (hlow : -2 ^ (7 * k + 6) ≤ v.toInt) (hhigh : v.toInt < 2 ^ (7 * k + 6)) (rest : List UInt8) :
    leb128SLoop w (encodeSigned k v.toInt ++ rest) 0 0 0 = some (v, k + 1) := by
  have hfits : (BitVec.ofInt (7 * k + 7) v.toInt).toInt = v.toInt := by
    rw [BitVec.toInt_ofInt_eq_self]
    all_goals grind
  have hfill := fill_eq w (BitVec.ofInt (7 * k + 7) v.toInt)
  rw [BitVec.signExtend, hfits, BitVec.ofInt_toInt] at hfill
  rw [encodeSigned, leb128SLoop_encode rest (BitVec.isLt _) 0 0 (by omega)]
  simpa using hfill

/-- **Reading back.**  A value that fits into `k + 1` groups, up to five for 32 bits and ten for
    64, is read from them. -/
theorem leb128_reads_back (k : Nat) :
    (∀ v : BitVec 32, k < 5 → v.toNat < 2 ^ (7 * k + 7) →
      ReadsAs leb128U (encode k v.toNat) v.toNat) ∧
    (∀ v : BitVec 32, k < 5 → -2 ^ (7 * k + 6) ≤ v.toInt → v.toInt < 2 ^ (7 * k + 6) →
      ReadsAs leb128S (encodeSigned k v.toInt) v) ∧
    ∀ v : BitVec 64, k < 10 → -2 ^ (7 * k + 6) ≤ v.toInt → v.toInt < 2 ^ (7 * k + 6) →
      ReadsAs leb128S64 (encodeSigned k v.toInt) v := by
  refine ⟨fun v hk hv => ?_, fun v hk hlow hhigh => ?_, fun v hk hlow hhigh => ?_⟩
  · refine readsAs_of_loop (leb128ULoop · 0 0 0) hv fun rest => ?_
    rw [leb128ULoop_encode rest hv 0 0 (by omega)]
    simp
  · exact readsAs_of_loop (leb128SLoop 32 · 0 0 0) (BitVec.isLt _)
      (leb128SLoop_reads (by omega) hlow hhigh)
  · exact readsAs_of_loop (leb128SLoop 64 · 0 0 0) (BitVec.isLt _)
      (leb128SLoop_reads (by omega) hlow hhigh)

theorem leb128_reads_back_padded : ReadsAs leb128U (encode 4 300) 300 ∧
    ReadsAs leb128S (encodeSigned 0 (-1)) (-1) ∧ ReadsAs leb128S64 (encodeSigned 9 (-1)) (-1) :=
  ⟨(leb128_reads_back 4).1 300 (by decide) (by decide),
    (leb128_reads_back 0).2.1 (-1) (by decide) (by decide) (by decide),
    (leb128_reads_back 9).2.2 (-1) (by decide) (by decide) (by decide)⟩

/-! ### The end of a block -/

/-- The address behind an instruction that neither opens nor closes a block. -/
def skipInstruction (bc : List UInt8) (opcode : UInt8) (pc : Nat) : Nat :=
  -- `br`, `br_if`, `call`, `local.get`, `local.set`, constants
  if opcode ∈ [0x0C, 0x0D, 0x10, 0x20, 0x21, 0x41, 0x42] then skipLeb128 bc (pc + 1)
  -- loads and stores: alignment and offset
  else if opcode ∈ [0x28, 0x29, 0x2C, 0x2D, 0x2E, 0x2F, 0x30, 0x31, 0x32, 0x33, 0x34, 0x35,
      0x36, 0x37, 0x3A, 0x3B, 0x3C, 0x3D, 0x3E] then
    skipLeb128 bc (skipLeb128 bc (pc + 1))
  -- `memory.size`, `memory.grow`
  else if opcode ∈ [0x3F, 0x40] then pc + 2
  else pc + 1

/-- The loop of `find_matching_end`; each pass advances `pc`. -/
def findEndLoop (bc : List UInt8) : Nat → Nat → Nat → Except String Nat
  | 0, _, _ => .error "find_end: end not found"
  | fuel + 1, pc, depth =>
      match bc[pc]? with
      | none => .error "find_end: end not found"
      | some opcode =>
          if opcode ∈ [0x02, 0x03, 0x04] then findEndLoop bc fuel (pc + 2) (depth + 1)
          else if opcode = 0x0B then
            if depth - 1 = 0 then .ok (pc + 1) else findEndLoop bc fuel (pc + 1) (depth - 1)
          else findEndLoop bc fuel (skipInstruction bc opcode pc) depth

def findMatchingEnd (bc : List UInt8) (pc : Nat) : Except String Nat :=
  if bc.length ≤ pc then .error "find_end: pc OOB"
  else findEndLoop bc (bc.length - pc) (pc + 2) 1

def findIfElseLoop (bc : List UInt8) : Nat → Nat → Nat → Nat → Except String (Nat × Nat)
  | 0, _, _, _ => .error "if_else_end: end not found"
  | fuel + 1, pc, depth, elsePc =>
      match bc[pc]? with
      | none => .error "if_else_end: end not found"
      | some opcode =>
          if opcode ∈ [0x02, 0x03, 0x04] then findIfElseLoop bc fuel (pc + 2) (depth + 1) elsePc
          else if opcode = 0x05 then
            findIfElseLoop bc fuel (pc + 1) depth
              (if depth = 1 ∧ elsePc = 0 then pc else elsePc)
          else if opcode = 0x0B then
            if depth - 1 = 0 then .ok (elsePc, pc + 1)
            else findIfElseLoop bc fuel (pc + 1) (depth - 1) elsePc
          else findIfElseLoop bc fuel (skipInstruction bc opcode pc) depth elsePc

/-- The positions of `else` (0 if there is none) and behind `end`. -/
def findIfElseEnd (bc : List UInt8) (pc : Nat) : Except String (Nat × Nat) :=
  if bc.length ≤ pc then .error "if_else_end: pc OOB"
  else findIfElseLoop bc (bc.length - pc) (pc + 2) 1 0

end TrainOS.Wasm
