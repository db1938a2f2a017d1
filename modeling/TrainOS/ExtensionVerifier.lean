import TrainOS.ByteMemory

/-!
# The kernel-extension bytecode and its verifier (`extension/mod.rs`)

The encoding of the eight-byte instructions and `verify_bytecode`, a depth-first search from
`pc = 0` that checks every instruction it reaches and rejects every jump that is not forward,
aligned and inside the program.  An index outside a slice is the verdict `panicked`.
-/

namespace TrainOS.ExtensionVm

def MAX_BYTECODE : Nat := 512
def SCRATCH_SIZE : Nat := 256
def CYCLE_BUDGET : Nat := 1000
def REG_COUNT : Nat := 32
def STACK_DEPTH : Nat := 32

/-! ### Instructions -/

inductive Opcode where
  | mov | add | sub | cmp | jmp | je | jne | load | store | push | pop | ret
deriving DecidableEq, Repr

def Opcode.ofByte (b : UInt8) : Option Opcode :=
  if b = 0x01 then some .mov
  else if b = 0x02 then some .add
  else if b = 0x03 then some .sub
  else if b = 0x04 then some .cmp
  else if b = 0x05 then some .jmp
  else if b = 0x06 then some .je
  else if b = 0x07 then some .jne
  else if b = 0x08 then some .load
  else if b = 0x09 then some .store
  else if b = 0x0A then some .push
  else if b = 0x0B then some .pop
  else if b = 0x0C then some .ret
  else none

/-- The eight bytes of one instruction, with the immediate as a `u32`. -/
structure Insn where
  op : UInt8
  r1 : Nat
  r2 : Nat
  r3 : Nat
  imm : Nat
deriving DecidableEq, Repr

def Insn.offset (i : Insn) : Int :=
  if i.imm < 2 ^ 31 then (i.imm : Int) else (i.imm : Int) - 2 ^ 32

/-- Read the instruction at byte offset `pc`; `none` is the panic of an index
    outside the slice. -/
def fetch (bc : List UInt8) (pc : Nat) : Option Insn := do
  let op ← bc[pc]?
  let r1 ← bc[pc + 1]?
  let r2 ← bc[pc + 2]?
  let r3 ← bc[pc + 3]?
  let b0 ← bc[pc + 4]?
  let b1 ← bc[pc + 5]?
  let b2 ← bc[pc + 6]?
  let b3 ← bc[pc + 7]?
  pure ⟨op, r1.toNat, r2.toNat, r3.toNat,
    b0.toNat + 256 * b1.toNat + 65536 * b2.toNat + 16777216 * b3.toNat⟩

theorem fetch_isSome {bc : List UInt8} {pc : Nat} (h : pc + 8 ≤ bc.length) :
    ∃ i, fetch bc pc = some i ∧ bc[pc]? = some i.op := by
  have hget : ∀ k, k < 8 → ∃ b, bc[pc + k]? = some b := fun k hk =>
    ⟨bc[pc + k], List.getElem?_eq_getElem (by omega)⟩
  obtain ⟨op, hop⟩ := hget 0 (by omega)
  obtain ⟨r1, h1⟩ := hget 1 (by omega)
  obtain ⟨r2, h2⟩ := hget 2 (by omega)
  obtain ⟨r3, h3⟩ := hget 3 (by omega)
  obtain ⟨b0, h4⟩ := hget 4 (by omega)
  obtain ⟨b1, h5⟩ := hget 5 (by omega)
  obtain ⟨b2, h6⟩ := hget 6 (by omega)
  obtain ⟨b3, h7⟩ := hget 7 (by omega)
  rw [Nat.add_zero] at hop
  refine ⟨⟨op, r1.toNat, r2.toNat, r3.toNat,
    b0.toNat + 256 * b1.toNat + 65536 * b2.toNat + 16777216 * b3.toNat⟩, ?_, hop⟩
  simp only [fetch, hop, h1, h2, h3, h4, h5, h6, h7, Option.bind_eq_bind, Option.bind_some]
  rfl

/-! ### One instruction -/

def require (ok : Bool) (msg : String) : Except String Unit :=
  if ok then .ok () else .error msg

def fallThrough (maxInst pc : Nat) : List Nat :=
  if pc / 8 + 1 < maxInst then [pc + 8] else []

/-- The three checks made on a jump, in the order of the source.  The target is
    `pc + offset`; once the offset is positive the cast to `usize` is exact. -/
def checkJump (bcLen pc : Nat) (i : Insn) (back misaligned outside : String) :
    Except String Nat := do
  require (decide (0 < i.offset)) back
  let target := pc + i.offset.toNat
  require (target % 8 == 0) misaligned
  require (decide (target < bcLen)) outside
  pure target

/-- The `match op` of `verify_bytecode`: the checks on one instruction, and the
    addresses that the search follows from it, in the order they are pushed. -/
def checkInsn (bcLen maxInst pc : Nat) (i : Insn) : Except String (List Nat) :=
  match Opcode.ofByte i.op with
  | some .ret => pure []
  | some .jmp => do
      let target ← checkJump bcLen pc i "JMP: back-edge (non-positive offset)"
        "JMP: misaligned target" "JMP: target out of bounds"
      pure [target]
  | some .je | some .jne => do
      let target ← checkJump bcLen pc i "conditional jump: back-edge (non-positive offset)"
        "conditional jump: misaligned target" "conditional jump: target out of bounds"
      pure (fallThrough maxInst pc ++ [target])
  | some .mov => do
      require (decide (i.r1 < 32)) "MOV: invalid dst register"
      pure (fallThrough maxInst pc)
  | some .add | some .sub => do
      require (decide (i.r1 < 32)) "ADD/SUB: invalid dst register"
      require (decide (i.r2 < 32)) "ADD/SUB: invalid src1 register"
      require (decide (i.r3 < 32)) "ADD/SUB: invalid src2 register"
      pure (fallThrough maxInst pc)
  | some .cmp => do
      require (decide (i.r2 < 32)) "CMP: invalid src1 register"
      require (decide (i.r3 < 32)) "CMP: invalid src2 register"
      pure (fallThrough maxInst pc)
  | some .load => do
      require (decide (i.r1 < 32)) "LOAD: invalid dst register"
      require (decide (i.imm + 8 ≤ SCRATCH_SIZE)) "LOAD: scratch access out of bounds"
      pure (fallThrough maxInst pc)
  | some .store => do
      require (decide (i.r2 < 32)) "STORE: invalid src register"
      require (decide (i.imm + 8 ≤ SCRATCH_SIZE)) "STORE: scratch access out of bounds"
      pure (fallThrough maxInst pc)
  | some .push => do
      require (decide (i.r2 < 32)) "PUSH: invalid src register"
      pure (fallThrough maxInst pc)
  | some .pop => do
      require (decide (i.r1 < 32)) "POP: invalid dst register"
      pure (fallThrough maxInst pc)
  | none => .error "unknown opcode"

/-! ### The search -/

inductive Verdict where
  | accepted
  | rejected (msg : String)
  | panicked
deriving DecidableEq, Repr

/-- Push, in order, the successors that are not visited yet; the head of the
    list is the top of the stack.  A successor lies inside the program, so its
    index is always in the array. -/
def pushUnvisited (visited : List Bool) (stack : List Nat) : List Nat → List Nat
  | [] => stack
  | t :: rest =>
      match visited[t / 8]? with
      | some false => pushUnvisited visited (t :: stack) rest
      | _ => pushUnvisited visited stack rest

/-- The `while sp > 0` loop.  Every round that does not stop marks a fresh
    index of the 64-entry visited array, so 65 rounds are enough. -/
def verifyLoop (bc : List UInt8) (maxInst : Nat) :
    Nat → List Bool → List Nat → Verdict
  | _, _, [] =>
      match bc[bc.length - 8]? with
      | none => .panicked
      | some b =>
          if Opcode.ofByte b = some .ret then .accepted
          else .rejected "bytecode must end with RET instruction"
  | 0, _, _ :: _ => .panicked
  | fuel + 1, visited, pc :: stack =>
      if maxInst ≤ pc / 8 then .rejected "pc out of bounds"
      else
        match visited[pc / 8]? with
        | none => .panicked
        | some true => .rejected "back-edge detected (potential infinite loop)"
        | some false =>
            match fetch bc pc with
            | none => .panicked
            | some i =>
                match checkInsn bc.length maxInst pc i with
                | .error msg => .rejected msg
                | .ok succs =>
                    let visited' := visited.set (pc / 8) true
                    let stack' := pushUnvisited visited' stack succs
                    if 64 ≤ stack'.length then
                      .rejected "control flow too complex for verifier"
                    else verifyLoop bc maxInst fuel visited' stack'

def verifyBytecode (bc : List UInt8) : Verdict :=
  if bc.isEmpty then .rejected "empty bytecode"
  else if bc.length < 8 then .rejected "bytecode too short (min 8 bytes)"
  else if MAX_BYTECODE < bc.length then .rejected "bytecode exceeds maximum length"
  else if bc.length % 8 ≠ 0 then .rejected "bytecode length not multiple of 8"
  else verifyLoop bc (bc.length / 8) 65 (List.replicate 64 false) [0]

end TrainOS.ExtensionVm
