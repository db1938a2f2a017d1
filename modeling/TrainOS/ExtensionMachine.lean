import TrainOS.ExtensionVerifier

/-!
# The extension interpreter

`execute_extension` of `kernel/src/extension/mod.rs`: 32 registers of 64 bits,
a scratch buffer that survives between invocations, a stack of 32 entries for
`PUSH`/`POP` and a budget of 1000 cycles.  The interpreter indexes its register
file with the raw register bytes of an instruction, so an unverified program
can panic; `Halt.panicked` is that outcome.
-/

namespace TrainOS.ExtensionVm

open TrainOS.ByteMemory

/-- `ExecResult`, with the panic of an index outside an array. -/
inductive Halt where
  | ok
  | timeout
  | error (msg : String)
  | panicked
deriving DecidableEq, Repr

/-- The fields of `Extension` that `execute_extension` uses. -/
structure Extension where
  bytecode : List UInt8
  bcLen : Nat
  scratch : Memory

/-- The local variables of `execute_extension`; the head of `stack` is its top. -/
structure Vm where
  regs : Fin REG_COUNT → UInt64
  stack : List UInt64
  pc : Nat
  cycles : Nat
  eqFlag : Bool
  scratch : Memory

/-- What one instruction does: go on, or stop. -/
inductive Effect where
  | next (vm : Vm)
  | halt (h : Halt) (vm : Vm)

def Vm.setReg (vm : Vm) (r : Fin REG_COUNT) (v : UInt64) : Vm :=
  { vm with regs := fun q => if q = r then v else vm.regs q }

def Vm.advance (vm : Vm) : Vm := { vm with pc := vm.pc + 8 }

/-- Use register `r`, or panic. -/
def withReg (vm : Vm) (r : Nat) (k : Fin REG_COUNT → Effect) : Effect :=
  if h : r < REG_COUNT then k ⟨r, h⟩ else .halt .panicked vm

def jumpTo (bcLen : Nat) (vm : Vm) (i : Insn) (msg : String) : Effect :=
  let target : Int := vm.pc + i.offset
  if target < 0 ∨ bcLen ≤ target.toNat ∨ target.toNat % 8 ≠ 0 then .halt (.error msg) vm
  else .next { vm with pc := target.toNat }

def execInsn (bcLen : Nat) (vm : Vm) (i : Insn) : Effect :=
  match Opcode.ofByte i.op with
  | some .mov => withReg vm i.r1 fun d => .next (vm.setReg d (UInt64.ofNat i.imm)).advance
  | some .add =>
      withReg vm i.r2 fun a => withReg vm i.r3 fun b => withReg vm i.r1 fun d =>
        .next (vm.setReg d (vm.regs a + vm.regs b)).advance
  | some .sub =>
      withReg vm i.r2 fun a => withReg vm i.r3 fun b => withReg vm i.r1 fun d =>
        .next (vm.setReg d (vm.regs a - vm.regs b)).advance
  | some .cmp =>
      withReg vm i.r2 fun a => withReg vm i.r3 fun b =>
        .next { vm with eqFlag := vm.regs a == vm.regs b }.advance
  | some .jmp => jumpTo bcLen vm i "JMP: invalid target at runtime"
  | some .je =>
      if vm.eqFlag then jumpTo bcLen vm i "JE: invalid target at runtime"
      else .next vm.advance
  | some .jne =>
      if vm.eqFlag then .next vm.advance
      else jumpTo bcLen vm i "JNE: invalid target at runtime"
  | some .load =>
      if SCRATCH_SIZE < i.imm + 8 then .halt (.error "LOAD: scratch out of bounds at runtime") vm
      else withReg vm i.r1 fun d =>
        .next (vm.setReg d (UInt64.ofNat (readLE vm.scratch i.imm 8))).advance
  | some .store =>
      if SCRATCH_SIZE < i.imm + 8 then .halt (.error "STORE: scratch out of bounds at runtime") vm
      else withReg vm i.r2 fun a =>
        .next { vm with scratch := writeLE vm.scratch i.imm 8 (vm.regs a).toNat }.advance
  | some .push =>
      if STACK_DEPTH ≤ vm.stack.length then .halt (.error "execution stack overflow") vm
      else withReg vm i.r2 fun a => .next { vm with stack := vm.regs a :: vm.stack }.advance
  | some .pop =>
      match vm.stack with
      | [] => .halt (.error "execution stack underflow") vm
      | v :: rest => withReg vm i.r1 fun d => .next ({ vm with stack := rest }.setReg d v).advance
  | some .ret => .halt .ok vm
  | none => .halt (.error "unknown opcode at runtime") vm

def step (bc : List UInt8) (bcLen : Nat) (vm : Vm) : Effect :=
  if bcLen < vm.pc + 8 then .halt (.error "pc out of bounds at runtime") vm
  else
    match fetch bc vm.pc with
    | none => .halt .panicked vm
    | some i => execInsn bcLen { vm with cycles := vm.cycles + 1 } i

/-- The interpreter loop, with the machine it leaves behind.  `cycles` counts the
    executed instructions and grows in every round, so the budget check stops
    the loop within `CYCLE_BUDGET + 1` rounds. -/
def execLoop (bc : List UInt8) (bcLen : Nat) : Nat → Vm → Halt × Vm
  | 0, vm => (.timeout, vm)
  | fuel + 1, vm =>
      if CYCLE_BUDGET ≤ vm.cycles then (.timeout, vm)
      else
        match step bc bcLen vm with
        | .next vm' => execLoop bc bcLen fuel vm'
        | .halt h vm' => (h, vm')

/-- The machine at the start of an invocation: the hook type and its context in
    registers 30 and 31 and in the first 16 bytes of the scratch buffer. -/
def Vm.init (ext : Extension) (hookType : UInt8) (context0 context1 : UInt64) : Vm where
  regs := fun r =>
    if r.val = 30 then UInt64.ofNat hookType.toNat
    else if r.val = 31 then context0 else 0
  stack := []
  pc := 0
  cycles := 0
  eqFlag := false
  scratch := writeLE (writeLE ext.scratch 0 8 context0.toNat) 8 8 context1.toNat

/-- `execute_extension`: how the invocation ends, and the machine at that point.
    Its `scratch` is the extension's scratch buffer from then on. -/
def executeExtension (ext : Extension) (hookType : UInt8) (context0 context1 : UInt64) :
    Halt × Vm :=
  execLoop (ext.bytecode.take ext.bcLen) ext.bcLen (CYCLE_BUDGET + 1)
    (Vm.init ext hookType context0 context1)

end TrainOS.ExtensionVm
