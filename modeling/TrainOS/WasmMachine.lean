import TrainOS.WasmModule
import TrainOS.StateExcept

/-!
# The interpreter (`wasm_execute` in `wasm/mod.rs`)

The stacks are arrays with a pointer, as in the source: values above the pointer stay.  An
instruction is a program on the state of the execution; it stops with an error text or
with a panic (an index outside an array).  The loop runs at most `CYCLE_BUDGET` times.
-/

namespace TrainOS.Wasm

open ByteMemory MachineWord StateExcept

def VALUE_STACK_SIZE : Nat := 256

def CALL_STACK_SIZE : Nat := 32

def MAX_LOCALS : Nat := 16

def CYCLE_BUDGET : Nat := 10000

/-! ### Instructions -/

/-- The instructions on two 32-bit operands. -/
inductive BinOp where
  | eq | ne | ltS | ltU | gtS | gtU | leS | leU | geS | geU
  | add | sub | mul | divS | divU | remS | remU
  | and | or | xor | shl | shrS | shrU | rotl | rotr
deriving DecidableEq, Repr

def BinOp.name : BinOp → String
  | .eq => "i32.eq" | .ne => "i32.ne"
  | .ltS => "i32.lt_s" | .ltU => "i32.lt_u" | .gtS => "i32.gt_s" | .gtU => "i32.gt_u"
  | .leS => "i32.le_s" | .leU => "i32.le_u" | .geS => "i32.ge_s" | .geU => "i32.ge_u"
  | .add => "i32.add" | .sub => "i32.sub" | .mul => "i32.mul"
  | .divS => "i32.div_s" | .divU => "i32.div_u" | .remS => "i32.rem_s" | .remU => "i32.rem_u"
  | .and => "i32.and" | .or => "i32.or" | .xor => "i32.xor"
  | .shl => "i32.shl" | .shrS => "i32.shr_s" | .shrU => "i32.shr_u"
  | .rotl => "i32.rotl" | .rotr => "i32.rotr"

def signed (v : BitVec 32) : BitVec 64 := v.signExtend 64

def unsigned (v : BitVec 32) : BitVec 64 := v.setWidth 64

def truth (b : Bool) : BitVec 64 := if b then 1 else 0

def BinOp.apply (op : BinOp) (a b : BitVec 32) : Except String (BitVec 64) :=
  let shift := b.toNat % 32
  match op with
  | .eq => .ok (truth (a == b))
  | .ne => .ok (truth (a != b))
  | .ltS => .ok (truth (a.slt b))
  | .ltU => .ok (truth (a.ult b))
  | .gtS => .ok (truth (b.slt a))
  | .gtU => .ok (truth (b.ult a))
  | .leS => .ok (truth (a.sle b))
  | .leU => .ok (truth (a.ule b))
  | .geS => .ok (truth (b.sle a))
  | .geU => .ok (truth (b.ule a))
  | .add => .ok (signed (a + b))
  | .sub => .ok (signed (a - b))
  | .mul => .ok (signed (a * b))
  | .divS =>
      if b = 0 then .error ": divide by zero"
      else if a = BitVec.intMin 32 ∧ b = -1 then .error ": overflow"
      else .ok (signed (a.sdiv b))
  | .divU => if b = 0 then .error ": divide by zero" else .ok (unsigned (a / b))
  | .remS =>
      if b = 0 then .error ": divide by zero"
      else if a = BitVec.intMin 32 ∧ b = -1 then .ok 0
      else .ok (signed (a.srem b))
  | .remU => if b = 0 then .error ": divide by zero" else .ok (unsigned (a % b))
  | .and => .ok (signed (a &&& b))
  | .or => .ok (signed (a ||| b))
  | .xor => .ok (signed (a ^^^ b))
  | .shl => .ok (unsigned (a <<< shift))
  | .shrS => .ok (signed (a.sshiftRight shift))
  | .shrU => .ok (unsigned (a >>> shift))
  | .rotl => .ok (unsigned (a.rotateLeft shift))
  | .rotr => .ok (unsigned (a.rotateRight shift))

/-- A load of `width` bytes, extended with the sign or with zeros. -/
structure LoadOp where
  name : String
  width : Nat
  isSigned : Bool

def LoadOp.extend (op : LoadOp) (v : Nat) : BitVec 64 :=
  if op.isSigned then (BitVec.ofNat (8 * op.width) v).signExtend 64 else BitVec.ofNat 64 v

/-- A store of the low `width` bytes. -/
structure StoreOp where
  name : String
  width : Nat

inductive Opcode where
  | unreachable | nop | block | loop | if_ | else_ | end_ | br | brIf | return_ | call | select
  | localGet | localSet | localTee | i32Const | i64Const
  | i32WrapI64 | i64ExtendI32S | i64ExtendI32U | i32Eqz
  | binary (op : BinOp)
  | load (op : LoadOp)
  | store (op : StoreOp)
  | memorySize | memoryGrow

def opcodes : List (UInt8 × Opcode) :=
  [(0x00, .unreachable), (0x01, .nop), (0x02, .block), (0x03, .loop), (0x04, .if_),
   (0x05, .else_), (0x0B, .end_), (0x0C, .br), (0x0D, .brIf), (0x0F, .return_), (0x10, .call),
   (0x1B, .select), (0x20, .localGet), (0x21, .localSet), (0x22, .localTee),
   (0x41, .i32Const), (0x42, .i64Const), (0xA7, .i32WrapI64), (0xAC, .i64ExtendI32S),
   (0xAD, .i64ExtendI32U), (0x45, .i32Eqz),
   (0x46, .binary .eq), (0x47, .binary .ne), (0x48, .binary .ltS), (0x49, .binary .ltU),
   (0x4A, .binary .gtS), (0x4B, .binary .gtU), (0x4C, .binary .leS), (0x4D, .binary .leU),
   (0x4E, .binary .geS), (0x4F, .binary .geU), (0x6A, .binary .add), (0x6B, .binary .sub),
   (0x6C, .binary .mul), (0x6D, .binary .divS), (0x6E, .binary .divU), (0x6F, .binary .remS),
   (0x70, .binary .remU), (0x71, .binary .and), (0x72, .binary .or), (0x73, .binary .xor),
   (0x74, .binary .shl), (0x75, .binary .shrS), (0x76, .binary .shrU), (0x77, .binary .rotl),
   (0x78, .binary .rotr),
   (0x28, .load ⟨"i32.load", 4, false⟩), (0x29, .load ⟨"i64.load", 8, false⟩),
   (0x2C, .load ⟨"i32.load8_s", 1, true⟩), (0x2D, .load ⟨"i32.load8_u", 1, false⟩),
   (0x2E, .load ⟨"i32.load16_s", 2, true⟩), (0x2F, .load ⟨"i32.load16_u", 2, false⟩),
   (0x30, .load ⟨"i64.load8_s", 1, true⟩), (0x31, .load ⟨"i64.load8_u", 1, false⟩),
   (0x32, .load ⟨"i64.load16_s", 2, true⟩), (0x33, .load ⟨"i64.load16_u", 2, false⟩),
   (0x34, .load ⟨"i64.load32_s", 4, true⟩), (0x35, .load ⟨"i64.load32_u", 4, false⟩),
   (0x36, .store ⟨"i32.store", 4⟩), (0x37, .store ⟨"i64.store", 8⟩),
   (0x3A, .store ⟨"i32.store8", 1⟩), (0x3B, .store ⟨"i32.store16", 2⟩),
   (0x3C, .store ⟨"i64.store8", 1⟩), (0x3D, .store ⟨"i64.store16", 2⟩),
   (0x3E, .store ⟨"i64.store32", 4⟩), (0x3F, .memorySize), (0x40, .memoryGrow)]

def Opcode.decode (byte : UInt8) : Option Opcode :=
  (opcodes.find? fun entry => entry.1 == byte).map Prod.snd

/-! ### The state of an execution -/

inductive CtrlKind where
  | func
  | block
  | loop
  | if_
deriving DecidableEq, Repr

structure CtrlFrame where
  kind : CtrlKind
  pcCont : Nat
  sp : Nat

structure Frame where
  pc : Nat
  sp : Nat
  locals : List (BitVec 64)

structure Exec where
  wasm : Runtime
  id : Nat
  valueStack : List (BitVec 64)
  sp : Nat
  callStack : List Frame
  fp : Nat
  ctrlStack : List CtrlFrame
  cp : Nat
  newPc : Nat

/-- Why an execution stops without a result; `idle` is the idle loop of the kernel. -/
inductive Stop where
  | err (msg : String)
  | panic
  | idle
deriving DecidableEq, Repr

abbrev Interp (α : Type) := Prog Exec Stop α

/-- What the loop does after an instruction: store `new_pc` and go on, go on at once, or
    leave the loop. -/
inductive Flow where
  | next
  | again
  | done
deriving DecidableEq

def failIf (c : Prop) [Decidable c] (msg : String) : Interp Unit :=
  if c then throw (.err msg) else pure ()

def orPanic {α : Type} : Option α → Interp α
  | some a => pure a
  | none => throw .panic

def orFail {α : Type} : Except String α → Interp α
  | .ok a => pure a
  | .error msg => throw (.err msg)

def Exec.module (e : Exec) : WasmModule := e.wasm.getModule e.id

def Exec.bc (e : Exec) : List UInt8 := e.module.bytecode.take e.module.bcLen

/-! ### Stacks -/

def stackAt (i : Nat) : Interp (BitVec 64) := do
  let e ← get
  orPanic e.valueStack[i]?

def setStackAt (i : Nat) (v : BitVec 64) : Interp Unit := do
  let e ← get
  if i < e.valueStack.length then set { e with valueStack := e.valueStack.set i v }
  else throw .panic

def setWorld (world : World) : Interp Unit :=
  modify fun e => { e with wasm := { e.wasm with world := world } }

def setMem (mem : Memory) : Interp Unit := do
  let e ← get
  setWorld { e.wasm.world with mem := mem }

def record (touched : List Access) : Interp Unit :=
  modify fun e => { e with wasm := { e.wasm with accesses := e.wasm.accesses ++ touched } }

def setSp (sp : Nat) : Interp Unit := modify fun e => { e with sp := sp }

def setNewPc (pc : Nat) : Interp Unit := modify fun e => { e with newPc := pc }

def push (v : BitVec 64) : Interp Unit := do
  let e ← get
  setStackAt e.sp v
  setSp (e.sp + 1)

def pushChecked (v : BitVec 64) : Interp Unit := do
  let e ← get
  failIf (VALUE_STACK_SIZE ≤ e.sp) "value stack overflow"
  push v

def pop (msg : String) : Interp (BitVec 64) := do
  let e ← get
  failIf (e.sp = 0) msg
  let v ← stackAt (e.sp - 1)
  setSp (e.sp - 1)
  return v

def mapTop (msg : String) (f : BitVec 64 → BitVec 64) : Interp Unit := do
  let e ← get
  failIf (e.sp = 0) msg
  let v ← stackAt (e.sp - 1)
  setStackAt (e.sp - 1) (f v)

def immediate : Interp Nat := do
  let e ← get
  let (v, next) ← orPanic (leb128U e.bc e.newPc)
  setNewPc next
  return v

def frame : Interp Frame := do
  let e ← get
  orPanic e.callStack[e.fp]?

def setFrame (f : Frame) : Interp Unit :=
  modify fun e => { e with callStack := e.callStack.set e.fp f }

def pushCtrl (f : CtrlFrame) : Interp Unit := do
  let e ← get
  failIf (CALL_STACK_SIZE ≤ e.cp) "ctrl stack overflow"
  set { e with ctrlStack := e.ctrlStack.set e.cp f, cp := e.cp + 1 }

/-! ### Control flow -/

def skipBlockType (msg : String) : Interp Unit := do
  let e ← get
  failIf (e.bc.length ≤ e.newPc) msg
  setNewPc (e.newPc + 1)

def execBlock (pc : Nat) : Interp Unit := do
  skipBlockType "block: OOB"
  let e ← get
  let cont ← orFail (findMatchingEnd e.bc pc)
  pushCtrl ⟨.block, cont, e.sp⟩

def execLoop : Interp Unit := do
  skipBlockType "loop: OOB"
  let e ← get
  pushCtrl ⟨.loop, e.newPc, e.sp⟩

def execIf (pc : Nat) : Interp Unit := do
  skipBlockType "if: OOB"
  let cond ← pop "if: empty stack"
  let e ← get
  let (elsePc, endPc) ← orFail (findIfElseEnd e.bc pc)
  if cond.setWidth 32 ≠ (0 : BitVec 32) then pushCtrl ⟨.if_, endPc, e.sp⟩
  else if 0 < elsePc then do
    pushCtrl ⟨.if_, endPc, e.sp⟩
    setNewPc (elsePc + 1)
  else setNewPc endPc

def execElse (pc : Nat) : Interp Unit := do
  let e ← get
  let target ← orFail (findMatchingEnd e.bc pc)
  setNewPc target

def execEnd : Interp Flow := do
  let e ← get
  if e.cp = 0 then return .done
  else do
    let entry ← orPanic e.ctrlStack[e.cp - 1]?
    set { e with cp := e.cp - 1 }
    match entry.kind with
    | .func => return .done
    | .loop => return .next
    | .block => do
        setNewPc entry.pcCont
        return .next
    | .if_ => do
        setNewPc entry.pcCont
        return .next

def branch (msg : String) (label : Nat) : Interp Unit := do
  let e ← get
  failIf (e.cp ≤ label) msg
  let targetIdx := e.cp - 1 - label
  let target ← orPanic e.ctrlStack[targetIdx]?
  if target.kind = .loop then set { e with cp := targetIdx + 1, newPc := target.pcCont }
  else set { e with cp := targetIdx, sp := target.sp, newPc := target.pcCont }

def execBr : Interp Unit := do
  let label ← immediate
  branch "br: label out of range" label

def execBrIf : Interp Unit := do
  let label ← immediate
  let cond ← pop "br_if: empty stack"
  if cond.setWidth 32 ≠ (0 : BitVec 32) then branch "br_if: label out of range" label
  else pure ()

/-- The number of control frames left when the frames above the innermost function frame
    are dropped. -/
def unwind (ctrl : List CtrlFrame) : Nat → Nat
  | 0 => 0
  | cp + 1 => if (ctrl[cp]?.map CtrlFrame.kind) = some .func then cp + 1 else unwind ctrl cp

def execReturn : Interp Unit := do
  let f ← frame
  let e ← get
  let retVal ← (if f.sp < e.sp then stackAt (e.sp - 1) else pure 0)
  let cp := unwind e.ctrlStack e.cp
  set { e with cp := cp - 1 }
  failIf (e.fp = 0) "return from main function"
  modify fun e => { e with fp := e.fp - 1, sp := f.sp }
  push retVal
  let caller ← frame
  setNewPc caller.pc

def pastEnd : Interp Flow := do
  let f ← frame
  let e ← get
  if e.fp = 0 then return .done
  else do
    let retVal ← (if f.sp < e.sp then stackAt (e.sp - 1) else pure 0)
    set { e with sp := f.sp, fp := e.fp - 1 }
    push retVal
    if e.fp - 1 = 0 then return .done else return .again

/-! ### Calls -/

/-- What a host call may also reach: the table of forwarded system calls and their
    dispatcher, which gets the arguments and the process id. -/
structure HostEnv where
  syscallTable : List (Name × Nat)
  dispatch : Nat → List Nat → Nat → World → BitVec 64 × World

def HostEnv.lookupSyscallByFunc (env : HostEnv) (func : List UInt8) : Option Nat :=
  (env.syscallTable.find? fun entry => nameMatches entry.1 func).map Prod.snd

/-- `dispatch_syscall`: at most six arguments, missing ones are 0. -/
def HostEnv.dispatchSyscall (env : HostEnv) (nr : Nat) (args : List (BitVec 64)) (pid : Nat)
    (w : World) : BitVec 64 × World :=
  let args := (args.take 6).map BitVec.toNat
  env.dispatch nr (args ++ List.replicate (6 - args.length) 0) pid w

/-- The `n` values below the stack pointer, at most 16 of them. -/
def callArgs (n : Nat) : Interp (List (BitVec 64)) := do
  let e ← get
  orPanic ((List.range (min n MAX_LOCALS)).mapM fun i => e.valueStack[e.sp - n + i]?)

/-- Run the host function of an import and record what it touches. -/
def runHost (env : HostEnv) (funcIdx : Nat) (args : List (BitVec 64)) : Interp (BitVec 64) := do
  let e ← get
  let importName ← orPanic e.module.importNames[funcIdx]?
  match e.wasm.hostFuncs.find? fun entry => hostNameMatches entry.name importName with
  | some entry => do
      let res ← orPanic (entry.func args e.wasm.world)
      record (res.touched.map fun a => ⟨.host, a, e.module.memPtr, e.module.memPages⟩)
      setWorld res.world
      return res.value
  | none =>
      match env.lookupSyscallByFunc (nameToSlice importName) with
      | none => throw (.err "host function not found")
      | some nr => do
          let res := env.dispatchSyscall nr args e.module.pid e.wasm.world
          setWorld res.2
          return res.1

def callHost (env : HostEnv) (funcIdx : Nat) : Interp Unit := do
  let e ← get
  let typeIdx ← orPanic e.module.importTypes[funcIdx]?
  let nparams := getOrZero e.module.typeParams typeIdx
  let nresults := getOrZero e.module.typeResults typeIdx
  failIf (e.sp < nparams) "call: not enough args"
  let args ← callArgs nparams
  setSp (e.sp - nparams)
  let result ← runHost env funcIdx args
  if 0 < nresults then pushChecked result else pure ()

def initLocals (args : List (BitVec 64)) : List (BitVec 64) :=
  args ++ List.replicate (MAX_LOCALS - args.length) 0

def callDefined (defIdx : Nat) : Interp Unit := do
  let e ← get
  failIf (e.module.numFunctions ≤ defIdx) "call: func index OOB"
  let ftIdx ← orPanic e.module.funcTypes[defIdx]?
  let nparams := getOrZero e.module.typeParams ftIdx
  failIf (e.sp < nparams) "call: not enough args on stack"
  let f ← frame
  setFrame { f with pc := e.newPc }
  failIf (CALL_STACK_SIZE ≤ e.fp + 1) "call stack overflow"
  let codeStart ← orPanic e.module.codeOffsets[defIdx]?
  let args ← callArgs nparams
  let sp := e.sp - nparams
  modify fun e => { e with fp := e.fp + 1, sp := sp }
  setFrame ⟨codeStart, sp, initLocals args⟩
  pushCtrl ⟨.func, 0, sp⟩
  setNewPc codeStart

def execCall (env : HostEnv) : Interp Unit := do
  let funcIdx ← immediate
  let e ← get
  if funcIdx < e.module.numImports then callHost env funcIdx
  else callDefined (funcIdx - e.module.numImports)

/-! ### Locals, constants, arithmetic -/

def execLocalGet : Interp Unit := do
  let idx ← immediate
  failIf (MAX_LOCALS ≤ idx) "local.get: index OOB"
  let f ← frame
  let v ← orPanic f.locals[idx]?
  pushChecked v

def execLocalSet : Interp Unit := do
  let idx ← immediate
  failIf (MAX_LOCALS ≤ idx) "local.set: index OOB"
  let v ← pop "local.set: empty stack"
  let f ← frame
  setFrame { f with locals := f.locals.set idx v }

def execLocalTee : Interp Unit := do
  let idx ← immediate
  failIf (MAX_LOCALS ≤ idx) "local.tee: index OOB"
  let e ← get
  failIf (e.sp = 0) "local.tee: empty stack"
  let v ← stackAt (e.sp - 1)
  let f ← frame
  setFrame { f with locals := f.locals.set idx v }

def execI32Const : Interp Unit := do
  let e ← get
  let (v, next) ← orPanic (leb128S e.bc e.newPc)
  setNewPc next
  pushChecked (signed v)

def execI64Const : Interp Unit := do
  let e ← get
  let (v, next) ← orPanic (leb128S64 e.bc e.newPc)
  setNewPc next
  pushChecked v

def execBinary (op : BinOp) : Interp Unit := do
  let e ← get
  failIf (e.sp < 2) (op.name ++ ": need 2 operands")
  let a ← stackAt (e.sp - 2)
  let b ← stackAt (e.sp - 1)
  match op.apply (a.setWidth 32) (b.setWidth 32) with
  | .error msg => throw (.err (op.name ++ msg))
  | .ok v => do
      setStackAt (e.sp - 2) v
      setSp (e.sp - 1)

def execSelect : Interp Unit := do
  let e ← get
  failIf (e.sp < 3) "select: need 3 operands"
  let cond ← stackAt (e.sp - 1)
  let val2 ← stackAt (e.sp - 2)
  let val1 ← stackAt (e.sp - 3)
  setStackAt (e.sp - 2) (if cond.setWidth 32 ≠ (0 : BitVec 32) then val1 else val2)
  setSp (e.sp - 1)

/-! ### Memory -/

/-- The bounds check of a load or store of `n` bytes at `ea`, and the addresses it then
    reads or writes. -/
def access (name : String) (ea n : Nat) : Interp Nat := do
  let e ← get
  let m := e.module
  failIf (wrapMul m.memPages MEM_PAGE_SIZE < wrapAdd ea n) (name ++ ": OOB")
  failIf (m.memPtr = 0) (name ++ ": no memory")
  record ((List.range n).map fun k =>
    ⟨.instruction, wrapAdd m.memPtr (ea + k), m.memPtr, m.memPages⟩)
  return wrapAdd m.memPtr ea

/-- The two immediates of a load or store; the second is the offset. -/
def memArg : Interp Nat := do
  let _align ← immediate
  immediate

def effectiveAddr (addr : BitVec 64) (offset : Nat) : Nat := wrapAdd (addr.toNat % 2 ^ 32) offset

def execLoad (op : LoadOp) : Interp Unit := do
  let offset ← memArg
  let addr ← pop (op.name ++ ": empty stack")
  let p ← access op.name (effectiveAddr addr offset) op.width
  let e ← get
  pushChecked (op.extend (readLE e.wasm.world.mem p op.width))

def execStore (op : StoreOp) : Interp Unit := do
  let offset ← memArg
  let e ← get
  failIf (e.sp < 2) (op.name ++ ": need 2 operands")
  let addr ← stackAt (e.sp - 2)
  let val ← stackAt (e.sp - 1)
  setSp (e.sp - 2)
  let p ← access op.name (effectiveAddr addr offset) op.width
  setMem (writeLE e.wasm.world.mem p op.width val.toNat)

def execMemorySize : Interp Unit := do
  let e ← get
  setNewPc (e.newPc + 1)
  pushChecked (BitVec.ofNat 64 e.module.memPages)

def layoutOk (size : Nat) : Bool := decide (size ≤ 2 ^ 63 - 16)

def setMemory (ptr pages : Nat) : Interp Unit :=
  modify fun e =>
    { e with wasm := e.wasm.setModule e.id { e.module with memPtr := ptr, memPages := pages } }

def growMemory (newPages : Nat) : Interp Flow := do
  let e ← get
  let m := e.module
  let newSize := wrapMul newPages MEM_PAGE_SIZE
  let oldSize := wrapMul m.memPages MEM_PAGE_SIZE
  if !layoutOk newSize then do
    push (-1)
    return .again
  else do
    let (newMem, w) := e.wasm.allocZeroed newSize
    set { e with wasm := w }
    if newMem = 0 then do
      push (-1)
      return .next
    else do
      let mem := if m.memPtr = 0 then w.world.mem else copy w.world.mem m.memPtr newMem oldSize
      setMem mem
      -- the old block cannot be freed: the new one is lost
      if m.memPtr ≠ 0 ∧ !layoutOk oldSize then do
        push (BitVec.ofNat 64 m.memPages)
        return .again
      -- `dealloc` of the old block
      else if m.memPtr ≠ 0 ∧ !guardsIntact mem m.memPtr oldSize then throw .idle
      else do
        setMemory newMem newPages
        push (BitVec.ofNat 64 m.memPages)
        return .next

def execMemoryGrow : Interp Flow := do
  let e ← get
  setNewPc (e.newPc + 1)
  let request ← pop "memory.grow: empty stack"
  let m := e.module
  if request = 0 then do
    push (BitVec.ofNat 64 m.memPages)
    return .next
  else if wrapAdd m.memPages request.toNat ≤ m.memMaxPages then
    growMemory (wrapAdd m.memPages request.toNat)
  else do
    push (-1)
    return .next

/-! ### The loop -/

def thenNext (x : Interp Unit) : Interp Flow := do
  x
  return .next

def execOpcode (env : HostEnv) (pc : Nat) : Opcode → Interp Flow
  | .unreachable => throw (.err "unreachable")
  | .nop => thenNext (pure ())
  | .block => thenNext (execBlock pc)
  | .loop => thenNext execLoop
  | .if_ => thenNext (execIf pc)
  | .else_ => thenNext (execElse pc)
  | .end_ => execEnd
  | .br => thenNext execBr
  | .brIf => thenNext execBrIf
  | .return_ => thenNext execReturn
  | .call => thenNext (execCall env)
  | .select => thenNext execSelect
  | .localGet => thenNext execLocalGet
  | .localSet => thenNext execLocalSet
  | .localTee => thenNext execLocalTee
  | .i32Const => thenNext execI32Const
  | .i64Const => thenNext execI64Const
  | .i32WrapI64 => thenNext (mapTop "i32.wrap_i64: empty stack" fun v => signed (v.setWidth 32))
  | .i64ExtendI32S =>
      thenNext (mapTop "i64.extend_i32_s: empty stack" fun v => signed (v.setWidth 32))
  | .i64ExtendI32U =>
      thenNext (mapTop "i64.extend_i32_u: empty stack" fun v => unsigned (v.setWidth 32))
  | .i32Eqz =>
      thenNext (mapTop "i32.eqz: empty stack" fun v => truth (v.setWidth 32 == (0 : BitVec 32)))
  | .binary op => thenNext (execBinary op)
  | .load op => thenNext (execLoad op)
  | .store op => thenNext (execStore op)
  | .memorySize => thenNext execMemorySize
  | .memoryGrow => execMemoryGrow

/-- The instruction at `pc`, and the new program counter of the current frame. -/
def execAt (env : HostEnv) (pc : Nat) (byte : UInt8) : Interp Flow := do
  setNewPc (pc + 1)
  match Opcode.decode byte with
  | none => throw (.err "unknown opcode")
  | some opcode => do
      let flow ← execOpcode env pc opcode
      match flow with
      | .next => do
          let f ← frame
          let e ← get
          setFrame { f with pc := e.newPc }
          return .next
      | flow => return flow

def cycle (env : HostEnv) : Interp Flow := do
  let f ← frame
  let e ← get
  match e.bc[f.pc]? with
  | none => pastEnd
  | some byte => execAt env f.pc byte

def interpret (env : HostEnv) : Nat → Interp Unit
  | 0 => throw (.err "cycle budget exceeded")
  | cycles + 1 => do
      let flow ← cycle env
      match flow with
      | .done => return ()
      | .next => interpret env cycles
      | .again => interpret env cycles

def topResult : Interp (BitVec 32) := do
  let e ← get
  if 0 < e.sp then do
    let v ← stackAt (e.sp - 1)
    return v.setWidth 32
  else return 0

/-- The first frame: the function at `codeStart` with the arguments as locals. -/
def startExec (w : Runtime) (id codeStart numParams : Nat) (args : List (BitVec 64)) : Exec where
  wasm := w
  id := id
  valueStack := args ++ List.replicate (VALUE_STACK_SIZE - args.length) 0
  sp := args.length
  callStack := ⟨codeStart, 0, initLocals (args.take (min numParams MAX_LOCALS))⟩ ::
    List.replicate (CALL_STACK_SIZE - 1) ⟨0, 0, List.replicate MAX_LOCALS 0⟩
  fp := 0
  ctrlStack := List.replicate CALL_STACK_SIZE ⟨.func, 0, 0⟩
  cp := 1
  newPc := 0

def wasmExecute (env : HostEnv) (id : Nat) (name : List UInt8) (args : List (BitVec 64))
    (w : Runtime) : Except Stop (BitVec 32) × Runtime :=
  if !isModuleLoaded w id then (.error (.err "invalid module id"), w)
  else
    let m := w.getModule id
    match findExport m name with
    | none => (.error .panic, w)
    | some none => (.error (.err "export not found"), w)
    | some (some globalIdx) =>
        if globalIdx < m.numImports then
          (.error (.err "cannot execute imported function directly"), w)
        else
          let defIdx := globalIdx - m.numImports
          if m.numFunctions ≤ defIdx then (.error (.err "function index out of range"), w)
          else if VALUE_STACK_SIZE < args.length then (.error (.err "value stack overflow"), w)
          else
            match m.funcTypes[defIdx]?, m.codeOffsets[defIdx]? with
            | some typeIdx, some codeStart =>
                let start := startExec w id codeStart (getOrZero m.typeParams typeIdx) args
                let (res, e) := run (do interpret env CYCLE_BUDGET; topResult) start
                (res, e.wasm)
            | _, _ => (.error .panic, w)

end TrainOS.Wasm
