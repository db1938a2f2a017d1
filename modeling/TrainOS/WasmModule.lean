import TrainOS.WasmDecode
import TrainOS.KernelHeap

/-!
# Modules (`wasm/mod.rs`)

The module table with its parsers, loading, unloading and hot reload.  The parsers read the whole
bytecode array, and an index behind its end, a panic, is `none`.  The kernel heap is the sequence
of answers it will give.  Performance counters are not modelled.
-/

namespace TrainOS.Wasm

open ByteMemory List MachineWord

def MAX_WASM_MODULES : Nat := 8

def MAX_WASM_SIZE : Nat := 4096

def MEM_PAGE_SIZE : Nat := 65536

def MAX_MEM_PAGES : Nat := 4

def MAX_FUNCTIONS : Nat := 64

def MAX_TYPES : Nat := 16

def MAX_EXPORTS : Nat := 32

def MAX_IMPORTS : Nat := 16

/-- A name of 32 bytes with a terminating zero. -/
abbrev Name := List UInt8

def Name.empty : Name := replicate 32 0

/-- Store at most 31 bytes and a zero; the bytes behind it stay. -/
def Name.store (old bytes : List UInt8) : Name :=
  let stored := bytes.take 31
  stored ++ 0 :: old.drop (stored.length + 1)

structure WasmModule where
  name : Name
  pid : Nat
  bytecode : List UInt8
  bcLen : Nat
  loaded : Bool
  numTypes : Nat
  typeParams : List Nat
  typeResults : List Nat
  numImports : Nat
  importNames : List Name
  importTypes : List Nat
  numFunctions : Nat
  funcTypes : List Nat
  codeOffsets : List Nat
  codeSizes : List Nat
  numLocals : List Nat
  numExports : Nat
  exportNames : List Name
  exportFuncs : List Nat
  memPtr : Nat
  memPages : Nat
  memMaxPages : Nat

def WasmModule.empty : WasmModule where
  name := Name.empty
  pid := 0
  bytecode := replicate MAX_WASM_SIZE 0
  bcLen := 0
  loaded := false
  numTypes := 0
  typeParams := replicate MAX_TYPES 0
  typeResults := replicate MAX_TYPES 0
  numImports := 0
  importNames := replicate MAX_IMPORTS Name.empty
  importTypes := replicate MAX_IMPORTS 0
  numFunctions := 0
  funcTypes := replicate MAX_FUNCTIONS 0
  codeOffsets := replicate MAX_FUNCTIONS 0
  codeSizes := replicate MAX_FUNCTIONS 0
  numLocals := replicate MAX_FUNCTIONS 0
  numExports := 0
  exportNames := replicate MAX_EXPORTS Name.empty
  exportFuncs := replicate MAX_EXPORTS 0
  memPtr := 0
  memPages := 0
  memMaxPages := 0

/-- `array.get(i).copied().unwrap_or(0)`. -/
def getOrZero (xs : List Nat) (i : Nat) : Nat := xs.getD i 0

/-! ### Section parsers -/

/-- The bytes `buf[start..start + n]`, each read by its index. -/
def readBytes (buf : List UInt8) (start n : Nat) : Option (List UInt8) :=
  (range n).mapM fun j => buf[start + j]?

/-- The loop of a section parser, with the passes left.  A pass reads one entry at an
    offset and stores it under its number, or ends the loop; `finish` stores the number of
    entries. -/
def parseLoop (last : Nat) (pass : Nat → Nat → WasmModule → Option (Option (Nat × WasmModule)))
    (finish : Nat → WasmModule → WasmModule) : Nat → Nat → Nat → WasmModule → Option WasmModule
  | 0, _, count, m => some (finish count m)
  | fuel + 1, offset, count, m =>
      if last ≤ offset then some (finish count m)
      else
        match pass offset count m with
        | none => none
        | some none => some (finish count m)
        | some (some (offset, m)) => parseLoop last pass finish fuel offset (count + 1) m

/-- `0x60`, the parameters, the results; another first byte ends the section. -/
def parseType (bc : List UInt8) (offset count : Nat) (m : WasmModule) :
    Option (Option (Nat × WasmModule)) := do
  let funcType ← bc[offset]?
  if funcType ≠ 0x60 then return none
  else do
    let (nparams, offset) ← leb128U bc (offset + 1)
    let (nresults, offset) ← leb128U bc (offset + nparams % 256)
    return some (offset + nresults % 256, { m with
      typeParams := m.typeParams.set count (nparams % 256)
      typeResults := m.typeResults.set count (nresults % 256) })

def parseTypeSection (bc : List UInt8) (offset size : Nat) (m : WasmModule) : Option WasmModule :=
  parseLoop (offset + size) (parseType bc) (fun count m => { m with numTypes := count })
    MAX_TYPES offset 0 m

/-- The module name, the field name, the kind, and the type of a function. -/
def parseImport (bc : List UInt8) (offset count : Nat) (m : WasmModule) :
    Option (Option (Nat × WasmModule)) := do
  let (modLen, offset) ← leb128U bc offset
  let (fieldLen, fieldStart) ← leb128U bc (offset + modLen)
  let bytes ← readBytes bc fieldStart (min fieldLen 31)
  let name := Name.store (m.importNames.getD count []) bytes
  let m := { m with importNames := m.importNames.set count name }
  let offset := fieldStart + fieldLen
  let kind ← bc[offset]?
  if kind = 0 then do
    let (typeIdx, offset) ← leb128U bc (offset + 1)
    return some (offset, { m with importTypes := m.importTypes.set count (typeIdx % 256) })
  else return some (offset + 1, m)

def parseImportSection (bc : List UInt8) (offset size : Nat) (m : WasmModule) : Option WasmModule :=
  parseLoop (offset + size) (parseImport bc) (fun count m => { m with numImports := count })
    MAX_IMPORTS offset 0 m

def parseFunction (bc : List UInt8) (offset count : Nat) (m : WasmModule) :
    Option (Option (Nat × WasmModule)) := do
  let (typeIdx, offset) ← leb128U bc offset
  return some (offset, { m with funcTypes := m.funcTypes.set count (typeIdx % 256) })

def parseFunctionSection (bc : List UInt8) (offset size : Nat) (m : WasmModule) :
    Option WasmModule :=
  parseLoop (offset + size) (parseFunction bc) (fun count m => { m with numFunctions := count })
    MAX_FUNCTIONS offset 0 m

def parseExport (bc : List UInt8) (offset count : Nat) (m : WasmModule) :
    Option (Option (Nat × WasmModule)) := do
  let (nameLen, nameStart) ← leb128U bc offset
  let bytes ← readBytes bc nameStart (min nameLen 31)
  let name := Name.store (m.exportNames.getD count []) bytes
  let _kind ← bc[nameStart + nameLen]?
  let (idx, offset) ← leb128U bc (nameStart + nameLen + 1)
  return some (offset, { m with
    exportNames := m.exportNames.set count name
    exportFuncs := m.exportFuncs.set count (idx % 256) })

def parseExportSection (bc : List UInt8) (offset size : Nat) (m : WasmModule) : Option WasmModule :=
  parseLoop (offset + size) (parseExport bc) (fun count m => { m with numExports := count })
    MAX_EXPORTS offset 0 m

/-- The local declarations of a function: the sum of the counts, which stops at 255, and
    the offset behind them. -/
def parseLocals (bc : List UInt8) : Nat → Nat → Nat → Option (Nat × Nat)
  | 0, offset, total => some (total, offset)
  | decls + 1, offset, total => do
      let (count, offset) ← leb128U bc offset
      let _ty ← bc[offset]?
      parseLocals bc decls (offset + 1) (min (total + count % 256) 255)

def parseBody (bc : List UInt8) (last offset funcIdx : Nat) (m : WasmModule) :
    Option (Option (Nat × WasmModule)) := do
  let (bodySize, bodyStart) ← leb128U bc offset
  let (decls, offset) ← leb128U bc bodyStart
  let (totalLocals, codeStart) ← parseLocals bc decls offset 0
  let bodyEnd := min last (bodyStart + bodySize)
  return some (bodyEnd, { m with
    codeOffsets := m.codeOffsets.set funcIdx codeStart
    numLocals := m.numLocals.set funcIdx totalLocals
    codeSizes := m.codeSizes.set funcIdx (wrapSub bodyEnd codeStart) })

def parseCodeSection (bc : List UInt8) (offset size : Nat) (m : WasmModule) : Option WasmModule :=
  parseLoop (offset + size) (parseBody bc (offset + size)) (fun _ m => m) MAX_FUNCTIONS offset 0 m

def parseSection (bc : List UInt8) (sectionId : UInt8) (offset size : Nat) (m : WasmModule) :
    Option WasmModule :=
  if sectionId = 1 then parseTypeSection bc offset size m
  else if sectionId = 2 then parseImportSection bc offset size m
  else if sectionId = 3 then parseFunctionSection bc offset size m
  else if sectionId = 7 then parseExportSection bc offset size m
  else if sectionId = 10 then parseCodeSection bc offset size m
  else some m

/-- The loop of `parse_module`; each pass advances the offset. -/
def parseSections (bc : List UInt8) (bcLen : Nat) : Nat → Nat → WasmModule → Option WasmModule
  | 0, _, m => some m
  | fuel + 1, offset, m =>
      if bcLen ≤ offset then some m
      else do
        let sectionId ← bc[offset]?
        let (size, offset) ← leb128U bc (offset + 1)
        let m ← parseSection bc sectionId offset size m
        parseSections bc bcLen fuel (offset + size) m

def parseModule (m : WasmModule) : Option WasmModule :=
  parseSections m.bytecode m.bcLen m.bcLen 8 m

/-! ### Memory and the module table -/

/-- An answer of the kernel heap: the address for a request, 0 if it has none.  The heap
    checks that the block ends inside the address space. -/
structure HeapAnswer where
  ptr : Nat → Nat
  fits : ∀ size < WORD, ptr size + size ≤ WORD

/-- What code outside the interpreter sees and changes: memory, the clock, the console. -/
structure World where
  mem : Memory
  tickCount : Nat
  console : List UInt8

/-- What a host function returns, the world it leaves, and the addresses it reads or
    writes through raw pointers. -/
structure HostResult where
  value : BitVec 64
  world : World
  touched : List Nat

/-- A host function; `none` is a panic. -/
abbrev HostFunc := List (BitVec 64) → World → Option HostResult

structure HostFuncEntry where
  name : Name
  func : HostFunc

def MAX_HOST_FUNCS : Nat := 16

/-- Who reads or writes memory: a load or store of the module, or a host function. -/
inductive Origin where
  | instruction
  | host
deriving DecidableEq, Repr

/-- An address that was read or written, with the linear memory of the running module at
    that time. -/
structure Access where
  origin : Origin
  addr : Nat
  memPtr : Nat
  memPages : Nat
deriving DecidableEq, Repr

/-- The address lies in the module's linear memory. -/
def Access.Inside (a : Access) : Prop :=
  a.memPtr ≤ a.addr ∧ a.addr < a.memPtr + a.memPages * MEM_PAGE_SIZE

/-- The state of the subsystem.  `accesses` records the raw accesses of all executions. -/
structure Runtime where
  modules : List WasmModule
  count : Nat
  hostFuncs : List HostFuncEntry
  heap : List HeapAnswer
  world : World
  accesses : List Access

def Runtime.getModule (w : Runtime) (id : Nat) : WasmModule := w.modules.getD id WasmModule.empty

def Runtime.setModule (w : Runtime) (id : Nat) (m : WasmModule) : Runtime :=
  { w with modules := w.modules.set id m }

/-- The guard words that the heap writes around a block. -/
def writeGuards (mem : Memory) (ptr size : Nat) : Memory :=
  writeLE (writeLE mem (ptr - 8) 8 Heap.HEAP_CANARY) (ptr + size) 8 Heap.HEAP_CANARY

/-- What `dealloc` checks. -/
def guardsIntact (mem : Memory) (ptr size : Nat) : Bool :=
  readLE mem (ptr - 8) 8 == Heap.HEAP_CANARY && readLE mem (ptr + size) 8 == Heap.HEAP_CANARY

def Runtime.allocZeroed (w : Runtime) (size : Nat) : Nat × Runtime :=
  match w.heap with
  | [] => (0, w)
  | answer :: rest =>
      let ptr := answer.ptr size
      if ptr = 0 then (0, { w with heap := rest })
      else (ptr, { w with
        heap := rest
        world := { w.world with mem := fill (writeGuards w.world.mem ptr size) ptr size 0 } })

def allocModuleMemory (w : Runtime) (id : Nat) : Bool × Runtime :=
  let (ptr, w) := w.allocZeroed MEM_PAGE_SIZE
  if ptr = 0 then (false, w)
  else
    (true, w.setModule id { w.getModule id with
      memPtr := ptr, memPages := 1, memMaxPages := MAX_MEM_PAGES })

def freeModuleMemory (m : WasmModule) : WasmModule :=
  if m.memPtr = 0 then m else { m with memPtr := 0, memPages := 0 }

def wasmValidate (bytecode : List UInt8) : Bool :=
  bytecode.take 8 == [0x00, 0x61, 0x73, 0x6D, 0x01, 0x00, 0x00, 0x00]

def WasmModule.storeBytecode (m : WasmModule) (bytecode : List UInt8) : WasmModule :=
  let bytes := bytecode.take MAX_WASM_SIZE
  { m with bytecode := bytes ++ m.bytecode.drop bytes.length, bcLen := bytes.length }

/-- The id of the new module; `none` is a panic of the parser. -/
def wasmLoad (pid : Nat) (name bytecode : List UInt8) (w : Runtime) :
    Option (Option Nat × Runtime) :=
  if !wasmValidate bytecode then some (none, w)
  else if MAX_WASM_MODULES ≤ w.count then some (none, w)
  else
    let id := w.count
    let m := w.getModule id
    let m := { m.storeBytecode bytecode with
      name := Name.store m.name name, pid := pid, loaded := true }
    match parseModule m with
    | none => none
    | some m =>
        match allocModuleMemory (w.setModule id m) id with
        | (false, w) => some (none, w.setModule id { w.getModule id with loaded := false })
        | (true, w) => some (some id, { w with count := w.count + 1 })

def isModuleLoaded (w : Runtime) (id : Nat) : Bool :=
  decide (id < MAX_WASM_MODULES) && (w.getModule id).loaded

def wasmUnload (id : Nat) (w : Runtime) : Bool × Runtime :=
  if !isModuleLoaded w id then (false, w)
  else
    (true, w.setModule id { freeModuleMemory (w.getModule id) with loaded := false, bcLen := 0 })

def WasmModule.resetSections (m : WasmModule) : WasmModule :=
  { m with
    numTypes := 0
    typeParams := replicate MAX_TYPES 0
    typeResults := replicate MAX_TYPES 0
    numImports := 0
    importNames := replicate MAX_IMPORTS Name.empty
    importTypes := replicate MAX_IMPORTS 0
    numFunctions := 0
    funcTypes := replicate MAX_FUNCTIONS 0
    codeOffsets := replicate MAX_FUNCTIONS 0
    codeSizes := replicate MAX_FUNCTIONS 0
    numLocals := replicate MAX_FUNCTIONS 0
    numExports := 0
    exportNames := replicate MAX_EXPORTS Name.empty
    exportFuncs := replicate MAX_EXPORTS 0 }

def wasmHotReload (id : Nat) (bytecode : List UInt8) (w : Runtime) :
    Option (Except String Unit × Runtime) :=
  if !isModuleLoaded w id then some (.error "invalid module id", w)
  else if !wasmValidate bytecode then some (.error "invalid magic/version in new bytecode", w)
  else if MAX_WASM_SIZE < bytecode.length then
    some (.error "new bytecode exceeds maximum size", w)
  else
    match parseModule ((w.getModule id).resetSections.storeBytecode bytecode) with
    | none => none
    | some m => some (.ok (), w.setModule id m)

def wasmRegisterHostFunc (name : List UInt8) (func : HostFunc) (w : Runtime) : Bool × Runtime :=
  if MAX_HOST_FUNCS ≤ w.hostFuncs.length then (false, w)
  else
    (true, { w with hostFuncs := w.hostFuncs ++ [⟨Name.store Name.empty name, func⟩] })

/-! ### Names -/

/-- Compare the bytes of `name` with a stored name up to a zero; `none` if the stored name
    is shorter, a panic. -/
def exportPrefix : List UInt8 → Name → Option Bool
  | [], _ => some true
  | _ :: _, [] => none
  | c :: name, e :: ename =>
      if e ≠ c then some false else if c = 0 then some true else exportPrefix name ename

def exportMatches (name : List UInt8) (ename : Name) : Option Bool :=
  (exportPrefix name ename).map fun found =>
    -- a longer stored name does not match
    found && !(decide (name.length < 32) && (ename.drop name.length).any (· ≠ 0) &&
      decide (ename.getD name.length 0 ≠ 0))

def findExportLoop (name : List UInt8) : List (Name × Nat) → Option (Option Nat)
  | [] => some none
  | (ename, func) :: rest =>
      match exportMatches name ename with
      | none => none
      | some true => some (some func)
      | some false => findExportLoop name rest

def findExport (m : WasmModule) (name : List UInt8) : Option (Option Nat) :=
  findExportLoop name ((m.exportNames.zip m.exportFuncs).take m.numExports)

/-- The comparison of a host function's name with an import name. -/
def hostNameMatches : Name → Name → Bool
  | e :: entry, i :: imported =>
      if e ≠ i then false else if e = 0 then true else hostNameMatches entry imported
  | _, _ => true

/-- `name_matches` of the syscall table: every byte of the input agrees and none is zero. -/
def nameMatches (stored : Name) (input : List UInt8) : Bool :=
  if input.head?.getD 0 = 0 then stored.head?.getD 0 == 0
  else ((stored.zip input).take 32).all fun p => p.1 == p.2 && p.1 != 0

def nameToSlice (name : Name) : List UInt8 := name.takeWhile (· ≠ 0)

end TrainOS.Wasm
