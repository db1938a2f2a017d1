import TrainOS.WasmSandbox

/-!
# WASI host functions (`wasm/wasi.rs`)

A host function gets the argument values of the call and nothing about the calling module.
It takes the pointers among them, 32-bit offsets into the linear memory, as addresses.  The
main result says exactly for which arguments this stays inside the module's memory.
-/

namespace TrainOS.Wasm

open ByteMemory List MachineWord Runs

def WASI_ESUCCESS : BitVec 64 := 0

def WASI_EINVAL : BitVec 64 := 28

def WASI_ENOSYS : BitVec 64 := 52

def addresses (a n : Nat) : List Nat := (range n).map (a + ·)

def HostResult.plain (value : BitVec 64) (w : World) : HostResult := ⟨value, w, []⟩

def pointerArg (args : List (BitVec 64)) (i : Nat) : Nat := (args.getD i 0).toNat % 2 ^ 32

def intArg (args : List (BitVec 64)) (i : Nat) : Int := ((args.getD i 0).setWidth 32).toInt

/-! ### The host functions -/

def iovec (m : Memory) (p : Nat) : Nat × Nat := (readLE m p 4, readLE m (p + 4) 4)

/-- What `host_fd_write` has done so far. -/
structure FdWrite where
  totalWritten : Nat
  console : List UInt8
  touched : List Nat

def fdWriteIovec (m : Memory) (fd : Int) (iovsAddr : Nat) (s : FdWrite) (i : Nat) : FdWrite :=
  let iovBase := iovsAddr + i * 8
  let (bufPtr, bufLen) := iovec m iovBase
  let touched := s.touched ++ addresses iovBase 8
  if bufLen = 0 then { s with touched := touched }
  else if fd = 1 ∨ fd = 2 then
    let read := addresses bufPtr (min bufLen 512)
    { totalWritten := (s.totalWritten + bufLen) % 2 ^ 32
      console := s.console ++ read.map m
      touched := touched ++ read }
  else { s with touched := touched }

def hostFdWrite : HostFunc := fun args w =>
  if args.length < 4 then some (.plain WASI_EINVAL w)
  else
    let fd := intArg args 0
    let iovsAddr := pointerArg args 1
    let iovsLen := intArg args 2
    let nwrittenAddr := pointerArg args 3
    if iovsLen ≤ 0 ∨ iovsAddr = 0 then some (.plain WASI_EINVAL w)
    else
      let s := (range iovsLen.toNat).foldl (fdWriteIovec w.mem fd iovsAddr)
        ⟨0, w.console, []⟩
      let w := { w with console := s.console }
      if nwrittenAddr = 0 then some ⟨WASI_ESUCCESS, w, s.touched⟩
      else
        some ⟨WASI_ESUCCESS, { w with mem := writeLE w.mem nwrittenAddr 4 s.totalWritten },
          s.touched ++ addresses nwrittenAddr 4⟩

def hostFdRead : HostFunc := fun args w =>
  if args.length < 4 then some (.plain WASI_EINVAL w)
  else
    let nreadAddr := pointerArg args 3
    if nreadAddr = 0 then some (.plain WASI_ESUCCESS w)
    else
      some ⟨WASI_ESUCCESS, { w with mem := writeLE w.mem nreadAddr 4 0 }, addresses nreadAddr 4⟩

def hostFdClose : HostFunc := fun args w =>
  if args.length = 0 then none else some (.plain WASI_ESUCCESS w)

def hostFdSeek : HostFunc := fun args w =>
  some (.plain (if args.length < 4 then WASI_EINVAL else WASI_ENOSYS) w)

def xorshift (state : BitVec 32) : BitVec 32 :=
  let state := state ^^^ (state <<< 13)
  let state := state ^^^ (state >>> 17)
  state ^^^ (state <<< 5)

def randomBytes : Nat → BitVec 32 → List UInt8
  | 0, _ => []
  | n + 1, state => UInt8.ofNat (xorshift state).toNat :: randomBytes n (xorshift state)

def hostRandomGet : HostFunc := fun args w =>
  if args.length < 2 then some (.plain WASI_EINVAL w)
  else
    let bufAddr := pointerArg args 0
    let len := (args.getD 1 0).toNat
    if bufAddr = 0 ∨ len = 0 then some (.plain WASI_EINVAL w)
    else
      let bytes := randomBytes (min len 1024) 123456789
      some ⟨WASI_ESUCCESS, { w with mem := storeBytes w.mem bufAddr bytes },
        addresses bufAddr (min len 1024)⟩

def hostClockTimeGet : HostFunc := fun args w =>
  if args.length < 3 then some (.plain WASI_EINVAL w)
  else
    let timeAddr := pointerArg args 2
    if timeAddr = 0 then some (.plain WASI_ESUCCESS w)
    else
      let nanos := wrapMul w.tickCount 10000000
      some ⟨WASI_ESUCCESS, { w with mem := writeLE w.mem timeAddr 8 nanos }, addresses timeAddr 8⟩

def hostProcExit : HostFunc := fun args w => some (.plain (args.getD 0 0) w)

def hostStub : HostFunc := fun _ w => some (.plain WASI_ESUCCESS w)

def ascii (s : String) : List UInt8 := s.toList.map fun c => UInt8.ofNat c.toNat

def wasiFuncs : List (List UInt8 × HostFunc) :=
  [(ascii "fd_write", hostFdWrite), (ascii "fd_read", hostFdRead),
   (ascii "fd_close", hostFdClose), (ascii "fd_seek", hostFdSeek),
   (ascii "random_get", hostRandomGet), (ascii "clock_time_get", hostClockTimeGet),
   (ascii "proc_exit", hostProcExit)] ++
  (["environ_get", "environ_sizes_get", "args_get", "args_sizes_get", "fd_prestat_get",
    "fd_prestat_dir_name", "path_open", "path_readlink", "path_filestat_get",
    "path_filestat_set_times", "path_create_directory", "path_remove_directory",
    "path_unlink_file", "path_rename", "path_symlink", "path_link"].map fun name =>
      (ascii name, hostStub))

def wasiCalls : List WasmCall := wasiFuncs.map fun f => .registerHostFunc f.1 f.2

def wasiInit (w : Runtime) : Runtime :=
  wasiFuncs.foldl (fun w f => (wasmRegisterHostFunc f.1 f.2 w).2) w

theorem run_register {env : HostEnv} (fs : List (List UInt8 × HostFunc)) (w : Runtime) :
    Run (WasmStep env) w (fs.map fun f => .registerHostFunc f.1 f.2)
      (fs.foldl (fun w f => (wasmRegisterHostFunc f.1 f.2 w).2) w) := by
  induction fs generalizing w with
  | nil => exact .nil w
  | cons f fs ih => exact .cons .registerHostFunc (ih _)

/-! ### What the host functions touch -/

/-- The host functions that follow pointers. -/
inductive PointerFunc where
  | fdWrite
  | fdRead
  | randomGet
  | clockTimeGet
deriving DecidableEq, Repr

def PointerFunc.func : PointerFunc → HostFunc
  | .fdWrite => hostFdWrite
  | .fdRead => hostFdRead
  | .randomGet => hostRandomGet
  | .clockTimeGet => hostClockTimeGet

/-- The address lies in the linear memory of the module. -/
def InMemory (m : WasmModule) (a : Nat) : Prop :=
  m.memPtr ≤ a ∧ a < m.memPtr + m.memPages * MEM_PAGE_SIZE

/-- The range lies in the linear memory of the module. -/
def RangeInMemory (m : WasmModule) (a n : Nat) : Prop :=
  m.memPtr ≤ a ∧ a + n ≤ m.memPtr + m.memPages * MEM_PAGE_SIZE

/-- The `i`-th iovec and the part of its buffer that is read lie in the linear memory. -/
def IovecInMemory (m : WasmModule) (mem : Memory) (fd : Int) (iovsAddr i : Nat) : Prop :=
  let buf := iovec mem (iovsAddr + i * 8)
  RangeInMemory m (iovsAddr + i * 8) 8 ∧
    (fd = 1 ∨ fd = 2 → 0 < buf.2 → RangeInMemory m buf.1 (min buf.2 512))

/-- The arguments for which a call stays inside: it returns before it follows a pointer, or
    the ranges it is given lie in the linear memory, as absolute addresses. -/
def PointerFunc.StaysInside (m : WasmModule) (args : List (BitVec 64)) (w : World) :
    PointerFunc → Prop
  | .fdWrite =>
      args.length < 4 ∨ intArg args 2 ≤ 0 ∨ pointerArg args 1 = 0 ∨
        ((∀ i < (intArg args 2).toNat,
            IovecInMemory m w.mem (intArg args 0) (pointerArg args 1) i) ∧
          (pointerArg args 3 = 0 ∨ RangeInMemory m (pointerArg args 3) 4))
  | .fdRead =>
      args.length < 4 ∨ pointerArg args 3 = 0 ∨ RangeInMemory m (pointerArg args 3) 4
  | .randomGet =>
      args.length < 2 ∨ pointerArg args 0 = 0 ∨ (args.getD 1 0).toNat = 0 ∨
        RangeInMemory m (pointerArg args 0) (min (args.getD 1 0).toNat 1024)
  | .clockTimeGet =>
      args.length < 3 ∨ pointerArg args 2 = 0 ∨ RangeInMemory m (pointerArg args 2) 8

variable {m : WasmModule}

theorem addresses_inMemory {a n : Nat} (hn : 0 < n) :
    (∀ b ∈ addresses a n, InMemory m b) ↔ RangeInMemory m a n := by
  unfold addresses InMemory RangeInMemory
  constructor
  · intro h
    have hfirst := h a (mem_map.mpr ⟨0, mem_range.mpr hn, rfl⟩)
    have hlast := h (a + (n - 1)) (mem_map.mpr ⟨n - 1, mem_range.mpr (by omega), rfl⟩)
    omega
  · rintro ⟨hlo, hhi⟩ b hb
    obtain ⟨k, hk, rfl⟩ := mem_map.mp hb
    have hk' := mem_range.mp hk
    omega

variable {mem : Memory} {s : FdWrite} {fd : Int} {iovsAddr : Nat}

theorem fdWriteIovec_inMemory {i : Nat} :
    (∀ a ∈ (fdWriteIovec mem fd iovsAddr s i).touched, InMemory m a) ↔
      (∀ a ∈ s.touched, InMemory m a) ∧ IovecInMemory m mem fd iovsAddr i := by
  unfold fdWriteIovec IovecInMemory
  dsimp only
  generalize iovec mem (iovsAddr + i * 8) = buf
  by_cases hlen : buf.2 = 0
  · rw [if_pos hlen, forall_mem_append, addresses_inMemory (by decide)]
    simp [hlen]
  · have hpos : 0 < buf.2 := Nat.pos_of_ne_zero hlen
    rw [if_neg hlen]
    by_cases hfd : fd = 1 ∨ fd = 2
    · rw [if_pos hfd, forall_mem_append, forall_mem_append, addresses_inMemory (by decide),
        addresses_inMemory (by omega)]
      simp [hfd, hpos, and_assoc]
    · rw [if_neg hfd, forall_mem_append, addresses_inMemory (by decide)]
      simp [hfd]

theorem fdWriteLoop_inMemory {is : List Nat} :
    (∀ a ∈ (is.foldl (fdWriteIovec mem fd iovsAddr) s).touched, InMemory m a) ↔
      (∀ a ∈ s.touched, InMemory m a) ∧ ∀ i ∈ is, IovecInMemory m mem fd iovsAddr i := by
  induction is generalizing s with
  | nil => simp
  | cons i is ih =>
    rw [foldl_cons, ih, fdWriteIovec_inMemory, and_assoc]
    simp

theorem hostFdWrite_inMemory (args : List (BitVec 64)) (w : World) :
    ∃ res, hostFdWrite args w = some res ∧
      ((∀ a ∈ res.touched, InMemory m a) ↔ PointerFunc.fdWrite.StaysInside m args w) := by
  unfold hostFdWrite PointerFunc.StaysInside
  by_cases hargs : args.length < 4
  · simp [hargs, HostResult.plain]
  rw [if_neg hargs]
  by_cases hnone : intArg args 2 ≤ 0 ∨ pointerArg args 1 = 0
  · rw [if_pos hnone]
    rcases hnone with hlen | haddr
    · simp [hlen, HostResult.plain]
    · simp [haddr, HostResult.plain]
  obtain ⟨hlen, haddr⟩ := not_or.mp hnone
  simp only [hargs, hlen, haddr, false_or]
  by_cases hwritten : pointerArg args 3 = 0
  · rw [if_pos hwritten]
    refine ⟨_, rfl, ?_⟩
    rw [fdWriteLoop_inMemory]
    simp [hwritten]
  · rw [if_neg hwritten]
    refine ⟨_, rfl, ?_⟩
    rw [forall_mem_append, fdWriteLoop_inMemory, addresses_inMemory (by decide)]
    simp [hwritten]

theorem one_range_inMemory {early : Prop} [Decidable early] {value value' : BitVec 64}
    {w w' : World} {a n : Nat} (hn : 0 < n) : ∃ res, (if early then some (HostResult.plain value w)
        else some ⟨value', w', addresses a n⟩) = some res ∧
      ((∀ b ∈ res.touched, InMemory m b) ↔ early ∨ RangeInMemory m a n) := by
  by_cases hearly : early
  · simp [hearly, HostResult.plain]
  · simp [hearly, addresses_inMemory hn]

/-- **Host calls.**  A call of one of these functions reads and writes only inside the
    linear memory of the module exactly if its arguments, taken as absolute addresses, lie
    in it. -/
theorem host_calls_stay_inside_iff (m : WasmModule) (f : PointerFunc) (args : List (BitVec 64))
    (w : World) : ∃ res, f.func args w = some res ∧
      ((∀ a ∈ res.touched, InMemory m a) ↔ f.StaysInside m args w) := by
  cases f with
  | fdWrite => exact hostFdWrite_inMemory args w
  | fdRead =>
    unfold PointerFunc.func hostFdRead PointerFunc.StaysInside
    by_cases hargs : args.length < 4
    · simp [hargs, HostResult.plain]
    · simp only [hargs, if_false, false_or]
      exact one_range_inMemory (by decide)
  | randomGet =>
    unfold PointerFunc.func hostRandomGet PointerFunc.StaysInside
    by_cases hargs : args.length < 2
    · simp [hargs, HostResult.plain]
    · simp only [hargs, if_false, false_or]
      generalize (args.getD 1 0).toNat = len
      by_cases hlen : len = 0
      · simp [hlen, HostResult.plain]
      · simp only [hlen, or_false, false_or]
        exact one_range_inMemory (by omega)
  | clockTimeGet =>
    unfold PointerFunc.func hostClockTimeGet PointerFunc.StaysInside
    by_cases hargs : args.length < 3
    · simp [hargs, HostResult.plain]
    · simp only [hargs, if_false, false_or]
      exact one_range_inMemory (by decide)

/-- The export `f` calls `random_get` for one byte at address `0x1000`. -/
def randomModule : List UInt8 :=
  [0x00, 0x61, 0x73, 0x6D, 0x01, 0x00, 0x00, 0x00,
   0x01, 0x09, 0x60, 0x02, 0x7F, 0x7F, 0x01, 0x7F, 0x60, 0x00, 0x00,
   0x02, 0x12, 0x04, 0x77, 0x61, 0x73, 0x69,
   0x0A, 0x72, 0x61, 0x6E, 0x64, 0x6F, 0x6D, 0x5F, 0x67, 0x65, 0x74, 0x00, 0x00,
   0x03, 0x01, 0x01,
   0x07, 0x04, 0x01, 0x66, 0x00, 0x01,
   0x0A, 0x0A, 0x09, 0x00, 0x41, 0x80, 0x20, 0x41, 0x01, 0x10, 0x00, 0x0B]

/-- The call succeeds and writes the byte at the absolute address `0x1000`. -/
theorem random_get_writes_outside :
    ∃ w, Run (WasmStep noSyscalls) oneBlock (wasiCalls ++ [.load 1 [0x6D] randomModule]) w ∧
      (wasmExecute noSyscalls 0 [0x66] [] w).1 = .ok 0 ∧
      ∃ a ∈ (wasmExecute noSyscalls 0 [0x66] [] w).2.accesses,
        a = ⟨.host, 0x1000, 0x80800000, 1⟩ ∧ ¬ a.Inside := by
  have hload : WasmStep noSyscalls (wasiInit oneBlock) (.load 1 [0x6D] randomModule)
      (afterLoad randomModule (wasiInit oneBlock)) := step_afterLoad _ (by decide +kernel)
  refine ⟨_, (run_register wasiFuncs _).append (.cons hload (.nil _)), by decide +kernel, ?_⟩
  refine ⟨_, ?_, rfl, ?_⟩
  · decide +kernel
  · unfold Access.Inside
    decide

end TrainOS.Wasm
