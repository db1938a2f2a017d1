import TrainOS.Elf
import TrainOS.ForkMemory

/-!
# System calls that write page tables

The processes with their page tables, the calls that change them, and the page-fault handler
(`proc/mod.rs`, `syscall/proc.rs`, `syscall/memory.rs`, `trap/mod.rs`).
A panic of the kernel is `none`.  The answers of the checks against sealed ranges and
capabilities are arguments of the calls.
-/

namespace TrainOS.Sv39

open ByteMemory MachineWord Runs

structure Process where
  pid : Nat
  pageTableRoot : Nat

structure Kernel where
  phys : Phys
  processes : List Process
  nextPid : Nat
  /-- `BRK_TABLE` up to `BRK_COUNT`. -/
  brkTable : List (Nat × Nat)

def Kernel.getPageTableRoot (k : Kernel) (pid : Nat) : Option Nat :=
  (k.processes.find? fun p => p.pid == pid).map Process.pageTableRoot

def Kernel.takePid (k : Kernel) : Kernel := { k with nextPid := (k.nextPid + 1) % 2 ^ 32 }

/-! ### Creating processes -/

/-- The last part of `spawn` and `fork_child`: a page for the kernel stack, and the new
    process is listed. -/
def addProcess (k : Kernel) (s : Phys) (pid root : Nat) : Option Nat × Kernel :=
  match s.allocPage with
  | (none, s) => (none, { k with phys := s })
  | (some _, s) => (some pid, { k with phys := s, processes := k.processes ++ [⟨pid, root⟩] })

def spawn (kernelRoot : Nat) (elf : Memory) (len : Nat) (k : Kernel) :
    Option (Option Nat × Kernel) :=
  match k.phys.allocPage with
  | (none, s) => some (none, { k.takePid with phys := s })
  | (some root, s) =>
      match copyKernelMappings kernelRoot root s with
      | none => none
      | some s =>
          match loadElf elf len root s with
          | none => none
          | some (none, s) => some (none, { k.takePid with phys := s })
          | some (some _, s) => some (addProcess k.takePid s k.nextPid root)

def sysFork (kernelRoot pid : Nat) (k : Kernel) : Option (Except String Nat × Kernel) :=
  match k.getPageTableRoot pid with
  | none => some (.error "process not found", k)
  | some ptRoot =>
      match forkPageTable kernelRoot ptRoot k.phys with
      | none => none
      | some (.error err, s) => some (.error err, { k with phys := s })
      | some (.ok childPt, s) =>
          match addProcess k.takePid s k.nextPid childPt with
          | (none, k) => some (.error "fork_child failed", k)
          | (some childPid, k) => some (.ok childPid, k)

/-! ### Mapping and unmapping pages -/

def mapFreshPage (ptRoot va : Nat) (s : Phys) : Except String Unit × Phys :=
  match s.allocPage with
  | (none, s) => (.error "OOM", s)
  | (some page, s) => mapUserPage s ptRoot va page true true

def unmapPages (ptRoot : Nat) (vas : List Nat) (s : Phys) : Phys :=
  vas.foldl (fun s va => unmapUserPage s ptRoot va) s

def pageRange (a b : Nat) : List Nat := (List.range' a (b - a)).map (· <<< 12)

def DEFAULT_BRK : Nat := 0x400000

/-- The entry of `pid` in the table, which is added if there is none. -/
def brkEntry (table : List (Nat × Nat)) (pid : Nat) : Option (Nat × List (Nat × Nat)) :=
  match table.find? fun b => b.1 == pid with
  | some (_, brk) => some (brk, table)
  | none => if 8 ≤ table.length then none else some (DEFAULT_BRK, table ++ [(pid, DEFAULT_BRK)])

def setBrk (pid addr : Nat) : List (Nat × Nat) → List (Nat × Nat)
  | [] => []
  | b :: bs => if b.1 == pid then (pid, addr) :: bs else b :: setBrk pid addr bs

def sysBrk (pid addr : Nat) (k : Kernel) : Except String Nat × Kernel :=
  match brkEntry k.brkTable pid with
  | none => (.error "too many brk entries", k)
  | some (currentBrk, table) =>
      let k := { k with brkTable := table }
      let oldPages := wrapAdd currentBrk 0xFFF >>> 12
      let newPages := wrapAdd addr 0xFFF >>> 12
      if addr = 0 then (.ok currentBrk, k)
      else
        match k.getPageTableRoot pid with
        | none => (.error "no proc pt", k)
        | some ptRoot =>
            if currentBrk < addr then
              match forEach (mapFreshPage ptRoot) (pageRange oldPages newPages) k.phys with
              | (.error err, s) => (.error err, { k with phys := s })
              | (.ok (), s) => (.ok addr, { k with phys := s, brkTable := setBrk pid addr table })
            else
              -- for `addr == current_brk` the range is empty
              (.ok addr, { k with
                phys := unmapPages ptRoot (pageRange newPages oldPages) k.phys
                brkTable := setBrk pid addr table })

/-- The page addresses of `pages` pages from `va` on; the sum wraps. -/
def pagesFrom (va pages : Nat) : List Nat :=
  (List.range pages).map fun i => wrapAdd va (wrapMul i PAGE_SIZE)

def sysMmap (pid addr length : Nat) (isSealed isAuthorized : Bool) (k : Kernel) :
    Except String Nat × Kernel :=
  match k.getPageTableRoot pid with
  | none => (.error "no proc pt", k)
  | some ptRoot =>
      let pages := wrapAdd length (PAGE_SIZE - 1) >>> 12
      let va := if addr = 0 then 0x10000000 else addr
      if isSealed then (.error "mmap: range is sealed", k)
      else if !isAuthorized then (.error "cheri: mmap range not authorized", k)
      else
        match forEach (mapFreshPage ptRoot) (pagesFrom va pages) k.phys with
        | (.error err, s) => (.error err, { k with phys := s })
        | (.ok (), s) => (.ok va, { k with phys := s })

def sysMunmap (pid addr length : Nat) (isSealed : Bool) (k : Kernel) : Except String Nat × Kernel :=
  if isSealed then (.error "munmap: range is sealed", k)
  else
    match k.getPageTableRoot pid with
    | none => (.error "no proc pt", k)
    | some ptRoot =>
        let pages := wrapAdd length (PAGE_SIZE - 1) >>> 12
        (.ok 0, { k with phys := unmapPages ptRoot (pagesFrom addr pages) k.phys })

def sysShmMap (callerPid targetPid vaddr : Nat) (k : Kernel) :
    Option (Except String Nat × Kernel) :=
  if callerPid = targetPid then some (.error "cannot share with self", k)
  else
    match k.getPageTableRoot callerPid with
    | none => some (.error "caller not found", k)
    | some callerPt =>
        match k.getPageTableRoot targetPid with
        | none => some (.error "target not found", k)
        | some targetPt =>
            match virtToPhysInPt k.phys callerPt vaddr with
            | none => some (.error "bad vaddr", k)
            | some phys =>
                match mapIntoPt k.phys targetPt vaddr phys true true false true with
                | none => none
                | some s => some (.ok vaddr, { k with phys := s })

/-! ### Page faults and user stores -/

/-- What `page_fault` decides for the faulting process. -/
inductive FaultResult where
  | resumed
  | killed
deriving DecidableEq, Repr

/-- `page_fault` at `va`, with the root found in `satp` and the kernel stack pointer `sp`. -/
def pageFault (root va sp : Nat) (s : Phys) : FaultResult × Phys :=
  let guardStart := sp - sp % 0x10000
  if guardStart ≤ va ∧ va < wrapAdd guardStart 0x1000 then (.killed, s)
  else if va = 0 then (.killed, s)
  else
    match walkPt s root va false with
    | (none, s) => (.killed, s)
    | (some (l0, i), s) =>
        let e := readPte s.mem l0 i
        if e.isCow then
          match s.allocPage with
          | (none, s) => (.killed, s)
          | (some newPage, s) =>
              let m := copy s.mem e.physAddr newPage PAGE_SIZE
              (.resumed, { s with
                mem := writePte m l0 i (.page newPage true true e.isExecutable true) })
        else (.killed, s)

/-- A store of user code; without a writable user mapping it faults and has no effect. -/
def userStore (root va : Nat) (v : UInt8) (s : Phys) : Phys :=
  match translate s.mem root va with
  | some t => if t.u && t.w then { s with mem := store s.mem t.pa v } else s
  | none => s

/-! ### The system -/

inductive KernelCall where
  | spawn (elf : Memory) (len : Nat)
  | fork (pid : Nat)
  | brk (pid addr : Nat)
  | mmap (pid addr length : Nat) (isSealed isAuthorized : Bool)
  | munmap (pid addr length : Nat) (isSealed : Bool)
  | shmMap (callerPid targetPid vaddr : Nat)
  | pageFault (proc : Process) (va sp : Nat)
  | store (proc : Process) (va : Nat) (v : UInt8)

/-- One event; a panic has no next state. -/
inductive KernelStep (kernelRoot : Nat) : Kernel → KernelCall → Kernel → Prop
  | spawn {k k' : Kernel} {elf : Memory} {len : Nat} {res : Option Nat} :
      Sv39.spawn kernelRoot elf len k = some (res, k') →
      KernelStep kernelRoot k (.spawn elf len) k'
  | fork {k k' : Kernel} {pid : Nat} {res : Except String Nat} :
      sysFork kernelRoot pid k = some (res, k') → KernelStep kernelRoot k (.fork pid) k'
  | brk {k : Kernel} {pid addr : Nat} :
      KernelStep kernelRoot k (.brk pid addr) (sysBrk pid addr k).2
  | mmap {k : Kernel} {pid addr length : Nat} {isSealed isAuthorized : Bool} :
      KernelStep kernelRoot k (.mmap pid addr length isSealed isAuthorized)
        (sysMmap pid addr length isSealed isAuthorized k).2
  | munmap {k : Kernel} {pid addr length : Nat} {isSealed : Bool} :
      KernelStep kernelRoot k (.munmap pid addr length isSealed)
        (sysMunmap pid addr length isSealed k).2
  | shmMap {k k' : Kernel} {callerPid targetPid vaddr : Nat} {res : Except String Nat} :
      sysShmMap callerPid targetPid vaddr k = some (res, k') →
      KernelStep kernelRoot k (.shmMap callerPid targetPid vaddr) k'
  | pageFault {k : Kernel} {proc : Process} {va sp : Nat} :
      proc ∈ k.processes →
      KernelStep kernelRoot k (.pageFault proc va sp)
        { k with phys := (Sv39.pageFault proc.pageTableRoot va sp k.phys).2 }
  | store {k : Kernel} {proc : Process} {va : Nat} {v : UInt8} :
      proc ∈ k.processes →
      KernelStep kernelRoot k (.store proc va v)
        { k with phys := userStore proc.pageTableRoot va v k.phys }

def bootKernel (s : Phys) : Option (Nat × Kernel) :=
  (bootSpaces s).map fun b =>
    (b.1, { phys := b.2.phys, processes := [], nextPid := 1, brkTable := [] })

end TrainOS.Sv39
