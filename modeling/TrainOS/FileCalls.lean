import TrainOS.BoundedTable
import TrainOS.ByteMemory
import TrainOS.Runs
import TrainOS.StateExcept

/-!
# File system calls (`syscall/posix.rs`, `syscall/fs.rs`, `aslr/mod.rs`)

The kernel holds the file descriptors, the sandbox rules and the symbolic links; the files
are in the file service, which the kernel asks by messages to endpoint 2.  A system call is
a program on `FileState`.  The rest of the system, the file service among it, is a
parameter (`Host`), and every request that was sent stays in the state.
-/

namespace TrainOS.Files

open ByteMemory StateExcept

/-! ### Paths and buffers of the process -/

abbrev Path := List UInt8

def MAX_PATH : Nat := 32

def cString (m : Memory) (ptr : Nat) : Nat → List UInt8
  | 0 => []
  | max + 1 => if m ptr = 0 then [] else m ptr :: cString m (ptr + 1) max

def readUserPath (m : Memory) (ptr : Nat) : Except String Path :=
  if ptr = 0 then .error "null pointer" else .ok (cString m ptr MAX_PATH)

def readUserString (m : Memory) (ptr : Nat) : Except String Path :=
  if ptr = 0 then .error "null str ptr" else .ok (cString m ptr MAX_PATH)

def readBytes (m : Memory) (ptr n : Nat) : List UInt8 := (List.range n).map fun i => m (ptr + i)

/-! ### The sandbox -/

def SANDBOX_MAX_RULES : Nat := 32

structure SandboxRule where
  pid : Nat
  pathPrefix : Path
  allowRead : Bool
  allowWrite : Bool
deriving DecidableEq, Repr

def SandboxRule.allows (r : SandboxRule) (wantsWrite : Bool) : Bool :=
  if wantsWrite then r.allowWrite else r.allowRead

def SandboxRule.applies (r : SandboxRule) (pid : Nat) (path : Path) : Bool :=
  r.pid == pid && r.pathPrefix.isPrefixOf path

abbrev SandboxRules := Table SandboxRule SANDBOX_MAX_RULES

def firstRule (rules : SandboxRules) (pid : Nat) (path : Path) : Option SandboxRule :=
  rules.entries.find? fun r => r.applies pid path

/-- The first rule that applies decides; without one everything is allowed. -/
def sandboxCheck (rules : SandboxRules) (pid : Nat) (path : Path) (wantsWrite : Bool) : Bool :=
  match firstRule rules pid path with
  | some r => r.allows wantsWrite
  | none => true

/-! ### File descriptors -/

def MAX_FDS : Nat := 64

inductive FdType where
  | file
  | socket
  | pipe
  | epoll
deriving DecidableEq, Repr

structure FdEntry where
  pid : Nat
  fd : Nat
  fdType : FdType
  path : Path
  offset : Nat
  ep : Nat
  used : Bool
deriving DecidableEq, Repr

def FdEntry.isFor (e : FdEntry) (pid fd : Nat) : Bool := e.used && e.pid == pid && e.fd == fd

def allocFd (fds : List FdEntry) (pid : Nat) : Option Nat :=
  (List.range' 3 (MAX_FDS - 3)).find? fun fd => !fds.any fun e => e.isFor pid fd

/-- The first unused slot is taken; a full table stays as it is. -/
def addFd (fds : List FdEntry) (pid fd : Nat) (fdType : FdType) (path : Path) (ep : Nat) :
    List FdEntry :=
  match fds.findIdx? fun e => !e.used with
  | none => fds
  | some i => fds.set i ⟨pid, fd, fdType, path.take MAX_PATH, 0, ep, true⟩

def findFd (fds : List FdEntry) (pid fd : Nat) : Option FdEntry := fds.find? fun e => e.isFor pid fd

def advance (fds : List FdEntry) (pid fd n : Nat) : List FdEntry :=
  fds.modify (fds.findIdx fun e => e.isFor pid fd) fun e => { e with offset := e.offset + n }

/-! ### Requests to the file service -/

/-- What a message to the file service says. -/
structure Request where
  opcode : Nat
  path : Path
  data : List UInt8
deriving DecidableEq, Repr

def VFS_READ : Nat := 2

def VFS_WRITE : Nat := 3

def VFS_DELETE : Nat := 5

/-- The message has room for 31 bytes of path and, in its 64 bytes, for a header of three
    bytes, the path, the length of the data and the data. -/
def Request.make (opcode : Nat) (path : Path) (data : List UInt8) : Request where
  opcode := opcode
  path := path.take 31
  data := data.take (64 - (3 + min path.length 31) - 1)

/-- The rest of the system, with state `σ`. -/
structure Host (σ : Type) where
  /-- Send a request to the file service and wait for its reply; `none` if the message
      cannot be sent. -/
  serve : σ → Request → Option (List UInt8 × σ)
  /-- Receive a message from an endpoint. -/
  recv : σ → Nat → List UInt8 × σ
  /-- Send a message to an endpoint; the flag tells whether that worked. -/
  send : σ → Nat → List UInt8 → Bool × σ
  getchar : σ → UInt8 × σ
  putchars : σ → List UInt8 → σ
  /-- The buffer passes `is_user_range_valid`, or the process has no page table. -/
  rangeValid : σ → Nat → Nat → Bool

/-- The tables of the kernel, the memory of the process, and the requests sent so far. -/
structure FileState (σ : Type) where
  rules : SandboxRules
  fds : List FdEntry
  symlinks : Table (Path × Path) 16
  user : Memory
  sent : List Request
  host : σ

abbrev FileProg (σ α : Type) := Prog (FileState σ) String α

variable {σ : Type}

def FileState.request (h : Host σ) (st : FileState σ) (req : Request) :
    Option (List UInt8) × FileState σ :=
  match h.serve st.host req with
  | none => (none, st)
  | some (reply, host) => (some reply, { st with host := host, sent := st.sent ++ [req] })

def vfsRequest (h : Host σ) (opcode : Nat) (path : Path) (data : List UInt8) :
    FileProg σ (List UInt8) := do
  let st ← get
  match st.request h (.make opcode path data) with
  | (none, _) => throw "vfs send failed"
  | (some reply, st) =>
      set st
      return reply

def vfsTry (h : Host σ) (opcode : Nat) (path : Path) (data : List UInt8) : FileProg σ PUnit :=
  modify fun st => (st.request h (.make opcode path data)).2

/-- Copy bytes to the process, unless the pointer is null or there are none. -/
def copyOut (bufPtr : Nat) (bytes : List UInt8) : FileProg σ PUnit :=
  if bufPtr = 0 ∨ bytes = [] then pure ⟨⟩
  else modify fun st => { st with user := storeBytes st.user bufPtr bytes }

def orThrow {α : Type} : Except String α → FileProg σ α
  | .ok a => pure a
  | .error e => throw e

/-! ### `syscall/posix.rs` -/

def wantsWrite (flags : Nat) : Bool := flags &&& 0o100 != 0 || flags &&& 0o2 != 0

/-- With `O_CREAT` the file is touched by writing nothing to it. -/
def touch (h : Host σ) (flags : Nat) (path : Path) : FileProg σ PUnit :=
  if flags &&& 0o100 != 0 then vfsTry h VFS_WRITE path [] else pure ⟨⟩

def openFd (pid : Nat) (path : Path) : FileProg σ Nat := do
  let st ← get
  match allocFd st.fds pid with
  | none => throw "no free fd"
  | some fd =>
      set { st with fds := addFd st.fds pid fd .file path 0 }
      return fd

def sysOpen (h : Host σ) (pid pathPtr flags : Nat) : FileProg σ Nat := do
  let st ← get
  let path ← orThrow (readUserString st.user pathPtr)
  if !sandboxCheck st.rules pid path (wantsWrite flags) then throw "sandbox: open denied"
  else do
    touch h flags path
    let _ ← vfsRequest h VFS_READ path []
    openFd pid path

def ENOENT : List UInt8 := [0x45, 0x4E, 0x4F, 0x45, 0x4E, 0x54]

def readFile (h : Host σ) (pid fd bufPtr count : Nat) (e : FdEntry) : FileProg σ Nat := do
  let resp ← vfsRequest h VFS_READ e.path []
  if resp.take 6 = ENOENT then return 0
  else do
    let copyLen := min (resp.length - e.offset) count
    copyOut bufPtr ((resp.drop e.offset).take copyLen)
    modify fun st => { st with fds := advance st.fds pid fd copyLen }
    return copyLen

def sysRead (h : Host σ) (pid fd bufPtr count : Nat) : FileProg σ Nat := do
  let st ← get
  if bufPtr ≠ 0 ∧ count > 0 ∧ !h.rangeValid st.host bufPtr count then throw "buffer out of bounds"
  else if fd = 0 then do
    let res := h.getchar st.host
    set { st with host := res.2 }
    copyOut bufPtr (if count > 0 then [res.1] else [])
    return 1
  else if fd ≤ 2 then throw "bad fd for read"
  else
    match findFd st.fds pid fd with
    | none => throw "bad fd"
    | some e =>
        if e.fdType = .socket ∨ e.fdType = .pipe then do
          let res := h.recv st.host e.ep
          set { st with host := res.2 }
          let copyLen := min res.1.length (min count 64)
          copyOut bufPtr (res.1.take copyLen)
          return copyLen
        else if !sandboxCheck st.rules pid e.path false then throw "sandbox: read denied"
        else readFile h pid fd bufPtr count e

def sysWrite (h : Host σ) (pid fd bufPtr count : Nat) : FileProg σ Nat := do
  let st ← get
  if bufPtr ≠ 0 ∧ count > 0 ∧ !h.rangeValid st.host bufPtr count then throw "buffer out of bounds"
  else if fd ≤ 2 then do
    let bytes := if bufPtr ≠ 0 then readBytes st.user bufPtr count else []
    set { st with host := h.putchars st.host bytes }
    return count
  else
    match findFd st.fds pid fd with
    | none => throw "bad fd"
    | some e =>
        if e.fdType = .socket ∨ e.fdType = .pipe then do
          let dataLen := min count 62
          let bytes := if bufPtr ≠ 0 then readBytes st.user bufPtr dataLen
            else List.replicate dataLen 0
          let res := h.send st.host e.ep bytes
          set { st with host := res.2 }
          if res.1 then return dataLen else throw "send failed"
        else if !sandboxCheck st.rules pid e.path true then throw "sandbox: write denied"
        else do
          let writeLen := min count 60
          let _ ← vfsRequest h VFS_WRITE e.path (readBytes st.user bufPtr writeLen)
          return writeLen

/-! ### `syscall/fs.rs` -/

/-- One request about the path at a pointer, without asking the sandbox. -/
def requestPath (h : Host σ) (opcode pathPtr : Nat) (data : List UInt8) : FileProg σ Nat := do
  let st ← get
  let path ← orThrow (readUserPath st.user pathPtr)
  let _ ← vfsRequest h opcode path data
  return 0

def sysMkdir (h : Host σ) (pathPtr : Nat) : FileProg σ Nat :=
  requestPath h VFS_WRITE pathPtr [0x44, 0x49, 0x52]

def sysRmdir (h : Host σ) (pathPtr : Nat) : FileProg σ Nat := requestPath h VFS_DELETE pathPtr []

def sysTruncate (h : Host σ) (pathPtr : Nat) : FileProg σ Nat := requestPath h VFS_WRITE pathPtr []

def sysAccess (h : Host σ) (pathPtr : Nat) : FileProg σ Nat := do
  let st ← get
  let path ← orThrow (readUserPath st.user pathPtr)
  match st.request h (.make VFS_READ path []) with
  | (none, _) => throw "ENOENT"
  | (some _, st) =>
      set st
      return 0

def sysUnlink (h : Host σ) (pid pathPtr : Nat) : FileProg σ Nat := do
  let st ← get
  let path ← orThrow (readUserPath st.user pathPtr)
  if !sandboxCheck st.rules pid path true then throw "sandbox: unlink denied"
  else do
    let _ ← vfsRequest h VFS_DELETE path []
    return 0

def sysRename (h : Host σ) (pid oldPtr newPtr : Nat) : FileProg σ Nat := do
  let st ← get
  let oldPath ← orThrow (readUserPath st.user oldPtr)
  let newPath ← orThrow (readUserPath st.user newPtr)
  if !sandboxCheck st.rules pid oldPath true then throw "sandbox: rename denied (old path)"
  else if !sandboxCheck st.rules pid newPath true then throw "sandbox: rename denied (new path)"
  else do
    let oldData ← vfsRequest h VFS_READ oldPath []
    let _ ← vfsRequest h VFS_WRITE newPath (oldData.take 60)
    let _ ← vfsRequest h VFS_DELETE oldPath []
    return 0

def pad32 (path : Path) : Path := path ++ List.replicate (32 - path.length) 0

def sysSymlink (targetPtr linkpathPtr : Nat) : FileProg σ Nat := do
  let st ← get
  let target ← orThrow (readUserPath st.user targetPtr)
  let linkpath ← orThrow (readUserPath st.user linkpathPtr)
  if target = [] ∨ linkpath = [] then throw "empty path"
  else
    match st.symlinks.push? (pad32 linkpath, pad32 target) with
    | none => throw "symlink table full"
    | some links =>
        set { st with symlinks := links }
        return 0

def sysReadlink (pathPtr bufPtr bufSize : Nat) : FileProg σ Nat := do
  let st ← get
  let path ← orThrow (readUserPath st.user pathPtr)
  if path = [] then throw "empty path"
  else if bufPtr = 0 ∨ bufSize = 0 then throw "invalid buf"
  else
    match st.symlinks.entries.find? fun l => l.1.take path.length == path with
    | none => throw "symlink not found"
    | some l => do
        let target := (l.2.takeWhile (· != 0)).take bufSize
        copyOut bufPtr target
        return target.length

def sysSendfile (h : Host σ) (pid outFd inFd count : Nat) : FileProg σ Nat := do
  let st ← get
  if inFd ≤ 2 ∨ outFd ≤ 2 then throw "bad fd"
  else
    match findFd st.fds pid inFd with
    | none => throw "bad in_fd"
    | some e => do
        let resp ← vfsRequest h VFS_READ e.path []
        let dataLen := min resp.length count
        if dataLen = 0 then return 0
        else
          match findFd st.fds pid outFd with
          | none => throw "bad out_fd"
          | some d => do
              let _ ← vfsRequest h VFS_WRITE d.path (resp.take dataLen)
              return dataLen

/-! ### Runs of a process -/

/-- The file system calls with the arguments they use. -/
inductive FileCall where
  | sysOpen (pathPtr flags : Nat)
  | sysRead (fd bufPtr count : Nat)
  | sysWrite (fd bufPtr count : Nat)
  | sysMkdir (pathPtr : Nat)
  | sysRmdir (pathPtr : Nat)
  | sysUnlink (pathPtr : Nat)
  | sysRename (oldPtr newPtr : Nat)
  | sysTruncate (pathPtr : Nat)
  | sysAccess (pathPtr : Nat)
  | sysSymlink (targetPtr linkpathPtr : Nat)
  | sysReadlink (pathPtr bufPtr bufSize : Nat)
  | sysSendfile (outFd inFd count : Nat)

def FileCall.exec (h : Host σ) (pid : Nat) : FileCall → FileProg σ Nat
  | .sysOpen pathPtr flags => Files.sysOpen h pid pathPtr flags
  | .sysRead fd bufPtr count => Files.sysRead h pid fd bufPtr count
  | .sysWrite fd bufPtr count => Files.sysWrite h pid fd bufPtr count
  | .sysMkdir pathPtr => Files.sysMkdir h pathPtr
  | .sysRmdir pathPtr => Files.sysRmdir h pathPtr
  | .sysUnlink pathPtr => Files.sysUnlink h pid pathPtr
  | .sysRename oldPtr newPtr => Files.sysRename h pid oldPtr newPtr
  | .sysTruncate pathPtr => Files.sysTruncate h pathPtr
  | .sysAccess pathPtr => Files.sysAccess h pathPtr
  | .sysSymlink targetPtr linkpathPtr => Files.sysSymlink targetPtr linkpathPtr
  | .sysReadlink pathPtr bufPtr bufSize => Files.sysReadlink pathPtr bufPtr bufSize
  | .sysSendfile outFd inFd count => Files.sysSendfile h pid outFd inFd count

/-- A process calls, or computes in its memory. -/
inductive FileAct where
  | call (c : FileCall)
  | compute (user : Memory)

def FileStep (h : Host σ) (pid : Nat) (st : FileState σ) (a : FileAct) (st' : FileState σ) : Prop :=
  match a with
  | .call c => st' = (run (c.exec h pid) st).2
  | .compute user => st' = { st with user := user }

end TrainOS.Files
