import TrainOS.FileCalls
import TrainOS.FixedBuffer

/-!
# The file service (`services/fs/src/main.rs`)

Sixteen slots of sixty-four bytes, messages at endpoint 2, and the slots written to the disk
every sixteen messages.  `boot` is what runs before the loop of `_start`, `handle` one round of
the loop.  An index out of bounds is a panic of the service and is `none` here.
-/

namespace TrainOS.FileService

open Files (Path)
open FixedBuffer Function

/-! ### Slots -/

def SLOT_SIZE : Nat := 64
def MAX_FILES : Nat := 16
def MAX_PATH : Nat := 32
def FILE_DATA_BASE : Nat := 16

def bytes (s : String) : List UInt8 := s.toByteArray.data.toList

/-- `path` is `path[..path_len]`: the bytes behind are never read. -/
structure FileSlot where
  path : Path
  path_le : path.length ≤ MAX_PATH
  data : Vector UInt8 SLOT_SIZE
  dataLen : Nat
  isDir : Bool
  used : Bool
  dirty : Bool
  diskSector : Nat
deriving DecidableEq

def FileSlot.new : FileSlot where
  path := []
  path_le := Nat.zero_le _
  data := Vector.replicate SLOT_SIZE 0
  dataLen := 0
  isDir := false
  used := false
  dirty := false
  diskSector := 0

abbrev Slots := Fin MAX_FILES → FileSlot

/-! ### The disk -/

abbrev Sector := Vector UInt8 512

/-- `none` at a sector that the device refuses to read and to write. -/
abbrev Disk := Nat → Option Sector

def SUPERBLOCK_SECTOR : Nat := 0
def FILE_TABLE_SECTOR : Nat := 1

def diskWrite (disk : Disk) (sector : Nat) (data : List UInt8) : Disk :=
  let sectorBuf : Sector := Vector.ofFn fun i => data.getD i.val 0
  if (disk sector).isSome then update disk sector (some sectorBuf) else disk

def le16 (lo hi : UInt8) : Nat := lo.toNat ||| (hi.toNat <<< 8)

/-- The pass of `load_from_disk` over one entry of the file table. -/
def loadSlot (disk : Disk) (ft : Sector) (i : Fin MAX_FILES) (slot : FileSlot) : FileSlot :=
  have hi : i.val < 16 := i.isLt
  let nameLen := (ft.get ⟨i.val * 16, by omega⟩).toNat
  if h : nameLen = 0 ∨ nameLen > MAX_PATH then slot
  else
    let dataLen := (ft.get ⟨i.val * 16 + 1, by omega⟩).toNat
    let diskSector :=
      le16 (ft.get ⟨i.val * 16 + 2, by omega⟩) (ft.get ⟨i.val * 16 + 3, by omega⟩)
    let path := (ft.toList.drop (i.val * 16 + 4)).take nameLen
    let dataBuf : Sector := (disk diskSector).getD (Vector.replicate 512 0)
    let copyLen := if 0 < dataLen ∧ 0 < diskSector then min dataLen SLOT_SIZE else 0
    { slot with
      used := true
      path := path
      path_le := by
        have hle : nameLen ≤ MAX_PATH := Nat.le_of_not_lt fun hlt => h (Or.inr hlt)
        exact (List.length_take_le _ _).trans hle
      dataLen := dataLen
      diskSector := diskSector
      isDir := path.getLast? == some 0x2F
      data := Vector.ofFn fun j =>
        have hj : j.val < 64 := j.isLt
        if j.val < copyLen then dataBuf.get ⟨j.val, by omega⟩ else slot.data.get j }

/-- `load_from_disk`; a disk without superblock leaves the slots as they are. -/
def loadFromDisk (disk : Disk) (slots : Slots) : Slots :=
  match disk SUPERBLOCK_SECTOR, disk FILE_TABLE_SECTOR with
  | some sb, some ft =>
      if sb.toList.take 8 = bytes "TRAINOS2" then fun i => loadSlot disk ft i (slots i)
      else slots
  | _, _ => slots

def FileSlot.header (slot : FileSlot) : List UInt8 :=
  [UInt8.ofNat slot.path.length, UInt8.ofNat slot.dataLen, UInt8.ofNat slot.diskSector,
    UInt8.ofNat (slot.diskSector >>> 8)]

/-- The entry of a used slot: four bytes of header and the path, sixteen bytes behind the
entry before, whatever the length of that one's path. -/
def saveEntry (slots : Slots) (ft : Sector) (i : Fin MAX_FILES) : Option Sector := do
  if !(slots i).used then return ft
  let ft ← copyInto ft (slots i).header (i.val * 16) 4
  copyInto ft (slots i).path (i.val * 16 + 4) (slots i).path.length

def FileSlot.mustSave (slot : FileSlot) : Bool :=
  slot.used && slot.dirty && decide (0 < slot.diskSector)

def superblock (slots : Slots) : List UInt8 :=
  let count := ((List.finRange MAX_FILES).filter fun i => (slots i).used).length
  bytes "TRAINOS2" ++ [3, 0, 0, 0, UInt8.ofNat count, UInt8.ofNat (count >>> 8)]

structure Fs where
  slots : Slots
  opCount : Nat
  disk : Disk

def saveToDisk (fs : Fs) : Option Fs := do
  let disk := diskWrite fs.disk SUPERBLOCK_SECTOR (superblock fs.slots)
  let ft ← (List.finRange MAX_FILES).foldlM (saveEntry fs.slots) (Vector.replicate 512 0)
  let disk := diskWrite disk FILE_TABLE_SECTOR ft.toList
  let saveData (disk : Disk) (i : Fin MAX_FILES) : Disk :=
    if (fs.slots i).mustSave then
      diskWrite disk (fs.slots i).diskSector (fs.slots i).data.toList
    else disk
  return { fs with
    slots := fun i => { fs.slots i with dirty := (fs.slots i).dirty && !(fs.slots i).mustSave }
    disk := (List.finRange MAX_FILES).foldl saveData disk }

def allocDiskSector (slots : Slots) : Nat :=
  let used (s : Nat) : Bool :=
    (List.finRange MAX_FILES).any fun i =>
      (slots i).used && decide (0 < (slots i).diskSector) && (slots i).diskSector == s
  ((List.range' FILE_DATA_BASE (128 - FILE_DATA_BASE)).find? fun s => !used s).getD
    FILE_DATA_BASE

/-! ### Finding and making slots -/

def firstUnused (slots : Slots) : Option (Fin MAX_FILES) :=
  (List.finRange MAX_FILES).find? fun i => !(slots i).used

/-- `make_slot`: the length of the old contents stays, and a full table gives slot 0. -/
def makeSlot (slots : Slots) (path : Path) (isDir : Bool) : Fin MAX_FILES × Slots :=
  match firstUnused slots with
  | none => (⟨0, by decide⟩, slots)
  | some i =>
      let slot := { slots i with
        used := true
        isDir := isDir
        path := path.take MAX_PATH
        path_le := List.length_take_le _ _ }
      -- the sector is looked for while the new slot is already marked used
      let sector := allocDiskSector (update slots i slot)
      (i, update slots i { slot with diskSector := sector, dirty := true })

def makeFile (slots : Slots) (path : Path) (data : List UInt8) : Option Slots := do
  let (idx, slots) := makeSlot slots path false
  let dlen := min data.length SLOT_SIZE
  let data ← copyInto (slots idx).data data 0 dlen
  return update slots idx { slots idx with data := data, dataLen := dlen, dirty := true }

def findSlot (slots : Slots) (path : Path) : Option (Fin MAX_FILES) :=
  (List.finRange MAX_FILES).find? fun i => (slots i).used && (slots i).path == path

def WELCOME : List UInt8 := bytes "Welcome to TrainOS V20.0 -- a microkernel OS for RISC-V"

def initVfs (slots : Slots) : Option Slots :=
  if (List.finRange MAX_FILES).all fun i => !(slots i).used then
    let slots := (makeSlot slots (bytes "/\x00") true).2
    let slots := (makeSlot slots (bytes "/proc\x00") true).2
    let slots := (makeSlot slots (bytes "/home\x00") true).2
    let slots := (makeSlot slots (bytes "/etc\x00") true).2
    let slots := (makeSlot slots (bytes "/tmp\x00") true).2
    makeFile slots (bytes "/welcome.txt\x00") WELCOME
  else some slots

def boot (disk : Disk) : Option Fs := do
  let slots ← initVfs (loadFromDisk disk fun _ => FileSlot.new)
  return { slots := slots, opCount := 0, disk := disk }

/-! ### The files of `/proc` -/

/-- What the kernel tells the service when it asks. -/
structure ProcInfo where
  uptimeMs : UInt64
  meminfo : UInt64
  perfStats : UInt64
  proclist : UInt64 × Vector UInt8 64
  getpid : UInt64

/-- `fmt_num`'s loop, from the last digit into a buffer with `ti` places left. -/
def fmtDigits : Nat → Nat → List UInt8 → Option (List UInt8)
  | 0, _, _ => none
  | ti + 1, n, tmp =>
      let tmp := (48 + UInt8.ofNat (n - n / 10 * 10)) :: tmp
      if n / 10 = 0 then some tmp else fmtDigits ti (n / 10) tmp

def digitsOf (n : Nat) : Option (List UInt8) :=
  if n = 0 then some [48] else fmtDigits 20 n []

/-- `fmt_num`: the digits of `n` at `off`, and the offset behind them. -/
def fmtNum (n : Nat) (buf : Vector UInt8 SLOT_SIZE) (off : Nat) :
    Option (Vector UInt8 SLOT_SIZE × Nat) := do
  let digits ← digitsOf n
  let buf ← copyInto buf digits off digits.length
  return (buf, off + digits.length)

def putText (text : String) (buf : Vector UInt8 SLOT_SIZE) (off : Nat) :
    Option (Vector UInt8 SLOT_SIZE × Nat) := do
  let buf ← copyInto buf (bytes text) off (bytes text).length
  return (buf, off + (bytes text).length)

def pathMatch (a b : List UInt8) : Bool :=
  let len := min a.length b.length
  a.take len == b.take len

/-- The files `proc_read` knows. -/
inductive ProcFile
  | uptime | meminfo | perf | version | proc | self
deriving DecidableEq, Repr

def ProcFile.ofPath (path : Path) : Option ProcFile :=
  if pathMatch path (bytes "/proc/uptime\x00") then some .uptime
  else if pathMatch path (bytes "/proc/meminfo\x00") then some .meminfo
  else if pathMatch path (bytes "/proc/perf\x00") then some .perf
  else if pathMatch path (bytes "/proc/version\x00") then some .version
  else if pathMatch path (bytes "/proc/proc\x00") then some .proc
  else if pathMatch path (bytes "/proc/self\x00") then some .self
  else none

def ProcFile.text (info : ProcInfo) : ProcFile → Option (Vector UInt8 SLOT_SIZE)
  | .uptime => do
      let (result, _) ← fmtNum info.uptimeMs.toNat (Vector.replicate SLOT_SIZE 0) 0
      return result
  | .meminfo => do
      let (result, rlen) ← putText "allocated_pages: " (Vector.replicate SLOT_SIZE 0) 0
      let (result, _) ← fmtNum info.meminfo.toNat result rlen
      return result
  | .perf => do
      let sends := info.perfStats.toNat % 2 ^ 20
      let recvs := info.perfStats.toNat / 2 ^ 20 % 2 ^ 20
      let ctx := info.perfStats.toNat / 2 ^ 40 % 2 ^ 24
      let (result, rlen) ← putText "sends=" (Vector.replicate SLOT_SIZE 0) 0
      let (result, rlen) ← fmtNum sends result rlen
      let (result, rlen) ← putText " " result rlen
      let (result, rlen) ← putText "recvs=" result rlen
      let (result, rlen) ← fmtNum recvs result rlen
      let (result, rlen) ← putText " " result rlen
      let (result, rlen) ← putText "ctx=" result rlen
      let (result, _) ← fmtNum ctx result rlen
      return result
  | .version => do
      let (result, _) ←
        putText "TrainOS V20.0 -- Microkernel OS" (Vector.replicate SLOT_SIZE 0) 0
      return result
  | .proc => do
      let (count, buf) := info.proclist
      let rlen := min (count.toNat * 6 % 2 ^ 64) SLOT_SIZE
      copyInto (Vector.replicate SLOT_SIZE 0) buf.toList 0 rlen
  | .self => do
      let (result, _) ← fmtNum info.getpid.toNat (Vector.replicate SLOT_SIZE 0) 0
      return result

/-- `proc_read`; the inner `none` is a path that no name matches. -/
def procRead (info : ProcInfo) (path : Path) : Option (Option (Vector UInt8 SLOT_SIZE)) :=
  match ProcFile.ofPath path with
  | none => some none
  | some file => (file.text info).map some

/-! ### Requests -/

/-- A received message, with what the kernel answers the service meanwhile. -/
structure Message where
  opcode : UInt16
  buf : Vector UInt8 64
  info : ProcInfo

structure Reply where
  endpoint : Nat
  data : List UInt8
deriving DecidableEq, Repr

def ENOENT : List UInt8 := bytes "ENOENT"
def OK : List UInt8 := bytes "OK"

def Message.replyEp (m : Message) : Nat := le16 (m.buf.get 0) (m.buf.get 1)

def Message.pathLen (m : Message) : Nat := min (m.buf.get 2).toNat MAX_PATH

def Message.path (m : Message) : Path := (m.buf.toList.drop 3).take m.pathLen

def Message.dataOff (m : Message) : Nat := 3 + m.pathLen

/-- `dlen` of a WRITE or an APPEND: the length byte, at most the size of a slot. -/
def Message.dlen (m : Message) : Nat :=
  min (if h : m.dataOff < 64 then (m.buf.get ⟨m.dataOff, h⟩).toNat else 0) SLOT_SIZE

/-- The bytes of a WRITE or an APPEND; none when they reach past the message. -/
def Message.data (m : Message) : List UInt8 :=
  if m.dataOff + 1 + m.dlen ≤ 64 then (m.buf.toList.drop (m.dataOff + 1)).take m.dlen else []

def readSlot (slot : FileSlot) : Option (Vector UInt8 SLOT_SIZE) :=
  copyInto (Vector.replicate SLOT_SIZE 0) slot.data.toList 0 (min slot.dataLen SLOT_SIZE)

def serveRead (slots : Slots) (m : Message) : Option (List UInt8) := do
  if 5 ≤ m.pathLen then
    match ← procRead m.info m.path with
    | some data => return data.toList
    | none =>
        match findSlot slots m.path with
        | some idx =>
            let data ← readSlot (slots idx)
            return data.toList
        | none => return ENOENT
  else return ENOENT

def slotFor (slots : Slots) (path : Path) : Fin MAX_FILES × Slots :=
  match findSlot slots path with
  | some existing => (existing, slots)
  | none => makeSlot slots path false

def serveWrite (slots : Slots) (m : Message) : Option Slots := do
  let (idx, slots) := slotFor slots m.path
  let data ← copyInto (slots idx).data m.data 0 m.dlen
  return update slots idx
    { slots idx with data := data, dataLen := m.dlen, dirty := true }

def serveAppend (slots : Slots) (m : Message) : Option Slots := do
  let (idx, slots) := slotFor slots m.path
  let curLen := (slots idx).dataLen
  let newLen := min (curLen + m.dlen) SLOT_SIZE
  -- `new_len - cur_len` wraps around and the first store is out of bounds
  if newLen < curLen then none
  else
    let data ← copyInto (slots idx).data m.data curLen (newLen - curLen)
    return update slots idx
      { slots idx with data := data, dataLen := newLen, dirty := true }

def serveDelete (slots : Slots) (m : Message) : Slots :=
  match findSlot slots m.path with
  | some idx => update slots idx { slots idx with used := false }
  | none => slots

/-- The pass of LIST over one slot; `listing` is what is written so far. -/
def listSlot (dirPath : Path) (listing : List UInt8) (slot : FileSlot) : List UInt8 :=
  if !slot.used then listing
  else if slot.path.length > dirPath.length ∧ dirPath.isPrefixOf slot.path then
    let rest := slot.path.drop dirPath.length
    if !rest.contains 0x2F ∧ listing.length + rest.length + 1 ≤ 64 then
      listing ++ rest ++ [0x0A]
    else listing
  else listing

def serveList (slots : Slots) (m : Message) : List UInt8 :=
  (List.finRange MAX_FILES).foldl (fun listing i => listSlot m.path listing (slots i)) []

def serveStat (slots : Slots) (m : Message) : List UInt8 :=
  match findSlot slots m.path with
  | some idx => [UInt8.ofNat (slots idx).dataLen, if (slots idx).isDir then 1 else 0]
  | none => ENOENT

def serve (slots : Slots) (m : Message) : Option (Option (List UInt8) × Slots) :=
  match m.opcode with
  | 2 => do
      let data ← serveRead slots m
      return (some data, slots)
  | 3 => do
      let slots ← serveWrite slots m
      return (some OK, slots)
  | 4 => do
      let slots ← serveAppend slots m
      return (some OK, slots)
  | 5 => return (some OK, serveDelete slots m)
  | 6 => return (some (serveList slots m), slots)
  | 7 => return (some (serveStat slots m), slots)
  | _ => return (none, slots)

def savePeriodically (fs : Fs) : Option Fs :=
  if fs.opCount % 16 = 0 then saveToDisk fs else some fs

def handle (fs : Fs) (m : Message) : Option (Option Reply × Fs) := do
  let (reply, slots) ← serve fs.slots m
  let fs ← savePeriodically { fs with slots := slots, opCount := fs.opCount + 1 }
  return (reply.map fun data => { endpoint := m.replyEp, data := data }, fs)

end TrainOS.FileService
