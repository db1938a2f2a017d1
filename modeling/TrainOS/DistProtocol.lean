import TrainOS.LittleEndian

/-!
# The wire format of the distributed calls (`distributed/protocol.rs`)

Packets start with two bytes of magic.  A writer fills the front of a buffer and says how many
bytes it used, a reader checks lengths before it looks at a field.  Each reader takes back what
the writer wrote as long as it gets all of it: `parseData_dataPacket`, `parseCap_capPacket` and,
for the list of processes, `parseEntries_append`.
-/

namespace TrainOS.Distributed

open LittleEndian

def MAGIC_PING : Nat := 0xD1A0
def MAGIC_PONG : Nat := 0xD1A1
def MAGIC_DATA : Nat := 0xD1A2
def MAGIC_CAP : Nat := 0xD1A3
def MAGIC_PROCLIST_REQ : Nat := 0xD1C0
def MAGIC_PROCLIST_RESP : Nat := 0xD1C1

def MAX_WIRE_PAYLOAD : Nat := 59

def magicOf (buf : List UInt8) : Nat := ofLE (buf.take 2)

/-! ### Data -/

def dataPacket (srcNode : UInt8) (remoteEp : UInt16) (payload : List UInt8) : List UInt8 :=
  toLE 2 MAGIC_DATA ++ (srcNode :: (toLE 2 remoteEp.toNat ++
    (UInt8.ofNat payload.length :: payload)))

def writeData (buf : List UInt8) (srcNode : UInt8) (remoteEp : UInt16) (payload : List UInt8) :
    Option (Nat × List UInt8) :=
  if payload.length > MAX_WIRE_PAYLOAD then none
  else if buf.length < 6 + payload.length then none
  else some (6 + payload.length,
    dataPacket srcNode remoteEp payload ++ buf.drop (6 + payload.length))

def parseData (buf : List UInt8) : Option (UInt8 × UInt16 × List UInt8) :=
  if buf.length < 6 then none
  else if magicOf buf ≠ MAGIC_DATA then none
  else
    let plen := (buf.getD 5 0).toNat
    if buf.length < 6 + plen then none
    else some (buf.getD 2 0, UInt16.ofNat (ofLE ((buf.drop 3).take 2)), (buf.drop 6).take plen)

theorem length_dataPacket (srcNode : UInt8) (remoteEp : UInt16) (payload : List UInt8) :
    (dataPacket srcNode remoteEp payload).length = 6 + payload.length := by
  simp [dataPacket]
  omega

theorem magicOf_dataPacket (srcNode : UInt8) (remoteEp : UInt16) (payload : List UInt8) :
    magicOf (dataPacket srcNode remoteEp payload) = MAGIC_DATA := ofLE_take_toLE (by decide) _

variable {payload : List UInt8}

theorem parseData_dataPacket (srcNode : UInt8) (remoteEp : UInt16)
    (hlen : payload.length ≤ MAX_WIRE_PAYLOAD) :
    parseData (dataPacket srcNode remoteEp payload) = some (srcNode, remoteEp, payload) := by
  have hplen : ((dataPacket srcNode remoteEp payload).getD 5 0).toNat = payload.length := by
    show (UInt8.ofNat payload.length).toNat = payload.length
    rw [UInt8.toNat_ofNat']
    unfold MAX_WIRE_PAYLOAD at hlen
    omega
  have hep : ofLE (((dataPacket srcNode remoteEp payload).drop 3).take 2) = remoteEp.toNat :=
    ofLE_take_toLE (n := 2) remoteEp.toNat_lt _
  have hbody : (dataPacket srcNode remoteEp payload).drop 6 = payload := rfl
  unfold parseData
  rw [length_dataPacket, if_neg (by omega), magicOf_dataPacket, if_neg (not_not_intro rfl)]
  rw [hplen, if_neg (Nat.lt_irrefl _), hep, UInt16.ofNat_toNat, hbody, List.take_length]
  rfl

/-! ### Capabilities -/

def capPacket (srcNode capType rights : UInt8) (slot : UInt32) (resData : Vector UInt8 64) :
    List UInt8 :=
  toLE 2 MAGIC_CAP ++ (srcNode :: capType :: rights :: (toLE 4 slot.toNat ++ resData.toList))

def writeCap (buf : List UInt8) (srcNode capType rights : UInt8) (slot : UInt32)
    (resData : Vector UInt8 64) : Option (Nat × List UInt8) :=
  if buf.length < 73 then none
  else some (73, capPacket srcNode capType rights slot resData ++ buf.drop 73)

/-- The source, the type, the rights, the slot and the data of the resource. -/
def parseCap (buf : List UInt8) : Option (UInt8 × UInt8 × UInt8 × UInt32 × List UInt8) :=
  if buf.length < 73 then none
  else if magicOf buf ≠ MAGIC_CAP then none
  else some (buf.getD 2 0, buf.getD 3 0, buf.getD 4 0, UInt32.ofNat (ofLE ((buf.drop 5).take 4)),
    (buf.drop 9).take 64)

theorem length_capPacket (srcNode capType rights : UInt8) (slot : UInt32)
    (resData : Vector UInt8 64) : (capPacket srcNode capType rights slot resData).length = 73 := by
  simp [capPacket]

theorem parseCap_capPacket (srcNode capType rights : UInt8) (slot : UInt32)
    (resData : Vector UInt8 64) : parseCap (capPacket srcNode capType rights slot resData) =
      some (srcNode, capType, rights, slot, resData.toList) := by
  have hslot :
      ofLE (((capPacket srcNode capType rights slot resData).drop 5).take 4) = slot.toNat :=
    ofLE_take_toLE (n := 4) slot.toNat_lt _
  have hdata : (capPacket srcNode capType rights slot resData).drop 9 = resData.toList := rfl
  have hmagic : magicOf (capPacket srcNode capType rights slot resData) = MAGIC_CAP :=
    ofLE_take_toLE (by decide) _
  unfold parseCap
  rw [length_capPacket, if_neg (Nat.lt_irrefl _), hmagic, if_neg (not_not_intro rfl), hslot,
    UInt32.ofNat_toNat, hdata, List.take_of_length_le (Nat.le_of_eq Vector.length_toList)]
  rfl

/-! ### Lists of processes -/

def NAME_LEN : Nat := 48

/-- What is written for a process: pid, state and name. -/
abbrev RawEntry := UInt32 × UInt8 × List UInt8

def RawEntry.bytes : RawEntry → List UInt8
  | (pid, state, name) =>
      let nlen := min name.length NAME_LEN
      toLE 4 pid.toNat ++ (state :: UInt8.ofNat nlen :: name.take nlen)

/-- The loop over the entries.  The first four bytes of the buffer are for the header. -/
def writeEntries (size : Nat) : List RawEntry → List UInt8 → Option (List UInt8)
  | [], done => some done
  | e :: entries, done =>
      if size < 4 + done.length + e.bytes.length then none
      else writeEntries size entries (done ++ e.bytes)

def proclistPacket (count : Nat) (body : List UInt8) : List UInt8 :=
  toLE 2 MAGIC_PROCLIST_RESP ++ (toLE 2 count ++ body)

def writeProclistResp (buf : List UInt8) (entries : List RawEntry) : Option (Nat × List UInt8) :=
  if entries.length > 64 then none
  else do
    let body ← writeEntries buf.length entries []
    some (4 + body.length, proclistPacket entries.length body ++ buf.drop (4 + body.length))

structure RemoteProcEntry where
  pid : UInt32
  state : UInt8
  name : Vector UInt8 NAME_LEN
  nameLen : Nat
deriving DecidableEq

/-- `let mut name = [0u8; 48]; name[..copy_len].copy_from_slice(..)` -/
def paddedName (bytes : List UInt8) : Vector UInt8 NAME_LEN := Vector.ofFn fun i => bytes.getD i 0

/-- The loop of `parse_proclist_resp` on what follows the position. -/
def parseEntries : Nat → List UInt8 → Option (List RemoteProcEntry)
  | 0, _ => some []
  | count + 1, buf =>
      if buf.length < 6 then none
      else
        let nlen := (buf.getD 5 0).toNat
        if buf.length < 6 + nlen then none
        else do
          let copyLen := min nlen NAME_LEN
          let rest ← parseEntries count (buf.drop (6 + nlen))
          some (⟨UInt32.ofNat (ofLE (buf.take 4)), buf.getD 4 0,
            paddedName ((buf.drop 6).take copyLen), copyLen⟩ :: rest)

/-- The entries that are written to the front of an output buffer with room for `outLen`. -/
def parseProclistResp (buf : List UInt8) (outLen : Nat) : Option (List RemoteProcEntry) :=
  if buf.length < 4 then none
  else if magicOf buf ≠ MAGIC_PROCLIST_RESP then none
  else
    let count := ofLE ((buf.drop 2).take 2)
    if count > outLen then none else parseEntries count (buf.drop 4)

def RawEntry.received : RawEntry → RemoteProcEntry
  | (pid, state, name) => ⟨pid, state, paddedName (name.take NAME_LEN), min name.length NAME_LEN⟩

theorem RawEntry.length_bytes (e : RawEntry) : e.bytes.length = 6 + min e.2.2.length NAME_LEN := by
  obtain ⟨pid, state, name⟩ := e
  simp [RawEntry.bytes]
  omega

/-- One process is read back. -/
theorem parseEntries_cons (e : RawEntry) (count : Nat) (rest : List UInt8) :
    parseEntries (count + 1) (e.bytes ++ rest) =
      (parseEntries count rest).map (e.received :: ·) := by
  have hlen := e.length_bytes
  obtain ⟨pid, state, name⟩ := e
  have hnlen : ((RawEntry.bytes (pid, state, name) ++ rest).getD 5 0).toNat =
      min name.length NAME_LEN := by
    show (UInt8.ofNat (min name.length NAME_LEN)).toNat = _
    rw [UInt8.toNat_ofNat']
    unfold NAME_LEN
    omega
  have hpid : ofLE ((RawEntry.bytes (pid, state, name) ++ rest).take 4) = pid.toNat :=
    ofLE_take_toLE (n := 4) pid.toNat_lt _
  have hname :
      ((RawEntry.bytes (pid, state, name) ++ rest).drop 6).take (min name.length NAME_LEN) =
      name.take NAME_LEN := by
    show (name.take (min name.length NAME_LEN) ++ rest).take _ = _
    rw [List.take_left' (by simp), Nat.min_comm, ← List.take_take, List.take_length]
  rw [parseEntries, List.length_append, hlen, if_neg (by omega)]
  dsimp only
  rw [hnlen, if_neg (by omega), List.drop_left' hlen, hpid, UInt32.ofNat_toNat,
    Nat.min_eq_left (Nat.min_le_right _ _), hname]
  cases parseEntries count rest with
  | none => rfl
  | some entries => rfl

theorem parseEntries_append (entries : List RawEntry) (count : Nat) (rest : List UInt8) :
    parseEntries (entries.length + count) (entries.flatMap RawEntry.bytes ++ rest) =
      (parseEntries count rest).map (entries.map RawEntry.received ++ ·) := by
  induction entries with
  | nil => simp
  | cons e entries ih =>
    rw [List.length_cons, Nat.add_right_comm, List.flatMap_cons, List.append_assoc,
      parseEntries_cons, ih, Option.map_map]
    rfl

theorem writeEntries_eq {size : Nat} (entries : List RawEntry) {done : List UInt8}
    (hdone : 4 + done.length ≤ size) : writeEntries size entries done =
      if size < 4 + done.length + (entries.flatMap RawEntry.bytes).length then none
      else some (done ++ entries.flatMap RawEntry.bytes) := by
  induction entries generalizing done with
  | nil => simp [writeEntries, hdone]
  | cons e entries ih =>
    have hflat :
        (e :: entries).flatMap RawEntry.bytes = e.bytes ++ entries.flatMap RawEntry.bytes :=
      List.flatMap_cons
    rw [writeEntries, hflat, List.length_append]
    by_cases hfull : size < 4 + done.length + e.bytes.length
    · rw [if_pos hfull, if_pos (by omega)]
    · have hnext : 4 + (done ++ e.bytes).length ≤ size := by
        rw [List.length_append]
        omega
      rw [if_neg hfull, ih hnext, List.length_append, List.append_assoc, ← Nat.add_assoc 4,
        Nat.add_assoc (4 + done.length)]

end TrainOS.Distributed
