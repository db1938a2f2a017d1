import TrainOS.DistNode

/-!
# Messages between nodes

The packets can be longer than the payload of a message: `remoteSend_isSome_iff` and
`remoteMint_eq_none` say which calls panic.  What has been sent is queued by the receiver and
handed out in order (`received_of_room`), and a list of processes is read back as far as it fits
into one message (`parseEntries_take_iff`).
-/

namespace TrainOS.Distributed

open Capability FixedBuffer LittleEndian Option
open List hiding Vector

/-! ### What a message carries -/

section Messages

variable {pid : UInt32} {opcode : UInt16} {bytes wireBuf : List UInt8} {msg : Message}
  {port : UInt16} {dataLen : Nat}

theorem newMessage_spec (pid : UInt32) (opcode : UInt16) (hlen : bytes.length ≤ MAX_PAYLOAD) :
    ∃ msg, newMessage pid opcode bytes = some msg ∧ msg.opcode = opcode ∧ msg.body = bytes := by
  have hfits : 0 + bytes.length ≤ MAX_PAYLOAD := by rwa [Nat.zero_add]
  obtain ⟨v, hv, hlist⟩ := copySlice_spec (Vector.replicate MAX_PAYLOAD (0 : UInt8)) hfits rfl
  refine ⟨⟨pid, opcode, v, bytes.length, hlen⟩, ?_, rfl, ?_⟩
  · rw [newMessage, hv]
    exact dif_pos hlen
  · rw [Message.body, hlist, take_zero, nil_append, take_left' rfl]

theorem newMessage_eq_none (hlen : MAX_PAYLOAD < bytes.length) :
    newMessage pid opcode bytes = none := by
  rw [newMessage, copySlice_eq_none (by rwa [Nat.zero_add])]
  rfl

theorem netMessage_spec (pid : UInt32) (port : UInt16) (hlen : dataLen ≤ 61)
    (hbuf : dataLen ≤ wireBuf.length) : ∃ msg, netMessage pid port wireBuf dataLen = some msg ∧
      msg.carried = wireBuf.take dataLen := by
  have hfits : 3 + dataLen ≤ MAX_PAYLOAD := by
    unfold MAX_PAYLOAD
    omega
  have htake : (wireBuf.take dataLen).length = dataLen := length_take_of_le hbuf
  have hhead : (netHeader port dataLen).toList.take 3 =
      [(port >>> 8).toUInt8, port.toUInt8, UInt8.ofNat dataLen] := rfl
  obtain ⟨v, hv, hlist⟩ := copySlice_spec (netHeader port dataLen) hfits htake
  rw [hhead, append_assoc] at hlist
  refine ⟨⟨pid, 2, v, 3 + dataLen, hfits⟩, ?_, ?_⟩
  · rw [netMessage, hv]
    exact dif_pos hfits
  · have hbyte : (UInt8.ofNat dataLen).toNat = dataLen := by
      rw [UInt8.toNat_ofNat']
      omega
    rw [Message.carried, if_pos rfl, hlist]
    simp only [cons_append, getD_cons_succ, getD_cons_zero, hbyte, drop_succ_cons,
      drop_zero, nil_append]
    rw [take_left' htake]

end Messages

/-! ### Sending -/

def Kernel.room (k : Kernel) (nodeId : UInt32) : Nat := if k.isVirtual nodeId then 58 else 55

section Sending

variable {send : Nat → Message → Except String Unit} {k : Kernel} {nodeId : UInt32} {remoteEp : Nat}
  {data wireBuf : List UInt8} {written : Nat} {sent : Outbox}

theorem endpointSend_ok {ep : Nat} {msg : Message}
    (h : endpointSend send ep msg = (.ok (), sent)) : sent = [(ep, msg)] := by
  unfold endpointSend at h
  split at h
  · exact (Prod.mk.inj h).2.symm
  · cases h

/-- The call ends, and when it succeeds one message carries the packet. -/
def Sends (packet : List UInt8) (outcome : Option (Except String Unit × Outbox)) : Prop :=
  ∃ res sent, outcome = some (res, sent) ∧
    (res = .ok () → ∃ ep msg, sent = [(ep, msg)] ∧ msg.carried = packet)

section

variable (hwire : written ≤ wireBuf.length)
include hwire

theorem sends_sendVirtual (hlen : written ≤ MAX_PAYLOAD) :
    Sends (wireBuf.take written) (sendVirtual send k nodeId wireBuf written) := by
  have htake : (wireBuf.take written).length = written := length_take_of_le hwire
  obtain ⟨msg, hmsg, hop, hbody⟩ := newMessage_spec (k.current.getD 0) 0xD1 (htake.trans_le hlen)
  refine ⟨_, _, by rw [sendVirtual, hmsg]; rfl,
    fun hok => ⟨_, msg, endpointSend_ok (Prod.ext hok rfl), ?_⟩⟩
  rw [Message.carried, hop, if_neg (by decide), hbody]

theorem sendVirtual_eq_none (hlen : MAX_PAYLOAD < written) :
    sendVirtual send k nodeId wireBuf written = none := by
  have htake : (wireBuf.take written).length = written := length_take_of_le hwire
  rw [sendVirtual, newMessage_eq_none (htake.symm ▸ hlen)]
  rfl

theorem sends_sendNet (hlen : written ≤ 61) :
    Sends (wireBuf.take written) (sendNet send k nodeId wireBuf written) := by
  unfold sendNet
  cases k.remoteNodes.find? (·.nodeId = nodeId) with
  | none => exact ⟨_, _, rfl, fun h => by cases h⟩
  | some node =>
    have hmin : min written 62 = written := Nat.min_eq_left (by omega)
    obtain ⟨msg, hmsg, hcarried⟩ := netMessage_spec (k.current.getD 0) node.port hlen hwire
    dsimp only
    rw [hmin, hmsg]
    rcases hsend : endpointSend send 3 msg with ⟨_ | _, sent⟩
    · exact ⟨.error "net send failed", sent, by simp [hsend], fun h => by cases h⟩
    · exact ⟨.ok (), sent, by simp [hsend], fun _ => ⟨3, msg, endpointSend_ok hsend, hcarried⟩⟩

end

theorem sendNet_eq_none (hnet : k.isVirtual nodeId = false) (hlen : 61 < written) :
    sendNet send k nodeId wireBuf written = none := by
  obtain ⟨node, hmem, hnode⟩ : ∃ node ∈ k.remoteNodes, node.nodeId = nodeId := by
    simp only [Kernel.isVirtual, Bool.not_eq_false', List.any_eq_true] at hnet
    obtain ⟨node, hmem, hnode⟩ := hnet
    exact ⟨node, hmem, by simp_all⟩
  unfold sendNet
  cases hfind : k.remoteNodes.find? (·.nodeId = nodeId) with
  | none =>
    have := find?_eq_none.mp hfind node hmem
    simp [hnode] at this
  | some node' =>
    dsimp only
    rw [netMessage, copySlice_eq_none]
    · rfl
    · unfold MAX_PAYLOAD
      omega

/-- Data is sent as one packet if there is room for it, and else the call panics. -/
theorem remoteSend_cases (send : Nat → Message → Except String Unit) (k : Kernel)
    (nodeId : UInt32) (remoteEp : Nat) (hdata : data.length ≤ MAX_WIRE_PAYLOAD) :
    (data.length ≤ k.room nodeId ∧ Sends (dataPacket k.clusterNodeId (UInt16.ofNat remoteEp) data)
      (remoteSend send k nodeId remoteEp data)) ∨
    (k.room nodeId < data.length ∧ remoteSend send k nodeId remoteEp data = none) := by
  have hlen := length_dataPacket k.clusterNodeId (UInt16.ofNat remoteEp) data
  rw [remoteSend, writeData, if_neg (by omega),
    if_neg (by rw [length_replicate]; unfold MAX_WIRE_PAYLOAD at hdata; omega)]
  generalize hwire : dataPacket k.clusterNodeId (UInt16.ofNat remoteEp) data ++ _ = wireBuf
  have hpacket : wireBuf.take (6 + data.length) = dataPacket _ _ data := hwire ▸ take_left' hlen
  have hwritten : 6 + data.length ≤ wireBuf.length := by
    rw [← hwire, length_append, hlen]
    exact Nat.le_add_right _ _
  rw [← hpacket]
  dsimp only [Kernel.room]
  by_cases hvirtual : k.isVirtual nodeId
  · rw [if_pos hvirtual, if_pos hvirtual]
    rcases Nat.lt_or_ge 58 data.length with hlong | hshort
    · exact .inr ⟨hlong, sendVirtual_eq_none hwritten (by unfold MAX_PAYLOAD; omega)⟩
    · exact .inl ⟨hshort, sends_sendVirtual hwritten (by unfold MAX_PAYLOAD; omega)⟩
  · rw [if_neg hvirtual, if_neg hvirtual]
    rcases Nat.lt_or_ge 55 data.length with hlong | hshort
    · exact .inr ⟨hlong, sendNet_eq_none (by simpa using hvirtual) (by omega)⟩
    · exact .inl ⟨hshort, sends_sendNet hwritten (by omega)⟩

section

variable (hdata : data.length ≤ MAX_WIRE_PAYLOAD)
include hdata

theorem remoteSend_isSome_iff :
    (remoteSend send k nodeId remoteEp data).isSome ↔ data.length ≤ k.room nodeId := by
  rcases remoteSend_cases send k nodeId remoteEp hdata with
    ⟨hshort, _, _, heq, -⟩ | ⟨hlong, heq⟩ <;> rw [heq]
  · exact iff_of_true rfl hshort
  · exact iff_of_false (by decide) (Nat.not_le_of_lt hlong)

end

end Sending

/-! ### Lists of processes -/

section Proclist

variable {k : Kernel} {count : Nat}

theorem length_flatMap_raw (ps : List Process) :
    ((ps.map Process.raw).flatMap RawEntry.bytes).length = 10 * ps.length := by
  induction ps with
  | nil => rfl
  | cons p ps ih =>
    have hten : p.raw.bytes.length = 10 := RawEntry.length_bytes p.raw
    rw [map_cons, flatMap_cons, length_append, hten, ih, length_cons]
    omega

theorem magicOf_proclistPacket (count : Nat) (body : List UInt8) :
    magicOf (proclistPacket count body) = MAGIC_PROCLIST_RESP := ofLE_take_toLE (by decide) _

theorem length_proclistPacket (count : Nat) (body : List UInt8) :
    (proclistPacket count body).length = 4 + body.length := by
  simp [proclistPacket]
  omega

theorem parseProclistResp_packet (hcount : count < 2 ^ 16) (body : List UInt8)
    (outLen : Nat) : parseProclistResp (proclistPacket count body) outLen =
      if count > outLen then none else parseEntries count body := by
  have hfield : ofLE (((proclistPacket count body).drop 2).take 2) = count :=
    ofLE_take_toLE (n := 2) hcount body
  have hlen : ¬ (proclistPacket count body).length < 4 := by
    rw [length_proclistPacket]
    omega
  rw [parseProclistResp, if_neg hlen, magicOf_proclistPacket, if_neg (not_not_intro rfl)]
  rw [hfield]
  rfl

/-- More than fifty processes get no answer. -/
theorem proclistReply_eq (k : Kernel) : (50 < k.processes.length ∧ proclistReply k = some none) ∨
    (k.processes.length ≤ 50 ∧ ∃ msg, proclistReply k = some (some msg) ∧ msg.body =
      proclistPacket k.processes.length
        (((k.processes.map Process.raw).flatMap RawEntry.bytes).take 60)) := by
  have hdone : 4 + ([] : List UInt8).length ≤ (replicate 512 (0 : UInt8)).length := by
    rw [length_replicate]
    decide
  unfold proclistReply
  rw [writeProclistResp, if_neg (by rw [length_map, length_take]; omega), writeEntries_eq _ hdone,
    length_flatMap_raw, length_nil, length_replicate]
  rcases Nat.lt_or_ge 50 k.processes.length with hmany | hfew
  · refine .inl ⟨hmany, ?_⟩
    rw [if_pos (by rw [length_take]; omega)]
    rfl
  · refine .inr ⟨hfew, ?_⟩
    rw [take_of_length_le (by omega), if_neg (by omega)]
    dsimp only [bind_eq_bind, bind_some]
    rw [nil_append, length_flatMap_raw, length_map]
    have hlen := length_proclistPacket k.processes.length
      ((k.processes.map Process.raw).flatMap RawEntry.bytes)
    rw [length_flatMap_raw] at hlen
    obtain ⟨msg, hmsg, -, hbody⟩ := newMessage_spec 0 0xD1 (length_take_le MAX_PAYLOAD
      (proclistPacket k.processes.length ((k.processes.map Process.raw).flatMap RawEntry.bytes)))
    refine ⟨msg, ?_, hbody⟩
    rw [Nat.min_comm, ← take_take, take_left' hlen]
    exact congrArg (Option.map some) hmsg

theorem parseEntries_take_iff (ps : List Process) :
    parseEntries ps.length (((ps.map Process.raw).flatMap RawEntry.bytes).take 60) =
      some (ps.map fun p => p.raw.received) ↔ ps.length ≤ 6 := by
  have hbody := length_flatMap_raw ps
  rcases Nat.lt_or_ge 6 ps.length with hmany | hfew
  · -- six entries are read, and nothing is left for the seventh
    have hsplit : ((ps.map Process.raw).flatMap RawEntry.bytes).take 60 =
        ((ps.take 6).map Process.raw).flatMap RawEntry.bytes := by
      have hsix := length_flatMap_raw (ps.take 6)
      rw [length_take, Nat.min_eq_left hmany.le] at hsix
      conv_lhs => rw [← take_append_drop 6 ps]
      rw [map_append, flatMap_append, take_left' hsix]
    have hread := parseEntries_append ((ps.take 6).map Process.raw) (ps.length - 6) []
    rw [append_nil, length_map, length_take, Nat.min_eq_left hmany.le,
      Nat.add_sub_cancel' hmany.le] at hread
    obtain ⟨count, hcount⟩ : ∃ count, ps.length - 6 = count + 1 := ⟨ps.length - 7, by omega⟩
    rw [hsplit, hread, hcount]
    exact iff_of_false (by simp [parseEntries]) (Nat.not_le_of_lt hmany)
  · have hread := parseEntries_append (ps.map Process.raw) 0 []
    rw [append_nil, length_map, Nat.add_zero] at hread
    rw [take_of_length_le (by omega), hread]
    exact iff_of_true (by simp [parseEntries]) hfew

end Proclist

/-! ### The queue of the receiver -/

section Receiving

variable {srcNode : UInt8} {srcEp : UInt16} {payload data : List UInt8}
  {send : Nat → Message → Except String Unit} {k : Kernel} {msg : Message}
  {buf rest : List RcvBufEntry} {e : RcvBufEntry}

theorem remoteRecv_eq (buf : List RcvBufEntry) : remoteRecv buf = match buf.filter (·.valid) with
    | [] => none
    | e :: rest => some (e, rest) := by
  induction buf with
  | nil => rfl
  | cons e buf ih =>
    by_cases hvalid : e.valid
    · rw [remoteRecv, if_pos hvalid, filter_cons_of_pos hvalid]
    · rw [remoteRecv, if_neg hvalid, filter_cons_of_neg hvalid, ih]

theorem queueIncomingMessage_spec (buf : List RcvBufEntry) (srcNode : UInt8) (srcEp : UInt16)
    (hlen : payload.length ≤ 64) : ∃ e : RcvBufEntry, e.valid ∧
      e.srcNode = srcNode ∧ e.srcEp = srcEp ∧ e.payload.toList.take e.payloadLen = payload ∧
      queueIncomingMessage buf srcNode srcEp payload =
        some ((if buf.length ≥ MAX_RCV_BUF_MSGS then buf.tail else buf) ++ [e]) := by
  have hmin : min payload.length 64 = payload.length := Nat.min_eq_left hlen
  have hfits : 0 + payload.length ≤ 64 := by omega
  obtain ⟨v, hv, hlist⟩ := copySlice_spec (Vector.replicate 64 (0 : UInt8)) hfits rfl
  refine ⟨⟨srcNode, srcEp, v, payload.length, true⟩, rfl, rfl, rfl, ?_, ?_⟩
  · rw [hlist, take_zero, nil_append, take_left' rfl]
  · rw [queueIncomingMessage, hmin, hv]
    rfl

theorem length_body_le (msg : Message) : msg.body.length ≤ 64 := by
  rw [Message.body, length_take, Vector.length_toList]
  exact Nat.min_le_right _ _

theorem length_payload_le {bytes : List UInt8}
    (h : parseData bytes = some (srcNode, srcEp, payload)) : payload.length ≤ bytes.length := by
  unfold parseData at h
  split at h
  · cases h
  split at h
  · cases h
  dsimp only at h
  split at h
  · cases h
  · cases h
    rw [length_take, length_drop]
    omega

/-- No message panics, and one at most is queued. -/
theorem processIncomingMessage_spec (send : Nat → Message → Except String Unit) (k : Kernel)
    (msg : Message) : ∃ k' sent, processIncomingMessage send k msg = some (k', sent) ∧
      (k'.rcvBuf = k.rcvBuf ∨ ∃ e : RcvBufEntry, k'.rcvBuf =
        (if k.rcvBuf.length ≥ MAX_RCV_BUF_MSGS then k.rcvBuf.tail else k.rcvBuf) ++ [e]) := by
  unfold processIncomingMessage
  dsimp only
  split
  · exact ⟨k, [], rfl, .inl rfl⟩
  split
  · cases parseNodeId msg.body with
    | none => exact ⟨k, [], rfl, .inl rfl⟩
    | some src =>
      have hpong : (toLE 2 MAGIC_PONG ++ toLE 4 k.clusterNodeId.toNat).length ≤ MAX_PAYLOAD := by
        rw [length_append, length_toLE, length_toLE]
        decide
      obtain ⟨pong, hnew, -⟩ := newMessage_spec 0 0xD1 hpong
      dsimp only
      rw [handleIncomingPing, hnew]
      exact ⟨k, _, rfl, .inl rfl⟩
  split
  · cases parseNodeId msg.body with
    | none => exact ⟨k, [], rfl, .inl rfl⟩
    | some src => exact ⟨_, _, rfl, .inl rfl⟩
  split
  · cases hparse : parseData msg.body with
    | none => exact ⟨k, [], rfl, .inl rfl⟩
    | some packet =>
      obtain ⟨src, ep, payload⟩ := packet
      obtain ⟨e, -, -, -, -, hqueue⟩ := queueIncomingMessage_spec k.rcvBuf src ep
        ((length_payload_le hparse).trans (length_body_le msg))
      dsimp only
      rw [hqueue]
      exact ⟨_, _, rfl, .inr ⟨e, rfl⟩⟩
  split
  · split
    · exact ⟨_, _, rfl, .inl rfl⟩
    · exact ⟨k, [], rfl, .inl rfl⟩
  split
  · split
    · exact ⟨k, [], rfl, .inl rfl⟩
    · rw [handleProclistRequest]
      rcases proclistReply_eq k with ⟨-, hreply⟩ | ⟨-, _, hreply, -⟩ <;> rw [hreply]
      · exact ⟨k, [], rfl, .inl rfl⟩
      · exact ⟨k, _, rfl, .inl rfl⟩
  · exact ⟨k, [], rfl, .inl rfl⟩

/-! ### Later calls of the receiver -/

/-- A message comes in, or a thread calls `remote_recv`. -/
inductive RcvEvent where
  | arrive (msg : Message)
  | recv

/-- The node afterwards and what `remote_recv` returned; a call that finds nothing waits. -/
def RcvEvent.exec (send : Nat → Message → Except String Unit) (k : Kernel) :
    RcvEvent → Option (Kernel × List RcvBufEntry)
  | .arrive msg => (processIncomingMessage send k msg).map fun (k, _) => (k, [])
  | .recv =>
      match remoteRecv k.rcvBuf with
      | none => some (k, [])
      | some (e, rcvBuf) => some ({ k with rcvBuf }, [e])

def runEvents (send : Nat → Message → Except String Unit) (k : Kernel) :
    List RcvEvent → Option (Kernel × List RcvBufEntry)
  | [] => some (k, [])
  | ev :: events => do
      let (k, got) ← ev.exec send k
      let (k, more) ← runEvents send k events
      some (k, got ++ more)

/-- No message comes in while the buffer is full. -/
def Room (send : Nat → Message → Except String Unit) (k : Kernel) : List RcvEvent → Prop
  | [] => True
  | ev :: events =>
      (match ev with
        | .arrive _ => k.rcvBuf.length < MAX_RCV_BUF_MSGS
        | .recv => True) ∧
      ∀ k' got, ev.exec send k = some (k', got) → Room send k' events

def recvCount : List RcvEvent → Nat
  | [] => 0
  | .arrive _ :: events => recvCount events
  | .recv :: events => recvCount events + 1

variable {events : List RcvEvent}

theorem runEvents_cons {ev : RcvEvent} {k' k'' : Kernel}
    {got more : List RcvBufEntry} (hexec : ev.exec send k = some (k', got))
    (hrun : runEvents send k' events = some (k'', more)) :
    runEvents send k (ev :: events) = some (k'', got ++ more) := by
  rw [runEvents, hexec]
  dsimp only [bind_eq_bind, bind_some]
  rw [hrun]
  rfl

theorem exec_total (send : Nat → Message → Except String Unit) (k : Kernel) (ev : RcvEvent) :
    ∃ k' got, ev.exec send k = some (k', got) := by
  cases ev with
  | arrive msg =>
    obtain ⟨k', sent, hprocess, -⟩ := processIncomingMessage_spec send k msg
    exact ⟨k', [], by rw [RcvEvent.exec, hprocess]; rfl⟩
  | recv =>
    unfold RcvEvent.exec
    cases remoteRecv k.rcvBuf with
    | none => exact ⟨k, [], rfl⟩
    | some got => exact ⟨_, _, rfl⟩

theorem runEvents_total (send : Nat → Message → Except String Unit) (k : Kernel)
    (events : List RcvEvent) : ∃ k' received, runEvents send k events = some (k', received) := by
  induction events generalizing k with
  | nil => exact ⟨k, [], rfl⟩
  | cons ev events ih =>
    obtain ⟨k', got, hexec⟩ := exec_total send k ev
    obtain ⟨k'', more, hrun⟩ := ih k'
    exact ⟨k'', got ++ more, runEvents_cons hexec hrun⟩

theorem exec_recv (hqueue : k.rcvBuf.filter (·.valid) = e :: rest) :
    RcvEvent.exec send k .recv = some ({ k with rcvBuf := rest }, [e]) := by
  rw [RcvEvent.exec, remoteRecv_eq, hqueue]

/-- A queued entry is returned when there are more calls of `remote_recv` than entries in front of
    it, unless the buffer overflows. -/
theorem received_of_room {front behind : List RcvBufEntry}
    (hqueue : k.rcvBuf.filter (·.valid) = front ++ e :: behind) (hroom : Room send k events)
    (hcalls : front.length < recvCount events) :
    ∃ k' received, runEvents send k events = some (k', received) ∧ e ∈ received := by
  induction events generalizing k front behind with
  | nil => cases hcalls
  | cons ev events ih =>
    cases ev with
    | arrive msg =>
      obtain ⟨k', sent, hprocess, hbuf⟩ := processIncomingMessage_spec send k msg
      have hexec : RcvEvent.exec send k (.arrive msg) = some (k', []) := by
        rw [RcvEvent.exec, hprocess]
        rfl
      -- the entry keeps its place, another one may come in behind it
      obtain ⟨more, hmore⟩ :
          ∃ more, k'.rcvBuf.filter (·.valid) = front ++ e :: (behind ++ more) := by
        rcases hbuf with hsame | ⟨e', hnew⟩
        · exact ⟨[], by rw [hsame, hqueue, append_nil]⟩
        · rw [if_neg (Nat.not_le_of_lt hroom.1)] at hnew
          refine ⟨[e'].filter (·.valid), ?_⟩
          rw [hnew, filter_append, hqueue, append_assoc, cons_append]
      obtain ⟨k'', received, hrun, hmem⟩ := ih hmore (hroom.2 k' [] hexec) hcalls
      exact ⟨k'', received, runEvents_cons hexec hrun, hmem⟩
    | recv =>
      cases front with
      | nil =>
        obtain ⟨k'', more, hrun⟩ := runEvents_total send { k with rcvBuf := behind } events
        exact ⟨k'', [e] ++ more, runEvents_cons (exec_recv hqueue) hrun, mem_cons_self⟩
      | cons e' front =>
        have hvalid : (front ++ e :: behind).filter (·.valid) = front ++ e :: behind := by
          refine filter_eq_self.mpr fun x hx => ?_
          have hmem : x ∈ k.rcvBuf.filter (·.valid) := hqueue ▸ mem_cons_of_mem e' hx
          exact (mem_filter.mp hmem).2
        have hexec : RcvEvent.exec send k .recv =
            some ({ k with rcvBuf := front ++ e :: behind }, [e']) := exec_recv hqueue
        have hcalls : front.length < recvCount events := Nat.lt_of_succ_lt_succ hcalls
        obtain ⟨k'', more, hrun, hmem⟩ := ih hvalid (hroom.2 _ _ hexec) hcalls
        exact ⟨k'', [e'] ++ more, runEvents_cons hexec hrun, mem_append_right _ hmem⟩

end Receiving

/-- A node that is handed the bytes gets the data out of `remote_recv`, after the messages that
    came before it. -/
def Intact (srcNode : UInt8) (remoteEp : Nat) (data bytes : List UInt8) : Prop :=
  ∀ (send : Nat → Message → Except String Unit) (k : Kernel) (incoming : Message),
    incoming.body = bytes → ∃ k', processIncomingMessage send k incoming = some (k', []) ∧
      ∀ events, Room send k' events → k'.rcvBuf.length ≤ recvCount events →
        ∃ k'' received, runEvents send k' events = some (k'', received) ∧
          ∃ e ∈ received, e.srcNode = srcNode ∧ e.srcEp.toNat = remoteEp ∧
            e.payload.toList.take e.payloadLen = data

/-- A packet of data is received as it was sent. -/
theorem intact_dataPacket (srcNode : UInt8) {remoteEp : Nat} {data : List UInt8}
    (hep : remoteEp < 2 ^ 16) (hdata : data.length ≤ MAX_WIRE_PAYLOAD) :
    Intact srcNode remoteEp data (dataPacket srcNode (UInt16.ofNat remoteEp) data) := by
  intro send k incoming hbody
  obtain ⟨e, hvalid, hsrc, hsrcEp, hpayload, hqueued⟩ := queueIncomingMessage_spec k.rcvBuf srcNode
    (UInt16.ofNat remoteEp) (show data.length ≤ 64 by unfold MAX_WIRE_PAYLOAD at hdata; omega)
  generalize (if k.rcvBuf.length ≥ MAX_RCV_BUF_MSGS then k.rcvBuf.tail else k.rcvBuf) = front
    at hqueued
  refine ⟨{ k with rcvBuf := front ++ [e] }, ?_, fun events hroom hcalls => ?_⟩
  · unfold processIncomingMessage
    dsimp only
    rw [hbody, length_dataPacket, if_neg (by omega), magicOf_dataPacket, if_neg (by decide),
      if_neg (by decide), if_pos rfl, parseData_dataPacket _ _ hdata]
    dsimp only
    rw [hqueued]
    rfl
  have hqueue : (front ++ [e]).filter (·.valid) = front.filter (·.valid) ++ e :: [] := by
    rw [filter_append, filter_cons_of_pos hvalid, filter_nil]
  have hfront : (front.filter (·.valid)).length < recvCount events := by
    have hle := length_filter_le (·.valid) front
    rw [length_append, length_singleton] at hcalls
    omega
  obtain ⟨k'', received, hrun, hmem⟩ := received_of_room hqueue hroom hfront
  refine ⟨k'', received, hrun, e, hmem, hsrc, ?_, hpayload⟩
  rw [hsrcEp]
  exact Nat.mod_eq_of_lt hep

/-! ### Capabilities -/

section Capabilities

variable {pid : UInt32} {slot : Slot} {send : Nat → Message → Except String Unit} {k : Kernel}
  {nodeId localCapSlot remoteCnode : UInt32}

theorem remoteMint_eq_none (hsource : mintSource k localCapSlot = .ok (pid, slot)) :
    remoteMint send k nodeId localCapSlot remoteCnode = none := by
  have hroom : ¬ (replicate 80 (0 : UInt8)).length < 73 := by simp
  unfold remoteMint
  rw [hsource]
  dsimp only
  rw [writeCap, if_neg hroom]
  dsimp only
  rw [take_left' (length_capPacket _ _ _ _ _), newMessage_eq_none]
  · rfl
  · rw [length_capPacket]
    decide

theorem mintSource_ne_null
    (h : mintSource k localCapSlot = .ok (pid, slot)) : slot.capType ≠ .null := by
  unfold mintSource at h
  split at h
  · cases h
  split at h
  · cases h
  split at h
  · cases h
  split at h
  · cases h
  split at h
  · cases h
  split at h
  · cases h
  · next hnull =>
    cases h
    exact hnull

/-- A CNode of another node takes the capability in at the slot. -/
def Accepted (slot : Slot) (idx : UInt32) (bytes : List UInt8) : Prop :=
  ∀ (store : Store) (cnodeId : Nat), (store.slots? cnodeId).isSome →
    cnodeId ≠ store.nextResourceId →
    (capReceive store cnodeId bytes).1 = .ok () ∧
      ∃ id, (capReceive store cnodeId bytes).2.slot? cnodeId idx.toNat =
        some ⟨slot.capType, slot.rights, id⟩

theorem capOfCode_capCode {t : CapType} (hnull : t ≠ .null) (hvector : t ≠ .vector) :
    capOfCode (capCode t) = some t ∧ capCode t ≠ 0 := by
  cases t <;> first | exact ⟨rfl, by decide⟩ | contradiction

/-- Only a vector capability is refused. -/
theorem accepted_capPacket_iff (srcNode : UInt8) (slot : Slot) (hnull : slot.capType ≠ .null)
    (idx : UInt32) (resData : Vector UInt8 64) :
    Accepted slot idx (capPacket srcNode (capCode slot.capType) ⟨slot.rights⟩ idx resData) ↔
      slot.capType ≠ .vector := by
  constructor
  · intro haccepted hvector
    have hok := (haccepted ⟨[none, some ⟨1, .cnode, none, [], .cnode []⟩], 2⟩ 1 rfl (by decide)).1
    rw [capReceive, parseCap_capPacket, hvector] at hok
    cases hok
  · intro hvector store cnodeId hslots hne
    obtain ⟨hcode, hpos⟩ := capOfCode_capCode hnull hvector
    obtain ⟨slots, hslots⟩ := isSome_iff_exists.mp hslots
    have hget : (store.alloc slot.capType .null).get? cnodeId = store.get? cnodeId := by
      rw [Store.get?_alloc, if_neg hne.symm]
    obtain ⟨res, hres, -⟩ := bind_eq_some_iff.mp hslots
    have hreceive : capReceive store cnodeId
        (capPacket srcNode (capCode slot.capType) ⟨slot.rights⟩ idx resData) = (.ok (),
          (store.alloc slot.capType .null).putSlot cnodeId idx.toNat
            ⟨slot.capType, slot.rights, store.nextResourceId⟩) := by
      rw [capReceive, parseCap_capPacket]
      dsimp only
      rw [if_neg hpos, hcode]
      dsimp only
      rw [hget, hres]
    rw [hreceive]
    refine ⟨rfl, store.nextResourceId, ?_⟩
    rw [Store.slot?_putSlot, if_pos rfl, Store.slots?, hget, ← Store.slots?, hslots, bind_some,
      getElem?_setSlot, if_pos rfl]

end Capabilities

/-! ### Messages arrive intact -/

/-- Which calls panic, and that what is sent arrives: data is lost only when the receiver's buffer
    overflows, a capability is never sent, and a list of processes is cut after the sixth one. -/
theorem distributed_messages (send : Nat → Message → Except String Unit) (k : Kernel) :
    (∀ nodeId remoteEp data, remoteEp < 2 ^ 16 → data.length ≤ MAX_WIRE_PAYLOAD →
      ((remoteSend send k nodeId remoteEp data).isSome ↔ data.length ≤ k.room nodeId) ∧
      ∀ sent, remoteSend send k nodeId remoteEp data = some (.ok (), sent) → ∃ ep msg,
        sent = [(ep, msg)] ∧ Intact k.clusterNodeId remoteEp data msg.carried) ∧
    (∀ nodeId localCapSlot remoteCnode,
      ((remoteMint send k nodeId localCapSlot remoteCnode).isSome ↔
        ∃ err, mintSource k localCapSlot = .error err) ∧
      (∀ sent, remoteMint send k nodeId localCapSlot remoteCnode ≠ some (.ok (), sent)) ∧
      ∀ pid slot, mintSource k localCapSlot = .ok (pid, slot) →
        (Accepted slot localCapSlot (capPacket k.clusterNodeId (capCode slot.capType) ⟨slot.rights⟩
          localCapSlot (mintData localCapSlot remoteCnode)) ↔ slot.capType ≠ .vector)) ∧
    (∀ outLen, (∃ msg, proclistReply k = some (some msg) ∧ parseProclistResp msg.body outLen =
        some (k.processes.map fun p => p.raw.received)) ↔
        k.processes.length ≤ 6 ∧ k.processes.length ≤ outLen) ∧
    ∀ msg, proclistReply k = some (some msg) → ∀ send' r incoming, incoming.body = msg.body →
      processIncomingMessage send' r incoming = some (r, []) := by
  refine ⟨fun nodeId remoteEp data hep hdata => ?_, fun nodeId localCapSlot remoteCnode => ?_,
    fun outLen => ?_, fun msg hreply send' r incoming hincoming => ?_⟩
  · refine ⟨remoteSend_isSome_iff hdata, fun sent hok => ?_⟩
    rcases remoteSend_cases send k nodeId remoteEp hdata with ⟨-, _, _, heq, hsends⟩ | ⟨-, heq⟩
    · cases heq.symm.trans hok
      obtain ⟨ep, msg, hsent, hcarried⟩ := hsends rfl
      refine ⟨ep, msg, hsent, ?_⟩
      rw [hcarried]
      exact intact_dataPacket k.clusterNodeId hep hdata
    · cases heq.symm.trans hok
  · cases hsource : mintSource k localCapSlot with
    | error err =>
      rw [remoteMint, hsource]
      refine ⟨iff_of_true rfl ⟨err, rfl⟩, fun sent h => ?_, fun pid slot h => ?_⟩
      · cases h
      · cases h
    | ok source =>
      rw [remoteMint_eq_none hsource]
      refine ⟨iff_of_false (by decide) (by simp), fun sent h => ?_, fun pid slot h => ?_⟩
      · cases h
      · cases h
        exact accepted_capPacket_iff _ _ (mintSource_ne_null hsource) _ _
  · rcases proclistReply_eq k with ⟨hmany, hreply⟩ | ⟨hfew, msg, hreply, hbody⟩ <;>
      simp only [hreply, some_inj, exists_eq_left', reduceCtorEq, false_and, exists_false]
    · exact iff_of_false id (by omega)
    · rw [hbody, parseProclistResp_packet (by omega)]
      by_cases hout : k.processes.length > outLen
      · rw [if_pos hout]
        exact iff_of_false (by simp) (by omega)
      · rw [if_neg hout, parseEntries_take_iff]
        omega
  · rcases proclistReply_eq k with ⟨-, hnone⟩ | ⟨-, msg', hsome, hbody⟩
    · rw [hnone] at hreply
      cases hreply
    · rw [hsome] at hreply
      cases hreply
      unfold processIncomingMessage
      dsimp only
      rw [hincoming, hbody, length_proclistPacket, if_neg (by omega), magicOf_proclistPacket,
        if_neg (by decide), if_neg (by decide), if_neg (by decide), if_neg (by decide),
        if_neg (by decide)]

/-- A node whose process holds a memory capability; the node 1 is reached by way of the network. -/
def demoKernel (processes : List Process) : Kernel where
  clusterNodeId := 0
  remoteNodes := [⟨1, 7000, false, 0, 0⟩]
  rcvBuf := []
  current := some 5
  processes := ⟨5, .running, 1⟩ :: processes
  store := ⟨[none, some ⟨1, .cnode, none, [], .cnode [⟨.mem, 3, 2⟩]⟩], 3⟩
  tickCount := 0

theorem distributed_messages_demo :
    (remoteSend (fun _ _ => .ok ()) (demoKernel []) 2 9 (replicate 58 1)).isSome ∧
      (remoteSend (fun _ _ => .ok ()) (demoKernel []) 1 9 (replicate 55 1)).isSome ∧
      ∃ msg, proclistReply (demoKernel []) = some (some msg) ∧ parseProclistResp msg.body 1 =
        some ((demoKernel []).processes.map fun p => p.raw.received) := by
  obtain ⟨hsend, -, hlist, -⟩ := distributed_messages (fun _ _ => .ok ()) (demoKernel [])
  exact ⟨(hsend 2 9 (replicate 58 1) (by decide) (by decide)).1.mpr (by decide),
    (hsend 1 9 (replicate 55 1) (by decide) (by decide)).1.mpr (by decide),
    (hlist 1).mpr (by decide)⟩

def smallMessage (data : UInt8) : Message :=
  ⟨0, 0xD1, Vector.ofFn fun i => (dataPacket 1 9 [data]).getD i 0, 7, by decide⟩

/-- A payload of 59 bytes, one of 56 bytes by way of the network, a capability and a list of seven
    processes; and the first of 33 messages is lost. -/
theorem long_messages_lost :
    remoteSend (fun _ _ => .ok ()) (demoKernel []) 2 9 (replicate 59 1) = none ∧
      remoteSend (fun _ _ => .ok ()) (demoKernel []) 1 9 (replicate 56 1) = none ∧
      remoteMint (fun _ _ => .ok ()) (demoKernel []) 2 0 1 = none ∧
      (((proclistReply (demoKernel (replicate 6 ⟨6, .ready, 0⟩))).bind id).bind fun msg =>
        parseProclistResp msg.body 64) = none ∧
      ((runEvents (fun _ _ => .ok ()) (demoKernel [])
          ((range 33).map (fun i => .arrive (smallMessage (UInt8.ofNat i))) ++ [.recv])).map
        fun (_, received) => received.map fun e => e.payload.toList.take e.payloadLen) =
          some [[1]] := by
  decide +kernel

end TrainOS.Distributed
