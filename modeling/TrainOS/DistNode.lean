import TrainOS.Capability
import TrainOS.DistProtocol
import TrainOS.FixedBuffer
import TrainOS.Scheduling

/-!
# A node of the cluster (`distributed/mod.rs`)

Nodes talk through kernel messages with 64 bytes of payload, directly or by way of the network
service, which takes three of the bytes for a header of its own.  A call that copies more bytes
than the payload has room for panics, which is `none` here.
-/

namespace TrainOS.Distributed

open Capability FixedBuffer LittleEndian
open Sched (ProcessState)

def MAX_PAYLOAD : Nat := 64
def MAX_RCV_BUF_MSGS : Nat := 32
def DIST_EP_BASE : Nat := 200

/-- The fields of a kernel message that the calls use. -/
structure Message where
  senderPid : UInt32
  opcode : UInt16
  payload : Vector UInt8 MAX_PAYLOAD
  payloadLen : Nat
  payloadLen_le : payloadLen ≤ MAX_PAYLOAD

def Message.body (msg : Message) : List UInt8 := msg.payload.toList.take msg.payloadLen

/-- The bytes that reach the other node.  A message to the network service starts with the port
    and the number of bytes that follow. -/
def Message.carried (msg : Message) : List UInt8 :=
  if msg.opcode = 2 then (msg.payload.toList.drop 3).take (msg.payload.toList.getD 2 0).toNat
  else msg.body

structure RemoteNode where
  nodeId : UInt32
  port : UInt16
  online : Bool
  lastSeenTick : Nat
  failedPings : UInt8

structure RcvBufEntry where
  srcNode : UInt8
  srcEp : UInt16
  payload : Vector UInt8 64
  payloadLen : Nat
  valid : Bool

structure Process where
  pid : UInt32
  state : ProcessState
  cnodeId : Nat

/-- One node.  `rcvBuf` holds the first `RCV_BUF_COUNT` entries of `RCV_BUF`, the others are never
    read; `current` is the owner of the current thread. -/
structure Kernel where
  clusterNodeId : UInt8
  remoteNodes : List RemoteNode
  rcvBuf : List RcvBufEntry
  current : Option UInt32
  processes : List Process
  store : Store
  tickCount : Nat

/-- Messages that `endpoint::send` took, with their endpoints. -/
abbrev Outbox := List (Nat × Message)

section Calls

variable (send : Nat → Message → Except String Unit)

def endpointSend (ep : Nat) (msg : Message) : Except String Unit × Outbox :=
  match send ep msg with
  | .ok () => (.ok (), [(ep, msg)])
  | .error err => (.error err, [])

/-- A message whose payload starts with the given bytes; more than the payload has room for is a
    panic. -/
def newMessage (senderPid : UInt32) (opcode : UInt16) (bytes : List UInt8) : Option Message := do
  let payload ← copySlice (Vector.replicate MAX_PAYLOAD 0) 0 bytes.length bytes
  -- the length is the one that was copied, so it fits
  if h : bytes.length ≤ MAX_PAYLOAD then some ⟨senderPid, opcode, payload, bytes.length, h⟩
  else none

/-! ### Sending -/

def Kernel.isVirtual (k : Kernel) (nodeId : UInt32) : Bool :=
  !k.remoteNodes.any fun node => node.nodeId = nodeId && node.port ≠ 0

def netHeader (port : UInt16) (dataLen : Nat) : Vector UInt8 MAX_PAYLOAD :=
  let payload := (Vector.replicate MAX_PAYLOAD (0 : UInt8)).set 0 (port >>> 8).toUInt8 (by decide)
  let payload := payload.set 1 port.toUInt8 (by decide)
  payload.set 2 (UInt8.ofNat dataLen) (by decide)

def netMessage (senderPid : UInt32) (port : UInt16) (wireBuf : List UInt8) (dataLen : Nat) :
    Option Message := do
  let payload ← copySlice (netHeader port dataLen) 3 dataLen (wireBuf.take dataLen)
  if h : 3 + dataLen ≤ MAX_PAYLOAD then some ⟨senderPid, 2, payload, 3 + dataLen, h⟩ else none

/-- `remote_send` to a node that is reached through its endpoint; `none` is a panic. -/
def sendVirtual (k : Kernel) (nodeId : UInt32) (wireBuf : List UInt8) (written : Nat) :
    Option (Except String Unit × Outbox) := do
  let msg ← newMessage (k.current.getD 0) 0xD1 (wireBuf.take written)
  some (endpointSend send (DIST_EP_BASE + nodeId.toNat) msg)

def sendNet (k : Kernel) (nodeId : UInt32) (wireBuf : List UInt8) (written : Nat) :
    Option (Except String Unit × Outbox) :=
  match k.remoteNodes.find? (·.nodeId = nodeId) with
  | none => some (.error "remote node not found", [])
  | some node => do
      let msg ← netMessage (k.current.getD 0) node.port wireBuf (min written 62)
      match endpointSend send 3 msg with
      | (.ok (), sent) => some (.ok (), sent)
      | (.error _, sent) => some (.error "net send failed", sent)

def remoteSend (k : Kernel) (nodeId : UInt32) (remoteEp : Nat) (data : List UInt8) :
    Option (Except String Unit × Outbox) :=
  match writeData (List.replicate 72 0) k.clusterNodeId (UInt16.ofNat remoteEp) data with
  | none => some (.error "packet too large", [])
  | some (written, wireBuf) =>
      if k.isVirtual nodeId then sendVirtual send k nodeId wireBuf written
      else sendNet send k nodeId wireBuf written

/-! ### Receiving -/

/-- `queue_incoming_message`: a full buffer loses its oldest entry. -/
def queueIncomingMessage (buf : List RcvBufEntry) (srcNode : UInt8) (srcEp : UInt16)
    (payload : List UInt8) : Option (List RcvBufEntry) := do
  let plen := min payload.length 64
  let kept := if buf.length ≥ MAX_RCV_BUF_MSGS then buf.tail else buf
  let p ← copySlice (Vector.replicate 64 0) 0 plen payload
  some (kept ++ [⟨srcNode, srcEp, p, plen, true⟩])

/-- One pass of `remote_recv` over the buffer: the first valid entry is taken out, and the valid
    ones behind it move up.  Without one the call goes on waiting. -/
def remoteRecv : List RcvBufEntry → Option (RcvBufEntry × List RcvBufEntry)
  | [] => none
  | e :: buf => if e.valid then some (e, buf.filter (·.valid)) else remoteRecv buf

/-! ### Capabilities -/

def capCode : CapType → UInt8
  | .null => 0
  | .mem => 1
  | .ep => 2
  | .proc => 3
  | .cnode => 4
  | .vector => 5

def capOfCode (code : UInt8) : Option CapType :=
  if code = 1 then some .mem
  else if code = 2 then some .ep
  else if code = 3 then some .proc
  else if code = 4 then some .cnode
  else none

def mintSource (k : Kernel) (localCapSlot : UInt32) : Except String (UInt32 × Slot) :=
  match k.current with
  | none => .error "no proc"
  | some pid =>
      match k.processes.find? (·.pid = pid) with
      | none => .error "proc not found"
      | some caller =>
          match k.store.get? caller.cnodeId with
          | none => .error "cnode not found"
          | some res =>
              match res.slots? with
              | none => .error "not a cnode"
              | some slots =>
                  match slots[localCapSlot.toNat]? with
                  | none => .error "slot not found"
                  | some slot =>
                      if slot.capType = .null then .error "null cap" else .ok (pid, slot)

/-- The first bytes are the slot and the CNode of the other side. -/
def mintData (localCapSlot remoteCnode : UInt32) : Vector UInt8 64 :=
  ⟨⟨toLE 4 localCapSlot.toNat ++ (toLE 4 remoteCnode.toNat ++ List.replicate 56 0)⟩, by simp⟩

def remoteMint (k : Kernel) (nodeId localCapSlot remoteCnode : UInt32) :
    Option (Except String Unit × Outbox) :=
  match mintSource k localCapSlot with
  | .error err => some (.error err, [])
  | .ok (pid, slot) =>
      match writeCap (List.replicate 80 0) k.clusterNodeId (capCode slot.capType) ⟨slot.rights⟩
        localCapSlot (mintData localCapSlot remoteCnode) with
      | none => some (.error "cap serialize failed", [])
      | some (written, wireBuf) => do
          let msg ← newMessage pid 0xD1 (wireBuf.take written)
          some (endpointSend send (DIST_EP_BASE + nodeId.toNat) msg)

def capReceive (store : Store) (cnodeId : Nat) (buf : List UInt8) : Except String Unit × Store :=
  match parseCap buf with
  | none => (.error "invalid cap packet", store)
  | some (_, capType, rights, slot, _) =>
      if capType = 0 then (.error "null cap type", store)
      else
        match capOfCode capType with
        | none => (.error "unknown cap type", store)
        | some ktype =>
            let resourceId := store.nextResourceId
            let store := store.alloc ktype .null
            match store.get? cnodeId with
            | none => (.error "cnode not found", store)
            | some _ =>
                (.ok (), store.putSlot cnodeId slot.toNat ⟨ktype, rights.toBitVec, resourceId⟩)

/-! ### Lists of processes -/

def stateByte : ProcessState → UInt8
  | .ready => 0
  | .running => 1
  | .waiting => 2
  | .dead => 3

def Process.raw (p : Process) : RawEntry := (p.pid, stateByte p.state, [112, 114, 111, 99])

/-- The reply of `handle_proclist_request`, if there is one; the outer `none` is a panic. -/
def proclistReply (k : Kernel) : Option (Option Message) :=
  match writeProclistResp (List.replicate 512 0) ((k.processes.take 64).map Process.raw) with
  | none => some none
  | some (len, respBuf) => (newMessage 0 0xD1 (respBuf.take (min len 64))).map some

def handleProclistRequest (k : Kernel) (srcNode : UInt8) : Option Outbox := do
  match ← proclistReply k with
  | none => some []
  | some msg => some (endpointSend send (DIST_EP_BASE + srcNode.toNat) msg).2

/-! ### Dispatch -/

def handleIncomingPing (k : Kernel) (srcNode : UInt32) : Option Outbox := do
  let msg ← newMessage 0 0xD1 (toLE 2 MAGIC_PONG ++ toLE 4 k.clusterNodeId.toNat)
  some (endpointSend send (DIST_EP_BASE + srcNode.toNat) msg).2

/-- `handle_incoming_pong`: the first node with the id is online. -/
def markNodeOnline (tick : Nat) (nodeId : UInt32) : List RemoteNode → List RemoteNode
  | [] => []
  | node :: nodes =>
      if node.nodeId = nodeId then
        { node with online := true, lastSeenTick := tick, failedPings := 0 } :: nodes
      else node :: markNodeOnline tick nodeId nodes

def parseNodeId (buf : List UInt8) : Option UInt32 :=
  if buf.length < 6 then none else some (UInt32.ofNat (ofLE ((buf.drop 2).take 4)))

/-- The node afterwards and what it sent; a process list is only answered, never taken in. -/
def processIncomingMessage (k : Kernel) (msg : Message) : Option (Kernel × Outbox) :=
  let buf := msg.body
  if buf.length < 2 then some (k, [])
  else
    let magic := magicOf buf
    if magic = MAGIC_PING then
      match parseNodeId buf with
      | none => some (k, [])
      | some src => (handleIncomingPing send k src).map (k, ·)
    else if magic = MAGIC_PONG then
      match parseNodeId buf with
      | none => some (k, [])
      | some src =>
          some ({ k with remoteNodes := markNodeOnline k.tickCount src k.remoteNodes }, [])
    else if magic = MAGIC_DATA then
      match parseData buf with
      | none => some (k, [])
      | some (src, ep, payload) =>
          (queueIncomingMessage k.rcvBuf src ep payload).map fun rcvBuf => ({ k with rcvBuf }, [])
    else if magic = MAGIC_CAP then
      let cnodeId := ((k.processes.find? (·.pid = k.current.getD 0)).map (·.cnodeId)).getD 0
      if cnodeId > 0 then some ({ k with store := (capReceive k.store cnodeId buf).2 }, [])
      else some (k, [])
    else if magic = MAGIC_PROCLIST_REQ then
      if buf.length < 3 then some (k, [])
      else (handleProclistRequest send k (buf.getD 2 0)).map (k, ·)
    else some (k, [])

end Calls

end TrainOS.Distributed
