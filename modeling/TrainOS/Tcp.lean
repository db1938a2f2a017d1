import TrainOS.FixedBuffer
import Mathlib.Algebra.GroupWithZero.Nat
import Mathlib.Data.List.FinRange

/-!
# The TCP service (`services/tcp/src/main.rs`)

Eight connections, one receive buffer for messages and a counter of polls.  `pollRound` is one
round of the loop of `_start`: at most one message, and the retransmission check in every
hundredth round.  What the service sends is an `Out`.  Arithmetic wraps, as in a release build;
an index out of bounds is `none`.
-/

namespace TrainOS.Tcp

open FixedBuffer

/-! ### Connections -/

inductive TcpState
  | closed | listen | synSent | synReceived | established
  | finWait1 | finWait2 | closeWait | lastAck | timeWait
deriving DecidableEq, Repr

structure TcpConn where
  state : TcpState
  localPort : UInt16
  remoteEp : Nat
  remotePid : UInt32
  sndSeq : UInt32
  rcvSeq : UInt32
  sndUna : UInt32
  cwnd : UInt32
  ssthresh : UInt32
  sendBuf : Vector UInt8 64
  sendLen : Nat
  sendLen_le : sendLen ≤ 64
  recvBuf : Vector UInt8 64
  recvLen : Nat
  recvLen_le : recvLen ≤ 64
  retryCount : UInt32
  retransTimer : UInt64
  rto : UInt64
deriving DecidableEq

def TcpConn.new : TcpConn where
  state := .closed
  localPort := 0
  remoteEp := 0
  remotePid := 0
  sndSeq := 0
  rcvSeq := 0
  sndUna := 0
  cwnd := 1460
  ssthresh := 65535
  sendBuf := Vector.replicate 64 0
  sendLen := 0
  sendLen_le := Nat.zero_le _
  recvBuf := Vector.replicate 64 0
  recvLen := 0
  recvLen_le := Nat.zero_le _
  retryCount := 0
  retransTimer := 0
  rto := 10

def CONNS : Nat := 8

abbrev ConnId := Fin CONNS
abbrev Conns := ConnId → TcpConn

/-- The bytes that wait in the receive buffer: `recv_buf[..recv_len]`. -/
def TcpConn.unread (c : TcpConn) : List UInt8 := c.recvBuf.toList.take c.recvLen

/-! ### Segments -/

def writeU32 (val : UInt32) : List UInt8 :=
  [(val >>> 24).toUInt8, (val >>> 16).toUInt8, (val >>> 8).toUInt8, val.toUInt8]

def readU32 (buf : Vector UInt8 64) (off : Nat) : UInt32 :=
  match (buf.toList.drop off).take 4 with
  | [a, b, c, d] =>
      a.toUInt32 <<< 24 ||| b.toUInt32 <<< 16 ||| c.toUInt32 <<< 8 ||| d.toUInt32
  | _ => 0

/-- What one instance sends to the other. -/
inductive Segment
  | syn (port : UInt16) (seq : UInt32)
  | synAck (connId : ConnId) (seq ack : UInt32)
  | ack (connId : ConnId)
  | dataAck (connId : ConnId) (seq : UInt32)
  | data (connId : ConnId) (data : List UInt8) (seq : UInt32)
  /-- The send buffer as `check_retransmissions` sends it, without a header. -/
  | retransmission (data : List UInt8)
  | fin (connId : ConnId)
  | finAck (connId : ConnId)
deriving DecidableEq, Repr

@[match_pattern] def OP_LISTEN : UInt16 := 1
@[match_pattern] def OP_CONNECT : UInt16 := 2
@[match_pattern] def OP_SEND : UInt16 := 3
@[match_pattern] def OP_RECV : UInt16 := 4
@[match_pattern] def OP_CLOSE : UInt16 := 5

@[match_pattern] def TCP_SYN : UInt16 := 0x10
@[match_pattern] def TCP_SYN_ACK : UInt16 := 0x11
@[match_pattern] def TCP_ACK : UInt16 := 0x12
@[match_pattern] def TCP_DATA : UInt16 := 0x13
@[match_pattern] def TCP_FIN : UInt16 := 0x14
@[match_pattern] def TCP_FIN_ACK : UInt16 := 0x15

def Segment.opcode : Segment → UInt16
  | .syn .. => TCP_SYN
  | .synAck .. => TCP_SYN_ACK
  | .ack _ => TCP_ACK
  | .dataAck .. => TCP_ACK
  | .data .. => TCP_DATA
  | .retransmission _ => TCP_DATA
  | .fin _ => TCP_FIN
  | .finAck _ => TCP_FIN_ACK

def idByte (j : ConnId) : UInt8 := UInt8.ofNat j.val

def Segment.payload : Segment → List UInt8
  | .syn port seq => [(port >>> 8).toUInt8, port.toUInt8] ++ writeU32 seq
  | .synAck j seq ackSeq => idByte j :: (writeU32 seq ++ writeU32 ackSeq)
  | .ack j => [idByte j]
  | .dataAck j seq => idByte j :: writeU32 seq
  | .data j sent seq => [idByte j, UInt8.ofNat sent.length] ++ sent ++ writeU32 seq
  | .retransmission sent => sent
  | .fin j => [idByte j]
  | .finAck j => [idByte j]

/-- What the service sends. -/
inductive Out
  | segment (ep : Nat) (seg : Segment)
  | register (port : UInt16)
  | connected (pid : Nat) (connId : Option ConnId)
  | received (pid : Nat) (connId : ConnId) (data : List UInt8)
deriving DecidableEq, Repr

/-! ### Congestion control -/

def cwndIncrease (c : TcpConn) : TcpConn :=
  if c.cwnd < c.ssthresh then { c with cwnd := c.cwnd + 64 }
  else { c with cwnd := c.cwnd + 64 * 64 / max c.cwnd 1 }

def onTimeout (c : TcpConn) : TcpConn :=
  { c with
    ssthresh := max (c.cwnd / 2) 64
    cwnd := 64
    rto := min (c.rto * 2) 100
    retransTimer := 0 }

def onAck (c : TcpConn) : TcpConn :=
  { c with rto := 10, retryCount := 0, retransTimer := 0 }

/-! ### Requests and segments that arrive -/

def allocConn (conns : Conns) : Option ConnId :=
  (List.finRange CONNS).find? fun j =>
    (conns j).state = .closed ∨ (conns j).state = .timeWait

def tickOf (uptimeMs : UInt64) : UInt64 := uptimeMs / 10

def handleConnect (conns : Conns) (port : UInt16) (caller : Nat) (now : UInt64) :
    Conns × List Out :=
  match allocConn conns with
  | none => (conns, [.connected caller none])
  | some j =>
      let seq : UInt32 := 1000 + UInt32.ofNat j.val
      let conn := { TcpConn.new with
        state := .synSent
        localPort := port
        remotePid := UInt32.ofNat caller
        sndSeq := seq + 1
        retransTimer := tickOf now + TcpConn.new.rto }
      (Function.update conns j conn, [.segment 3 (.syn port seq), .connected caller (some j)])

def handleIncomingSyn (conns : Conns) (localPort : UInt16) (sender : Nat) (remoteSeq : UInt32) :
    Conns × List Out :=
  match allocConn conns with
  | none => (conns, [])
  | some j =>
      let seq : UInt32 := 2000 + UInt32.ofNat j.val
      let conn := { TcpConn.new with
        state := .synReceived
        localPort := localPort
        remoteEp := sender
        remotePid := UInt32.ofNat sender
        rcvSeq := remoteSeq + 1
        sndSeq := seq + 1 }
      (Function.update conns j conn, [.segment sender (.synAck j seq (remoteSeq + 1))])

def handleIncomingSynAck (sender : Nat) (remoteSeq : UInt32) (j : ConnId) (c : TcpConn) :
    Option (TcpConn × List Out) :=
  if c.state ≠ .synSent then some (c, [])
  else
    let c := { c with state := .established, remoteEp := sender, rcvSeq := remoteSeq + 1 }
    some (onAck c, [.segment sender (.ack j)])

def handleIncomingAck (_ : ConnId) (c : TcpConn) : Option (TcpConn × List Out) :=
  match c.state with
  | .synReceived => some (cwndIncrease (onAck { c with state := .established }), [])
  | .established =>
      some ({ cwndIncrease (onAck c) with sendLen := 0, sendLen_le := Nat.zero_le _ }, [])
  | _ => some (c, [])

def TcpConn.allowed (c : TcpConn) (data : List UInt8) : Nat :=
  min data.length (min c.cwnd.toNat 56)

theorem TcpConn.allowed_le (c : TcpConn) (data : List UInt8) : c.allowed data ≤ 56 :=
  (Nat.min_le_right _ _).trans (Nat.min_le_right _ _)

def handleSend (data : List UInt8) (now : UInt64) (j : ConnId) (c : TcpConn) :
    Option (TcpConn × List Out) :=
  if c.state ≠ .established then some (c, [])
  else do
    let len := c.allowed data
    let sendBuf ← copyInto c.sendBuf data 0 len
    return ({ c with
      sndSeq := c.sndSeq + UInt32.ofNat len
      sendBuf := sendBuf
      sendLen := len
      sendLen_le := (c.allowed_le data).trans (by decide)
      retransTimer := tickOf now + c.rto },
      [.segment c.remoteEp (.data j (data.take len) c.sndSeq)])

def handleIncomingData (data : List UInt8) (seq : UInt32) (j : ConnId) (c : TcpConn) :
    Option (TcpConn × List Out) :=
  if c.state ≠ .established then some (c, [])
  else if seq = c.rcvSeq then do
    let len := min data.length 64
    let recvBuf ← copyInto c.recvBuf data 0 len
    let rcvSeq := c.rcvSeq + UInt32.ofNat len
    return ({ c with
      recvBuf := recvBuf
      recvLen := len
      recvLen_le := Nat.min_le_right _ _
      rcvSeq := rcvSeq },
      [.segment c.remoteEp (.dataAck j rcvSeq)])
  else some (c, [])

def handleRecv (caller : Nat) (j : ConnId) (c : TcpConn) : Option (TcpConn × List Out) :=
  if c.recvLen > 0 then
    some ({ c with recvLen := 0, recvLen_le := Nat.zero_le _ }, [.received caller j c.unread])
  else some (c, [.received caller j []])

def handleClose (j : ConnId) (c : TcpConn) : Option (TcpConn × List Out) :=
  if c.state ≠ .established then some (c, [])
  else some ({ c with state := .finWait1 }, [.segment c.remoteEp (.fin j)])

def handleIncomingFin (j : ConnId) (c : TcpConn) : Option (TcpConn × List Out) :=
  some ({ c with state := .lastAck }, [.segment c.remoteEp (.finAck j)])

def handleIncomingFinAck (_ : ConnId) (c : TcpConn) : Option (TcpConn × List Out) :=
  some ({ c with state := .closed }, [])

/-! ### Retransmission -/

/-- The pass of `check_retransmissions` over one connection. -/
def checkConn (tick : UInt64) (c : TcpConn) : TcpConn × List Out :=
  if c.retransTimer > 0 ∧ tick ≥ c.retransTimer then
    if c.state = .synSent ∧ c.retryCount < 3 then
      let c' := onTimeout { c with retryCount := c.retryCount + 1 }
      ({ c' with retransTimer := tick + c'.rto },
        [.segment 3 (.syn c.localPort (c.sndSeq - 1))])
    else if c.state = .established ∧ c.sendLen > 0 ∧ c.retryCount < 3 then
      let c' := onTimeout { c with retryCount := c.retryCount + 1 }
      ({ c' with retransTimer := tick + c'.rto },
        [.segment c.remoteEp (.retransmission (c.sendBuf.toList.take c.sendLen))])
    else if c.retryCount ≥ 3 then ({ c with state := .closed }, [])
    else (c, [])
  else (c, [])

def checkRetransmissions (conns : Conns) (now : UInt64) : Conns × List Out :=
  (fun j => (checkConn (tickOf now) (conns j)).1,
    (List.finRange CONNS).flatMap fun j => (checkConn (tickOf now) (conns j)).2)

/-! ### The loop -/

structure Service where
  conns : Conns
  buf : Vector UInt8 64
  pollCount : UInt64

structure Incoming where
  sender : Nat
  opcode : UInt16
  payload : List UInt8

/-- The kernel copies the payload over the first bytes of the buffer; the bytes behind it are
those of earlier messages. -/
def overlay (buf : Vector UInt8 64) (payload : List UInt8) : Vector UInt8 64 :=
  ⟨⟨payload.take 64 ++ buf.toList.drop payload.length⟩, by
    rw [List.size_toArray, List.length_append, List.length_take, List.length_drop,
      Vector.length_toList]
    omega⟩

scoped instance neZero_buf : NeZero 64 := ⟨by decide⟩

def dataSlice (buf : Vector UInt8 64) : Option (List UInt8) :=
  if 2 + (buf.get 1).toNat ≤ 64 then some ((buf.toList.drop 2).take (buf.get 1).toNat) else none

/-- A handler on the connection with the number in `buf[0]`, if there is one. -/
def onConn (conns : Conns) (buf : Vector UInt8 64)
    (handler : ConnId → TcpConn → Option (TcpConn × List Out)) : Option (Conns × List Out) :=
  if h : (buf.get 0).toNat < CONNS then do
    let j : ConnId := ⟨(buf.get 0).toNat, h⟩
    let (conn, outs) ← handler j (conns j)
    return (Function.update conns j conn, outs)
  else some (conns, [])

def portOf (buf : Vector UInt8 64) : UInt16 :=
  (buf.get 0).toUInt16 <<< 8 ||| (buf.get 1).toUInt16

def dispatch (conns : Conns) (buf : Vector UInt8 64) (sender : Nat) (opcode : UInt16)
    (now : UInt64) : Option (Conns × List Out) :=
  match opcode with
  | OP_LISTEN => some (conns, [.register (portOf buf)])
  | OP_CONNECT => some (handleConnect conns (portOf buf) sender now)
  | OP_SEND => do
      let data ← dataSlice buf
      onConn conns buf (handleSend data now)
  | OP_RECV => onConn conns buf (handleRecv sender)
  | OP_CLOSE => onConn conns buf handleClose
  | TCP_SYN => some (handleIncomingSyn conns (portOf buf) sender (readU32 buf 2))
  | TCP_SYN_ACK => onConn conns buf (handleIncomingSynAck sender (readU32 buf 1))
  | TCP_ACK => onConn conns buf handleIncomingAck
  | TCP_DATA => do
      let data ← dataSlice buf
      onConn conns buf (handleIncomingData data (readU32 buf (2 + data.length)))
  | TCP_FIN => onConn conns buf handleIncomingFin
  | TCP_FIN_ACK => onConn conns buf handleIncomingFinAck
  | _ => some (conns, [])

def receive (buf : Vector UInt8 64) : Option Incoming → Vector UInt8 64
  | some m => overlay buf m.payload
  | none => buf

def handleMessage (t : Service) (now : UInt64) : Option Incoming → Option (Conns × List Out)
  | some m => dispatch t.conns (overlay t.buf m.payload) m.sender m.opcode now
  | none => some (t.conns, [])

def checkPeriodically (pollCount : UInt64) (conns : Conns) (now : UInt64) : Conns × List Out :=
  if pollCount % 100 = 0 then checkRetransmissions conns now else (conns, [])

/-- One round of the loop; without a message when `recv` fails. -/
def pollRound (t : Service) (msg : Option Incoming) (now : UInt64) :
    Option (List Out × Service) := do
  let (conns, outs) ← handleMessage t now msg
  let checked := checkPeriodically (t.pollCount + 1) conns now
  return (outs ++ checked.2,
    { conns := checked.1, buf := receive t.buf msg, pollCount := t.pollCount + 1 })

def Service.start : Service where
  conns := fun _ => TcpConn.new
  buf := Vector.replicate 64 0
  pollCount := 0

end TrainOS.Tcp
