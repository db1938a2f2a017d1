import TrainOS.Runs
import TrainOS.StreamChannel
import TrainOS.TcpEffects

/-!
# Two instances of the TCP service

A segment that was sent stays in flight, so it may be delivered in any order, several times or
never; clients make any requests.  The bytes that SEND accepts and RECV returns are recorded.
Each direction is a `StreamChannel` (`System.channel`), and a round moves both (`step_moves`) as
long as it is `orderly`: the connection keeps its place, and an accepted segment comes from the
other end, finds an empty buffer and fits the sequence numbers.  `stream_integrity` follows.
-/

namespace TrainOS.Tcp

open Function List Option Runs StreamChannel

/-! ### The system -/

inductive Side
  | left | right
deriving DecidableEq, Repr

def Side.other : Side → Side
  | .left => .right
  | .right => .left

@[simp] theorem Side.other_other (s : Side) : s.other.other = s := by
  cases s <;> rfl

theorem Side.other_ne (s : Side) : s.other ≠ s := by
  cases s <;> decide

theorem Side.eq_or_eq_other (r s : Side) : r = s ∨ r = s.other := by
  cases r <;> cases s <;> decide

instance {P : Side → Prop} [DecidablePred P] : Decidable (∀ s, P s) :=
  decidable_of_iff (P .left ∧ P .right)
    ⟨fun h s => match s with
      | .left => h.1
      | .right => h.2, fun h => ⟨h .left, h .right⟩⟩

/-- A segment in flight, with the number of bytes that its sender had accepted before; `none`
for a segment from before the connection. -/
structure Packet where
  seg : Segment
  pos : Option Nat
deriving DecidableEq, Repr

/-- `sent` is what SEND accepted and `received` what RECV returned on the connection. -/
structure System where
  service : Side → Service
  flight : Side → List Packet
  sent : Side → List UInt8
  received : Side → List UInt8

/-- The requests of clients. -/
inductive Op
  | listen | connect | send | recv | close
deriving DecidableEq, Repr

def Op.code : Op → UInt16
  | .listen => OP_LISTEN
  | .connect => OP_CONNECT
  | .send => OP_SEND
  | .recv => OP_RECV
  | .close => OP_CLOSE

inductive Event
  | request (op : Op) (sender : Nat) (payload : List UInt8)
  | deliver (k : Nat) (sender : Nat)
  | idle
deriving DecidableEq, Repr

/-- A round of the instance on one side. -/
structure Poll where
  side : Side
  event : Event
  now : UInt64
deriving DecidableEq, Repr

/-- The message of the round; the outer `none` is a segment that is not in flight. -/
def System.incoming (sys : System) (p : Poll) : Option (Option Incoming) :=
  match p.event with
  | .request op sender payload => some (some ⟨sender, op.code, payload⟩)
  | .deliver k sender =>
      (sys.flight p.side.other)[k]?.map fun pkt =>
        some ⟨sender, pkt.seg.opcode, pkt.seg.payload⟩
  | .idle => some none

def packets (pos : Nat) (outs : List Out) : List Packet :=
  outs.filterMap fun
    | .segment _ seg => some ⟨seg, some pos⟩
    | _ => none

/-- What the instance on side `s` sent is put in flight and recorded. -/
def System.record (ids : Side → ConnId) (sys : System) (s : Side) (outs : List Out)
    (t : Service) : System where
  service := update sys.service s t
  flight := update sys.flight s (sys.flight s ++ packets (sys.sent s).length outs)
  sent := update sys.sent s (sys.sent s ++ (dataOn (ids s) outs).flatMap Prod.fst)
  received := update sys.received s (sys.received s ++ readOn (ids s) outs)

/-- A round, where `ids` are the numbers of the connection at its two ends. -/
def System.step (ids : Side → ConnId) (sys : System) (p : Poll) : Option System := do
  let msg ← sys.incoming p
  let (outs, t) ← pollRound (sys.service p.side) msg p.now
  return sys.record ids p.side outs t

def System.conn (ids : Side → ConnId) (sys : System) (s : Side) : TcpConn :=
  (sys.service s).conns (ids s)

def Segment.isDataOn (i : ConnId) : Segment → Bool
  | .data j _ _ => j == i
  | _ => false

/-- A connection between the two instances before its first byte. -/
structure Connected (ids : Side → ConnId) (sys : System) : Prop where
  established : ∀ s, (sys.conn ids s).state = .established
  expects : ∀ s, (sys.conn ids s).rcvSeq = (sys.conn ids s.other).sndSeq
  empty : ∀ s, (sys.conn ids s).recvLen = 0
  noData : ∀ s, ∀ pkt ∈ sys.flight s, pkt.seg.isDataOn (ids s) → pkt.pos = none
  fresh : ∀ s, sys.sent s = [] ∧ sys.received s = []

/-! ### The condition -/

/-- The segment is one that the other end has sent on this connection, the receive buffer is
empty, and the segment is less than `2 ^ 32` bytes away from the place the reader has come
to. -/
def System.inOrder (ids : Side → ConnId) (sys : System) (s : Side) (pkt : Packet) : Bool :=
  pkt.seg.isDataOn (ids s.other) && (sys.conn ids s).recvLen == 0 &&
    pkt.pos.any fun pos =>
      decide (pos < (sys.received s).length + 2 ^ 32 ∧ (sys.received s).length < pos + 2 ^ 32)

/-- A connection that is opened now takes the place of this one. -/
def System.reopens (ids : Side → ConnId) (sys : System) (s : Side) : Bool :=
  allocConn (sys.service s).conns == some (ids s)

def System.accepts (ids : Side → ConnId) (sys : System) (s : Side) (sender : Nat)
    (pkt : Packet) : Bool :=
  (acceptedData (ids s) (sys.service s) ⟨sender, pkt.seg.opcode, pkt.seg.payload⟩).isSome

/-- **When a round keeps the stream.** -/
def orderly (ids : Side → ConnId) (sys : System) (p : Poll) : Bool :=
  match p.event with
  | .request op _ _ => !(op == .connect && sys.reopens ids p.side)
  | .deliver k sender =>
      (sys.flight p.side.other)[k]?.all fun pkt =>
        !(pkt.seg.opcode == TCP_SYN && sys.reopens ids p.side) &&
          (!sys.accepts ids p.side sender pkt || sys.inOrder ids p.side pkt)
  | .idle => true

/-! ### The two directions -/

def flightOf (i : ConnId) (pkts : List Packet) : Set (Nat × List UInt8) :=
  {x | ∃ pkt ∈ pkts, ∃ seq, pkt.seg = .data i x.2 seq ∧ pkt.pos = some x.1}

def System.channel (ids : Side → ConnId) (sys : System) (s : Side) : Channel UInt8 where
  sent := sys.sent s.other
  flight := flightOf (ids s.other) (sys.flight s.other)
  unread := (sys.conn ids s).unread
  taken := sys.received s

variable {outs : List Out} {data : List UInt8} {seq : UInt32} {i : ConnId} {pos : Nat}

theorem mem_packets {pkt : Packet} (hseg : pkt.seg = .data i data seq) :
    pkt ∈ packets pos outs ↔ (data, seq) ∈ dataOn i outs ∧ pkt.pos = some pos := by
  obtain ⟨seg, n⟩ := pkt
  subst hseg
  rw [packets, dataOn, mem_filterMap, mem_filterMap]
  constructor
  · rintro ⟨out, hout, hpkt⟩
    cases out with
    | segment ep seg =>
      cases hpkt
      exact ⟨⟨_, hout, if_pos rfl⟩, rfl⟩
    | register => cases hpkt
    | connected => cases hpkt
    | received => cases hpkt
  · rintro ⟨⟨out, hout, hdata⟩, rfl⟩
    refine ⟨out, hout, ?_⟩
    unfold Out.dataOn at hdata
    split at hdata
    · split at hdata
      · cases hdata
        simp_all
      · cases hdata
    · cases hdata

theorem flightOf_append {pkts : List Packet} : flightOf i (pkts ++ packets pos outs) =
      flightOf i pkts ∪ {x | x.1 = pos ∧ ∃ seq, (x.2, seq) ∈ dataOn i outs} := by
  ext x
  constructor
  · rintro ⟨pkt, hpkt, seq, hseg, hpos⟩
    rcases mem_append.mp hpkt with hold | hnew
    · exact .inl ⟨pkt, hold, seq, hseg, hpos⟩
    · obtain ⟨hdata, hpos'⟩ := (mem_packets hseg).mp hnew
      exact .inr ⟨some.inj (hpos.symm.trans hpos'), seq, hdata⟩
  · rintro (⟨pkt, hold, seq, hseg, hpos⟩ | ⟨hpos, seq, hdata⟩)
    · exact ⟨pkt, mem_append_left _ hold, seq, hseg, hpos⟩
    · refine ⟨⟨.data i x.2 seq, some x.1⟩, mem_append_right _ ?_, seq, rfl, rfl⟩
      exact (mem_packets rfl).mpr ⟨hdata, congrArg some hpos⟩

section Record

variable (ids : Side → ConnId) (sys : System) (s : Side) (outs : List Out) (t : Service)

theorem channel_record_self : (sys.record ids s outs t).channel ids s =
      { sys.channel ids s with
        unread := (t.conns (ids s)).unread
        taken := sys.received s ++ readOn (ids s) outs } := by
  simp [System.channel, System.record, System.conn, update_of_ne s.other_ne]

theorem channel_record_other : (sys.record ids s outs t).channel ids s.other =
      { sys.channel ids s.other with
        sent := sys.sent s ++ (dataOn (ids s) outs).flatMap Prod.fst
        flight := flightOf (ids s) (sys.flight s) ∪
          {x | x.1 = (sys.sent s).length ∧ ∃ seq, (x.2, seq) ∈ dataOn (ids s) outs} } := by
  simp [System.channel, System.record, System.conn, update_of_ne s.other_ne, flightOf_append]

end Record

/-! ### Sequence numbers -/

/-- The sequence numbers count the bytes from `start` on, modulo `2 ^ 32`. -/
structure Numbered (ids : Side → ConnId) (start : Side → UInt32) (sys : System) : Prop where
  opened : ∀ s, (sys.conn ids s).state ≠ .synSent
  snd : ∀ s, (sys.conn ids s).sndSeq = start s + UInt32.ofNat (sys.sent s).length
  rcv : ∀ s, (sys.conn ids s).rcvSeq =
    start s.other + UInt32.ofNat ((sys.received s).length + (sys.conn ids s).unread.length)
  seg : ∀ s, ∀ pkt ∈ sys.flight s, ∀ data seq, pkt.seg = .data (ids s) data seq →
    ∀ pos ∈ pkt.pos, data.length ≤ 56 ∧ seq = start s + UInt32.ofNat pos

section Record

variable {ids : Side → ConnId} {start : Side → UInt32} {sys : System} {s : Side}
  {outs : List Out} {t : Service}

section

variable (h : Numbered ids start sys) (hopen : (t.conns (ids s)).state ≠ .synSent)
  (hrcv : (t.conns (ids s)).rcvSeq = start s.other +
    UInt32.ofNat ((sys.received s ++ readOn (ids s) outs).length +
      (t.conns (ids s)).unread.length))
include h hopen hrcv

theorem Numbered.record (hsnd : (t.conns (ids s)).sndSeq = start s +
      UInt32.ofNat (sys.sent s ++ (dataOn (ids s) outs).flatMap Prod.fst).length)
    (hseg : ∀ data seq, (data, seq) ∈ dataOn (ids s) outs →
      data.length ≤ 56 ∧ seq = start s + UInt32.ofNat (sys.sent s).length) :
    Numbered ids start (sys.record ids s outs t) := by
  constructor
  · intro r
    rcases r.eq_or_eq_other s with rfl | rfl
    · simpa [System.conn, System.record] using hopen
    · simpa [System.conn, System.record, update_of_ne s.other_ne] using h.opened s.other
  · intro r
    rcases r.eq_or_eq_other s with rfl | rfl
    · simpa [System.conn, System.record] using hsnd
    · simpa [System.conn, System.record, update_of_ne s.other_ne] using h.snd s.other
  · intro r
    rcases r.eq_or_eq_other s with rfl | rfl
    · simpa [System.conn, System.record] using hrcv
    · simpa [System.conn, System.record, update_of_ne s.other_ne] using h.rcv s.other
  · intro r pkt hpkt data seq hdata pos hpos
    rcases r.eq_or_eq_other s with rfl | rfl
    · simp only [System.record, update_self] at hpkt
      rcases mem_append.mp hpkt with hold | hnew
      · exact h.seg r pkt hold data seq hdata pos hpos
      · obtain ⟨hmem, hpos'⟩ := (mem_packets hdata).mp hnew
        cases hpos'.symm.trans hpos
        exact hseg data seq hmem
    · simp only [System.record, update_of_ne s.other_ne] at hpkt
      exact h.seg s.other pkt hpkt data seq hdata pos hpos

theorem Numbered.record_silent (hdata : dataOn (ids s) outs = [])
    (hsnd : (t.conns (ids s)).sndSeq = (sys.conn ids s).sndSeq) :
    Numbered ids start (sys.record ids s outs t) := by
  refine h.record hopen hrcv ?_ ?_
  · rw [hdata, flatMap_nil, append_nil, hsnd]
    exact h.snd s
  · rw [hdata]
    exact fun data seq hmem => absurd hmem not_mem_nil

end

end Record

/-! ### A round moves the streams -/

variable {t : Service}

section Step

variable {ids : Side → ConnId} {start : Side → UInt32} {sys sys' : System} {p : Poll}
  {msg : Option Incoming} {m : Incoming} {s : Side}

theorem Op.opensConn_code (op : Op) : opensConn op.code = (op == .connect) := by
  cases op <;> rfl

theorem Segment.opensConn_opcode (seg : Segment) :
    opensConn seg.opcode = (seg.opcode == TCP_SYN) := by
  cases seg <;> rfl

theorem incoming_cases (hmsg : sys.incoming p = some msg) (hm : m ∈ msg) :
    (∃ op sender payload, p.event = .request op sender payload ∧ m = ⟨sender, op.code, payload⟩) ∨
    ∃ k sender pkt, p.event = .deliver k sender ∧ (sys.flight p.side.other)[k]? = some pkt ∧
      m = ⟨sender, pkt.seg.opcode, pkt.seg.payload⟩ := by
  unfold System.incoming at hmsg
  cases hevent : p.event with
  | idle =>
    rw [hevent] at hmsg
    cases hmsg
    cases hm
  | request op sender payload =>
    rw [hevent] at hmsg
    cases hmsg
    cases hm
    exact .inl ⟨op, sender, payload, rfl, rfl⟩
  | deliver k sender =>
    rw [hevent] at hmsg
    obtain ⟨pkt, hpkt, rfl⟩ := map_eq_some_iff.mp hmsg
    cases hm
    exact .inr ⟨k, sender, pkt, rfl, hpkt, rfl⟩

theorem orderly_alloc (hok : orderly ids sys p) (hmsg : sys.incoming p = some msg) (hm : m ∈ msg)
    (hopens : opensConn m.opcode) : allocConn (sys.service p.side).conns ≠ some (ids p.side) := by
  intro halloc
  have hreopens : sys.reopens ids p.side = true := by rw [System.reopens, halloc, beq_self_eq_true]
  unfold orderly at hok
  rcases incoming_cases hmsg hm with ⟨op, _, _, hevent, rfl⟩ | ⟨k, sender, pkt, hevent, hpkt, rfl⟩
  · simp only [hevent, ← op.opensConn_code, hopens, hreopens] at hok
    cases hok
  · simp only [hevent, hpkt, all_some, ← pkt.seg.opensConn_opcode, hopens, hreopens] at hok
    cases hok

/-- What is accepted was in flight, and the next in order. -/
theorem orderly_accepts (hnum : Numbered ids start sys) (hok : orderly ids sys p)
    (hmsg : sys.incoming p = some msg) (hm : m ∈ msg)
    (hdata : acceptedData (ids p.side) (sys.service p.side) m = some data) :
    (sys.conn ids p.side).unread = [] ∧
      ((sys.received p.side).length, data) ∈
        flightOf (ids p.side.other) (sys.flight p.side.other) := by
  unfold orderly at hok
  rcases incoming_cases hmsg hm with ⟨op, _, _, _, rfl⟩ | ⟨k, sender, pkt, hevent, hpkt, rfl⟩
  · have hcode := (acceptedFrom_eq_some.mp hdata).1.1
    cases op <;> cases hcode
  · have haccepts : sys.accepts ids p.side sender pkt = true := by
      rw [System.accepts, hdata, isSome_some]
    simp only [hevent, hpkt, all_some, haccepts, Bool.not_true, Bool.false_or,
      Bool.and_eq_true, System.inOrder, beq_iff_eq, Option.any_eq_true,
      decide_eq_true_iff] at hok
    obtain ⟨-, ⟨hother, hempty⟩, pos, hpos, hnear⟩ := hok
    have hunread : (sys.conn ids p.side).unread = [] := by
      rw [TcpConn.unread, hempty, take_zero]
    refine ⟨hunread, ?_⟩
    have hmem : pkt ∈ sys.flight p.side.other := mem_of_getElem? hpkt
    cases hseg : pkt.seg with
    | data j taken seq =>
      rw [hseg] at hother hdata
      obtain rfl : j = ids p.side.other := by simpa [Segment.isDataOn] using hother
      obtain ⟨hlen, hseq⟩ := hnum.seg p.side.other pkt hmem taken seq hseg pos hpos
      obtain ⟨-, rfl, hnext⟩ := acceptedData_data hlen hdata
      have hrcv := hnum.rcv p.side
      rw [hunread, length_nil, Nat.add_zero] at hrcv
      have heq : pos = (sys.received p.side).length := by
        have hnat := congrArg UInt32.toNat (hseq.symm.trans (hnext.trans hrcv))
        simp only [UInt32.toNat_add, UInt32.toNat_ofNat'] at hnat
        omega
      exact ⟨pkt, hmem, seq, hseg, hpos.trans (congrArg some heq)⟩
    | _ => simp [hseg, Segment.isDataOn] at hother

theorem channel_other_of_silent (hdata : dataOn (ids s) outs = []) :
    (sys.record ids s outs t).channel ids s.other = sys.channel ids s.other := by
  rw [channel_record_other, hdata]
  simp [System.channel]

theorem channel_other_of_data (hdata : dataOn (ids s) outs = [(data, seq)]) :
    (sys.record ids s outs t).channel ids s.other =
      { sys.channel ids s.other with
        sent := (sys.channel ids s.other).sent ++ data
        flight := insert ((sys.channel ids s.other).sent.length, data)
          (sys.channel ids s.other).flight } := by
  have hnew : {x : Nat × List UInt8 | x.1 = (sys.sent s).length ∧
      ∃ seq', (x.2, seq') ∈ [(data, seq)]} = {((sys.sent s).length, data)} := by
    ext ⟨pos, data'⟩
    simp
  rw [channel_record_other, hdata, hnew, Set.union_singleton, flatMap_singleton]
  simp [System.channel]

/-- **A round moves both directions of the connection**, and the numbers keep counting. -/
theorem step_moves (hstep : sys.step ids p = some sys') (hnum : Numbered ids start sys)
    (hok : orderly ids sys p) :
    Numbered ids start sys' ∧ ∀ r, Channel.Moves (sys.channel ids r) (sys'.channel ids r) := by
  obtain ⟨msg, hmsg, hstep⟩ := bind_eq_some_iff.mp hstep
  obtain ⟨⟨outs, t⟩, hround, hstep⟩ := bind_eq_some_iff.mp hstep
  cases hstep
  obtain ⟨hopen, heffect⟩ := pollRound_effect hround (hnum.opened p.side)
    fun m hm => orderly_alloc hok hmsg hm
  have hrcv := hnum.rcv p.side
  -- it is enough to look at the end that makes the round and at the direction it sends on
  suffices hends : Numbered ids start (sys.record ids p.side outs t) ∧
      Channel.Moves (sys.channel ids p.side)
        ((sys.record ids p.side outs t).channel ids p.side) ∧
      Channel.Moves (sys.channel ids p.side.other)
        ((sys.record ids p.side outs t).channel ids p.side.other) by
    refine ⟨hends.1, fun r => ?_⟩
    rcases r.eq_or_eq_other p.side with rfl | rfl
    · exact hends.2.1
    · exact hends.2.2
  rw [channel_record_self]
  cases heffect with
  | quiet hview hsilent =>
    obtain ⟨hsnd', hrcv', hunread⟩ := View.mk.inj hview
    refine ⟨hnum.record_silent hopen ?_ hsilent.1 hsnd', ?_, ?_⟩
    · rw [hsilent.2, append_nil, hrcv', hunread]
      exact hrcv
    · rw [hsilent.2, append_nil, hunread]
      exact .idle _
    · rw [channel_other_of_silent hsilent.1]
      exact .idle _
  | sends data hlen hview hdata hread =>
    obtain ⟨hsnd', hrcv', hunread⟩ := View.mk.inj hview
    have hsnd := hnum.snd p.side
    refine ⟨hnum.record hopen ?_ ?_ ?_, ?_, ?_⟩
    · rw [hread, append_nil, hrcv', hunread]
      exact hrcv
    · rw [hdata, hsnd', flatMap_singleton, length_append, UInt32.ofNat_add, ← UInt32.add_assoc]
      exact congrArg (· + UInt32.ofNat data.length) hsnd
    · rintro data' seq' h
      rw [hdata, mem_singleton] at h
      cases h
      exact ⟨hlen, hsnd⟩
    · rw [hread, append_nil, hunread]
      exact .idle _
    · rw [channel_other_of_data hdata]
      exact .send _ data
  | reads hview hdata hread =>
    obtain ⟨hsnd', hrcv', hunread⟩ := View.mk.inj hview
    refine ⟨hnum.record_silent hopen ?_ hdata hsnd', ?_, ?_⟩
    · rw [hread, hrcv', hunread, length_append, length_nil, Nat.add_zero]
      exact hrcv
    · rw [hread, hunread]
      exact .take _
    · rw [channel_other_of_silent hdata]
      exact .idle _
  | accepts data haccept hview hsilent =>
    obtain ⟨hsnd', hrcv', hunread⟩ := View.mk.inj hview
    obtain ⟨m, hm, haccept⟩ := haccept
    obtain ⟨hempty, hflight⟩ := orderly_accepts hnum hok hmsg hm haccept
    refine ⟨hnum.record_silent hopen ?_ hsilent.1 hsnd', ?_, ?_⟩
    · rw [hempty, length_nil, Nat.add_zero] at hrcv
      rw [hsilent.2, append_nil, hrcv', hunread, UInt32.ofNat_add, ← UInt32.add_assoc]
      exact congrArg (· + UInt32.ofNat data.length) hrcv
    · rw [hsilent.2, append_nil, hunread]
      exact .accept _ data hempty hflight
    · rw [channel_other_of_silent hsilent.1]
      exact .idle _

end Step

/-! ### Runs -/

/-- **Stream integrity.**  In every run of orderly rounds from a connection between the two
instances, what RECV has returned on one side is a beginning of what SEND has accepted on the
other. -/
theorem stream_integrity {ids : Side → ConnId} {sys sys' : System} {polls : List Poll}
    (hconn : Connected ids sys) (hrun : Run (Guarded (fun sys p sys' => sys.step ids p = some sys')
      fun sys p => orderly ids sys p) sys polls sys') (s : Side) :
    sys'.received s <+: sys'.sent s.other := by
  have hunread : ∀ s, (sys.conn ids s).unread = [] := by
    intro s
    rw [TcpConn.unread, hconn.empty s, take_zero]
  have hnone : ∀ s, ∀ pkt ∈ sys.flight s, ∀ data seq, pkt.seg = .data (ids s) data seq →
      pkt.pos = none := by
    intro s pkt hpkt data seq hseg
    refine hconn.noData s pkt hpkt ?_
    rw [hseg, Segment.isDataOn, beq_self_eq_true]
  suffices h : Numbered ids (fun s => (sys.conn ids s).sndSeq) sys' ∧
      ∀ s, (sys'.channel ids s).Intact from (h.2 s).taken_begins_sent
  apply hrun.invariant
  · rintro a p b ⟨hnum, hintact⟩ ⟨hok, hab⟩
    obtain ⟨hnum', hmoves⟩ := step_moves hab hnum hok
    exact ⟨hnum', fun s => (hintact s).move (hmoves s)⟩
  · refine ⟨⟨?_, ?_, ?_, ?_⟩, fun s => ⟨?_, ?_⟩⟩
    · intro s
      rw [hconn.established s]
      decide
    · intro s
      simp [(hconn.fresh s).1]
    · intro s
      simp [(hconn.fresh s).2, hunread s, hconn.expects s]
    · intro s pkt hpkt data seq hseg pos hpos
      rw [hnone s pkt hpkt data seq hseg] at hpos
      cases hpos
    · simp [System.channel, hunread s, (hconn.fresh s).2]
    · rintro x ⟨pkt, hpkt, seq, hseg, hpos⟩
      rw [hnone s.other pkt hpkt x.2 seq hseg] at hpos
      cases hpos

/-! ### Running a connection -/

def System.execute (ok : System → Poll → Bool) (ids : Side → ConnId) :
    System → List Poll → Option System
  | sys, [] => some sys
  | sys, p :: polls =>
      if ok sys p then (sys.step ids p).bind fun sys' => sys'.execute ok ids polls else none

theorem run_of_execute {ok : System → Poll → Bool} {ids : Side → ConnId} {polls : List Poll}
    {sys sys' : System} (h : sys.execute ok ids polls = some sys') :
    Run (Guarded (fun sys p sys' => sys.step ids p = some sys') fun sys p => ok sys p)
      sys polls sys' := by
  induction polls generalizing sys with
  | nil =>
    obtain rfl := some.inj h
    exact .nil sys
  | cons p polls ih =>
    unfold System.execute at h
    split at h
    · rename_i hok
      obtain ⟨mid, hstep, hrest⟩ := bind_eq_some_iff.mp h
      exact .cons ⟨hok, hstep⟩ (ih hrest)
    · cases h

def System.start : System where
  service := fun _ => Service.start
  flight := fun _ => []
  sent := fun _ => []
  received := fun _ => []

def bothZero : Side → ConnId := fun _ => ⟨0, by decide⟩

def handshake : List Poll :=
  [⟨.left, .request .connect 5 [0, 80], 0⟩, ⟨.right, .deliver 0 5, 0⟩, ⟨.left, .deliver 0 6, 0⟩,
    ⟨.right, .deliver 1 5, 0⟩]

/-- Both instances after the handshake, with the connection 0 on both sides. -/
def handshaken : System :=
  (System.start.execute (fun _ _ => true) bothZero handshake).getD System.start

theorem connected_handshaken : Connected bothZero handshaken where
  established := by decide +kernel
  expects := by decide +kernel
  empty := by decide +kernel
  noData := by decide +kernel
  fresh := by decide +kernel

def sendTwo (a b : UInt8) : Event := .request .send 7 [0, 2, a, b]

def recvZero : Event := .request .recv 8 [0]

/-- Every segment is read before the next one arrives, and the first arrives again. -/
def readInTurn : List Poll :=
  [⟨.left, sendTwo 97 98, 0⟩, ⟨.left, sendTwo 99 100, 0⟩, ⟨.right, .deliver 2 5, 0⟩,
    ⟨.right, recvZero, 0⟩, ⟨.right, .deliver 2 5, 0⟩, ⟨.right, .deliver 3 5, 0⟩,
    ⟨.right, recvZero, 0⟩]

theorem stream_integrity_in_turn :
    ∃ sys', Run (Guarded (fun sys p sys' => sys.step bothZero p = some sys')
        fun sys p => orderly bothZero sys p) handshaken readInTurn sys' ∧
      sys'.received .right = [97, 98, 99, 100] ∧
      sys'.received .right <+: sys'.sent Side.right.other := by
  have hexec : (handshaken.execute (orderly bothZero) bothZero readInTurn).map
      (fun sys => sys.received .right) = some [97, 98, 99, 100] := by
    decide +kernel
  obtain ⟨sys', hexec, hreceived⟩ := map_eq_some_iff.mp hexec
  have hrun := run_of_execute hexec
  exact ⟨sys', hrun, hreceived, stream_integrity connected_handshaken hrun .right⟩

def readTooLate : List Poll :=
  [⟨.left, sendTwo 97 98, 0⟩, ⟨.left, sendTwo 99 100, 0⟩, ⟨.right, .deliver 2 5, 0⟩,
    ⟨.right, .deliver 3 5, 0⟩, ⟨.right, recvZero, 0⟩]

/-- **Unread bytes are overwritten**: of `ab` and `cd`, both delivered before the first RECV,
the RECV returns `cd`. -/
theorem unread_overwritten :
    ¬ ∀ (ids : Side → ConnId) (sys sys' : System) (polls : List Poll), Connected ids sys →
      Run (fun sys p sys' => sys.step ids p = some sys') sys polls sys' →
      ∀ s, sys'.received s <+: sys'.sent s.other := by
  intro hall
  have hexec : (handshaken.execute (fun _ _ => true) bothZero readTooLate).map
      (fun sys => (sys.received .right, sys.sent .left)) =
        some ([99, 100], [97, 98, 99, 100]) := by
    decide +kernel
  obtain ⟨sys', hexec, hstreams⟩ := map_eq_some_iff.mp hexec
  have hprefix := hall bothZero handshaken sys' readTooLate connected_handshaken
    (run_of_execute hexec).unguarded .right
  rw [(Prod.mk.inj hstreams).1, Side.other, (Prod.mk.inj hstreams).2] at hprefix
  exact absurd hprefix (by decide)

end TrainOS.Tcp
