import TrainOS.Tcp

/-!
# What a round does to the stream of a connection

Of a connection only the next sequence number to send, the next one expected and the bytes that
wait to be read matter (`TcpConn.view`).  `pollRound_effect` lists what one round can do to them
and what it sends meanwhile (`Effect`).  A data segment is read back as it was written
(`acceptedData_data`).
-/

namespace TrainOS.Tcp

open FixedBuffer Function Option

/-! ### The stream in what the service sends -/

def Out.dataOn (i : ConnId) : Out → Option (List UInt8 × UInt32)
  | .segment _ (.data j data seq) => if j = i then some (data, seq) else none
  | _ => none

def Out.readOn (i : ConnId) : Out → List UInt8
  | .received _ j data => if j = i then data else []
  | _ => []

def dataOn (i : ConnId) (outs : List Out) : List (List UInt8 × UInt32) :=
  outs.filterMap (Out.dataOn i)

def readOn (i : ConnId) (outs : List Out) : List UInt8 := outs.flatMap (Out.readOn i)

def Silent (i : ConnId) (outs : List Out) : Prop := dataOn i outs = [] ∧ readOn i outs = []

theorem silent_nil (i : ConnId) : Silent i [] := ⟨rfl, rfl⟩

structure View where
  sndSeq : UInt32
  rcvSeq : UInt32
  unread : List UInt8

def TcpConn.view (c : TcpConn) : View := ⟨c.sndSeq, c.rcvSeq, c.unread⟩

/-- What may happen to a stream; `accepted` says which data the round takes from a segment. -/
inductive Effect (i : ConnId) (v v' : View) (outs : List Out) (accepted : List UInt8 → Prop) :
    Prop
  | quiet (hview : v' = v) (hsilent : Silent i outs)
  | sends (data : List UInt8) (hlen : data.length ≤ 56)
      (hview : v' = { v with sndSeq := v.sndSeq + UInt32.ofNat data.length })
      (hdata : dataOn i outs = [(data, v.sndSeq)]) (hread : readOn i outs = [])
  | reads (hview : v' = { v with unread := [] }) (hdata : dataOn i outs = [])
      (hread : readOn i outs = v.unread)
  | accepts (data : List UInt8) (haccept : accepted data)
      (hview : v' = { v with rcvSeq := v.rcvSeq + UInt32.ofNat data.length, unread := data })
      (hsilent : Silent i outs)

variable {i : ConnId} {outs more : List Out} {P : List UInt8 → Prop} {sender caller : Nat}
  {seq : UInt32} {now : UInt64}

theorem Effect.imp {v v' : View} {Q : List UInt8 → Prop} (h : Effect i v v' outs P)
    (hPQ : ∀ data, P data → Q data) : Effect i v v' outs Q := by
  cases h with
  | quiet hview hsilent => exact .quiet hview hsilent
  | sends data hlen hview hdata hread => exact .sends data hlen hview hdata hread
  | reads hview hdata hread => exact .reads hview hdata hread
  | accepts data haccept hview hsilent => exact .accepts data (hPQ data haccept) hview hsilent

theorem Silent.append_right (h : Silent i more) (outs : List Out) :
    dataOn i (outs ++ more) = dataOn i outs ∧ readOn i (outs ++ more) = readOn i outs := by
  obtain ⟨hdata, hread⟩ := h
  constructor
  · rw [dataOn, List.filterMap_append, ← dataOn, ← dataOn, hdata, List.append_nil]
  · rw [readOn, List.flatMap_append, ← readOn, ← readOn, hread, List.append_nil]

theorem Effect.append {v v' : View} (h : Effect i v v' outs P) (hmore : Silent i more) :
    Effect i v v' (outs ++ more) P := by
  obtain ⟨hdata', hread'⟩ := hmore.append_right outs
  cases h with
  | quiet hview hsilent => exact .quiet hview ⟨hdata'.trans hsilent.1, hread'.trans hsilent.2⟩
  | sends data hlen hview hdata hread =>
    exact .sends data hlen hview (hdata'.trans hdata) (hread'.trans hread)
  | reads hview hdata hread => exact .reads hview (hdata'.trans hdata) (hread'.trans hread)
  | accepts data haccept hview hsilent =>
    exact .accepts data haccept hview ⟨hdata'.trans hsilent.1, hread'.trans hsilent.2⟩

/-! ### Handlers on one connection -/

/-- The handshake is not started again, and the stream changes by an `Effect`. -/
def Moves (i : ConnId) (c c' : TcpConn) (outs : List Out) (accepted : List UInt8 → Prop) : Prop :=
  c'.state ≠ .synSent ∧ Effect i c.view c'.view outs accepted

theorem Moves.imp {c c' : TcpConn} {Q : List UInt8 → Prop} (h : Moves i c c' outs P)
    (hPQ : ∀ data, P data → Q data) : Moves i c c' outs Q := ⟨h.1, h.2.imp hPQ⟩

/-- A call of a handler sends on its own connection only. -/
structure Call (j : ConnId) (c c' : TcpConn) (outs : List Out) (accepted : List UInt8 → Prop) :
    Prop where
  others : ∀ i, i ≠ j → Silent i outs
  effect : c.state ≠ .synSent → Moves j c c' outs accepted

section Handlers

variable {j : ConnId} {c c' : TcpConn} {outs : List Out} {accepted : List UInt8 → Prop}
  {data : List UInt8}

theorem Call.quiet (hsilent : ∀ i, Silent i outs) (hview : c'.view = c.view)
    (hstate : c.state ≠ .synSent → c'.state ≠ .synSent) : Call j c c' outs accepted :=
  ⟨fun i _ => hsilent i, fun h => ⟨hstate h, .quiet hview (hsilent j)⟩⟩

theorem Call.none : Call j c c [] accepted := .quiet silent_nil rfl id

theorem handleClose_call (h : handleClose j c = some (c', outs)) : Call j c c' outs accepted := by
  unfold handleClose at h
  split at h <;> cases h
  · exact .none
  · exact .quiet (fun _ => ⟨rfl, rfl⟩) rfl (fun _ => by simp)

theorem handleIncomingFin_call (h : handleIncomingFin j c = some (c', outs)) :
    Call j c c' outs accepted := by
  cases h
  exact .quiet (fun _ => ⟨rfl, rfl⟩) rfl (fun _ => by simp)

theorem handleIncomingFinAck_call (h : handleIncomingFinAck j c = some (c', outs)) :
    Call j c c' outs accepted := by
  cases h
  exact .quiet silent_nil rfl (fun _ => by simp)

theorem cwndIncrease_view (c : TcpConn) :
    (cwndIncrease c).view = c.view ∧ (cwndIncrease c).state = c.state := by
  unfold cwndIncrease
  split <;> exact ⟨rfl, rfl⟩

theorem handleIncomingAck_call (h : handleIncomingAck j c = some (c', outs)) :
    Call j c c' outs accepted := by
  unfold handleIncomingAck at h
  split at h <;> cases h
  · obtain ⟨hview, hstate⟩ := cwndIncrease_view (onAck { c with state := .established })
    exact .quiet silent_nil hview (fun _ => hstate.trans_ne (by simp [onAck]))
  · obtain ⟨hview, hstate⟩ := cwndIncrease_view (onAck c)
    exact .quiet silent_nil hview (fun hopen => hstate.trans_ne hopen)
  · exact .none

theorem handleIncomingSynAck_call
    (h : handleIncomingSynAck sender seq j c = some (c', outs)) : Call j c c' outs accepted := by
  unfold handleIncomingSynAck at h
  split at h <;> cases h
  · exact .none
  · rename_i hsent
    rw [not_not] at hsent
    exact ⟨fun _ _ => ⟨rfl, rfl⟩, fun hnot => absurd hsent hnot⟩

theorem handleSend_call
    (h : handleSend data now j c = some (c', outs)) : Call j c c' outs accepted := by
  unfold handleSend at h
  split at h
  · cases h
    exact .none
  · obtain ⟨sendBuf, -, h⟩ := bind_eq_some_iff.mp h
    cases h
    have hlen : (data.take (c.allowed data)).length = c.allowed data :=
      List.length_take_of_le (Nat.min_le_left _ _)
    refine ⟨fun i hi => ⟨?_, rfl⟩, fun hstate => ⟨hstate, ?_⟩⟩
    · simp [dataOn, Out.dataOn, hi.symm]
    · refine .sends (data.take (c.allowed data)) (hlen.trans_le (c.allowed_le data)) ?_ ?_ rfl
      · rw [hlen]
        rfl
      · simp [dataOn, Out.dataOn, TcpConn.view]

theorem handleRecv_call (h : handleRecv caller j c = some (c', outs)) :
    Call j c c' outs accepted := by
  unfold handleRecv at h
  split at h <;> cases h
  · refine ⟨fun i hi => ⟨rfl, ?_⟩, fun hstate => ⟨hstate, .reads ?_ rfl ?_⟩⟩
    · simp [readOn, Out.readOn, hi.symm]
    · simp [TcpConn.view, TcpConn.unread]
    · simp [readOn, Out.readOn, TcpConn.view]
  · refine .quiet (fun i => ⟨rfl, ?_⟩) rfl id
    simp [readOn, Out.readOn]

theorem handleIncomingData_call (hdata : data.length ≤ 64)
    (h : handleIncomingData data seq j c = some (c', outs)) :
    Call j c c' outs fun taken => taken = data ∧ c.state = .established ∧ seq = c.rcvSeq := by
  unfold handleIncomingData at h
  split at h
  · cases h
    exact .none
  · rename_i hstate
    rw [not_not] at hstate
    split at h
    · rename_i hseq
      obtain ⟨recvBuf, hcopy, h⟩ := bind_eq_some_iff.mp h
      cases h
      have hmin : min data.length 64 = data.length := Nat.min_eq_left hdata
      obtain ⟨v, hv, hlist⟩ := copyInto_spec c.recvBuf (Nat.le_refl data.length)
        ((Nat.zero_add _).trans_le hdata)
      rw [hmin, hv] at hcopy
      cases hcopy
      refine ⟨fun _ _ => ⟨rfl, rfl⟩, fun hopen => ⟨hopen, ?_⟩⟩
      refine .accepts data ⟨rfl, hstate, hseq⟩ ?_ ⟨rfl, rfl⟩
      simp [TcpConn.view, TcpConn.unread, hmin, hlist]
    · cases h
      exact .none

end Handlers

/-! ### A round -/

/-- The data that the service takes on connection `i` from the message in the buffer. -/
def acceptedFrom (i : ConnId) (conns : Conns) (buf : Vector UInt8 64) (opcode : UInt16) :
    Option (List UInt8) :=
  if opcode = TCP_DATA ∧ (buf.get 0).toNat = i.val ∧ (conns i).state = .established then
    (dataSlice buf).filter fun data => readU32 buf (2 + data.length) = (conns i).rcvSeq
  else none

variable {buf : Vector UInt8 64} {opcode port : UInt16} {data : List UInt8}

theorem acceptedFrom_eq_some {conns : Conns} : acceptedFrom i conns buf opcode = some data ↔
      (opcode = TCP_DATA ∧ (buf.get 0).toNat = i.val ∧ (conns i).state = .established) ∧
        dataSlice buf = some data ∧ readU32 buf (2 + data.length) = (conns i).rcvSeq := by
  unfold acceptedFrom
  split
  · rename_i hcond
    rw [filter_eq_some_iff, decide_eq_true_iff]
    exact (and_iff_right hcond).symm
  · rename_i hcond
    simp only [reduceCtorEq, false_iff]
    exact fun h => hcond h.1

def acceptedData (i : ConnId) (t : Service) (m : Incoming) : Option (List UInt8) :=
  acceptedFrom i t.conns (overlay t.buf m.payload) m.opcode

def opensConn (opcode : UInt16) : Bool := opcode == OP_CONNECT || opcode == TCP_SYN

section Round

variable {i : ConnId} {conns conns' : Conns} {outs : List Out}

theorem onConn_effect {handler : ConnId → TcpConn → Option (TcpConn × List Out)}
    {accepted : ConnId → TcpConn → List UInt8 → Prop}
    (hcall : ∀ j c c' outs, handler j c = some (c', outs) → Call j c c' outs (accepted j c))
    (h : onConn conns buf handler = some (conns', outs)) (hopen : (conns i).state ≠ .synSent) :
    Moves i (conns i) (conns' i) outs
      fun data => (buf.get 0).toNat = i.val ∧ accepted i (conns i) data := by
  unfold onConn at h
  split at h
  · rename_i hid
    obtain ⟨⟨c', outs'⟩, hhandler, h⟩ := bind_eq_some_iff.mp h
    cases h
    have hc := hcall _ _ _ _ hhandler
    by_cases hi : i = ⟨(buf.get 0).toNat, hid⟩
    · subst hi
      rw [update_self]
      exact (hc.effect hopen).imp fun data haccept => ⟨rfl, haccept⟩
    · rw [update_of_ne hi]
      exact ⟨hopen, .quiet rfl (hc.others i hi)⟩
  · cases h
    exact ⟨hopen, .quiet rfl (silent_nil i)⟩

theorem handleConnect_other (halloc : allocConn conns ≠ some i) :
    (handleConnect conns port caller now).1 i = conns i ∧
      Silent i (handleConnect conns port caller now).2 := by
  unfold handleConnect
  split
  · exact ⟨rfl, rfl, rfl⟩
  · rename_i j hj
    have hi : i ≠ j := fun h => halloc (h ▸ hj)
    exact ⟨update_of_ne hi _ _, rfl, rfl⟩

theorem handleIncomingSyn_other (halloc : allocConn conns ≠ some i) :
    (handleIncomingSyn conns port sender seq).1 i = conns i ∧
      Silent i (handleIncomingSyn conns port sender seq).2 := by
  unfold handleIncomingSyn
  split
  · exact ⟨rfl, rfl, rfl⟩
  · rename_i j hj
    have hi : i ≠ j := fun h => halloc (h ▸ hj)
    exact ⟨update_of_ne hi _ _, rfl, rfl⟩

theorem length_dataSlice (h : dataSlice buf = some data) : data.length ≤ 64 := by
  unfold dataSlice at h
  split at h
  · cases h
    exact (List.length_take_le _ _).trans (by omega)
  · cases h

/-- One message moves a connection by one effect. -/
theorem dispatch_effect (h : dispatch conns buf sender opcode now = some (conns', outs))
    (hopen : (conns i).state ≠ .synSent) (halloc : opensConn opcode → allocConn conns ≠ some i) :
    Moves i (conns i) (conns' i) outs fun data => acceptedFrom i conns buf opcode = some data := by
  -- the effect of a handler that takes no data
  have hplain : ∀ {handler : ConnId → TcpConn → Option (TcpConn × List Out)} {Q},
      (∀ j c c' outs, handler j c = some (c', outs) → Call j c c' outs fun _ => False) →
      onConn conns buf handler = some (conns', outs) → Moves i (conns i) (conns' i) outs Q :=
    fun hcall hon => (onConn_effect (fun j c => hcall j c) hon hopen).imp
      fun data hdata => hdata.2.elim
  have hother : ∀ {res : Conns × List Out} {Q}, res.1 i = conns i ∧ Silent i res.2 →
      some res = some (conns', outs) → Moves i (conns i) (conns' i) outs Q := by
    rintro ⟨_, _⟩ _ ⟨hsame, hsilent⟩ hres
    cases hres
    rw [show conns' i = conns i from hsame]
    exact ⟨hopen, .quiet rfl hsilent⟩
  unfold dispatch at h
  split at h
  case h_1 => exact hother ⟨rfl, rfl, rfl⟩ h
  case h_2 => exact hother (handleConnect_other (halloc (by decide))) h
  case h_3 =>
    obtain ⟨data, -, hon⟩ := bind_eq_some_iff.mp h
    exact hplain (fun j c c' outs => handleSend_call) hon
  case h_4 => exact hplain (fun j c c' outs => handleRecv_call) h
  case h_5 => exact hplain (fun j c c' outs => handleClose_call) h
  case h_6 => exact hother (handleIncomingSyn_other (halloc (by decide))) h
  case h_7 => exact hplain (fun j c c' outs => handleIncomingSynAck_call) h
  case h_8 => exact hplain (fun j c c' outs => handleIncomingAck_call) h
  case h_9 =>
    obtain ⟨data, hslice, hon⟩ := bind_eq_some_iff.mp h
    have heffect := onConn_effect
      (fun j c c' outs => handleIncomingData_call (length_dataSlice hslice)) hon hopen
    refine heffect.imp ?_
    rintro _ ⟨hid, rfl, hstate, hseq⟩
    exact acceptedFrom_eq_some.mpr ⟨⟨rfl, hid, hstate⟩, hslice, hseq⟩
  case h_10 => exact hplain (fun j c c' outs => handleIncomingFin_call) h
  case h_11 => exact hplain (fun j c c' outs => handleIncomingFinAck_call) h
  case h_12 => exact hother ⟨rfl, rfl, rfl⟩ h

theorem checkConn_view (tick : UInt64) (c : TcpConn) : (checkConn tick c).1.view = c.view ∧
      (c.state ≠ .synSent → (checkConn tick c).1.state ≠ .synSent) ∧
      ∀ i, Silent i (checkConn tick c).2 := by
  unfold checkConn
  split
  · split
    · exact ⟨rfl, id, fun _ => ⟨rfl, rfl⟩⟩
    · split
      · exact ⟨rfl, id, fun _ => ⟨rfl, rfl⟩⟩
      · split
        · exact ⟨rfl, fun _ => by simp, silent_nil⟩
        · exact ⟨rfl, id, silent_nil⟩
  · exact ⟨rfl, id, silent_nil⟩

theorem checkPeriodically_view (i : ConnId) (pollCount : UInt64) (conns : Conns) (now : UInt64) :
    ((checkPeriodically pollCount conns now).1 i).view = (conns i).view ∧
      ((conns i).state ≠ .synSent →
        ((checkPeriodically pollCount conns now).1 i).state ≠ .synSent) ∧
      Silent i (checkPeriodically pollCount conns now).2 := by
  unfold checkPeriodically
  split
  · obtain ⟨hview, hstate, -⟩ := checkConn_view (tickOf now) (conns i)
    refine ⟨hview, hstate, ?_, ?_⟩
    · rw [dataOn, checkRetransmissions, List.filterMap_flatMap, List.flatMap_eq_nil_iff]
      exact fun j _ => ((checkConn_view (tickOf now) (conns j)).2.2 i).1
    · rw [readOn, checkRetransmissions, List.flatMap_assoc, List.flatMap_eq_nil_iff]
      exact fun j _ => ((checkConn_view (tickOf now) (conns j)).2.2 i).2
  · exact ⟨rfl, id, silent_nil i⟩

/-- **What one round does to a stream.** -/
theorem pollRound_effect {t t' : Service} {msg : Option Incoming}
    (h : pollRound t msg now = some (outs, t')) (hopen : (t.conns i).state ≠ .synSent)
    (halloc : ∀ m ∈ msg, opensConn m.opcode → allocConn t.conns ≠ some i) :
    Moves i (t.conns i) (t'.conns i) outs
      fun data => ∃ m ∈ msg, acceptedData i t m = some data := by
  obtain ⟨⟨conns', outs'⟩, hmsg, h⟩ := bind_eq_some_iff.mp h
  cases h
  have heffect : Moves i (t.conns i) (conns' i) outs'
      fun data => ∃ m ∈ msg, acceptedData i t m = some data := by
    cases msg with
    | none =>
      cases hmsg
      exact ⟨hopen, .quiet rfl (silent_nil i)⟩
    | some m =>
      have hround := dispatch_effect hmsg hopen (halloc m rfl)
      exact hround.imp fun data hdata => ⟨m, rfl, hdata⟩
  obtain ⟨hview, hstate, hsilent⟩ := checkPeriodically_view i (t.pollCount + 1) conns' now
  refine ⟨hstate heffect.1, ?_⟩
  rw [hview]
  exact heffect.2.append hsilent

end Round

/-! ### Reading a data segment -/

theorem word_of_bytes (x : UInt32) :
    ((x >>> 24).toUInt8.toUInt32 <<< 24 ||| (x >>> 16).toUInt8.toUInt32 <<< 16 |||
      (x >>> 8).toUInt8.toUInt32 <<< 8 ||| x.toUInt8.toUInt32) = x := by
  apply UInt32.toBitVec_inj.mp
  apply BitVec.eq_of_getLsbD_eq
  intro i hi
  simp only [UInt32.toBitVec_or, UInt32.toBitVec_shiftLeft, UInt8.toBitVec_toUInt32,
    UInt32.toBitVec_toUInt8, UInt32.toBitVec_shiftRight, UInt32.toBitVec_ofNat,
    BitVec.ofNat_eq_ofNat, BitVec.reduceMod, BitVec.ushiftRight_eq', BitVec.toNat_ofNat,
    Nat.reducePow, Nat.reduceMod, BitVec.shiftLeft_eq', BitVec.getLsbD_or,
    BitVec.getLsbD_shiftLeft, BitVec.getLsbD_setWidth, BitVec.getLsbD_ushiftRight]
  grind

theorem get_eq_of_toList {v : Vector UInt8 64} {k : Fin 64} {b : UInt8}
    (h : v.toList[k.val]? = some b) : v.get k = b := by
  obtain ⟨hk, rfl⟩ := List.getElem?_eq_some_iff.mp h
  rfl

/-- **A data segment is read as it was written.** -/
theorem read_data (buf : Vector UInt8 64) (j : ConnId) (seq : UInt32) (hdata : data.length ≤ 56) :
    ((overlay buf (Segment.data j data seq).payload).get 0).toNat = j.val ∧
      dataSlice (overlay buf (Segment.data j data seq).payload) = some data ∧
      readU32 (overlay buf (Segment.data j data seq).payload) (2 + data.length) = seq := by
  have hj : j.val < 8 := j.isLt
  have hlen : (Segment.data j data seq).payload.length ≤ 64 := by
    simp [Segment.payload, writeU32]
    omega
  have hlist : (overlay buf (Segment.data j data seq).payload).toList = _ ++ _ :=
    congrArg (· ++ buf.toList.drop _) (List.take_of_length_le hlen)
  generalize hb : overlay buf (Segment.data j data seq).payload = b at *
  generalize buf.toList.drop (Segment.data j data seq).payload.length = rest at hlist
  have hid : b.get 0 = idByte j := get_eq_of_toList (by rw [hlist]; rfl)
  have hcount : b.get 1 = UInt8.ofNat data.length := get_eq_of_toList (by rw [hlist]; rfl)
  have hcount' : (b.get 1).toNat = data.length := by
    rw [hcount, UInt8.toNat_ofNat']
    omega
  refine ⟨?_, ?_, ?_⟩
  · rw [hid, idByte, UInt8.toNat_ofNat']
    omega
  · rw [dataSlice, hcount', if_pos (by omega), hlist]
    simp [Segment.payload]
  · have hword : (b.toList.drop (2 + data.length)).take 4 = writeU32 seq := by
      rw [hlist, Nat.add_comm]
      simp [Segment.payload, writeU32]
    rw [readU32, hword]
    exact word_of_bytes seq

theorem acceptedData_data {j : ConnId} {t : Service} {taken : List UInt8} (hdata : data.length ≤ 56)
    (h : acceptedData i t ⟨sender, TCP_DATA, (Segment.data j data seq).payload⟩ = some taken) :
    j = i ∧ taken = data ∧ seq = (t.conns i).rcvSeq := by
  obtain ⟨hid, hslice, hseq⟩ := read_data t.buf j seq hdata
  obtain ⟨⟨-, hid', -⟩, hslice', hseq'⟩ := acceptedFrom_eq_some.mp h
  obtain rfl : data = taken := Option.some.inj (hslice.symm.trans hslice')
  exact ⟨Fin.ext (hid.symm.trans hid'), rfl, hseq.symm.trans hseq'⟩

end TrainOS.Tcp
