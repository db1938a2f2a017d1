import TrainOS.Numa
import TrainOS.Runs

/-!
# Scheduling, communication and processes

The calls that change which thread may run: `schedule` and its run queues, the blocking
`send` and `recv` of an endpoint with its priority inheritance, proxy execution,
`sched_setparam` and `kill`.  Every call is atomic: the kernel runs on one hart at a time,
and a call holds the lock of what it works on.
-/

namespace TrainOS.Sched

open Runs

/-! ### State -/

structure Message where
  senderPid : Nat
  opcode : Nat
  payload : List UInt8
deriving DecidableEq

/-- Pending messages with their senders, and the thread that waits for one. -/
structure Endpoint where
  pendingSenders : VecQueue (Nat × Message)
  waitingReceiver : Option ThreadPtr

def Endpoint.new : Endpoint where
  pendingSenders := VecQueue.new
  waitingReceiver := none

inductive ProcessState where
  | ready
  | running
  | waiting
  | dead
deriving DecidableEq, Repr

/-- The fields of `Process` that the calls read or write. -/
structure Process where
  pid : Nat
  state : ProcessState
  basePriority : Nat
  thread : Option ThreadPtr

structure Sys where
  numa : Numa
  current : Option ThreadPtr
  endpoints : Nat → Option Endpoint
  procs : List Process

namespace Sys

def boot (ths : Threads) (endpoints : Nat → Option Endpoint) (procs : List Process) : Sys where
  numa := Numa.boot ths
  current := none
  endpoints := endpoints
  procs := procs

def thread (s : Sys) (t : ThreadPtr) : Thread := s.numa.threads t

def modify (s : Sys) (t : ThreadPtr) (f : Thread → Thread) : Sys :=
  { s with numa := s.numa.modify t f }

def setEndpoint (s : Sys) (id : Nat) (ep : Endpoint) : Sys :=
  { s with endpoints := Function.update s.endpoints id (some ep) }

def process? (s : Sys) (pid : Nat) : Option Process := s.procs.find? fun p => p.pid == pid

def modifyProcess (s : Sys) (pid : Nat) (f : Process → Process) : Sys :=
  { s with procs := s.procs.modify (s.procs.findIdx fun p => p.pid == pid) f }

end Sys

/-! ### The scheduler -/

def requeueCurrent (s : Sys) : Numa :=
  match s.current with
  | some cur => if (s.thread cur).state = .running then enqueueThread cur s.numa else s.numa
  | none => s.numa

def noteCpu (hart : Nat) (next : Option ThreadPtr) (s : Sys) : Sys :=
  match next with
  | some t => s.modify t fun th => { th with lastCpu := hart % 256 }
  | none => s

/-- `schedule` on a hart, up to the switch to the new current thread. -/
def schedule (hart : Nat) (s : Sys) : Sys :=
  let (next, numa) := pickNextForHart hart (requeueCurrent s)
  { noteCpu hart next { s with numa := numa } with current := next }

def setCurrent (t : ThreadPtr) (s : Sys) : Sys := { s with current := some t }

/-- Begin proxy execution: the blocker donates its priority and its ticks to the holder. -/
def proxyStart (blocker holder : ThreadPtr) (s : Sys) : Sys :=
  let s := s.modify blocker fun th => { th with proxyTarget := some holder }
  let s := s.modify holder fun th => { th with proxyDonor := some blocker }
  let blkPrio := (s.thread blocker).effectivePriority
  let s := s.modify holder fun th =>
    if th.effectivePriority < blkPrio then { th with effectivePriority := blkPrio } else th
  let blkTicks := (s.thread blocker).remainingTicks
  s.modify holder fun th =>
    if th.remainingTicks < blkTicks then { th with remainingTicks := blkTicks } else th

def proxyEnd (holder : ThreadPtr) (s : Sys) : Sys :=
  let s := match (s.thread holder).proxyDonor with
    | some donor => s.modify donor fun th => { th with proxyTarget := none }
    | none => s
  s.modify holder fun th =>
    { th with proxyDonor := none, effectivePriority := th.basePriority }

/-- Set the scheduling parameters of a process; `value` is the 32-bit word at `paramPtr`. -/
def sysSchedSetparam (pid paramPtr value : Nat) (s : Sys) : Except String Nat × Sys :=
  if paramPtr = 0 then (.error "null param", s)
  else
    let newPriority := value % 256
    match s.process? pid with
    | none => (.error "process not found", s)
    | some proc =>
        let s := s.modifyProcess pid fun p => { p with basePriority := newPriority }
        match proc.thread with
        | some t => (.ok 0, s.modify t fun th => { th with effectivePriority := newPriority })
        | none => (.ok 0, s)

def sysKill (pid : Nat) (s : Sys) : Except String Nat × Sys :=
  match s.process? pid with
  | none => (.error "process not found", s)
  | some proc =>
      let s := s.modifyProcess pid fun p => { p with state := .dead }
      match proc.thread with
      | some t =>
          -- "Mark any blocked thread as Dead too"
          if (s.thread t).state = .waiting then
            (.ok 0, s.modify t fun th => { th with state := .dead })
          else (.ok 0, s)
      | none => (.ok 0, s)

/-! ### Endpoints -/

/-- A woken receiver: "receiver gets max of its own and sender's priority". -/
def woken (senderPrio : Nat) (th : Thread) : Thread :=
  { th with
    effectivePriority := if th.effectivePriority < senderPrio then senderPrio
      else th.effectivePriority
    state := .ready }

def senderPriority (s : Sys) : Nat :=
  match s.current with
  | some t => (s.thread t).effectivePriority
  | none => 0

/-- Non-blocking send.  Queues the message and wakes the receiver if one is waiting. -/
def send (epId senderPid : Nat) (msg : Message) (s : Sys) : Except String Unit × Sys :=
  match s.endpoints epId with
  | none => (.error "invalid ep", s)
  | some ep =>
      let pending := ep.pendingSenders.pushBack (senderPid, msg)
      let s' := s.setEndpoint epId { pendingSenders := pending, waitingReceiver := none }
      match ep.waitingReceiver with
      | none => (.ok (), s')
      | some receiver =>
          let s' := s'.modify receiver (woken (senderPriority s))
          (.ok (), { s' with numa := enqueueThread receiver s'.numa })

def asleep (epId : Nat) (th : Thread) : Thread :=
  { th with state := .waiting, waitTarget := some (.endpoint epId) }

/-- Blocking receive.  Without a message the current thread becomes the waiting receiver, and
    the caller has to call `schedule` and try again. -/
def recv (epId : Nat) (s : Sys) : Except String Message × Sys :=
  match s.endpoints epId with
  | none => (.error "invalid ep", s)
  | some ep =>
      match ep.pendingSenders.popFront with
      | some ((_, msg), rest) =>
          let s := s.setEndpoint epId { ep with pendingSenders := rest }
          match s.current with
          | none => (.error "no thread", s)
          | some t =>
              (.ok msg, s.modify t fun th => { th with effectivePriority := th.basePriority })
      | none =>
          match s.current with
          | none => (.error "no current thread", s)
          | some t =>
              (.error "would block", (s.modify t (asleep epId)).setEndpoint epId
                { ep with waitingReceiver := some t })

/-! ### Runs -/

inductive SysCall where
  | schedule (hart : Nat)
  | enqueueThread (t : ThreadPtr)
  | setCurrent (t : ThreadPtr)
  | proxyStart (blocker holder : ThreadPtr)
  | proxyEnd (holder : ThreadPtr)
  | schedSetparam (pid paramPtr value : Nat)
  | kill (pid : Nat)
  | send (epId senderPid : Nat) (msg : Message)
  | recv (epId : Nat)

def SysCall.run : SysCall → Sys → Sys
  | .schedule hart, s => Sched.schedule hart s
  | .enqueueThread t, s => { s with numa := Sched.enqueueThread t s.numa }
  | .setCurrent t, s => Sched.setCurrent t s
  | .proxyStart blocker holder, s => Sched.proxyStart blocker holder s
  | .proxyEnd holder, s => Sched.proxyEnd holder s
  | .schedSetparam pid paramPtr value, s => (sysSchedSetparam pid paramPtr value s).2
  | .kill pid, s => (sysKill pid s).2
  | .send epId senderPid msg, s => (Sched.send epId senderPid msg s).2
  | .recv epId, s => (Sched.recv epId s).2

def SysStep (s : Sys) (c : SysCall) (s' : Sys) : Prop := s' = c.run s

def runAll (cs : List SysCall) (s : Sys) : Sys := cs.foldl (fun s c => c.run s) s

theorem run_runAll (cs : List SysCall) (s : Sys) : Run SysStep s cs (runAll cs s) :=
  run_foldl (fun s (c : SysCall) => c.run s) cs (fun c _ s => show SysStep s c (c.run s) from rfl) s

theorem schedule_cases (hart : Nat) (s : Sys) :
    schedule hart s = { s with numa := requeueCurrent s, current := none } ∨
      ∃ n t ths q, pickNextEevdf (requeueCurrent s).threads ((requeueCurrent s).queues n) =
          some (t, ths, q) ∧
        schedule hart s = { s with
          numa := ((requeueCurrent s).leave n ths q).modify t
            fun th => { th with lastCpu := hart % 256 }
          current := some t } := by
  unfold schedule pickNextForHart
  rcases pickNext_cases (hartToNode hart (requeueCurrent s)) (requeueCurrent s) with
    ⟨_, hnone⟩ | ⟨t, ths, q, hpick, hleave⟩
  · rw [hnone]
    exact .inl rfl
  · rw [hleave]
    exact .inr ⟨_, t, ths, q, hpick, rfl⟩

theorem threads_leave_modify {n : Fin MAX_NODES} {t : ThreadPtr} {ths : Threads}
    {q : NumaReadyQueues} {s : Numa}
    (hpick : pickNextEevdf s.threads (s.queues n) = some (t, ths, q)) (hart : Nat) :
    ((s.leave n ths q).modify t fun th => { th with lastCpu := hart % 256 }).threads =
      s.threads.modify t fun th => { th with state := .running, lastCpu := hart % 256 } := by
  unfold Numa.modify Numa.leave
  rw [(leave_cases hpick).1, Threads.modify_modify]

theorem threads_enqueueThread_modify (t : ThreadPtr) (f : Thread → Thread) (s : Numa) :
    (enqueueThread t (s.modify t f)).threads = s.threads.modify t fun th => readied (f th) :=
  Threads.modify_modify readied

theorem requeueCurrent_cases (s : Sys) : requeueCurrent s = s.numa ∨
      ∃ cur, s.current = some cur ∧ (s.thread cur).state = .running ∧
        requeueCurrent s = enqueueThread cur s.numa := by
  unfold requeueCurrent
  cases hcur : s.current with
  | none => exact .inl rfl
  | some cur =>
    by_cases hrunning : (s.thread cur).state = .running
    · exact .inr ⟨cur, rfl, hrunning, if_pos hrunning⟩
    · exact .inl (if_neg hrunning)

section Cases

variable {s s' : Sys} {t u : ThreadPtr} {f : Thread → Thread}

theorem send_cases (epId senderPid : Nat) (msg : Message) (s : Sys) :
    (send epId senderPid msg s).2 = s ∨
      ∃ ep, s.endpoints epId = some ep ∧ ∃ s1, s1 = s.setEndpoint epId
          { pendingSenders := ep.pendingSenders.pushBack (senderPid, msg)
            waitingReceiver := none } ∧
        ((ep.waitingReceiver = none ∧ (send epId senderPid msg s).2 = s1) ∨
          ∃ receiver, ep.waitingReceiver = some receiver ∧ (send epId senderPid msg s).2 =
            { s1 with numa :=
                enqueueThread receiver (s.numa.modify receiver (woken (senderPriority s))) }) := by
  cases hep : s.endpoints epId with
  | none => exact .inl (by simp [send, hep])
  | some ep =>
    refine .inr ⟨ep, rfl, _, rfl, ?_⟩
    cases hreceiver : ep.waitingReceiver with
    | none => exact .inl ⟨rfl, by simp [send, hep, hreceiver]⟩
    | some receiver => exact .inr ⟨receiver, rfl, by simp only [send, hep, hreceiver]; rfl⟩

def restored (th : Thread) : Thread := { th with effectivePriority := th.basePriority }

/-- `recv` changes nothing, takes a message, or puts the caller to sleep. -/
theorem recv_cases (epId : Nat) (s : Sys) : (recv epId s).2 = s ∨
      ∃ ep, s.endpoints epId = some ep ∧
        ((∃ item rest, ep.pendingSenders.popFront = some (item, rest) ∧
            ∃ s1, s1 = s.setEndpoint epId { ep with pendingSenders := rest } ∧
              ((recv epId s).2 = s1 ∨ ∃ t, s.current = some t ∧
                (recv epId s).2 = s1.modify t restored)) ∨
          ∃ t, ep.pendingSenders.toList = [] ∧ s.current = some t ∧
            (recv epId s).2 = (s.modify t (asleep epId)).setEndpoint epId
              { ep with waitingReceiver := some t }) := by
  cases hep : s.endpoints epId with
  | none => exact .inl (by simp [recv, hep])
  | some ep =>
    cases hpop : ep.pendingSenders.popFront with
    | none =>
      cases hcur : s.current with
      | none => exact .inl (by simp [recv, hep, hpop, hcur])
      | some t =>
        have hempty := VecQueue.popFront_eq_none.mp hpop
        exact .inr ⟨ep, rfl, .inr ⟨t, hempty, rfl, by simp [recv, hep, hpop, hcur]⟩⟩
    | some r =>
      refine .inr ⟨ep, rfl, .inl ⟨r.1, r.2, hpop, _, rfl, ?_⟩⟩
      cases hcur : s.current with
      | none => exact .inl (by simp [recv, hep, hpop, hcur, Sys.setEndpoint])
      | some t =>
        exact .inr ⟨t, rfl, by simp only [recv, hep, hpop, hcur, Sys.setEndpoint]; rfl⟩

theorem sysKill_cases (pid : Nat) (s : Sys) :
    ∃ procs, (sysKill pid s).2 = { s with procs := procs } ∨
      ∃ t, (s.thread t).state = .waiting ∧
        (sysKill pid s).2 = Sys.modify { s with procs := procs } t
          fun th => { th with state := .dead } := by
  cases hproc : s.process? pid with
  | none => exact ⟨s.procs, .inl (by simp [sysKill, hproc])⟩
  | some proc =>
    refine ⟨(s.modifyProcess pid fun p => { p with state := .dead }).procs, ?_⟩
    cases hthread : proc.thread with
    | none => exact .inl (by simp only [sysKill, hproc, hthread]; rfl)
    | some t =>
      by_cases hwaiting : (s.thread t).state = .waiting
      · refine .inr ⟨t, hwaiting, ?_⟩
        simp only [sysKill, hproc, hthread]
        exact congrArg Prod.snd (if_pos hwaiting)
      · left
        simp only [sysKill, hproc, hthread]
        exact congrArg Prod.snd (if_neg hwaiting)

/-! ### Calls that only change parameters of threads -/

/-- The threads have the states, owners and wait targets that they had, and are queued and
    recorded where they were. -/
structure SameStates (s s' : Sys) : Prop where
  queues : s'.numa.queues = s.numa.queues
  endpoints : s'.endpoints = s.endpoints
  state : ∀ u, (s'.thread u).state = (s.thread u).state
  owner : ∀ u, (s'.thread u).owner = (s.thread u).owner
  waitTarget : ∀ u, (s'.thread u).waitTarget = (s.thread u).waitTarget

theorem SameStates.refl (s : Sys) : SameStates s s :=
  ⟨rfl, rfl, fun _ => rfl, fun _ => rfl, fun _ => rfl⟩

theorem SameStates.modify (h : SameStates s s')
    (hf : ∀ th, (f th).state = th.state ∧ (f th).owner = th.owner ∧
      (f th).waitTarget = th.waitTarget) : SameStates s (s'.modify t f) where
  queues := h.queues
  endpoints := h.endpoints
  state u := (Threads.modify_field Thread.state (fun th => (hf th).1) u).trans (h.state u)
  owner u := (Threads.modify_field Thread.owner (fun th => (hf th).2.1) u).trans (h.owner u)
  waitTarget u :=
    (Threads.modify_field Thread.waitTarget (fun th => (hf th).2.2) u).trans (h.waitTarget u)

theorem sameStates_proxyStart (blocker holder : ThreadPtr) (s : Sys) :
    SameStates s (proxyStart blocker holder s) := by
  refine (((SameStates.refl s).modify ?_).modify ?_).modify ?_ |>.modify ?_
  · exact fun _ => ⟨rfl, rfl, rfl⟩
  · exact fun _ => ⟨rfl, rfl, rfl⟩
  · intro th
    split <;> exact ⟨rfl, rfl, rfl⟩
  · intro th
    split <;> exact ⟨rfl, rfl, rfl⟩

theorem sameStates_proxyEnd (holder : ThreadPtr) (s : Sys) : SameStates s (proxyEnd holder s) := by
  apply SameStates.modify
  · split
    · exact (SameStates.refl s).modify fun _ => ⟨rfl, rfl, rfl⟩
    · exact .refl s
  · exact fun _ => ⟨rfl, rfl, rfl⟩

theorem sameStates_sysSchedSetparam (pid paramPtr value : Nat) (s : Sys) :
    SameStates s (sysSchedSetparam pid paramPtr value s).2 := by
  unfold sysSchedSetparam
  split
  · exact .refl s
  · split
    · exact .refl s
    · have hprocs : ∀ g, SameStates s (s.modifyProcess pid g) :=
        fun g => ⟨rfl, rfl, fun _ => rfl, fun _ => rfl, fun _ => rfl⟩
      split
      · exact (hprocs _).modify fun _ => ⟨rfl, rfl, rfl⟩
      · exact hprocs _

end Cases

end TrainOS.Sched
