import TrainOS.Scheduling

/-!
# Sleeping receivers

A thread that receives from an empty endpoint goes to sleep and is recorded as the waiting
receiver, and the next `send` wakes the recorded thread.  The record has room for one thread:
a second receiver takes the place of the first, which is then never woken.
-/

namespace TrainOS.Sched

open Function Runs

/-- The thread sleeps until a message comes to the endpoint. -/
def AsleepOn (s : Sys) (t : ThreadPtr) (epId : Nat) : Prop :=
  (s.thread t).state = .waiting ∧ (s.thread t).waitTarget = some (.endpoint epId)

instance (s : Sys) (t : ThreadPtr) (epId : Nat) : Decidable (AsleepOn s t epId) :=
  inferInstanceAs (Decidable (_ ∧ _))

/-- A sleeping thread is the recorded receiver of its endpoint, which holds no message. -/
def Recorded (s : Sys) : Prop :=
  ∀ t epId, AsleepOn s t epId → ∃ ep, s.endpoints epId = some ep ∧
    ep.waitingReceiver = some t ∧ ep.pendingSenders.toList = []

/-- The next message to its endpoint wakes a sleeping thread. -/
def Wakes (s : Sys) : Prop :=
  ∀ t epId, AsleepOn s t epId → ∀ senderPid msg,
    (send epId senderPid msg s).1 = .ok () ∧
      ((send epId senderPid msg s).2.thread t).state = .ready

/-- A thread that finds the endpoint empty is the only one to sleep on it. -/
def OneSleeper (s : Sys) : SysCall → Prop
  | .recv epId => ∀ ep cur t, s.endpoints epId = some ep → ep.pendingSenders.toList = [] →
      s.current = some cur → AsleepOn s t epId → t = cur
  | _ => True

section Steps

variable {s s' : Sys} {t u : ThreadPtr} {epId e : Nat}

theorem Recorded.mono (h : Recorded s) (hendpoints : s'.endpoints = s.endpoints)
    (hasleep : ∀ u e, AsleepOn s' u e → AsleepOn s u e) : Recorded s' := by
  intro u e hu
  rw [hendpoints]
  exact h u e (hasleep u e hu)

theorem Recorded.sameStates (h : Recorded s) (hsame : SameStates s s') : Recorded s' := by
  refine h.mono hsame.endpoints ?_
  intro u e hu
  unfold AsleepOn at hu
  rwa [hsame.state, hsame.waitTarget] at hu

theorem AsleepOn.of_modify {f : Thread → Thread} (hu : AsleepOn s' u e)
    (hths : s'.numa.threads = s.numa.threads.modify t f)
    (hf : (f (s.thread t)).state ≠ .waiting) : u ≠ t ∧ AsleepOn s u e := by
  have hne : u ≠ t := by
    rintro rfl
    apply hf
    have hstate := hu.1
    unfold Sys.thread at hstate
    rwa [hths, Threads.modify_self] at hstate
  refine ⟨hne, ?_⟩
  unfold AsleepOn Sys.thread at hu
  rwa [hths, Threads.modify_of_ne hne] at hu

section

variable (h : Recorded s) {ep : Endpoint}
include h

/-- An endpoint that changes is not the one of the thread, which is recorded as before. -/
theorem Recorded.other {new : Endpoint} (hep : s.endpoints epId = some ep) (hu : AsleepOn s u e)
    (hnot : e = epId → ep.waitingReceiver = some u → ep.pendingSenders.toList ≠ []) :
    ∃ ep', update s.endpoints epId (some new) e = some ep' ∧ ep'.waitingReceiver = some u ∧
      ep'.pendingSenders.toList = [] := by
  obtain ⟨ep', hep', hrecorded, hempty⟩ := h u e hu
  have hne : e ≠ epId := by
    rintro rfl
    cases hep.symm.trans hep'
    exact hnot rfl hrecorded hempty
  exact ⟨ep', (update_of_ne hne ..).trans hep', hrecorded, hempty⟩

theorem Recorded.enqueueThread (t : ThreadPtr) :
    Recorded { s with numa := Sched.enqueueThread t s.numa } := by
  refine h.mono rfl ?_
  intro u e hu
  refine (hu.of_modify rfl ?_).2
  rw [readied_state]
  decide

theorem Recorded.schedule (hart : Nat) : Recorded (schedule hart s) := by
  have hrequeue : Recorded { s with numa := requeueCurrent s } := by
    rcases requeueCurrent_cases s with hsame | ⟨cur, _, _, henqueue⟩
    · rw [hsame]
      exact h
    · rw [henqueue]
      exact h.enqueueThread cur
  rcases schedule_cases hart s with hnone | ⟨n, t, ths, q, hpick, hnext⟩
  · rw [hnone]
    exact hrequeue.mono rfl fun _ _ => id
  · rw [hnext]
    refine hrequeue.mono rfl ?_
    intro u e hu
    have hths := threads_leave_modify hpick hart
    exact (hu.of_modify (s := { s with numa := requeueCurrent s }) hths (by simp)).2

theorem Recorded.sysKill (pid : Nat) : Recorded (sysKill pid s).2 := by
  obtain ⟨procs, hmarked | ⟨t, _, hdead⟩⟩ := sysKill_cases pid s
  · rw [hmarked]
    exact h.mono rfl fun _ _ => id
  · rw [hdead]
    refine h.mono rfl ?_
    intro u e hu
    exact (hu.of_modify (t := t) (f := fun th => { th with state := .dead }) rfl (by simp)).2

theorem Recorded.send (epId senderPid : Nat) (msg : Message) :
    Recorded (send epId senderPid msg s).2 := by
  rcases send_cases epId senderPid msg s with
    hsame | ⟨ep, hep, s1, rfl, ⟨hnone, hqueued⟩ | ⟨receiver, hreceiver, hwoken⟩⟩
  · rwa [hsame]
  · rw [hqueued]
    exact fun u e hu => h.other hep hu fun _ hrecorded => by simp [hnone] at hrecorded
  · rw [hwoken]
    intro u e hu
    have hths := threads_enqueueThread_modify receiver (woken (senderPriority s)) s.numa
    obtain ⟨hother, hasleep⟩ := hu.of_modify hths (by rw [readied_state]; decide)
    exact h.other hep hasleep fun _ hrecorded =>
      absurd (Option.some.inj (hrecorded.symm.trans hreceiver)) hother

theorem Recorded.take (hep : s.endpoints epId = some ep) {item : Nat × Message}
    {rest : VecQueue (Nat × Message)}
    (hpop : ep.pendingSenders.popFront = some (item, rest)) :
    Recorded (s.setEndpoint epId { ep with pendingSenders := rest }) :=
  fun u e hu => h.other hep hu fun _ _ => by simp [VecQueue.popFront_eq_some hpop]

/-- A receiver that falls asleep is recorded at its endpoint. -/
theorem Recorded.recv (hok : OneSleeper s (.recv epId)) : Recorded (recv epId s).2 := by
  rcases recv_cases epId s with
    hsame | ⟨ep, hep, ⟨item, rest, hpop, s1, rfl, hlost | ⟨t, _, htaken⟩⟩ |
      ⟨t, hempty, hcur, hblocked⟩⟩
  · rwa [hsame]
  · rw [hlost]
    exact h.take hep hpop
  · rw [htaken]
    exact (h.take hep hpop).sameStates ((SameStates.refl _).modify fun _ => ⟨rfl, rfl, rfl⟩)
  · rw [hblocked]
    intro u e hu
    by_cases hut : u = t
    · subst hut
      have htarget : e = epId := by
        have hwait := hu.2
        simpa [Sys.thread, Sys.setEndpoint, Sys.modify, Numa.modify, asleep, eq_comm] using hwait
      subst htarget
      exact ⟨_, update_self .., rfl, hempty⟩
    · have hasleep : AsleepOn s u e := by
        unfold AsleepOn Sys.thread at hu ⊢
        simpa [Sys.setEndpoint, Sys.modify, Numa.modify, Threads.modify_of_ne hut] using hu
      exact h.other hep hasleep fun he _ => absurd (hok ep t u hep hempty hcur (he ▸ hasleep)) hut

theorem Recorded.step {c : SysCall} (hok : OneSleeper s c) : Recorded (c.run s) := by
  cases c with
  | schedule hart => exact h.schedule hart
  | enqueueThread t => exact h.enqueueThread t
  | setCurrent t => exact h.mono rfl fun _ _ => id
  | proxyStart blocker holder => exact h.sameStates (sameStates_proxyStart blocker holder s)
  | proxyEnd holder => exact h.sameStates (sameStates_proxyEnd holder s)
  | schedSetparam pid paramPtr value =>
    exact h.sameStates (sameStates_sysSchedSetparam pid paramPtr value s)
  | kill pid => exact h.sysKill pid
  | send epId senderPid msg => exact h.send epId senderPid msg
  | recv epId => exact h.recv hok

theorem Recorded.wakes : Wakes s := by
  intro t epId ht senderPid msg
  obtain ⟨ep, hep, hrecorded, _⟩ := h t epId ht
  constructor
  · simp [Sched.send, hep, hrecorded]
  · simp only [Sched.send, hep, hrecorded]
    show (((s.numa.threads.modify t _).modify t readied) t).state = .ready
    rw [Threads.modify_self, readied_state]

end

end Steps

/-! ### Runs -/

/-- **No lost wake-up** in a run in which no thread goes to sleep on an endpoint where
    another one sleeps, whichever threads make the calls. -/
theorem sleepers_recorded_and_woken {s0 s : Sys} {cs : List SysCall}
    (hstart : ∀ t, (s0.thread t).state ≠ .waiting)
    (hrun : Run (Guarded SysStep OneSleeper) s0 cs s) : Recorded s ∧ Wakes s := by
  have hrecorded : Recorded s := by
    refine hrun.invariant ?_ fun t e ht => absurd ht.1 (hstart t)
    rintro s1 c s2 h ⟨hok, rfl⟩
    exact h.step hok
  exact ⟨hrecorded, hrecorded.wakes⟩

def firstReceiver : ThreadPtr := ⟨0x80300000, by decide, by decide⟩
def secondReceiver : ThreadPtr := ⟨0x80400000, by decide, by decide⟩

def receiverSys : Sys :=
  Sys.boot (fun _ => Thread.new 7 7 32) (update (fun _ => none) 1 (some Endpoint.new)) []

/-- The hypotheses are met by one thread that is scheduled and goes to sleep. -/
theorem sleepers_recorded_and_woken_one : ∃ s, Run (Guarded SysStep OneSleeper) receiverSys
        [.enqueueThread firstReceiver, .schedule 0, .recv 1] s ∧
      AsleepOn s firstReceiver 1 ∧ Recorded s ∧ Wakes s := by
  have hstart : ∀ t, (receiverSys.thread t).state ≠ .waiting := fun _ h => (by cases h)
  have hbefore : Run (Guarded SysStep OneSleeper) receiverSys
      [.enqueueThread firstReceiver, .schedule 0] _ :=
    .cons ⟨trivial, rfl⟩ (.cons ⟨trivial, rfl⟩ (.nil _))
  have hsleep : OneSleeper ((SysCall.schedule 0).run
      ((SysCall.enqueueThread firstReceiver).run receiverSys)) (.recv 1) := by
    intro ep cur t _ _ _ ht
    obtain ⟨ep', hep', hrecorded, _⟩ := (sleepers_recorded_and_woken hstart hbefore).1 t 1 ht
    cases hep'.symm.trans (rfl : _ = some Endpoint.new)
    cases hrecorded
  have hrun := hbefore.append (.cons ⟨hsleep, rfl⟩ (.nil _))
  exact ⟨_, hrun, by decide, sleepers_recorded_and_woken hstart hrun⟩

/-- **A lost wake-up.**  Two threads receive from an empty endpoint.  The first one stays
    asleep through two messages, the second of which nobody receives. -/
theorem second_receiver_loses_first : ∃ s, (∀ t, (receiverSys.thread t).state ≠ .waiting) ∧
      Run SysStep receiverSys
        [.enqueueThread firstReceiver, .enqueueThread secondReceiver,
          .schedule 0, .recv 1, .schedule 0, .recv 1,
          .send 1 9 ⟨9, 1, []⟩, .schedule 0, .recv 1, .send 1 9 ⟨9, 2, []⟩] s ∧
      AsleepOn s firstReceiver 1 ∧
      (s.endpoints 1).map Endpoint.waitingReceiver = some none ∧
      (s.endpoints 1).map (fun ep => ep.pendingSenders.toList) = some [(9, ⟨9, 2, []⟩)] ∧
      s.current = some secondReceiver := by
  refine ⟨_, fun _ h => (by cases h), run_runAll _ _, ?_, ?_, ?_, ?_⟩
  all_goals decide

end TrainOS.Sched
