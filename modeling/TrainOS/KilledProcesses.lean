import TrainOS.Scheduling

/-!
# Killed processes

`sys_kill` marks the process as dead, and its thread if that is waiting.  It leaves the thread
where it is: on a ready queue, as the current thread, or as the waiting receiver of an
endpoint.  From each of these places the thread gets back to the processor.
-/

namespace TrainOS.Sched

open Runs

/-- The thread is on no ready queue and no endpoint's waiting receiver. -/
def OutOfReach (queued : List ThreadPtr) (endpoints : Nat → Option Endpoint) (t : ThreadPtr) :
    Prop :=
  t ∉ queued ∧ ∀ epId ep, endpoints epId = some ep → ep.waitingReceiver ≠ some t

/-- No thread of the process is running, on a ready queue, or recorded as a waiting
    receiver. -/
def Quiet (pid : Nat) (s : Sys) : Prop :=
  ∀ t, (s.thread t).owner = pid →
    (s.thread t).state ≠ .running ∧ OutOfReach s.numa.queued s.endpoints t

/-- No thread of the process is handed to the scheduler or made to wait. -/
def Spares (pid : Nat) (s : Sys) : SysCall → Prop
  | .enqueueThread t => (s.thread t).owner ≠ pid
  | .recv _ => ∀ t, s.current = some t → (s.thread t).owner ≠ pid
  | _ => True

variable {epId : Nat} {ep : Endpoint}

section Steps

variable {pid : Nat} {s s' : Sys} {t : ThreadPtr} {f : Thread → Thread}

section

variable (h : Quiet pid s)
include h

theorem Quiet.sameStates (hsame : SameStates s s') : Quiet pid s' := by
  intro t ht
  rw [hsame.state, hsame.endpoints, Numa.queued, hsame.queues]
  exact h t (by rwa [hsame.owner] at ht)

theorem Quiet.enqueueThread (ht : (s.thread t).owner ≠ pid) (hf : ∀ th, (f th).owner = th.owner) :
    Quiet pid { s with numa := Sched.enqueueThread t (s.numa.modify t f) } := by
  intro u hu
  have howner : ((Sched.enqueueThread t (s.numa.modify t f)).threads u).owner =
      (s.thread u).owner := by
    rw [threads_enqueueThread_modify]
    exact Threads.modify_field Thread.owner (fun th => by rw [readied_owner, hf]) u
  have hpid : (s.thread u).owner = pid := howner.symm.trans hu
  have hne : u ≠ t := by
    rintro rfl
    exact ht hpid
  obtain ⟨hstate, hqueued, hrecorded⟩ := h u hpid
  refine ⟨?_, ?_, hrecorded⟩
  · show ((Sched.enqueueThread t (s.numa.modify t f)).threads u).state ≠ _
    rw [threads_enqueueThread_modify, Threads.modify_of_ne hne]
    exact hstate
  · intro hmem
    rcases mem_queued_of_push hmem with hmem | hut
    · exact hqueued hmem
    · exact hne hut

theorem Quiet.enqueue (ht : (s.thread t).owner ≠ pid) :
    Quiet pid { s with numa := Sched.enqueueThread t s.numa } := by
  have hquiet := h.enqueueThread ht (f := id) fun _ => rfl
  rwa [Numa.modify_id] at hquiet

theorem Quiet.requeueCurrent : Quiet pid { s with numa := requeueCurrent s } := by
  rcases requeueCurrent_cases s with hsame | ⟨cur, _, hrunning, henqueue⟩
  · rw [hsame]
    exact h
  · rw [henqueue]
    exact h.enqueue fun howner => (h cur howner).1 hrunning

end

theorem owner_requeueCurrent (s : Sys) (u : ThreadPtr) :
    ((requeueCurrent s).threads u).owner = (s.thread u).owner := by
  rcases requeueCurrent_cases s with hsame | ⟨cur, _, _, henqueue⟩
  · rw [hsame]
    rfl
  · rw [henqueue]
    exact Threads.modify_field Thread.owner readied_owner u

section

variable (h : Quiet pid s)
include h

theorem Quiet.selected {hart : Nat} (ht : (Sched.schedule hart s).current = some t) :
    (s.thread t).owner ≠ pid := by
  rcases schedule_cases hart s with hnone | ⟨n, t', ths, q, hpick, hnext⟩
  · rw [hnone] at ht
    cases ht
  · rw [hnext] at ht
    obtain rfl := Option.some.inj ht
    intro howner
    have hmem : t' ∈ (Sched.requeueCurrent s).queued :=
      (queued_leave_perm hpick).mem_iff.mpr List.mem_cons_self
    exact (h.requeueCurrent t' ((owner_requeueCurrent s t').trans howner)).2.1 hmem

theorem Quiet.schedule (hart : Nat) : Quiet pid (schedule hart s) := by
  have hrequeue := h.requeueCurrent
  rcases schedule_cases hart s with hnone | ⟨n, t, ths, q, hpick, hnext⟩
  · rw [hnone]
    exact hrequeue
  · have hother : (s.thread t).owner ≠ pid := h.selected (by rw [hnext])
    rw [hnext]
    intro u hu
    unfold Sys.thread at hu ⊢
    simp only [threads_leave_modify hpick] at hu ⊢
    have howner : ((Sched.requeueCurrent s).threads u).owner = pid := by
      rw [← hu]
      symm
      apply Threads.modify_field Thread.owner
      exact fun _ => rfl
    have hne : u ≠ t := by
      rintro rfl
      exact hother ((owner_requeueCurrent s u).symm.trans howner)
    obtain ⟨hstate, hqueued, hrecorded⟩ := hrequeue u howner
    rw [Threads.modify_of_ne hne]
    refine ⟨hstate, ?_, hrecorded⟩
    intro hmem
    exact hqueued ((queued_leave_perm hpick).mem_iff.mpr (List.mem_cons_of_mem t hmem))

theorem Quiet.modify (hf : (f (s.thread t)).owner = pid →
      (f (s.thread t)).state ≠ .running ∧ (s.thread t).owner = pid) : Quiet pid (s.modify t f) := by
  refine Threads.forall_modify (P := fun u th => th.owner = pid →
    th.state ≠ .running ∧ OutOfReach s.numa.queued s.endpoints u) (fun u _ => h u) ?_
  intro howner
  obtain ⟨hstate, hpid⟩ := hf howner
  exact ⟨hstate, (h t hpid).2⟩

theorem Quiet.sysKill (pid' : Nat) : Quiet pid (sysKill pid' s).2 := by
  obtain ⟨procs, hmarked | ⟨t, _, hdead⟩⟩ := sysKill_cases pid' s
  · rw [hmarked]
    exact h
  · rw [hdead]
    exact .modify (s := { s with procs := procs }) h fun howner => ⟨by simp, howner⟩

theorem Quiet.setEndpoint (hep : ∀ t, ep.waitingReceiver = some t → (s.thread t).owner ≠ pid) :
    Quiet pid (s.setEndpoint epId ep) := by
  intro t ht
  obtain ⟨hstate, hqueued, hrecorded⟩ := h t ht
  refine ⟨hstate, hqueued, ?_⟩
  intro e ep' hep'
  by_cases he : e = epId
  · obtain rfl : ep = ep' := by simpa [Sys.setEndpoint, he] using hep'
    exact fun hreceiver => hep t hreceiver ht
  · exact hrecorded e ep' (by simpa [Sys.setEndpoint, he] using hep')

theorem Quiet.receiver (hep : s.endpoints epId = some ep) (ht : ep.waitingReceiver = some t) :
    (s.thread t).owner ≠ pid :=
  fun howner => (h t howner).2.2 epId ep hep ht

theorem Quiet.send (epId senderPid : Nat) (msg : Message) :
    Quiet pid (send epId senderPid msg s).2 := by
  rcases send_cases epId senderPid msg s with
    hsame | ⟨ep, hep, s1, hs1, hcases⟩
  · rwa [hsame]
  · have h1 : Quiet pid s1 := by
      rw [hs1]
      exact h.setEndpoint fun t ht => by cases ht
    rcases hcases with ⟨_, hqueued⟩ | ⟨receiver, hreceiver, hwoken⟩
    · rwa [hqueued]
    · rw [hwoken]
      have hother : (s1.thread receiver).owner ≠ pid := by
        rw [hs1]
        exact h.receiver hep hreceiver
      have hnuma : s1.numa = s.numa := by rw [hs1]; rfl
      have hquiet := h1.enqueueThread hother (f := woken (senderPriority s)) fun _ => rfl
      rwa [hnuma] at hquiet

theorem Quiet.recv (hok : Spares pid s (.recv epId)) : Quiet pid (recv epId s).2 := by
  rcases recv_cases epId s with
    hsame | ⟨ep, hep, ⟨_, rest, _, s1, hs1, hcases⟩ | ⟨t, _, hcur, hblocked⟩⟩
  · rwa [hsame]
  · have h1 : Quiet pid s1 := by
      rw [hs1]
      exact h.setEndpoint fun t ht => h.receiver hep ht
    rcases hcases with hlost | ⟨t, _, htaken⟩
    · rwa [hlost]
    · rw [htaken]
      exact h1.sameStates ((SameStates.refl s1).modify fun _ => ⟨rfl, rfl, rfl⟩)
  · have hasleep : Quiet pid (s.modify t (asleep epId)) :=
      h.modify fun howner => ⟨by simp [asleep], howner⟩
    rw [hblocked]
    refine hasleep.setEndpoint ?_
    intro u hu
    cases hu
    have hsame : (s.modify t (asleep epId)).thread t = asleep epId (s.thread t) :=
      Threads.modify_self
    rw [hsame]
    exact hok t hcur

theorem Quiet.step {c : SysCall} (hok : Spares pid s c) : Quiet pid (c.run s) := by
  cases c with
  | schedule hart => exact h.schedule hart
  | enqueueThread t => exact h.enqueue hok
  | setCurrent t => exact h
  | proxyStart blocker holder => exact h.sameStates (sameStates_proxyStart blocker holder s)
  | proxyEnd holder => exact h.sameStates (sameStates_proxyEnd holder s)
  | schedSetparam pid paramPtr value =>
    exact h.sameStates (sameStates_sysSchedSetparam pid paramPtr value s)
  | kill pid => exact h.sysKill pid
  | send epId senderPid msg => exact h.send epId senderPid msg
  | recv epId => exact h.recv hok

end

end Steps

/-! ### Runs -/

/-- **A killed process never runs again** if none of its threads was running, queued or
    recorded when it was killed, and none is enqueued or made to wait afterwards. -/
theorem killed_never_selected {pid hart : Nat} {s1 s2 s3 : Sys} {cs : List SysCall}
    {t : ThreadPtr} (hquiet : Quiet pid s1) (hkill : sysKill pid s1 = (.ok 0, s2))
    (hrun : Run (Guarded SysStep (Spares pid)) s2 cs s3)
    (hselected : (schedule hart s3).current = some t) : (s3.thread t).owner ≠ pid := by
  have hkilled : Quiet pid s2 := by
    have h := hquiet.sysKill pid
    rwa [hkill] at h
  have hlast : Quiet pid s3 := by
    refine hrun.invariant ?_ hkilled
    rintro s c s' h ⟨hok, rfl⟩
    exact h.step hok
  exact hlast.selected hselected

def victim : ThreadPtr := ⟨0x80500000, by decide, by decide⟩
def bystander : ThreadPtr := ⟨0x80600000, by decide, by decide⟩

def victimSys (state : ThreadState) : Sys :=
  Sys.boot (fun t => if t = victim then { Thread.new 7 7 32 with state := state }
      else Thread.new 8 8 16)
    (Function.update (fun _ => none) 1 (some Endpoint.new))
    [{ pid := 7, state := .ready, basePriority := 32, thread := some victim },
      { pid := 8, state := .ready, basePriority := 16, thread := some bystander }]

/-- The hypotheses are met by a process that has exited before it is killed. -/
theorem killed_never_selected_exited :
    ∃ s2 s3, Quiet 7 (victimSys .dead) ∧ sysKill 7 (victimSys .dead) = (.ok 0, s2) ∧
      Run (Guarded SysStep (Spares 7)) s2 [.enqueueThread bystander] s3 ∧
      (schedule 0 s3).current = some bystander ∧ (s3.thread bystander).owner ≠ 7 := by
  have hquiet : Quiet 7 (victimSys .dead) := by
    intro t howner
    have hvictim : t = victim := by
      by_contra hne
      simp [victimSys, Sys.boot, Sys.thread, Numa.boot, hne, Thread.new] at howner
    subst hvictim
    refine ⟨by decide, by decide +kernel, ?_⟩
    intro epId ep hep hreceiver
    have hnew : ep = Endpoint.new := by
      by_cases hone : epId = 1
      · simpa [victimSys, Sys.boot, hone, eq_comm] using hep
      · simp [victimSys, Sys.boot, hone] at hep
    rw [hnew] at hreceiver
    cases hreceiver
  have hkill : sysKill 7 (victimSys .dead) = (.ok 0, (sysKill 7 (victimSys .dead)).2) := rfl
  have hrun : Run (Guarded SysStep (Spares 7)) (sysKill 7 (victimSys .dead)).2
      [.enqueueThread bystander] _ :=
    .cons ⟨(by decide : (8 : Nat) ≠ 7), rfl⟩ (.nil _)
  have hselected : (schedule 0 ((SysCall.enqueueThread bystander).run
      (sysKill 7 (victimSys .dead)).2)).current = some bystander := by decide
  exact ⟨_, _, hquiet, hkill, hrun, hselected, killed_never_selected hquiet hkill hrun hselected⟩

/-- **Killed processes that run again.**  A thread that is ready, that is running, or that is
    blocked on an endpoint when its process is killed is selected later. -/
theorem killed_selected_again : (∃ s, Run SysStep (victimSys .dead) [.enqueueThread victim] s ∧
      (s.thread victim).owner = 7 ∧ (sysKill 7 s).1 = .ok 0 ∧
      (schedule 0 (sysKill 7 s).2).current = some victim) ∧
    (∃ s, Run SysStep (victimSys .dead) [.enqueueThread victim, .schedule 0] s ∧
      (s.thread victim).state = .running ∧ (sysKill 7 s).1 = .ok 0 ∧
      (schedule 0 (sysKill 7 s).2).current = some victim) ∧
    ∃ s, Run SysStep (victimSys .dead) [.enqueueThread victim, .schedule 0, .recv 1,
        .schedule 0] s ∧
      (s.thread victim).state = .waiting ∧ (sysKill 7 s).1 = .ok 0 ∧
      (schedule 0 (send 1 8 ⟨8, 1, []⟩ (sysKill 7 s).2).2).current = some victim := by
  refine ⟨⟨_, run_runAll _ _, ?_, ?_, ?_⟩, ⟨_, run_runAll _ _, ?_, ?_, ?_⟩,
    ⟨_, run_runAll _ _, ?_, ?_, ?_⟩⟩
  all_goals decide

end TrainOS.Sched
