import TrainOS.Scheduling

/-!
# Ready threads

A thread that is ready has to be on a ready queue, or it never runs again.  Every call that
makes a thread ready also enqueues it, but `enqueue_eevdf` passes over a thread whose
priority is 64 or more, and `sched_setparam` takes any priority.
-/

namespace TrainOS.Sched

open Runs

/-! ### The invariant -/

/-- The priorities of a thread have a queue, it is queued on its own node only, and if it
    belongs to `X` and is ready, it is queued. -/
structure Kept (X : ThreadPtr → Prop) (queue : Fin MAX_NODES → Fin NUM_PRIORITIES → List ThreadPtr)
    (t : ThreadPtr) (th : Thread) : Prop where
  base : th.basePriority < NUM_PRIORITIES
  effective : th.effectivePriority < NUM_PRIORITIES
  node : ∀ n p, t ∈ queue n p → nodeIdx th.nodeId = n
  ready : X t → th.state = .ready → ∃ p, t ∈ queue (nodeIdx th.nodeId) p

def AllKept (X : ThreadPtr → Prop) (s : Numa) : Prop := ∀ t, Kept X s.queue t (s.threads t)

/-- The change leaves a thread on its node, with priorities that have a queue. -/
structure InPlace (th th' : Thread) : Prop where
  nodeId : th'.nodeId = th.nodeId
  base : th'.basePriority < NUM_PRIORITIES
  effective : th'.effectivePriority < NUM_PRIORITIES

section Kept

variable {X : ThreadPtr → Prop} {s : Numa} {t : ThreadPtr} {f : Thread → Thread}

section

variable (h : AllKept X s)
include h

theorem AllKept.mono {Y : ThreadPtr → Prop} (himp : ∀ u, Y u → X u) : AllKept Y s :=
  fun u => { h u with ready := fun hY => (h u).ready (himp u hY) }

theorem AllKept.modify (hf : InPlace (s.threads t) (f (s.threads t)))
    (hready : (f (s.threads t)).state = .ready → (s.threads t).state = .ready) :
    AllKept X (s.modify t f) := by
  refine Threads.forall_modify (P := Kept X s.queue) (fun u _ => h u)
    ⟨hf.base, hf.effective, ?_, ?_⟩
  · rw [hf.nodeId]
    exact (h t).node
  · intro hX ht
    rw [hf.nodeId]
    exact (h t).ready hX (hready ht)

/-- From now on the thread that is enqueued counts too. -/
theorem AllKept.enqueueThread (hf : InPlace (s.threads t) (f (s.threads t))) :
    AllKept (fun u => X u ∨ u = t) (Sched.enqueueThread t (s.modify t f)) := by
  have hqueue : ∀ n p u, u ∈ (Sched.enqueueThread t (s.modify t f)).queue n p ↔
      u ∈ s.queue n p ∨ u = t ∧ n = nodeIdx (s.threads t).nodeId ∧ p = ⟨_, hf.effective⟩ := by
    have hnode : ((s.modify t f).threads t).nodeId = (s.threads t).nodeId := by
      simp [Numa.modify, hf.nodeId]
    intro n p u
    rw [enqueueThread_eq, hnode]
    exact mem_queue_push (by simp [Numa.modify])
  intro u
  rw [threads_enqueueThread_modify]
  revert u
  refine Threads.forall_modify
    (P := Kept (fun u => X u ∨ u = t) (Sched.enqueueThread t (s.modify t f)).queue) ?_ ?_
  · intro u hne
    refine ⟨(h u).base, (h u).effective, ?_, ?_⟩
    · intro n p hu
      rcases (hqueue n p u).mp hu with hu | ⟨rfl, hn, _⟩
      · exact (h u).node n p hu
      · exact hn.symm
    · intro hX hu
      obtain ⟨p, hp⟩ := (h u).ready (hX.resolve_right hne) hu
      exact ⟨p, (hqueue _ p u).mpr (.inl hp)⟩
  · refine ⟨by simpa using hf.base, by simpa using hf.effective, ?_, ?_⟩
    · intro n p ht
      rw [readied_nodeId, hf.nodeId]
      rcases (hqueue n p t).mp ht with ht | ⟨_, hn, _⟩
      · exact (h t).node n p ht
      · exact hn.symm
    · intro _ _
      rw [readied_nodeId, hf.nodeId]
      exact ⟨_, (hqueue _ _ t).mpr (.inr ⟨rfl, rfl, rfl⟩)⟩

theorem AllKept.leave {n : Fin MAX_NODES} {ths : Threads} {q : NumaReadyQueues}
    (hpick : pickNextEevdf s.threads (s.queues n) = some (t, ths, q)) :
    AllKept X (s.leave n ths q) := by
  intro u
  show Kept X (s.leave n ths q).queue u (ths u)
  rw [(leave_cases hpick).1]
  revert u
  refine Threads.forall_modify (P := Kept X (s.leave n ths q).queue) ?_ ?_
  · intro u hu
    refine ⟨(h u).base, (h u).effective, ?_, ?_⟩
    · intro i k hmem
      exact (h u).node i k ((mem_queue_leave hpick hu).mp hmem)
    · intro hX hready
      obtain ⟨p, hp⟩ := (h u).ready hX hready
      exact ⟨p, (mem_queue_leave hpick hu).mpr hp⟩
  · refine ⟨(h t).base, (h t).effective, ?_, ?_⟩
    · intro i k hmem
      exact (h t).node i k ((queue_leave_suffix hpick i k).subset hmem)
    · intro _ hready
      cases hready

theorem AllKept.enqueue (t : ThreadPtr) :
    AllKept (fun u => X u ∨ u = t) (Sched.enqueueThread t s) := by
  rw [← s.modify_id t]
  exact h.enqueueThread ⟨rfl, (h t).base, (h t).effective⟩

end

end Kept

/-! ### The calls -/

/-- `sched_setparam` gives a thread a priority that has a queue. -/
def PriorityOk (s : Sys) : SysCall → Prop
  | .schedSetparam pid paramPtr value =>
      ∀ proc t, paramPtr ≠ 0 → s.process? pid = some proc → proc.thread = some t →
        value % 256 < NUM_PRIORITIES
  | _ => True

section Calls

variable {X : ThreadPtr → Prop} {s : Sys}

section

variable (h : AllKept X s.numa)
include h

theorem AllKept.schedule (hart : Nat) : AllKept X (schedule hart s).numa := by
  have hrequeue : AllKept X (requeueCurrent s) := by
    rcases requeueCurrent_cases s with hsame | ⟨cur, _, _, henqueue⟩
    · rwa [hsame]
    · rw [henqueue]
      exact (h.enqueue cur).mono fun _ => .inl
  rcases schedule_cases hart s with hnone | ⟨n, t, ths, q, hpick, hnext⟩
  · rw [hnone]
    exact hrequeue
  · rw [hnext]
    have hleave := hrequeue.leave hpick
    exact hleave.modify ⟨rfl, (hleave t).base, (hleave t).effective⟩ id

theorem AllKept.proxyStart (blocker holder : ThreadPtr) :
    AllKept X (proxyStart blocker holder s).numa := by
  unfold Sched.proxyStart
  extract_lets s1 s2 prio s3 ticks
  have h1 : AllKept X s1.numa := h.modify ⟨rfl, (h blocker).base, (h blocker).effective⟩ id
  have h2 : AllKept X s2.numa := h1.modify ⟨rfl, (h1 holder).base, (h1 holder).effective⟩ id
  have h3 : AllKept X s3.numa := by
    apply h2.modify
    · split
      · exact ⟨rfl, (h2 holder).base, (h2 blocker).effective⟩
      · exact ⟨rfl, (h2 holder).base, (h2 holder).effective⟩
    · split <;> exact id
  apply h3.modify
  · split <;> exact ⟨rfl, (h3 holder).base, (h3 holder).effective⟩
  · split <;> exact id

theorem AllKept.proxyEnd (holder : ThreadPtr) : AllKept X (proxyEnd holder s).numa := by
  unfold Sched.proxyEnd
  extract_lets s1
  have h1 : AllKept X s1.numa := by
    simp only [s1]
    split
    · next donor _ => exact h.modify ⟨rfl, (h donor).base, (h donor).effective⟩ id
    · exact h
  exact h1.modify ⟨rfl, (h1 holder).base, (h1 holder).base⟩ id

theorem AllKept.sysSchedSetparam {pid paramPtr value : Nat}
    (hok : PriorityOk s (.schedSetparam pid paramPtr value)) :
    AllKept X (sysSchedSetparam pid paramPtr value s).2.numa := by
  unfold Sched.sysSchedSetparam
  split
  · exact h
  · next hptr =>
    split
    · exact h
    · next proc hproc =>
      split
      · next t ht => exact h.modify ⟨rfl, (h t).base, hok proc t hptr hproc ht⟩ id
      · exact h

theorem AllKept.sysKill (pid : Nat) : AllKept X (sysKill pid s).2.numa := by
  obtain ⟨procs, hmarked | ⟨t, _, hdead⟩⟩ := sysKill_cases pid s
  · rw [hmarked]
    exact h
  · rw [hdead]
    apply h.modify ⟨rfl, (h t).base, (h t).effective⟩
    intro hstate
    cases hstate

theorem AllKept.send (epId senderPid : Nat) (msg : Message) :
    AllKept X (send epId senderPid msg s).2.numa := by
  have hprio : senderPriority s < NUM_PRIORITIES := by
    unfold senderPriority
    split
    · next t _ => exact (h t).effective
    · decide
  rcases send_cases epId senderPid msg s with
    hsame | ⟨ep, _, s1, rfl, ⟨_, hqueued⟩ | ⟨receiver, _, hwoken⟩⟩
  · rwa [hsame]
  · rw [hqueued]
    exact h
  · rw [hwoken]
    refine (h.enqueueThread ⟨rfl, (h receiver).base, ?_⟩).mono fun _ => .inl
    unfold woken
    split
    · exact hprio
    · exact (h receiver).effective

theorem AllKept.recv (epId : Nat) : AllKept X (recv epId s).2.numa := by
  rcases recv_cases epId s with
    hsame | ⟨ep, _, ⟨_, rest, _, s1, rfl, hlost | ⟨t, _, htaken⟩⟩ | ⟨t, _, _, hblocked⟩⟩
  · rwa [hsame]
  · rw [hlost]
    exact h
  · rw [htaken]
    exact .modify h ⟨rfl, (h t).base, (h t).base⟩ id
  · rw [hblocked]
    apply AllKept.modify h ⟨rfl, (h t).base, (h t).effective⟩
    intro hstate
    cases hstate

/-- **One call** loses no ready thread. -/
theorem AllKept.step {c : SysCall} (hok : PriorityOk s c) :
    AllKept (fun u => X u ∨ c = .enqueueThread u) (c.run s).numa := by
  have hother (hne : ∀ u, c ≠ .enqueueThread u) (hkept : AllKept X (c.run s).numa) :
      AllKept (fun u => X u ∨ c = .enqueueThread u) (c.run s).numa :=
    hkept.mono fun u hu => hu.resolve_right (hne u)
  cases c with
  | schedule hart => exact hother nofun (h.schedule hart)
  | enqueueThread t =>
    exact (h.enqueue t).mono fun u => Or.imp_right fun heq => (SysCall.enqueueThread.inj heq).symm
  | setCurrent t => exact hother nofun h
  | proxyStart blocker holder => exact hother nofun (h.proxyStart blocker holder)
  | proxyEnd holder => exact hother nofun (h.proxyEnd holder)
  | schedSetparam pid paramPtr value => exact hother nofun (h.sysSchedSetparam hok)
  | kill pid => exact hother nofun (h.sysKill pid)
  | send epId senderPid msg => exact hother nofun (h.send epId senderPid msg)
  | recv epId => exact hother nofun (h.recv epId)

/-- Over a run every thread that it enqueues comes to count. -/
theorem AllKept.run {cs : List SysCall} {s' : Sys}
    (hrun : Run (Guarded SysStep PriorityOk) s cs s') :
    AllKept (fun u => X u ∨ .enqueueThread u ∈ cs) s'.numa := by
  induction hrun generalizing X with
  | nil s => exact h.mono (by simp)
  | cons hfirst _ ih =>
    obtain ⟨hok, rfl⟩ := hfirst
    exact (ih (h.step hok)).mono fun u hu => by simpa [or_assoc, eq_comm] using hu

end

end Calls

/-! ### Runs -/

/-- Nothing is queued yet, and all priorities have a queue. -/
def Sys.Unqueued (s : Sys) : Prop :=
  (∀ n, s.numa.queues n = NumaReadyQueues.new) ∧
    ∀ t, (s.thread t).basePriority < NUM_PRIORITIES ∧
      (s.thread t).effectivePriority < NUM_PRIORITIES

theorem Sys.Unqueued.allKept {s : Sys} (h : s.Unqueued) :
    AllKept (fun t => (s.thread t).state ≠ .ready) s.numa := by
  intro t
  refine ⟨(h.2 t).1, (h.2 t).2, ?_, fun hX hready => absurd hready hX⟩
  intro n p ht
  have hempty : s.numa.queue n p = [] := by
    unfold Numa.queue
    rw [h.1 n]
    rfl
  rw [hempty] at ht
  cases ht

/-- **No ready thread is lost** in a run whose `sched_setparam` calls set priorities below
    64.  A new thread is ready before it is enqueued, so a thread counts from the moment the run
    enqueues it; without that, only a thread that was ready before the run, as the idle thread
    of `start_scheduler` is, can be ready and on no queue. -/
theorem ready_threads_queued {s0 s : Sys} {cs : List SysCall} (hstart : s0.Unqueued)
    (hrun : Run (Guarded SysStep PriorityOk) s0 cs s) {t : ThreadPtr}
    (hnew : (s0.thread t).state ≠ .ready ∨ .enqueueThread t ∈ cs)
    (hready : (s.thread t).state = .ready) : ∃! n, ∃ p, t ∈ s.numa.queue n p := by
  have hkept := hstart.allKept.run hrun
  obtain ⟨p, hp⟩ := (hkept t).ready hnew hready
  refine ⟨_, ⟨p, hp⟩, ?_⟩
  rintro n ⟨k, hk⟩
  exact ((hkept t).node n k hk).symm

def worker : ThreadPtr := ⟨0x80200000, by decide, by decide⟩

/-- A process whose thread is as `Thread::new` leaves it: ready, and on no queue yet. -/
def workerSys : Sys :=
  Sys.boot (fun _ => Thread.new 7 7 32) (fun _ => none)
    [{ pid := 7, state := .ready, basePriority := 32, thread := some worker }]

theorem unqueued_workerSys : workerSys.Unqueued :=
  have hprio : 32 < NUM_PRIORITIES := by decide
  ⟨fun _ => rfl, fun _ => ⟨hprio, hprio⟩⟩

/-- The hypotheses are met by a new thread that is enqueued and then given priority 63. -/
theorem ready_threads_queued_worker : (workerSys.thread worker).state = .ready ∧
    ∃ s, Run (Guarded SysStep PriorityOk) workerSys
        [.enqueueThread worker, .schedSetparam 7 0x40000000 63] s ∧
      (s.thread worker).state = .ready ∧ ∃! n, ∃ p, worker ∈ s.numa.queue n p := by
  have hrun : Run (Guarded SysStep PriorityOk) workerSys
      [.enqueueThread worker, .schedSetparam 7 0x40000000 63] _ :=
    .cons ⟨trivial, rfl⟩
      (.cons ⟨fun _ _ _ _ _ => (by decide : 63 % 256 < NUM_PRIORITIES), rfl⟩ (.nil _))
  have hready : ((SysCall.run (.schedSetparam 7 0x40000000 63)
      (SysCall.run (.enqueueThread worker) workerSys)).thread worker).state = .ready := by
    decide
  exact ⟨rfl, _, hrun, hready, ready_threads_queued unqueued_workerSys hrun
    (.inr List.mem_cons_self) hready⟩

/-- **A lost thread.**  A running thread sets its own priority to 64 and yields: it is ready
    and on no queue. -/
theorem sched_setparam_loses_thread : ∃ s, Run SysStep workerSys
        [.enqueueThread worker, .schedule 0, .schedSetparam 7 0x40000000 64, .schedule 0] s ∧
      (s.thread worker).state = .ready ∧ ∀ n p, worker ∉ s.numa.queue n p := by
  refine ⟨_, run_runAll _ _, by decide, ?_⟩
  decide +kernel

end TrainOS.Sched
