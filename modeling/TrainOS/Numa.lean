import TrainOS.RunQueue

/-!
# Scheduling over the nodes of the machine

`numa/mod.rs`: every node has its own ready queues.  A thread is enqueued on the node it
belongs to, a hart picks from its own node, and every thousand ticks `try_balance` moves
one thread from the busiest node to the idlest one.
-/

namespace TrainOS.Sched

open Function MachineWord

def MAX_NODES : Nat := 8
def BALANCE_INTERVAL : Nat := 1000
def BALANCE_THRESHOLD : Nat := 25
def SLICE_TICKS : Nat := 1
def WEIGHT_MAX : Nat := 512

/-- The fields of `NumaNode` that scheduling reads. -/
structure NumaNode where
  nodeId : Nat
  cpuMask : Nat

/-- The threads and the global state of `numa/mod.rs`. -/
structure Numa where
  threads : Threads
  queues : Fin MAX_NODES → NumaReadyQueues
  nodes : Fin MAX_NODES → NumaNode
  nodeCount : Nat
  nodeCount_le : nodeCount ≤ MAX_NODES
  balanceTick : Nat

/-- The values of the statics before anything is enqueued: one node for all harts. -/
def Numa.boot (ths : Threads) : Numa where
  threads := ths
  queues := fun _ => NumaReadyQueues.new
  nodes := fun _ => { nodeId := 0, cpuMask := 0xFF }
  nodeCount := 1
  nodeCount_le := by decide
  balanceTick := 0

/-- The node that a number stands for, `(node_id as usize).min(MAX_NODES - 1)`. -/
def nodeIdx (nodeId : Nat) : Fin MAX_NODES := ⟨min nodeId (MAX_NODES - 1), by simp [MAX_NODES]⟩

def Numa.modify (s : Numa) (t : ThreadPtr) (f : Thread → Thread) : Numa :=
  { s with threads := s.threads.modify t f }

@[simp] theorem Numa.modify_id (s : Numa) (t : ThreadPtr) : s.modify t id = s := by
  unfold Numa.modify Threads.modify
  rw [id, update_eq_self]

def Numa.registered (s : Numa) : List (Fin MAX_NODES) := (List.finRange MAX_NODES).take s.nodeCount

def registerNode (nodeId cpuMask : Nat) (s : Numa) : Numa :=
  if h : nodeId < MAX_NODES then
    { s with
      nodes := update s.nodes ⟨nodeId, h⟩ { nodeId := nodeId, cpuMask := cpuMask }
      nodeCount := if s.nodeCount ≤ nodeId then nodeId + 1 else s.nodeCount
      nodeCount_le := by split <;> [exact h; exact s.nodeCount_le] }
  else s

def hartToNode (hart : Nat) (s : Numa) : Nat :=
  match s.registered.find? fun i => (s.nodes i).cpuMask.testBit hart with
  | some i => (s.nodes i).nodeId
  | none => 0

/-! ### Enqueue and pick -/

/-- Recompute a thread's deadline based on its vruntime and weight. -/
def updateEevdfDeadline (th : Thread) : Thread :=
  { th with deadline := wrapAdd th.vruntime (SLICE_TICKS * WEIGHT_MAX / max th.weight 1) }

/-- What `enqueue_thread` does to the thread: a thread that was running has used up its
    slice, the deadline is computed afresh, and the thread is ready. -/
def readied (th : Thread) : Thread :=
  let th := if th.state = .running then
      { th with vruntime := wrapAdd th.vruntime (WEIGHT_MAX / max th.weight 1) }
    else th
  { updateEevdfDeadline th with state := .ready }

@[simp] theorem readied_state (th : Thread) : (readied th).state = .ready := rfl

theorem readied_eq (th : Thread) : ∃ vruntime deadline,
    readied th = { th with vruntime := vruntime, deadline := deadline, state := .ready } := by
  unfold readied
  split
  · exact ⟨_, _, rfl⟩
  · exact ⟨th.vruntime, _, rfl⟩

@[simp] theorem readied_effectivePriority (th : Thread) :
    (readied th).effectivePriority = th.effectivePriority := by
  obtain ⟨_, _, h⟩ := readied_eq th
  rw [h]

@[simp] theorem readied_basePriority (th : Thread) :
    (readied th).basePriority = th.basePriority := by
  obtain ⟨_, _, h⟩ := readied_eq th
  rw [h]

@[simp] theorem readied_nodeId (th : Thread) : (readied th).nodeId = th.nodeId := by
  obtain ⟨_, _, h⟩ := readied_eq th
  rw [h]

@[simp] theorem readied_owner (th : Thread) : (readied th).owner = th.owner := by
  obtain ⟨_, _, h⟩ := readied_eq th
  rw [h]

def enqueueThread (t : ThreadPtr) (s : Numa) : Numa :=
  let ths := s.threads.modify t readied
  let idx := nodeIdx (s.threads t).nodeId
  { s with
    threads := ths
    queues := update s.queues idx (enqueueEevdf ths t (s.queues idx)) }

def pickNext (nodeId : Nat) (s : Numa) : Option ThreadPtr × Numa :=
  match pickNextEevdf s.threads (s.queues (nodeIdx nodeId)) with
  | none => (none, s)
  | some (t, ths, q) =>
      (some t, { s with threads := ths, queues := update s.queues (nodeIdx nodeId) q })

def pickNextForHart (hart : Nat) (s : Numa) : Option ThreadPtr × Numa :=
  pickNext (hartToNode hart s) s

/-! ### Load balancing -/

/-- The busiest and the idlest node so far. -/
structure Loads where
  busiest : Fin MAX_NODES
  idlest : Fin MAX_NODES
  maxLoad : Nat
  minLoad : Nat

def Loads.visit (load : Fin MAX_NODES → Nat) (acc : Loads) (i : Fin MAX_NODES) : Loads where
  busiest := if acc.maxLoad < load i then i else acc.busiest
  maxLoad := if acc.maxLoad < load i then load i else acc.maxLoad
  idlest := if load i < acc.minLoad then i else acc.idlest
  minLoad := if load i < acc.minLoad then load i else acc.minLoad

def Numa.loads (s : Numa) : Loads :=
  s.registered.foldl (Loads.visit fun i => (s.queues i).threadCount)
    { busiest := ⟨0, by decide⟩, idlest := ⟨0, by decide⟩, maxLoad := 0, minLoad := WORD - 1 }

/-- Move the first thread of the busiest node's highest-priority queue to the idlest node. -/
def migrate (busiest idlest : Fin MAX_NODES) (s : Numa) : Numa :=
  match pickNextEevdf s.threads (s.queues busiest) with
  | none => s
  | some (t, ths, qBusy) =>
      let ths := ths.modify t fun th => { th with nodeId := idlest, state := .ready }
      { s with
        threads := ths
        queues := update (update s.queues busiest qBusy) idlest
          (enqueueEevdf ths t (s.queues idlest)) }

/-- Attempt load balancing.  The queues of both nodes are locked one after the other, so for
    a single node the second lock would wait for the first one forever: `none`. -/
def tryBalance (s : Numa) : Option Numa :=
  let tick := s.balanceTick
  let s := { s with balanceTick := wrapAdd tick 1 }
  if tick % BALANCE_INTERVAL ≠ 0 then some s
  else if s.nodeCount < 2 then some s
  else
    let l := s.loads
    if wrapMul (wrapSub l.maxLoad l.minLoad) 100 ≤ wrapMul l.maxLoad BALANCE_THRESHOLD then some s
    else if l.busiest = l.idlest then none
    else some (migrate l.busiest l.idlest s)

/-! ### The queues of all nodes -/

/-- The threads on the queue of a priority, first to leave first. -/
def Numa.queue (s : Numa) (n : Fin MAX_NODES) (p : Fin NUM_PRIORITIES) : List ThreadPtr :=
  (s.queues n).queue p

def Numa.queued (s : Numa) : List ThreadPtr := VecQueue.entries fun n => (s.queues n).threads

variable {t : ThreadPtr}

theorem mem_threads {q : NumaReadyQueues} : t ∈ q.threads ↔ ∃ p, t ∈ q.queue p :=
  VecQueue.mem_entries

variable {s : Numa}

theorem mem_queued : t ∈ s.queued ↔ ∃ n p, t ∈ s.queue n p := by
  simp only [Numa.queued, VecQueue.mem_entries, mem_threads]
  rfl

theorem eq_of_mem_queue {n n' : Fin MAX_NODES}
    {p p' : Fin NUM_PRIORITIES} (h : s.queued.Nodup) (ht : t ∈ s.queue n p)
    (ht' : t ∈ s.queue n' p') : n = n' ∧ p = p' := by
  obtain rfl := VecQueue.eq_of_mem_entries h (mem_threads.mpr ⟨p, ht⟩) (mem_threads.mpr ⟨p', ht'⟩)
  exact ⟨rfl, VecQueue.eq_of_mem_entries (VecQueue.nodup_of_entries h n) ht ht'⟩

/-! ### Two changes of the queues -/

def Numa.push (s : Numa) (n : Fin MAX_NODES) (ths : Threads) (t : ThreadPtr) : Numa :=
  { s with
    threads := ths
    queues := update s.queues n (enqueueEevdf ths t (s.queues n)) }

def Numa.leave (s : Numa) (n : Fin MAX_NODES) (ths : Threads) (q : NumaReadyQueues) : Numa :=
  { s with threads := ths, queues := update s.queues n q }

section Changes

variable {s : Numa} {ths : Threads} {t u : ThreadPtr} {n i : Fin MAX_NODES}
  {p k : Fin NUM_PRIORITIES} {q : NumaReadyQueues}

theorem enqueueThread_eq :
    enqueueThread t s = s.push (nodeIdx (s.threads t).nodeId) (s.threads.modify t readied) t := rfl

theorem pickNext_cases (nodeId : Nat) (s : Numa) :
    (pickNextEevdf s.threads (s.queues (nodeIdx nodeId)) = none ∧ pickNext nodeId s = (none, s)) ∨
      ∃ t ths q, pickNextEevdf s.threads (s.queues (nodeIdx nodeId)) = some (t, ths, q) ∧
        pickNext nodeId s = (some t, s.leave (nodeIdx nodeId) ths q) := by
  unfold pickNext
  cases hpick : pickNextEevdf s.threads (s.queues (nodeIdx nodeId)) with
  | none => exact .inl ⟨rfl, rfl⟩
  | some r => exact .inr ⟨r.1, r.2.1, r.2.2, rfl, rfl⟩

def moved (node : Fin MAX_NODES) (th : Thread) : Thread :=
  { th with nodeId := node, state := .ready }

theorem migrate_cases {busiest idlest : Fin MAX_NODES} (hne : busiest ≠ idlest) (s : Numa) :
    migrate busiest idlest s = s ∨
      ∃ t ths q, pickNextEevdf s.threads (s.queues busiest) = some (t, ths, q) ∧
        migrate busiest idlest s =
          (s.leave busiest ths q).push idlest (ths.modify t (moved idlest)) t := by
  unfold migrate
  cases hpick : pickNextEevdf s.threads (s.queues busiest) with
  | none => exact .inl rfl
  | some r =>
    refine .inr ⟨r.1, r.2.1, r.2.2, rfl, ?_⟩
    simp only [Numa.push, Numa.leave, update_of_ne hne.symm]
    rfl

theorem queue_push (hp : (ths t).effectivePriority = p) : (s.push n ths t).queue =
    update s.queue n
      (update (s.queue n) p (insertByDeadline ths t (s.queue n p))) := by
  have hcomp : (s.push n ths t).queue =
      update s.queue n (enqueueEevdf ths t (s.queues n)).queue :=
    comp_update NumaReadyQueues.queue s.queues n _
  rw [hcomp, queue_enqueueEevdf hp]
  rfl

theorem queue_leave : (s.leave n ths q).queue = update s.queue n q.queue :=
  comp_update NumaReadyQueues.queue s.queues n q

theorem mem_queue_push (hp : (ths t).effectivePriority = p) :
    u ∈ (s.push n ths t).queue i k ↔ u ∈ s.queue i k ∨ u = t ∧ i = n ∧ k = p := by
  rw [queue_push hp]
  by_cases hi : i = n
  · subst hi
    rw [update_self]
    by_cases hk : k = p
    · subst hk
      rw [update_self, mem_insertByDeadline]
      tauto
    · simp [hk]
  · simp [hi]

theorem queued_push_perm (hp : (ths t).effectivePriority = p) :
    (s.push n ths t).queued.Perm (t :: s.queued) := by
  have hcomp : (fun i => ((s.push n ths t).queues i).threads) =
      update (fun i => (s.queues i).threads) n (enqueueEevdf ths t (s.queues n)).threads :=
    comp_update NumaReadyQueues.threads s.queues n _
  unfold Numa.queued
  rw [hcomp]
  exact VecQueue.entries_update_perm (threads_enqueueEevdf hp)

theorem mem_queued_of_push (h : u ∈ (s.push n ths t).queued) : u ∈ s.queued ∨ u = t := by
  rcases Nat.lt_or_ge (ths t).effectivePriority NUM_PRIORITIES with hlt | hge
  · have hp : (ths t).effectivePriority = (⟨_, hlt⟩ : Fin NUM_PRIORITIES).val := rfl
    rw [(queued_push_perm hp).mem_iff, List.mem_cons] at h
    exact h.symm
  · have hsame : (s.push n ths t).queues = s.queues := by
      unfold Numa.push
      rw [enqueueEevdf, dif_neg (Nat.not_lt.mpr hge), update_eq_self]
    unfold Numa.queued at h
    rw [hsame] at h
    exact .inl h

section

variable (hpick : pickNextEevdf s.threads (s.queues n) = some (t, ths, q))
include hpick

theorem leave_cases : ths = s.threads.modify t (fun th => { th with state := .running }) ∧
      ∃ rest, s.queue n (s.queues n).highest = t :: rest ∧
        (s.leave n ths q).queue = update s.queue n
          (update (s.queue n) (s.queues n).highest rest) := by
  obtain ⟨hths, queue, hqueue, rfl⟩ := pickNextEevdf_cases hpick
  refine ⟨hths, queue.toList, hqueue, ?_⟩
  rw [queue_leave, queue_taken]
  rfl

theorem queue_leave_suffix (i : Fin MAX_NODES) (k : Fin NUM_PRIORITIES) :
    (s.leave n ths q).queue i k <:+ s.queue i k := by
  obtain ⟨_, rest, hqueue, hleave⟩ := leave_cases hpick
  rw [hleave]
  by_cases hi : i = n
  · subst hi
    rw [update_self]
    by_cases hk : k = (s.queues i).highest
    · rw [hk, update_self, hqueue]
      exact List.suffix_cons t rest
    · rw [update_of_ne hk]
  · rw [update_of_ne hi]

theorem mem_queue_leave (hu : u ≠ t) : u ∈ (s.leave n ths q).queue i k ↔ u ∈ s.queue i k := by
  refine ⟨fun h => (queue_leave_suffix hpick i k).subset h, ?_⟩
  obtain ⟨_, rest, hqueue, hleave⟩ := leave_cases hpick
  intro hmem
  rw [hleave]
  by_cases hi : i = n
  · subst hi
    rw [update_self]
    by_cases hk : k = (s.queues i).highest
    · rw [hk, hqueue] at hmem
      rw [hk, update_self]
      exact (List.mem_cons.mp hmem).resolve_left hu
    · rwa [update_of_ne hk]
  · rwa [update_of_ne hi]

theorem queued_leave_perm : s.queued.Perm (t :: (s.leave n ths q).queued) := by
  obtain ⟨_, queue, hqueue, rfl⟩ := pickNextEevdf_cases hpick
  have hcomp : (fun i => ((s.leave n ths ((s.queues n).taken (s.queues n).highest queue)).queues
      i).threads) = update (fun i => (s.queues i).threads) n
        ((s.queues n).taken (s.queues n).highest queue).threads :=
    comp_update NumaReadyQueues.threads s.queues n _
  unfold Numa.queued
  rw [hcomp]
  exact VecQueue.entries_perm_update (threads_taken hqueue)

end

end Changes

end TrainOS.Sched
