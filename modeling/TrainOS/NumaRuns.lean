import TrainOS.Numa
import TrainOS.Runs

/-!
# Runs of the ready queues

Calls of `enqueue_thread`, `pick_next` and `try_balance`, with nodes being registered and threads
written to in between.  Bit maps and counts are right, the queues are in the order of the
deadlines, and every thread enqueued and not picked is on one queue.  Beside the state stand
`pending`, these threads, and `arrival`, the time at which a thread came to its queue.
-/

namespace TrainOS.Sched

open Function List MachineWord Runs VecQueue

/-! ### The invariant of the queues -/

/-- The queues of all nodes are in order. -/
structure Sound (s : Numa) (arrival : ThreadPtr → Nat) (clock : Nat) : Prop where
  nodes : ∀ n, (s.queues n).Consistent
  level : ∀ n p, ∀ t ∈ s.queue n p, (s.threads t).effectivePriority = p
  sorted : ∀ n p, (s.queue n p).Pairwise (Before (fun t => (s.threads t).deadline) arrival)
  arrived : ∀ n p, ∀ t ∈ s.queue n p, arrival t < clock
  nodup : s.queued.Nodup

section Sound

variable {s s' : Numa} {arrival arrival' : ThreadPtr → Nat} {clock clock' : Nat}
  {ths : Threads} {t : ThreadPtr} {n : Fin MAX_NODES} {p : Fin NUM_PRIORITIES}

section

variable (h : Sound s arrival clock)
include h

theorem Sound.keep (hqueues : s'.queues = s.queues)
    (hths : ∀ t ∈ s.queued, (s'.threads t).deadline = (s.threads t).deadline ∧
      (s'.threads t).effectivePriority = (s.threads t).effectivePriority)
    (harrival : ∀ t ∈ s.queued, arrival' t = arrival t) (hclock : clock ≤ clock') :
    Sound s' arrival' clock' := by
  obtain ⟨ths, _, _, _, _, _⟩ := s'
  obtain rfl := hqueues
  refine ⟨h.nodes, fun n p t ht => ?_, fun n p => ?_, fun n p t ht => ?_, h.nodup⟩
  · rw [(hths t (mem_queued.mpr ⟨n, p, ht⟩)).2, h.level n p t ht]
  · refine (h.sorted n p).imp_of_mem ?_
    intro a b ha hb hab
    have ha' := mem_queued.mpr ⟨n, p, ha⟩
    have hb' := mem_queued.mpr ⟨n, p, hb⟩
    exact hab.congr ⟨(hths a ha').1, harrival a ha'⟩ ⟨(hths b hb').1, harrival b hb'⟩
  · rw [harrival t (mem_queued.mpr ⟨n, p, ht⟩)]
    exact (h.arrived n p t ht).trans_le hclock

/-- A thread enters the queue of its priority. -/
theorem Sound.push (ht : t ∉ s.queued)
    (hp : (ths t).effectivePriority = p) (hths : ∀ u, u ≠ t → ths u = s.threads u) :
    Sound (s.push n ths t) (update arrival t clock) (clock + 1) := by
  have hnot : ∀ i k u, u ∈ s.queue i k → u ≠ t := by
    rintro i k u hu rfl
    exact ht (mem_queued.mpr ⟨i, k, hu⟩)
  have hnodup : (s.push n ths t).queued.Nodup :=
    (queued_push_perm hp).nodup_iff.mpr (nodup_cons.mpr ⟨ht, h.nodup⟩)
  have hold : ∀ i k, (s.queue i k).Pairwise
      (Before (fun u => (ths u).deadline) (update arrival t clock)) := by
    intro i k
    refine (h.sorted i k).imp_of_mem ?_
    intro a b ha hb hab
    exact hab.congr ⟨by simp only [hths a (hnot i k a ha)], update_of_ne (hnot i k a ha) ..⟩
      ⟨by simp only [hths b (hnot i k b hb)], update_of_ne (hnot i k b hb) ..⟩
  refine ⟨?_, ?_, ?_, ?_, hnodup⟩
  · have hnode := nodup_of_entries hnodup n
    simp only [Numa.push, update_self] at hnode
    exact (forall_update_iff s.queues fun _ q => q.Consistent).mpr
      ⟨(h.nodes n).enqueueEevdf hp hnode, fun i _ => h.nodes i⟩
  · intro i k u hu
    rcases (mem_queue_push hp).mp hu with hu | ⟨rfl, _, rfl⟩
    · show (ths u).effectivePriority = k
      rw [hths u (hnot i k u hu), h.level i k u hu]
    · exact hp
  · intro i k
    rw [queue_push hp]
    by_cases hi : i = n
    · subst hi
      rw [update_self]
      by_cases hk : k = p
      · subst hk
        rw [update_self]
        apply pairwise_orderedInsert (hold i k)
        intro u hu
        rw [update_self, update_of_ne (hnot i k u hu)]
        exact h.arrived i k u hu
      · rw [update_of_ne hk]
        exact hold i k
    · rw [update_of_ne hi]
      exact hold i k
  · intro i k u hu
    rcases (mem_queue_push hp).mp hu with hu | ⟨rfl, _, rfl⟩
    · rw [update_of_ne (hnot i k u hu)]
      exact (h.arrived i k u hu).trans (Nat.lt_succ_self clock)
    · rw [update_self]
      exact Nat.lt_succ_self clock

/-- The thread that is picked leaves its queue. -/
theorem Sound.leave {q : NumaReadyQueues}
    (hpick : pickNextEevdf s.threads (s.queues n) = some (t, ths, q)) :
    Sound (s.leave n ths q) arrival clock ∧ t ∉ (s.leave n ths q).queued := by
  obtain ⟨ht, hnodup⟩ :=
    nodup_cons.mp ((queued_leave_perm hpick).nodup_iff.mp h.nodup)
  have hsuffix := queue_leave_suffix hpick
  have hths := (leave_cases hpick).1
  have hfield : ∀ {β : Type} (g : Thread → β),
      (∀ th : Thread, g { th with state := .running } = g th) →
        ∀ u, g (ths u) = g (s.threads u) := by
    intro β g hg u
    rw [hths]
    exact Threads.modify_field g hg u
  refine ⟨⟨?_, ?_, ?_, ?_, hnodup⟩, ht⟩
  · obtain ⟨_, queue, hqueue, rfl⟩ := pickNextEevdf_cases hpick
    exact (forall_update_iff s.queues fun _ q => q.Consistent).mpr
      ⟨(h.nodes n).taken hqueue (nodup_of_entries h.nodup n), fun i _ => h.nodes i⟩
  · intro i k u hu
    show (ths u).effectivePriority = k
    rw [hfield Thread.effectivePriority fun _ => rfl]
    exact h.level i k u ((hsuffix i k).subset hu)
  · intro i k
    refine ((h.sorted i k).sublist (hsuffix i k).sublist).imp ?_
    intro a b hab
    exact hab.congr ⟨hfield Thread.deadline (fun _ => rfl) a, rfl⟩
      ⟨hfield Thread.deadline (fun _ => rfl) b, rfl⟩
  · intro i k u hu
    exact h.arrived i k u ((hsuffix i k).subset hu)

end

end Sound

/-! ### Load balancing -/

/-- What the loop over the nodes has found out about those it has `seen`. -/
structure Loads.Found (load : Fin MAX_NODES → Nat) (seen : List (Fin MAX_NODES)) (acc : Loads) :
    Prop where
  le_max : ∀ i ∈ seen, load i ≤ acc.maxLoad
  min_le : ∀ i ∈ seen, acc.minLoad ≤ load i
  busiest : acc.maxLoad = 0 ∨ acc.maxLoad = load acc.busiest
  idlest : acc.minLoad = WORD - 1 ∨ acc.minLoad = load acc.idlest

section Loads

variable {load : Fin MAX_NODES → Nat} {seen : List (Fin MAX_NODES)} {acc : Loads}

section

variable (h : Loads.Found load seen acc)
include h

theorem Loads.Found.visit (i : Fin MAX_NODES) :
    Loads.Found load (seen ++ [i]) (acc.visit load i) := by
  constructor
  · intro j hj
    show load j ≤ if acc.maxLoad < load i then load i else acc.maxLoad
    rcases mem_append.mp hj with hj | hj
    · have hle := h.le_max j hj
      split <;> omega
    · rw [mem_singleton.mp hj]
      split <;> omega
  · intro j hj
    show (if load i < acc.minLoad then load i else acc.minLoad) ≤ load j
    rcases mem_append.mp hj with hj | hj
    · have hle := h.min_le j hj
      split <;> omega
    · rw [mem_singleton.mp hj]
      split <;> omega
  · simp only [Loads.visit]
    split
    · exact .inr rfl
    · exact h.busiest
  · simp only [Loads.visit]
    split
    · exact .inr rfl
    · exact h.idlest

theorem Loads.Found.foldl (is : List (Fin MAX_NODES)) :
    Loads.Found load (seen ++ is) (is.foldl (Loads.visit load) acc) := by
  induction is generalizing seen acc with
  | nil => simpa using h
  | cons i is ih => simpa using ih (h.visit i)

theorem Loads.Found.busiest_ne_idlest (hseen : seen ≠ [])
    (hload : ∀ i, load i < WORD) (hne : acc.maxLoad ≠ acc.minLoad) : acc.busiest ≠ acc.idlest := by
  intro hsame
  obtain ⟨i, hi⟩ := exists_mem_of_ne_nil seen hseen
  have hle := (h.min_le i hi).trans (h.le_max i hi)
  rcases h.busiest with hzero | hmax
  · omega
  · rcases h.idlest with hword | hmin
    · have hlt := hload acc.busiest
      omega
    · rw [hmax, hmin, hsame] at hne
      exact hne rfl

end

theorem loads_found (s : Numa) :
    Loads.Found (fun i => (s.queues i).threadCount) s.registered s.loads := by
  have hstart : Loads.Found (fun i => (s.queues i).threadCount) []
      { busiest := ⟨0, by decide⟩, idlest := ⟨0, by decide⟩, maxLoad := 0, minLoad := WORD - 1 } :=
    ⟨by simp, by simp, .inl rfl, .inl rfl⟩
  exact hstart.foldl s.registered

/-- Balancing counts its ticks and may migrate from one node to another. -/
theorem tryBalance_cases {s : Numa} (hload : ∀ n, (s.queues n).threadCount < WORD) :
    tryBalance s = some { s with balanceTick := wrapAdd s.balanceTick 1 } ∨
      ∃ busiest idlest, busiest ≠ idlest ∧ tryBalance s =
        some (migrate busiest idlest { s with balanceTick := wrapAdd s.balanceTick 1 }) := by
  unfold tryBalance
  simp only
  split
  · exact .inl rfl
  · split
    · exact .inl rfl
    · next hcount =>
      split
      · exact .inl rfl
      · next hover =>
        have hseen : s.registered ≠ [] := by
          unfold Numa.registered
          simp only [ne_eq, take_eq_nil_iff, not_or]
          exact ⟨by omega, by decide⟩
        have hne : s.loads.maxLoad ≠ s.loads.minLoad := by
          intro heq
          apply hover
          show wrapMul (wrapSub s.loads.maxLoad s.loads.minLoad) 100 ≤ _
          rw [heq, wrapSub, Nat.add_sub_cancel_left]
          simp [wrapMul]
        have hdiff := (loads_found s).busiest_ne_idlest hseen hload hne
        refine .inr ⟨_, _, hdiff, ?_⟩
        exact if_neg hdiff

end Loads

/-! ### Runs -/

/-- A call, or a write of the rest of the kernel to a thread. -/
inductive Call where
  | enqueueThread (t : ThreadPtr)
  | pickNext (nodeId : Nat)
  | tryBalance
  | registerNode (nodeId cpuMask : Nat)
  | write (t : ThreadPtr) (th : Thread)

/-- The thread that a call returns and the state that it leaves; `none` if it hangs. -/
def Call.run : Call → Numa → Option (Option ThreadPtr × Numa)
  | .enqueueThread t, s => some (none, Sched.enqueueThread t s)
  | .pickNext nodeId, s => some (Sched.pickNext nodeId s)
  | .tryBalance, s => (Sched.tryBalance s).map fun s' => (none, s')
  | .registerNode nodeId cpuMask, s => some (none, Sched.registerNode nodeId cpuMask s)
  | .write t th, s => some (none, { s with threads := update s.threads t th })

/-- A thread is enqueued with a priority below 64 and not while it is queued; its deadline
    and priority do not change while it is queued. -/
def Call.Allowed (s : Numa) : Call → Prop
  | .enqueueThread t => (s.threads t).effectivePriority < NUM_PRIORITIES ∧ t ∉ s.queued
  | .write t th => t ∈ s.queued → th.deadline = (s.threads t).deadline ∧
      th.effectivePriority = (s.threads t).effectivePriority
  | _ => True

/-- The state of the queues with what an observer of the calls has noted. -/
structure Observed where
  numa : Numa
  pending : Set ThreadPtr
  arrival : ThreadPtr → Nat
  clock : Nat

def Call.pending : Call → Option ThreadPtr → Set ThreadPtr → Set ThreadPtr
  | .enqueueThread t, _, pending => insert t pending
  | .pickNext _, some t, pending => pending \ {t}
  | _, _, pending => pending

/-- A thread arrives at a queue when it is on it after the call and was not before. -/
def Arrives (s s' : Numa) (t : ThreadPtr) : Prop :=
  ∃ n p, t ∈ s'.queue n p ∧ t ∉ s.queue n p

open scoped Classical in
noncomputable def Observed.after (σ : Observed) (c : Call) (res : Option ThreadPtr) (s : Numa) :
    Observed where
  numa := s
  pending := c.pending res σ.pending
  arrival t := if Arrives σ.numa s t then σ.clock else σ.arrival t
  clock := σ.clock + 1

def Step (σ : Observed) (c : Call) (σ' : Observed) : Prop :=
  c.Allowed σ.numa ∧ ∃ res s, c.run σ.numa = some (res, s) ∧ σ' = σ.after c res s

/-- No thread is queued yet.  The threads and the nodes are arbitrary. -/
def Observed.Initial (σ : Observed) : Prop :=
  (∀ n, σ.numa.queues n = NumaReadyQueues.new) ∧ σ.pending = ∅

/-- The property of every state of a run. -/
structure Observed.Correct (σ : Observed) : Prop where
  bitmap : ∀ n p, (σ.numa.queues n).priorityBitmap.getLsbD p.val = true ↔ σ.numa.queue n p ≠ []
  count : ∀ n, (σ.numa.queues n).threadCount = ∑ p, (σ.numa.queue n p).length
  sorted : ∀ n p, (σ.numa.queue n p).Pairwise
    (Before (fun t => (σ.numa.threads t).deadline) σ.arrival)
  picks : ∀ nodeId t, (pickNext nodeId σ.numa).1 = some t →
    ∃ p rest, σ.numa.queue (nodeIdx nodeId) p = t :: rest ∧
      (∀ k, p < k → σ.numa.queue (nodeIdx nodeId) k = []) ∧
      ∀ u ∈ rest, (σ.numa.threads t).deadline ≤ (σ.numa.threads u).deadline
  picks_none : ∀ nodeId, (pickNext nodeId σ.numa).1 = none →
    ∀ p, σ.numa.queue (nodeIdx nodeId) p = []
  once : ∀ n p, (σ.numa.queue n p).Nodup
  pending : ∀ t ∈ σ.pending, ∃! np : Fin MAX_NODES × Fin NUM_PRIORITIES,
    t ∈ σ.numa.queue np.1 np.2
  only_pending : ∀ n p, ∀ t ∈ σ.numa.queue n p, t ∈ σ.pending
  returns : ∃ s, tryBalance σ.numa = some s

/-- What every step keeps. -/
structure Observed.Inv (σ : Observed) : Prop where
  sound : Sound σ.numa σ.arrival σ.clock
  pending : ∀ t, t ∈ σ.numa.queued ↔ t ∈ σ.pending

section Runs

variable {σ σ' : Observed} {c : Call} {res : Option ThreadPtr} {s : Numa} {t : ThreadPtr}

theorem after_arrival_new {n : Fin MAX_NODES} {p : Fin NUM_PRIORITIES} (h : t ∈ s.queue n p)
    (hnew : t ∉ σ.numa.queue n p) : (σ.after c res s).arrival t = σ.clock :=
  if_pos ⟨n, p, h, hnew⟩

theorem after_arrival_old (h : ∀ n p, t ∈ s.queue n p → t ∈ σ.numa.queue n p) :
    (σ.after c res s).arrival t = σ.arrival t :=
  if_neg fun ⟨n, p, hmem, hnew⟩ => hnew (h n p hmem)

theorem Observed.Inv.keep (h : σ.Inv) (hqueues : s.queues = σ.numa.queues)
    (hths : ∀ t ∈ σ.numa.queued, (s.threads t).deadline = (σ.numa.threads t).deadline ∧
      (s.threads t).effectivePriority = (σ.numa.threads t).effectivePriority)
    (hpending : c.pending res σ.pending = σ.pending) : (σ.after c res s).Inv where
  sound := by
    refine h.sound.keep hqueues hths (fun t _ => after_arrival_old fun n p ht => ?_) (Nat.le_succ _)
    rwa [Numa.queue, hqueues] at ht
  pending t := by
    show t ∈ s.queued ↔ t ∈ c.pending res σ.pending
    rw [hpending, ← h.pending t, Numa.queued, hqueues]
    rfl

theorem Observed.Inv.enqueueThread (h : σ.Inv)
    (hpri : (σ.numa.threads t).effectivePriority < NUM_PRIORITIES) (ht : t ∉ σ.numa.queued) :
    (σ.after (.enqueueThread t) res (Sched.enqueueThread t σ.numa)).Inv := by
  have hp : (σ.numa.threads.modify t readied t).effectivePriority =
      (⟨_, hpri⟩ : Fin NUM_PRIORITIES).val := by
    rw [Threads.modify_self, readied_effectivePriority]
  have hpush := h.sound.push (n := nodeIdx (σ.numa.threads t).nodeId) ht hp
    fun u hu => Threads.modify_of_ne hu
  refine ⟨hpush.keep rfl (fun _ _ => ⟨rfl, rfl⟩) ?_ le_rfl, ?_⟩
  · intro u _
    by_cases hu : u = t
    · subst hu
      rw [update_self]
      have hnew : u ∉ σ.numa.queue (nodeIdx (σ.numa.threads u).nodeId) ⟨_, hpri⟩ :=
        fun hmem => ht (mem_queued.mpr ⟨_, _, hmem⟩)
      exact after_arrival_new ((mem_queue_push hp).mpr (.inr ⟨rfl, rfl, rfl⟩)) hnew
    · rw [update_of_ne hu]
      apply after_arrival_old
      intro n p hmem
      exact ((mem_queue_push hp).mp hmem).resolve_right fun h => hu h.1
  · intro u
    show u ∈ (σ.numa.push _ _ t).queued ↔ u ∈ insert t σ.pending
    rw [(queued_push_perm hp).mem_iff, mem_cons, h.pending u]
    rfl

theorem Observed.Inv.pickNext (h : σ.Inv) {nodeId : Nat}
    (hrun : Sched.pickNext nodeId σ.numa = (res, s)) : (σ.after (.pickNext nodeId) res s).Inv := by
  rcases pickNext_cases nodeId σ.numa with ⟨_, hsame⟩ | ⟨t, ths, q, hpick, hleave⟩
  · cases hrun.symm.trans hsame
    exact h.keep rfl (fun _ _ => ⟨rfl, rfl⟩) rfl
  · cases hrun.symm.trans hleave
    obtain ⟨hsound, ht⟩ := h.sound.leave hpick
    refine ⟨hsound.keep rfl (fun _ _ => ⟨rfl, rfl⟩) ?_ (Nat.le_succ _), ?_⟩
    · intro u _
      exact after_arrival_old fun n p hu => (queue_leave_suffix hpick n p).subset hu
    · intro u
      show _ ↔ u ∈ σ.pending \ {t}
      rw [Set.mem_sdiff, Set.mem_singleton_iff, ← h.pending u, (queued_leave_perm hpick).mem_iff,
        mem_cons]
      constructor
      · intro hu
        exact ⟨.inr hu, fun hut => ht (hut ▸ hu)⟩
      · rintro ⟨hu, hne⟩
        exact hu.resolve_left hne

/-- A migrated thread arrives at its new queue. -/
theorem Observed.Inv.migrate (h : σ.Inv) (tick : Nat)
    {busiest idlest : Fin MAX_NODES} (hne : busiest ≠ idlest) :
    (σ.after .tryBalance none
      (migrate busiest idlest { σ.numa with balanceTick := tick })).Inv := by
  have hstart : Sound { σ.numa with balanceTick := tick } σ.arrival σ.clock :=
    h.sound.keep rfl (fun _ _ => ⟨rfl, rfl⟩) (fun _ _ => rfl) le_rfl
  rcases migrate_cases hne { σ.numa with balanceTick := tick } with
    hsame | ⟨t, ths, q, hpick, hmigrate⟩
  · rw [hsame]
    exact h.keep rfl (fun _ _ => ⟨rfl, rfl⟩) rfl
  · obtain ⟨hsound, ht⟩ := hstart.leave hpick
    obtain ⟨hths, rest, hhead, _⟩ := leave_cases hpick
    have hmem : t ∈ σ.numa.queue busiest (σ.numa.queues busiest).highest :=
      hhead.symm ▸ mem_cons_self
    have hp : (ths.modify t (moved idlest) t).effectivePriority =
        ((σ.numa.queues busiest).highest).val := by
      rw [Threads.modify_self, hths, Threads.modify_self]
      exact hstart.level _ _ t hmem
    have hpush := hsound.push (n := idlest) ht hp fun u hu => Threads.modify_of_ne hu
    rw [hmigrate]
    refine ⟨hpush.keep rfl (fun _ _ => ⟨rfl, rfl⟩) ?_ le_rfl, ?_⟩
    · intro u _
      by_cases hu : u = t
      · subst hu
        rw [update_self]
        have hnew : u ∉ σ.numa.queue idlest (σ.numa.queues busiest).highest :=
          fun hmem' => hne (eq_of_mem_queue h.sound.nodup hmem hmem').1
        exact after_arrival_new ((mem_queue_push hp).mpr (.inr ⟨rfl, rfl, rfl⟩)) hnew
      · rw [update_of_ne hu]
        apply after_arrival_old
        intro n p hu'
        apply (queue_leave_suffix hpick n p).subset
        exact ((mem_queue_push hp).mp hu').resolve_right fun h => hu h.1
    · intro u
      refine Iff.trans ?_ (h.pending u)
      exact (queued_push_perm hp).mem_iff.trans (queued_leave_perm hpick).mem_iff.symm

theorem Sound.threadCount_lt {arrival : ThreadPtr → Nat} {clock : Nat}
    (h : Sound s arrival clock) (n : Fin MAX_NODES) : (s.queues n).threadCount < WORD := by
  rw [(h.nodes n).count]
  exact ThreadPtr.length_lt_word (nodup_of_entries h.nodup n)

/-- **One call** keeps the queues in order. -/
theorem Observed.Inv.step (h : σ.Inv) (hstep : Step σ c σ') : σ'.Inv := by
  obtain ⟨hallowed, res, s, hrun, rfl⟩ := hstep
  cases c with
  | enqueueThread t =>
    cases hrun
    exact h.enqueueThread hallowed.1 hallowed.2
  | pickNext nodeId => exact h.pickNext (Option.some.inj hrun)
  | tryBalance =>
    obtain ⟨s', hbalance, hs'⟩ := Option.map_eq_some_iff.mp hrun
    cases hs'
    rcases tryBalance_cases h.sound.threadCount_lt with hsame | ⟨busiest, idlest, hne, hmoved⟩
    · cases hbalance.symm.trans hsame
      exact h.keep rfl (fun _ _ => ⟨rfl, rfl⟩) rfl
    · cases hbalance.symm.trans hmoved
      exact h.migrate _ hne
  | registerNode nodeId cpuMask =>
    cases hrun
    have hsame : (registerNode nodeId cpuMask σ.numa).queues = σ.numa.queues ∧
        (registerNode nodeId cpuMask σ.numa).threads = σ.numa.threads := by
      unfold registerNode
      split <;> exact ⟨rfl, rfl⟩
    exact h.keep hsame.1 (fun t _ => by rw [hsame.2]; exact ⟨rfl, rfl⟩) rfl
  | write t th =>
    cases hrun
    refine h.keep rfl ?_ rfl
    intro u hu
    by_cases hut : u = t
    · subst hut
      simpa using hallowed hu
    · simp [update_of_ne hut]

theorem Observed.Inv.initial (h : σ.Initial) : σ.Inv := by
  obtain ⟨hqueues, hpending⟩ := h
  have hqueue : ∀ n p, σ.numa.queue n p = [] := by
    intro n p
    unfold Numa.queue
    rw [hqueues n]
    rfl
  have hqueued : σ.numa.queued = [] := by
    apply eq_nil_iff_forall_not_mem.mpr
    simp [mem_queued, hqueue]
  refine ⟨⟨fun n => ?_, ?_, ?_, ?_, ?_⟩, ?_⟩
  · rw [hqueues n]
    exact consistent_new
  all_goals simp [hqueue, hqueued, hpending]

/-- The invariant gives the property of the runs. -/
theorem Observed.Inv.correct (h : σ.Inv) : σ.Correct where
  bitmap n p := (h.sound.nodes n).bitmap p
  count n := by
    rw [(h.sound.nodes n).count]
    exact length_entries _
  sorted := h.sound.sorted
  picks nodeId t ht := by
    rcases pickNext_cases nodeId σ.numa with ⟨_, hsame⟩ | ⟨t', ths, q, hpick, hleave⟩
    · rw [hsame] at ht
      cases ht
    · rw [hleave] at ht
      cases ht
      obtain ⟨_, rest, hqueue, _⟩ := leave_cases hpick
      refine ⟨_, rest, hqueue, fun k hk => (h.sound.nodes _).above_highest hk, ?_⟩
      have hsorted := h.sound.sorted (nodeIdx nodeId) (σ.numa.queues (nodeIdx nodeId)).highest
      rw [hqueue] at hsorted
      intro u hu
      exact ((pairwise_cons.mp hsorted).1 u hu).key_le
  picks_none nodeId hnone := by
    rcases pickNext_cases nodeId σ.numa with ⟨hpick, _⟩ | ⟨t', ths, q, _, hleave⟩
    · exact (h.sound.nodes _).pick_eq_none.mp hpick
    · rw [hleave] at hnone
      cases hnone
  once n p := nodup_of_entries (nodup_of_entries h.sound.nodup n) p
  pending t ht := by
    obtain ⟨n, p, hmem⟩ := mem_queued.mp ((h.pending t).mpr ht)
    refine ⟨(n, p), hmem, ?_⟩
    rintro ⟨n', p'⟩ hmem'
    obtain ⟨rfl, rfl⟩ := eq_of_mem_queue h.sound.nodup hmem hmem'
    rfl
  only_pending n p t ht := (h.pending t).mp (mem_queued.mpr ⟨n, p, ht⟩)
  returns := by
    rcases tryBalance_cases h.sound.threadCount_lt with hsame | ⟨_, _, _, hmoved⟩
    · exact ⟨_, hsame⟩
    · exact ⟨_, hmoved⟩

/-- **The ready queues are right in every run**: bit maps, counts and orders, what is picked,
    and that every pending thread is on one queue. -/
theorem run_queues_correct {σ0 : Observed} {cs : List Call} (hinit : σ0.Initial)
    (hrun : Run Step σ0 cs σ) : σ.Correct := by
  have hinv : σ.Inv := hrun.invariant (fun _ _ _ h hstep => h.step hstep) (.initial hinit)
  exact hinv.correct

instance (s : Numa) : (c : Call) → Decidable (c.Allowed s)
  | .enqueueThread t => inferInstanceAs (Decidable (_ ∧ t ∉ s.queued))
  | .write t _ => inferInstanceAs (Decidable (t ∈ s.queued → _ ∧ _))
  | .pickNext _ | .tryBalance | .registerNode _ _ => .isTrue trivial

def Numa.exec (s : Numa) (c : Call) : Option Numa :=
  if c.Allowed s then (c.run s).map Prod.snd else none

theorem exists_run_of_exec {P : Numa → Prop} [DecidablePred P] (σ : Observed) (cs : List Call)
    (h : (cs.foldlM Numa.exec σ.numa).any P = true) : ∃ σ', Run Step σ cs σ' ∧ P σ'.numa := by
  induction cs generalizing σ with
  | nil => exact ⟨σ, .nil σ, of_decide_eq_true h⟩
  | cons c cs ih =>
    rw [foldlM_cons] at h
    cases hexec : σ.numa.exec c with
    | none => simp [hexec] at h
    | some s =>
      obtain ⟨hallowed, hrun⟩ := Option.ite_none_right_eq_some.mp hexec
      obtain ⟨⟨res, _⟩, hcall, rfl⟩ := Option.map_eq_some_iff.mp hrun
      rw [hexec] at h
      obtain ⟨σ', hrest, hend⟩ := ih (σ.after c res _) h
      exact ⟨σ', .cons ⟨hallowed, res, _, hcall, rfl⟩ hrest, hend⟩

def fourThreads (i : Fin 4) : ThreadPtr where
  addr := 0x80200000 + 0x1000 * i
  pos := by omega
  lt := by unfold WORD; omega

/-- After boot, with threads whose deadlines come earlier the higher they lie in memory. -/
def fourThreadsBoot : Observed where
  numa := Numa.boot fun t => { Thread.new 1 1 32 with vruntime := 0x80204000 - t.addr }
  pending := ∅
  arrival _ := 0
  clock := 0

def fourThreadsCalls : List Call :=
  .registerNode 1 0xF0 :: ([0, 1, 2, 3].map fun i => .enqueueThread (fourThreads i)) ++
    [.tryBalance, .pickNext 0]

/-- Four threads are queued by their deadlines, the first moves to another node and the
    second is picked. -/
theorem run_queues_correct_four_threads : ∃ σ, Run Step fourThreadsBoot fourThreadsCalls σ ∧
    ((σ.numa.queues (nodeIdx 0)).threads = [fourThreads 1, fourThreads 0] ∧
      (σ.numa.queues (nodeIdx 1)).threads = [fourThreads 3] ∧
      (pickNext 0 σ.numa).1 = some (fourThreads 1)) ∧ σ.Correct := by
  obtain ⟨σ, hrun, hend⟩ := exists_run_of_exec fourThreadsBoot fourThreadsCalls
    (P := fun s => (s.queues (nodeIdx 0)).threads = [fourThreads 1, fourThreads 0] ∧
      (s.queues (nodeIdx 1)).threads = [fourThreads 3] ∧
      (pickNext 0 s).1 = some (fourThreads 1)) (by decide +kernel)
  exact ⟨σ, hrun, hend, run_queues_correct ⟨fun _ => rfl, rfl⟩ hrun⟩

end Runs

end TrainOS.Sched
