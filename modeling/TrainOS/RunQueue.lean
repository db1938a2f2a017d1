import TrainOS.MachineWord
import TrainOS.VecQueue

/-!
# The ready queues of a node (`proc/thread.rs`, `numa/mod.rs`)

Threads are records at fixed addresses.  A node keeps 64 queues of ready threads, one for each
priority and in the order of the deadlines, a bit map of the priorities that have threads, and
a count.
-/

namespace TrainOS

open Function List MachineWord

/-! ### Threads -/

inductive ThreadState where
  | ready
  | running
  | waiting
  | dead
deriving DecidableEq, Repr

inductive WaitTarget where
  | endpoint (id : Nat)
  | callReply (id : Nat)
deriving DecidableEq, Repr

/-- The address of a thread: a pointer that is not null. -/
structure ThreadPtr where
  addr : Nat
  pos : 0 < addr
  lt : addr < WORD
deriving DecidableEq

theorem ThreadPtr.addr_injective : Function.Injective ThreadPtr.addr := by
  rintro ⟨a, _, _⟩ ⟨b, _, _⟩ rfl
  rfl

variable {l : List ThreadPtr}

theorem ThreadPtr.length_lt_word (h : l.Nodup) : l.length < WORD := by
  have hnodup : (l.map ThreadPtr.addr).Nodup := h.map ThreadPtr.addr_injective
  have hsub : (l.map ThreadPtr.addr).toFinset ⊆ Finset.Ioo 0 WORD := by
    intro a ha
    obtain ⟨t, _, rfl⟩ := mem_map.mp (mem_toFinset.mp ha)
    exact Finset.mem_Ioo.mpr ⟨t.pos, t.lt⟩
  have hcard := Finset.card_le_card hsub
  rw [toFinset_card_of_nodup hnodup, length_map, Nat.card_Ioo] at hcard
  exact hcard.trans_lt (by decide)

/-- The fields of `Thread` that scheduling and communication read or write. -/
structure Thread where
  tid : Nat
  owner : Nat
  state : ThreadState
  basePriority : Nat
  effectivePriority : Nat
  waitTarget : Option WaitTarget
  nodeId : Nat
  vruntime : Nat
  deadline : Nat
  weight : Nat
  remainingTicks : Nat
  lastCpu : Nat
  proxyTarget : Option ThreadPtr
  proxyDonor : Option ThreadPtr

def Thread.new (tid owner priority : Nat) : Thread where
  tid := tid
  owner := owner
  state := .ready
  basePriority := priority
  effectivePriority := priority
  waitTarget := none
  nodeId := 0
  vruntime := 0
  deadline := 0
  weight := (priority + 1) * 8
  remainingTicks := 1
  lastCpu := 0
  proxyTarget := none
  proxyDonor := none

/-- The memory of the threads. -/
abbrev Threads := ThreadPtr → Thread

def Threads.modify (ths : Threads) (t : ThreadPtr) (f : Thread → Thread) : Threads :=
  update ths t (f (ths t))

namespace Threads

variable {ths : Threads} {t u : ThreadPtr} {f : Thread → Thread}

@[simp] theorem modify_self : ths.modify t f t = f (ths t) := update_self ..

theorem modify_of_ne (h : u ≠ t) : ths.modify t f u = ths u := update_of_ne h ..

theorem modify_modify (g : Thread → Thread) :
    (ths.modify t f).modify t g = ths.modify t fun th => g (f th) := by
  unfold Threads.modify
  rw [update_self, update_idem]

theorem forall_modify {P : ThreadPtr → Thread → Prop} (hold : ∀ u, u ≠ t → P u (ths u))
    (hnew : P t (f (ths t))) (u : ThreadPtr) : P u (ths.modify t f u) := by
  by_cases hu : u = t
  · rw [hu, modify_self]
    exact hnew
  · rw [modify_of_ne hu]
    exact hold u hu

theorem modify_field {β : Type*} (g : Thread → β) (h : ∀ th, g (f th) = g th) (u : ThreadPtr) :
    g (ths.modify t f u) = g (ths u) :=
  forall_modify (P := fun u th => g th = g (ths u)) (fun _ _ => rfl) (h _) u

end Threads

namespace Sched

def NUM_PRIORITIES : Nat := 64

/-! ### One node -/

abbrev ThreadQueue := VecQueue ThreadPtr

/-- Ready queues for one NUMA node. -/
structure NumaReadyQueues where
  queues : Fin NUM_PRIORITIES → ThreadQueue
  priorityBitmap : BitVec 64
  threadCount : Nat

def NumaReadyQueues.new : NumaReadyQueues where
  queues := fun _ => VecQueue.new
  priorityBitmap := 0#64
  threadCount := 0

/-- `queue` takes the place of the queue at `p`, with one thread more. -/
def NumaReadyQueues.added (q : NumaReadyQueues) (p : Fin NUM_PRIORITIES) (queue : ThreadQueue) :
    NumaReadyQueues where
  queues := update q.queues p queue
  priorityBitmap := q.priorityBitmap ||| 1#64 <<< p.val
  threadCount := wrapAdd q.threadCount 1

/-- `queue` takes the place of the queue at `p`, with one thread less. -/
def NumaReadyQueues.taken (q : NumaReadyQueues) (p : Fin NUM_PRIORITIES) (queue : ThreadQueue) :
    NumaReadyQueues where
  queues := update q.queues p queue
  priorityBitmap :=
    if queue.isEmpty then q.priorityBitmap &&& ~~~(1#64 <<< p.val) else q.priorityBitmap
  threadCount := wrapSub q.threadCount 1

/-- Insert a thread into a node's ready queue, sorted by deadline.  A thread whose priority
    has no queue is passed over. -/
def enqueueEevdf (ths : Threads) (t : ThreadPtr) (q : NumaReadyQueues) : NumaReadyQueues :=
  if h : (ths t).effectivePriority < NUM_PRIORITIES then
    q.added ⟨(ths t).effectivePriority, h⟩
      ((q.queues ⟨(ths t).effectivePriority, h⟩).insertSorted (fun u => (ths u).deadline) t
        (ths t).deadline)
  else q

/-- The highest priority in the bit map, `63 - leading_zeros`. -/
def NumaReadyQueues.highest (q : NumaReadyQueues) : Fin NUM_PRIORITIES :=
  ⟨highestBit q.priorityBitmap, highestBit_lt⟩

/-- Pick the thread with the earliest deadline from the highest-priority queue that the bit
    map shows. -/
def pickNextEevdf (ths : Threads) (q : NumaReadyQueues) :
    Option (ThreadPtr × Threads × NumaReadyQueues) :=
  if q.priorityBitmap = 0#64 then none
  else
    match (q.queues q.highest).popFront with
    | none => none
    | some (t, queue) =>
        some (t, ths.modify t fun th => { th with state := .running }, q.taken q.highest queue)

/-! ### The queues as lists -/

def NumaReadyQueues.queue (q : NumaReadyQueues) (p : Fin NUM_PRIORITIES) : List ThreadPtr :=
  (q.queues p).toList

def NumaReadyQueues.threads (q : NumaReadyQueues) : List ThreadPtr := VecQueue.entries q.queue

/-- The list of a queue with `t` at the place of its deadline. -/
def insertByDeadline (ths : Threads) (t : ThreadPtr) (l : List ThreadPtr) : List ThreadPtr :=
  l.orderedInsert (fun a b => (ths a).deadline < (ths b).deadline) t

theorem mem_insertByDeadline {ths : Threads} {t u : ThreadPtr} :
    u ∈ insertByDeadline ths t l ↔ u = t ∨ u ∈ l :=
  mem_orderedInsert _

/-- The bit map and the count say what is on the queues. -/
structure NumaReadyQueues.Consistent (q : NumaReadyQueues) : Prop where
  bitmap : ∀ p : Fin NUM_PRIORITIES, q.priorityBitmap.getLsbD p = true ↔ q.queue p ≠ []
  count : q.threadCount = q.threads.length

theorem consistent_new : NumaReadyQueues.new.Consistent where
  bitmap p := by simp [NumaReadyQueues.new, NumaReadyQueues.queue]
  count := rfl

variable {queue : ThreadQueue}

section Node

variable {ths : Threads} {t : ThreadPtr} {q q' : NumaReadyQueues} {p : Fin NUM_PRIORITIES}

theorem queue_added (queue : ThreadQueue) :
    (q.added p queue).queue = update q.queue p queue.toList :=
  comp_update VecQueue.toList q.queues p queue

theorem queue_taken (queue : ThreadQueue) :
    (q.taken p queue).queue = update q.queue p queue.toList :=
  comp_update VecQueue.toList q.queues p queue

section

variable (hp : (ths t).effectivePriority = p)
include hp

theorem enqueueEevdf_eq : enqueueEevdf ths t q =
    q.added p ((q.queues p).insertSorted (fun u => (ths u).deadline) t (ths t).deadline) := by
  have hlt : (ths t).effectivePriority < NUM_PRIORITIES := hp ▸ p.isLt
  obtain rfl : p = ⟨(ths t).effectivePriority, hlt⟩ := Fin.ext hp.symm
  exact dif_pos hlt

theorem queue_enqueueEevdf : (enqueueEevdf ths t q).queue =
      update q.queue p (insertByDeadline ths t (q.queue p)) := by
  rw [enqueueEevdf_eq hp, queue_added, VecQueue.toList_insertSorted]
  rfl

theorem threads_enqueueEevdf : (enqueueEevdf ths t q).threads.Perm (t :: q.threads) := by
  unfold NumaReadyQueues.threads
  rw [queue_enqueueEevdf hp]
  exact VecQueue.entries_update_perm (perm_orderedInsert _ t _)

theorem NumaReadyQueues.Consistent.enqueueEevdf (h : q.Consistent)
    (hfit : (enqueueEevdf ths t q).threads.Nodup) :
    (enqueueEevdf ths t q).Consistent := by
  have hlen := (threads_enqueueEevdf (q := q) hp).length_eq
  have hword := ThreadPtr.length_lt_word hfit
  constructor
  · intro k
    rw [queue_enqueueEevdf hp, enqueueEevdf_eq hp]
    show (q.priorityBitmap ||| 1#64 <<< p.val).getLsbD k = true ↔ _
    rw [getLsbD_set k.isLt, Bool.or_eq_true, h.bitmap k, decide_eq_true_eq]
    by_cases hk : k = p
    · have hne : insertByDeadline ths t (q.queue p) ≠ [] :=
        ne_nil_of_mem (mem_insertByDeadline.mpr (.inl rfl))
      simp [hk, hne]
    · have hval : ¬ p.val = k.val := fun heq => hk (Fin.ext heq.symm)
      simp [hk, hval]
  · rw [hlen, length_cons, ← h.count] at hword
    rw [hlen, length_cons, ← h.count, enqueueEevdf_eq hp]
    exact wrapAdd_of_lt hword

end

/-! ### Picking a thread -/

theorem pickNextEevdf_cases {ths' : Threads} (h : pickNextEevdf ths q = some (t, ths', q')) :
    ths' = ths.modify t (fun th => { th with state := .running }) ∧
      ∃ queue : ThreadQueue, q.queue q.highest = t :: queue.toList ∧
        q' = q.taken q.highest queue := by
  unfold pickNextEevdf at h
  split at h
  · cases h
  · split at h
    · cases h
    · next t' queue hpop =>
      obtain ⟨rfl, rfl, rfl⟩ : t' = t ∧ _ = ths' ∧ _ = q' := by simpa using h
      exact ⟨rfl, queue, VecQueue.popFront_eq_some hpop, rfl⟩

theorem threads_taken (h : q.queue p = t :: queue.toList) :
    q.threads.Perm (t :: (q.taken p queue).threads) := by
  unfold NumaReadyQueues.threads
  rw [queue_taken]
  exact VecQueue.entries_perm_update (h ▸ .refl _)

theorem NumaReadyQueues.Consistent.taken (h : q.Consistent)
    (hqueue : q.queue p = t :: queue.toList) (hnodup : q.threads.Nodup) :
    (q.taken p queue).Consistent := by
  have hlen := (threads_taken hqueue).length_eq
  have hword := ThreadPtr.length_lt_word hnodup
  constructor
  · intro k
    rw [queue_taken]
    by_cases hk : k = p
    · rw [hk, update_self, ne_eq, ← VecQueue.isEmpty_iff]
      have hbit : q.priorityBitmap.getLsbD p = true := (h.bitmap p).mpr (by simp [hqueue])
      unfold NumaReadyQueues.taken
      by_cases hempty : queue.isEmpty = true
      · simp [hempty, getLsbD_clear p.isLt]
      · simp [hempty, hbit]
    · have hval : p.val ≠ k.val := fun heq => hk (Fin.ext heq.symm)
      rw [update_of_ne hk, ← h.bitmap k]
      unfold NumaReadyQueues.taken
      by_cases hempty : queue.isEmpty = true
      · simp [hempty, getLsbD_clear k.isLt, hval]
      · simp [hempty]
  · rw [hlen, length_cons] at hword
    show wrapSub q.threadCount 1 = _
    rw [h.count, hlen, length_cons, wrapSub_of_le (Nat.le_add_left 1 _) hword]
    exact Nat.add_sub_cancel _ 1

theorem NumaReadyQueues.Consistent.above_highest (h : q.Consistent) {k : Fin NUM_PRIORITIES}
    (hk : q.highest < k) : q.queue k = [] := by
  by_contra hne
  have hbit := (h.bitmap k).mpr hne
  rw [getLsbD_of_highestBit_lt hk] at hbit
  cases hbit

theorem NumaReadyQueues.Consistent.pick_eq_none (h : q.Consistent) :
    pickNextEevdf ths q = none ↔ ∀ k, q.queue k = [] := by
  unfold pickNextEevdf
  by_cases hzero : q.priorityBitmap = 0#64
  · rw [if_pos hzero]
    simp only [true_iff]
    intro k
    by_contra hne
    have hbit := (h.bitmap k).mpr hne
    rw [hzero] at hbit
    simp at hbit
  · have hne : q.queue q.highest ≠ [] := (h.bitmap q.highest).mp (getLsbD_highestBit hzero)
    rw [if_neg hzero]
    constructor
    · intro hnone
      split at hnone
      · next hpop => exact absurd (VecQueue.popFront_eq_none.mp hpop) hne
      · cases hnone
    · intro hall
      exact absurd (hall q.highest) hne

end Node

end Sched

end TrainOS
