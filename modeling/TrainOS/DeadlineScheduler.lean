import TrainOS.MachineWord
import TrainOS.RingBuffer
import TrainOS.Runs

/-!
# The deadline scheduler of block requests (`device/sched.rs`)

Reads and writes wait in a ring each.  A request whose deadline has passed is dispatched first
and the head of its ring moves behind it.  As time does not run backwards it is always the
oldest one (`takeHead_of_takeExpired`), so no request is lost or returned twice
(`deadline_exactly_once`).  Reads whose deadline has passed are not counted against the writes
that wait (`writes_not_starved`).
-/

namespace TrainOS.Device

open List MachineWord RingBuffer Runs

def SCHED_MAX : Nat := 256
def READ_DEADLINE_TICKS : Nat := 50
def WRITE_DEADLINE_TICKS : Nat := 500
def STARVE_LIMIT : Nat := 16

structure BlockRequest where
  sector : Nat
  count : Nat
  buf : Nat
  write : Bool
deriving DecidableEq, Repr

def BlockRequest.empty : BlockRequest := ⟨0, 0, 0, false⟩

/-- The fields of one direction: `read_queue`, `read_deadlines`, `read_head` and `read_tail`, or
    those of the writes.  The arrays are the parts below `SCHED_MAX`; the counters are natural
    numbers, as `2 ^ 64` requests are not reached. -/
structure DeadlineRing where
  queue : Nat → BlockRequest
  deadlines : Nat → Nat
  head : Nat
  tail : Nat

namespace DeadlineRing

def new : DeadlineRing := ⟨fun _ => .empty, fun _ => 0, 0, 0⟩

def hasRoom (r : DeadlineRing) : Bool := r.tail - r.head < SCHED_MAX

/-- One of the branches of `enqueue`; a request for a full ring is dropped. -/
def enqueue (r : DeadlineRing) (limit : Nat) (req : BlockRequest) (now : Nat) : DeadlineRing :=
  if r.hasRoom then
    let idx := r.tail % SCHED_MAX
    { queue := Function.update r.queue idx req
      deadlines := Function.update r.deadlines idx (wrapAdd now limit)
      head := r.head
      tail := r.tail + 1 }
  else r

/-- The loops of `dequeue`: the first request whose deadline has passed; the head moves behind
    it. -/
def takeExpired (r : DeadlineRing) (now : Nat) : Option (BlockRequest × DeadlineRing) :=
  ((range' r.head (r.tail - r.head)).find? fun i => now ≥ r.deadlines (i % SCHED_MAX)).map
    fun i => (r.queue (i % SCHED_MAX), { r with head := i + 1 })

def takeHead (r : DeadlineRing) : Option (BlockRequest × DeadlineRing) :=
  if r.head < r.tail then some (r.queue (r.head % SCHED_MAX), { r with head := r.head + 1 })
  else none

end DeadlineRing

structure DeadlineScheduler where
  read : DeadlineRing
  write : DeadlineRing
  starveCounter : Nat

namespace DeadlineScheduler

def new : DeadlineScheduler := ⟨.new, .new, 0⟩

def enqueue (s : DeadlineScheduler) (req : BlockRequest) (now : Nat) : DeadlineScheduler :=
  if req.write then { s with write := s.write.enqueue WRITE_DEADLINE_TICKS req now }
  else { s with read := s.read.enqueue READ_DEADLINE_TICKS req now }

/-- The second half of `dequeue`: reads first, but a write after `STARVE_LIMIT` reads. -/
def dequeuePreferred (s : DeadlineScheduler) : Option BlockRequest × DeadlineScheduler :=
  match s.read.takeHead, s.write.takeHead with
  | some (readReq, read), some (writeReq, write) =>
      if s.starveCounter ≥ STARVE_LIMIT then (some writeReq, { s with write, starveCounter := 0 })
      else (some readReq, { s with read, starveCounter := s.starveCounter + 1 })
  | some (req, read), none => (some req, { s with read, starveCounter := s.starveCounter + 1 })
  | none, some (req, write) => (some req, { s with write, starveCounter := 0 })
  | none, none => (none, s)

def dequeue (s : DeadlineScheduler) (now : Nat) : Option BlockRequest × DeadlineScheduler :=
  match s.read.takeExpired now with
  | some (req, read) => (some req, { s with read, starveCounter := 0 })
  | none =>
      match s.write.takeExpired now with
      | some (req, write) => (some req, { s with write, starveCounter := 0 })
      | none => s.dequeuePreferred

def count (s : DeadlineScheduler) : Nat :=
  (s.read.tail - s.read.head) + (s.write.tail - s.write.head)

def accepts (s : DeadlineScheduler) (req : BlockRequest) : Bool :=
  if req.write then s.write.hasRoom else s.read.hasRoom

end DeadlineScheduler

/-! ### Runs -/

inductive IoCall where
  | enqueue (req : BlockRequest) (now : Nat)
  | dequeue (now : Nat)

def IoCall.now : IoCall → Nat
  | .enqueue _ now => now
  | .dequeue now => now

/-- The scheduler with the time of the last call, the requests that were accepted and those that
    were returned, in the order of the calls. -/
structure IoLog where
  sched : DeadlineScheduler
  time : Nat
  accepted : List BlockRequest
  returned : List BlockRequest

def IoLog.new : IoLog := ⟨.new, 0, [], []⟩

def IoCall.exec (l : IoLog) : IoCall → IoLog
  | .enqueue req now =>
      { l with
        sched := l.sched.enqueue req now
        time := now
        accepted := l.accepted ++ (if l.sched.accepts req then [req] else []) }
  | .dequeue now =>
      { l with
        sched := (l.sched.dequeue now).2
        time := now
        returned := l.returned ++ (l.sched.dequeue now).1.toList }

/-- Time does not decrease and stays below `2 ^ 63`. -/
def IoStep (l : IoLog) (c : IoCall) (l' : IoLog) : Prop :=
  l.time ≤ c.now ∧ c.now < 2 ^ 63 ∧ l' = c.exec l

/-! ### One ring -/

variable {r r' : DeadlineRing} {limit now time : Nat} {req : BlockRequest}

namespace DeadlineRing

def pending (r : DeadlineRing) : List BlockRequest := live SCHED_MAX r.queue r.head r.tail

def due (r : DeadlineRing) : List Nat := live SCHED_MAX r.deadlines r.head r.tail

/-- The deadlines increase along the ring, up to that of a request at time `time`. -/
structure Inv (limit time : Nat) (r : DeadlineRing) : Prop where
  head_le : r.head ≤ r.tail
  sorted : r.due.Pairwise (· ≤ ·)
  recent : ∀ d ∈ r.due, d ≤ time + limit

end DeadlineRing

theorem inv_new : DeadlineRing.new.Inv limit time :=
  ⟨Nat.le_refl 0, .nil, fun _ h => absurd h not_mem_nil⟩

theorem DeadlineRing.Inv.later (h : r.Inv limit time) (hnow : time ≤ now) : r.Inv limit now :=
  ⟨h.head_le, h.sorted, fun d hd => (h.recent d hd).trans (Nat.add_le_add_right hnow limit)⟩

theorem pending_enqueue (h : r.Inv limit time) :
    (r.enqueue limit req now).pending = r.pending ++ (if r.hasRoom then [req] else []) := by
  unfold DeadlineRing.enqueue
  split
  · next hroom => exact live_push h.head_le (of_decide_eq_true hroom)
  · exact (append_nil _).symm

theorem DeadlineRing.Inv.enqueue (h : r.Inv limit time) (hnow : time ≤ now)
    (hword : now + limit < 2 ^ 64) : (r.enqueue limit req now).Inv limit now := by
  have hlater := h.later hnow
  unfold DeadlineRing.enqueue
  split
  · next hroom =>
    rw [wrapAdd_of_lt hword]
    have hdue : live SCHED_MAX (Function.update r.deadlines (r.tail % SCHED_MAX) (now + limit))
        r.head (r.tail + 1) = r.due ++ [now + limit] :=
      live_push h.head_le (of_decide_eq_true hroom)
    refine ⟨Nat.le_succ_of_le h.head_le, ?_, fun d hd => ?_⟩
    · show (live SCHED_MAX _ r.head (r.tail + 1)).Pairwise (· ≤ ·)
      rw [hdue]
      refine pairwise_append.mpr ⟨h.sorted, pairwise_singleton _ _, fun d hd e he => ?_⟩
      rw [mem_singleton.mp he]
      exact hlater.recent d hd
    · change d ∈ live SCHED_MAX _ r.head (r.tail + 1) at hd
      rw [hdue] at hd
      exact forall_mem_append.mpr ⟨hlater.recent, forall_mem_singleton.mpr (Nat.le_refl _)⟩ d hd
  · exact hlater

theorem takeHead_eq_none (h : r.takeHead = none) : r.pending = [] := by
  unfold DeadlineRing.takeHead at h
  split at h
  · cases h
  · next hempty =>
    have hzero : r.tail - r.head = 0 := by omega
    simp [DeadlineRing.pending, live, hzero]

theorem takeHead_spec (h : r.Inv limit time) (htake : r.takeHead = some (req, r')) :
    r.pending = req :: r'.pending ∧ r'.Inv limit time := by
  unfold DeadlineRing.takeHead at htake
  split at htake
  · next hlt =>
    cases htake
    have hdue : r.due = _ := live_pop hlt
    have hsorted := h.sorted
    have hrecent := h.recent
    rw [hdue] at hsorted hrecent
    exact ⟨live_pop hlt, hlt, hsorted.of_cons, fun d hd => hrecent d (mem_cons_of_mem _ hd)⟩
  · cases htake

theorem takeHead_of_takeExpired (h : r.Inv limit time)
    (htake : r.takeExpired now = some (req, r')) : r.takeHead = some (req, r') := by
  obtain ⟨i, hfind, hres⟩ := Option.map_eq_some_iff.mp htake
  obtain ⟨hge, hlt⟩ := mem_range'_1.mp (mem_of_find?_eq_some hfind)
  have hexpired : r.deadlines (i % SCHED_MAX) ≤ now := by simpa using find?_some hfind
  have hhead : r.head < r.tail := by omega
  have hsucc : r.tail - r.head = (r.tail - (r.head + 1)) + 1 := by omega
  rw [hsucc, range'_succ, find?_cons] at hfind
  have hsorted := h.sorted
  rw [DeadlineRing.due, live_pop hhead] at hsorted
  have hi : i = r.head := by
    split at hfind
    · exact (Option.some.inj hfind).symm
    · next hwaits =>
      -- a later expired request would make the oldest one expired too
      have hmem : r.deadlines (i % SCHED_MAX) ∈ live SCHED_MAX r.deadlines (r.head + 1) r.tail :=
        mem_map.mpr ⟨i, mem_of_find?_eq_some hfind, rfl⟩
      have hle := rel_of_pairwise_cons hsorted hmem
      exact absurd (hle.trans hexpired) (of_decide_eq_false hwaits)
  unfold DeadlineRing.takeHead
  rw [if_pos hhead, ← hres, hi]

/-! ### Both rings -/

/-- A call of `dequeue` takes the oldest read or the oldest write, and returns nothing only if
    no request waits. -/
inductive Dequeued (s : DeadlineScheduler) : Option BlockRequest → DeadlineScheduler → Prop
  | read {req read starveCounter} (h : s.read.takeHead = some (req, read)) :
      Dequeued s (some req) { s with read, starveCounter }
  | write {req write starveCounter} (h : s.write.takeHead = some (req, write)) :
      Dequeued s (some req) { s with write, starveCounter }
  | empty (hread : s.read.pending = []) (hwrite : s.write.pending = []) : Dequeued s none s

variable {s : DeadlineScheduler}

theorem dequeued_dequeuePreferred : Dequeued s s.dequeuePreferred.1 s.dequeuePreferred.2 := by
  unfold DeadlineScheduler.dequeuePreferred
  split
  · next hread hwrite =>
    split
    · exact .write hwrite
    · exact .read hread
  · next hread _ => exact .read hread
  · next hwrite => exact .write hwrite
  · next hread hwrite => exact .empty (takeHead_eq_none hread) (takeHead_eq_none hwrite)

theorem dequeued_dequeue {readLimit writeLimit : Nat} (hread : s.read.Inv readLimit time)
    (hwrite : s.write.Inv writeLimit time) : Dequeued s (s.dequeue now).1 (s.dequeue now).2 := by
  unfold DeadlineScheduler.dequeue
  split
  · next htake => exact .read (takeHead_of_takeExpired hread htake)
  · split
    · next htake => exact .write (takeHead_of_takeExpired hwrite htake)
    · exact dequeued_dequeuePreferred

/-- What was accepted is what was returned, followed by what waits, in each direction. -/
structure Delivers (l : IoLog) : Prop where
  read : l.sched.read.Inv READ_DEADLINE_TICKS l.time
  write : l.sched.write.Inv WRITE_DEADLINE_TICKS l.time
  reads : l.accepted.filter (!·.write) = l.returned.filter (!·.write) ++ l.sched.read.pending
  writes : l.accepted.filter (·.write) = l.returned.filter (·.write) ++ l.sched.write.pending

variable {l l' : IoLog} {c : IoCall}

theorem delivers_new : Delivers .new where
  read := inv_new
  write := inv_new
  reads := rfl
  writes := rfl

section

variable (h : Delivers l)
include h

theorem Delivers.write_eq_false (hmem : req ∈ l.sched.read.pending) : req.write = false := by
  have : req ∈ l.accepted.filter (!·.write) := h.reads ▸ mem_append_right _ hmem
  simpa using (mem_filter.mp this).2

theorem Delivers.write_eq_true (hmem : req ∈ l.sched.write.pending) : req.write = true := by
  have : req ∈ l.accepted.filter (·.write) := h.writes ▸ mem_append_right _ hmem
  exact (mem_filter.mp this).2

theorem Delivers.enqueue (hnow : l.time ≤ now) (hword : now < 2 ^ 63) :
    Delivers (IoCall.exec l (.enqueue req now)) := by
  have hread : now + READ_DEADLINE_TICKS < 2 ^ 64 := by unfold READ_DEADLINE_TICKS; omega
  have hwrite : now + WRITE_DEADLINE_TICKS < 2 ^ 64 := by unfold WRITE_DEADLINE_TICKS; omega
  unfold IoCall.exec DeadlineScheduler.enqueue DeadlineScheduler.accepts
  cases hdir : req.write with
  | true =>
    simp only [hdir, if_true]
    refine ⟨h.read.later hnow, h.write.enqueue hnow hwrite, ?_, ?_⟩
    · rw [filter_append, h.reads]
      split <;> simp [hdir]
    · rw [filter_append, h.writes, pending_enqueue h.write, append_assoc]
      split <;> simp [hdir]
  | false =>
    simp only [hdir, Bool.false_eq_true, if_false]
    refine ⟨h.read.enqueue hnow hread, h.write.later hnow, ?_, ?_⟩
    · rw [filter_append, h.reads, pending_enqueue h.read, append_assoc]
      split <;> simp [hdir]
    · rw [filter_append, h.writes]
      split <;> simp [hdir]

theorem Delivers.dequeue {answer : Option BlockRequest} {sched : DeadlineScheduler}
    (hnow : l.time ≤ now) (hres : Dequeued l.sched answer sched) :
    Delivers ⟨sched, now, l.accepted, l.returned ++ answer.toList⟩ := by
  cases hres with
  | read htake =>
    obtain ⟨hpending, hinv⟩ := takeHead_spec h.read htake
    have hdir := h.write_eq_false (hpending ▸ mem_cons_self)
    refine ⟨hinv.later hnow, h.write.later hnow, ?_, ?_⟩
    · simp [h.reads, hpending, hdir]
    · simp [h.writes, hdir]
  | write htake =>
    obtain ⟨hpending, hinv⟩ := takeHead_spec h.write htake
    have hdir := h.write_eq_true (hpending ▸ mem_cons_self)
    refine ⟨h.read.later hnow, hinv.later hnow, ?_, ?_⟩
    · simp [h.reads, hdir]
    · simp [h.writes, hpending, hdir]
  | empty _ _ =>
    refine ⟨h.read.later hnow, h.write.later hnow, ?_, ?_⟩
    · simp [h.reads]
    · simp [h.writes]

theorem Delivers.step (hstep : IoStep l c l') : Delivers l' := by
  obtain ⟨hnow, hword, rfl⟩ := hstep
  cases c with
  | enqueue req now => exact h.enqueue hnow hword
  | dequeue now => exact h.dequeue hnow (dequeued_dequeue h.read h.write)

end

theorem length_filter_write (reqs : List BlockRequest) :
    (reqs.filter (!·.write)).length + (reqs.filter (·.write)).length = reqs.length := by
  rw [Nat.add_comm]
  exact (length_eq_length_filter_add _).symm

theorem Delivers.count (h : Delivers l) :
    l.sched.count + l.returned.length = l.accepted.length := by
  have hreads := congrArg length h.reads
  have hwrites := congrArg length h.writes
  rw [length_append] at hreads hwrites
  have hreadPending : l.sched.read.pending.length = l.sched.read.tail - l.sched.read.head :=
    length_live
  have hwritePending : l.sched.write.pending.length = l.sched.write.tail - l.sched.write.head :=
    length_live
  have haccepted := length_filter_write l.accepted
  have hreturned := length_filter_write l.returned
  unfold DeadlineScheduler.count
  omega

/-- In every run with increasing times, the reads that were returned are the first of those that
    were accepted, in the same order and each once, and likewise the writes; the count is the
    number of requests still to be returned; and when a call of `dequeue` returns nothing, all
    have been. -/
theorem deadline_exactly_once {calls : List IoCall} {l : IoLog} (hrun : Run IoStep .new calls l) :
    l.returned.filter (!·.write) <+: l.accepted.filter (!·.write) ∧
      l.returned.filter (·.write) <+: l.accepted.filter (·.write) ∧
      l.sched.count + l.returned.length = l.accepted.length ∧
      ∀ now, (l.sched.dequeue now).1 = none →
        l.returned.filter (!·.write) = l.accepted.filter (!·.write) ∧
          l.returned.filter (·.write) = l.accepted.filter (·.write) := by
  have h : Delivers l := hrun.invariant (fun _ _ _ h hstep => h.step hstep) delivers_new
  refine ⟨⟨_, h.reads.symm⟩, ⟨_, h.writes.symm⟩, h.count, fun now hnone => ?_⟩
  have hres : Dequeued l.sched (l.sched.dequeue now).1 (l.sched.dequeue now).2 :=
    dequeued_dequeue h.read h.write
  generalize (l.sched.dequeue now).2 = after at hres
  rw [hnone] at hres
  rw [h.reads, h.writes]
  cases hres with
  | empty hread hwrite => simp [hread, hwrite]

/-- A write whose deadline has passed goes before a read whose deadline has not. -/
theorem deadline_exactly_once_late_write : let calls : List IoCall :=
      [.enqueue ⟨7, 1, 0, true⟩ 0, .enqueue ⟨8, 1, 0, false⟩ 490, .dequeue 500, .dequeue 501]
    let l := calls.foldl IoCall.exec .new
    l.returned = [⟨7, 1, 0, true⟩, ⟨8, 1, 0, false⟩] ∧
      l.sched.count + l.returned.length = l.accepted.length := by
  intro calls l
  have hrun : Run IoStep .new calls l :=
    .cons ⟨by decide, by decide, rfl⟩ (.cons ⟨by decide, by decide, rfl⟩
      (.cons ⟨by decide, by decide, rfl⟩ (.cons ⟨by decide, by decide, rfl⟩ (.nil l))))
  exact ⟨by decide +kernel, (deadline_exactly_once hrun).2.2.1⟩

/-! ### Waiting writes -/

/-- The reads that were dispatched in a row while a write was waiting. -/
def IoCall.row (l : IoLog) (n : Nat) : IoCall → Nat
  | .enqueue _ _ => n
  | .dequeue now =>
      if l.sched.write.pending ≠ [] ∧ (l.sched.dequeue now).1.any (!·.write) then n + 1 else 0

def RowStep (s : IoLog × Nat) (c : IoCall) (s' : IoLog × Nat) : Prop :=
  IoStep s.1 c s'.1 ∧ s'.2 = c.row s.1 s.2

/-- No read whose deadline has passed is dispatched while a write is waiting. -/
def IoCall.Patient (l : IoLog) : IoCall → Prop
  | .enqueue _ _ => True
  | .dequeue now => l.sched.write.pending = [] ∨ l.sched.read.takeExpired now = none

/-- A read that goes before a waiting write is counted, unless its deadline has passed. -/
theorem Delivers.starve_dequeue (h : Delivers l) (hwait : l.sched.write.pending ≠ [])
    (hpatient : l.sched.read.takeExpired now = none)
    (hread : (l.sched.dequeue now).1.any (!·.write)) :
    l.sched.starveCounter < STARVE_LIMIT ∧
      (l.sched.dequeue now).2.starveCounter = l.sched.starveCounter + 1 := by
  have hdir : ∀ {req write}, l.sched.write.takeHead = some (req, write) → req.write = true :=
    fun htake => h.write_eq_true ((takeHead_spec h.write htake).1 ▸ mem_cons_self)
  unfold DeadlineScheduler.dequeue at hread ⊢
  rw [hpatient] at hread ⊢
  dsimp only at hread ⊢
  split at hread
  · next htake => simp [hdir (takeHead_of_takeExpired h.write htake)] at hread
  · unfold DeadlineScheduler.dequeuePreferred at hread ⊢
    split at hread
    · next hwrite =>
      split at hread
      · simp [hdir hwrite] at hread
      · next hlt => exact ⟨Nat.lt_of_not_le hlt, by rw [if_neg hlt]⟩
    · next hwrite => exact absurd (takeHead_eq_none hwrite) hwait
    · next hwrite => simp [hdir hwrite] at hread
    · cases hread

/-- The reads in a row are among those the counter has counted. -/
structure Fair (s : IoLog × Nat) : Prop where
  delivers : Delivers s.1
  counted : s.2 ≤ s.1.sched.starveCounter
  limit : s.2 ≤ STARVE_LIMIT

variable {s s' : IoLog × Nat}

theorem Fair.step (h : Fair s) (hpatient : c.Patient s.1) (hstep : RowStep s c s') :
    Fair s' := by
  obtain ⟨hio, hrow⟩ := hstep
  have hdelivers := h.delivers.step hio
  have hcount : s'.2 ≤ s'.1.sched.starveCounter ∧ s'.2 ≤ STARVE_LIMIT := by
    rw [hrow, hio.2.2]
    cases c with
    | enqueue req now =>
      refine ⟨?_, h.limit⟩
      simp only [IoCall.exec, DeadlineScheduler.enqueue]
      split <;> exact h.counted
    | dequeue now =>
      simp only [IoCall.row, IoCall.exec]
      split
      · next hread =>
        obtain ⟨hlt, hcounter⟩ :=
          h.delivers.starve_dequeue hread.1 (hpatient.resolve_left hread.1) hread.2
        rw [hcounter]
        exact ⟨Nat.succ_le_succ h.counted, Nat.lt_of_le_of_lt h.counted hlt⟩
      · exact ⟨Nat.zero_le _, Nat.zero_le _⟩
  exact ⟨hdelivers, hcount.1, hcount.2⟩

/-- Reads whose deadlines have passed go before a waiting write, as many as there are. -/
theorem Delivers.overtaken {n k : Nat} (h : Delivers l) (hwait : l.sched.write.pending ≠ [])
    (hnow : l.time ≤ now) (hword : now < 2 ^ 63) (hdue : ∀ d ∈ l.sched.read.due, d ≤ now)
    (hreads : k ≤ l.sched.read.pending.length) :
    ∃ calls l', Run RowStep (l, n) calls (l', n + k) := by
  induction k generalizing l n with
  | zero => exact ⟨[], l, .nil _⟩
  | succ k ih =>
    have hlt : l.sched.read.head < l.sched.read.tail := by
      rw [DeadlineRing.pending, length_live] at hreads
      omega
    have hrest : l.sched.read.due = _ :: _ := live_pop hlt
    cases hexpired : l.sched.read.takeExpired now with
    | none =>
      have hnone := find?_eq_none.mp (Option.map_eq_none_iff.mp hexpired) l.sched.read.head
        (mem_range'_1.mpr ⟨Nat.le_refl _, by omega⟩)
      exact absurd (decide_eq_true (hdue _ (hrest ▸ mem_cons_self))) hnone
    | some taken =>
      obtain ⟨req, read⟩ := taken
      have htake := takeHead_of_takeExpired h.read hexpired
      have hpending := (takeHead_spec h.read htake).1
      have hdequeue : l.sched.dequeue now =
          (some req, { l.sched with read, starveCounter := 0 }) := by
        unfold DeadlineScheduler.dequeue
        rw [hexpired]
      have hrow : (IoCall.dequeue now).row l n = n + 1 := by
        have hdir := h.write_eq_false (hpending ▸ mem_cons_self)
        simp [IoCall.row, hdequeue, hwait, hdir]
      have hio : IoStep l (.dequeue now) _ := ⟨hnow, hword, rfl⟩
      have hnext := h.step hio
      simp only [IoCall.exec, hdequeue] at hio hnext
      rw [hpending, length_cons] at hreads
      rw [DeadlineRing.takeHead, if_pos hlt] at htake
      cases htake
      obtain ⟨calls, l', hrun⟩ := ih (n := n + 1) hnext hwait (Nat.le_refl now)
        (fun d hd => hdue d (hrest ▸ mem_cons_of_mem _ hd)) (Nat.le_of_succ_le_succ hreads)
      rw [Nat.add_right_comm] at hrun
      exact ⟨_, l', .cons ⟨hio, hrow.symm⟩ hrun⟩

/-- **Writes wait for sixteen reads at most**, as long as no read is dispatched because its
    deadline has passed: such a read sets the counter back.  All reads whose deadlines have
    passed go before a waiting write. -/
theorem writes_not_starved (calls : List IoCall) (s : IoLog × Nat) :
    (Run (Guarded RowStep fun s c => c.Patient s.1) (.new, 0) calls s → s.2 ≤ STARVE_LIMIT) ∧
    ∀ now, Run RowStep (.new, 0) calls s → s.1.sched.write.pending ≠ [] →
      s.1.time ≤ now → now < 2 ^ 63 → (∀ d ∈ s.1.sched.read.due, d ≤ now) →
        ∃ calls' l, Run RowStep s calls' (l, s.2 + s.1.sched.read.pending.length) := by
  constructor
  · intro hrun
    have hfair : Fair s := hrun.invariant (fun _ _ _ h hstep => h.step hstep.1 hstep.2)
      ⟨delivers_new, Nat.le_refl 0, Nat.zero_le _⟩
    exact hfair.limit
  · intro now hrun hwait hnow hword hdue
    have hdelivers := hrun.invariant (P := fun s => Delivers s.1)
      (fun _ _ _ h hstep => h.step hstep.1) delivers_new
    exact hdelivers.overtaken hwait hnow hword hdue (Nat.le_refl _)

def rowExec (s : IoLog × Nat) (c : IoCall) : Option (IoLog × Nat) :=
  if s.1.time ≤ c.now ∧ c.now < 2 ^ 63 then some (c.exec s.1, c.row s.1 s.2) else none

theorem rowStep_of_rowExec {calls : List IoCall} (c : IoCall) (_ : c ∈ calls)
    (s t : IoLog × Nat) (h : rowExec s c = some t) : RowStep s c t := by
  obtain ⟨⟨hnow, hword⟩, heq⟩ := Option.ite_none_right_eq_some.mp h
  cases heq
  exact ⟨⟨hnow, hword, rfl⟩, rfl⟩

instance (l : IoLog) : (c : IoCall) → Decidable (c.Patient l)
  | .enqueue _ _ => .isTrue trivial
  | .dequeue now =>
      decidable_of_iff (l.sched.write.pending = [] ∨ (l.sched.read.takeExpired now).isNone)
        (or_congr_right Option.isNone_iff_eq_none)

/-- A write and seventeen reads. -/
def patientExec (s : IoLog × Nat) (c : IoCall) : Option (IoLog × Nat) :=
  if c.Patient s.1 then rowExec s c else none

theorem guarded_of_patientExec {calls : List IoCall} (c : IoCall) (hc : c ∈ calls)
    (s t : IoLog × Nat) (h : patientExec s c = some t) :
    Guarded RowStep (fun s c => c.Patient s.1) s c t := by
  obtain ⟨hpatient, hexec⟩ := Option.ite_none_right_eq_some.mp h
  exact ⟨hpatient, rowStep_of_rowExec c hc s t hexec⟩

def seventeenReads : List IoCall :=
  .enqueue ⟨7, 1, 0, true⟩ 0 :: replicate 17 (.enqueue ⟨8, 1, 0, false⟩ 0)

/-- Before the deadlines sixteen reads go first; when they have passed, all seventeen can. -/
theorem writes_not_starved_seventeen :
    (∃ s, Run (Guarded RowStep fun s c => c.Patient s.1) (.new, 0)
      (seventeenReads ++ replicate 16 (.dequeue 0)) s ∧ s.2 = 16 ∧ s.2 ≤ STARVE_LIMIT) ∧
    ∃ s calls l, Run RowStep (.new, 0) seventeenReads s ∧ Run RowStep s calls (l, 17) := by
  constructor
  · obtain ⟨s, hrun, hrow⟩ := exists_run_of_foldlM (P := fun s : IoLog × Nat => s.2 = 16)
      (.new, 0) (seventeenReads ++ replicate 16 (.dequeue 0)) guarded_of_patientExec
      (by decide +kernel)
    exact ⟨s, hrun, hrow, (writes_not_starved _ s).1 hrun⟩
  · obtain ⟨s, hrun, hwait, hnow, hdue, hrow, hreads⟩ := exists_run_of_foldlM
      (P := fun s : IoLog × Nat => s.1.sched.write.pending ≠ [] ∧ s.1.time ≤ 50 ∧
        (∀ d ∈ s.1.sched.read.due, d ≤ 50) ∧ s.2 = 0 ∧ s.1.sched.read.pending.length = 17)
      (.new, 0) seventeenReads rowStep_of_rowExec (by decide +kernel)
    obtain ⟨calls, l, hlate⟩ := (writes_not_starved _ s).2 50 hrun hwait hnow (by decide) hdue
    rw [hrow, hreads] at hlate
    exact ⟨s, calls, l, hrun, hlate⟩

/-- All seventeen reads are dispatched when their deadlines have passed. -/
theorem late_reads_starve_write : ∃ s, Run RowStep (.new, 0)
    (seventeenReads ++ replicate 17 (.dequeue 50)) s ∧ STARVE_LIMIT < s.2 :=
  exists_run_of_foldlM _ _ rowStep_of_rowExec (by decide +kernel)

end TrainOS.Device
