import Mathlib.Data.List.MinMax
import Mathlib.Data.List.Nodup
import Mathlib.Data.Prod.Lex
import TrainOS.MachineWord
import TrainOS.Runs
import TrainOS.SlotArray

/-!
# The workload scheduler of the GPUs (`ai/mod.rs`)

Workloads wait in a table of sixteen; each of the four GPUs runs at most four and lists their
ids in `active_workloads`, with `-1` in empty slots.  The lists are exact in every run
(`workload_scheduler`).  The loop that selects the next workload is the first maximum in the
order of priority and age (`selectBest_eq_argmax`).
-/

namespace TrainOS.Ai

open MachineWord Runs SlotArray

def MAX_GPU_DEVS : Nat := 4
def MAX_AI_QUEUES : Nat := 16
def MAX_CONCURRENT_PER_GPU : Nat := 4
def TIME_QUANTUM_OPS : Nat := 1000
def PRIO_REALTIME : Nat := 3

/-- The states `WL_QUEUED` to `WL_PREEMPTED`. -/
inductive WlState where
  | queued
  | running
  | completed
  | failed
  | preempted
deriving DecidableEq, Repr

structure AiWorkload where
  pid : Nat
  gpuId : Nat
  priority : Nat
  state : WlState
  batchSize : Nat
  opsDone : Nat
  submitTick : Nat
deriving DecidableEq, Repr

structure GpuDevice where
  activeWorkloads : Vector Int MAX_CONCURRENT_PER_GPU
  totalOpsCompleted : Nat

/-- `AI_QUEUES` is the part of `queues` below `MAX_AI_QUEUES`, `GPU_DEVICES` the part of `devices`
    below `MAX_GPU_DEVS`; `count` is `AI_QUEUE_COUNT`. -/
structure AiState where
  queues : Nat → AiWorkload
  count : Nat
  devices : Nat → GpuDevice

def registered : AiState where
  queues := fun _ => ⟨0, 0, 0, .queued, 0, 0, 0⟩
  count := 0
  devices := fun _ => ⟨Vector.replicate MAX_CONCURRENT_PER_GPU (-1), 0⟩

namespace AiState

def setQueue (s : AiState) (id : Nat) (w : AiWorkload) : AiState :=
  { s with queues := Function.update s.queues id w }

def setState (s : AiState) (id : Nat) (state : WlState) : AiState :=
  s.setQueue id { s.queues id with state }

def setDevice (s : AiState) (gid : Nat) (dev : GpuDevice) : AiState :=
  { s with devices := Function.update s.devices gid dev }

/-- The loops over `active_workloads`: the first slot that holds `old` gets `new`. -/
def replaceSlot (s : AiState) (gid : Nat) (old new : Int) : AiState :=
  if gid < MAX_GPU_DEVS then
    let dev := s.devices gid
    s.setDevice gid
      { dev with activeWorkloads := ⟨⟨dev.activeWorkloads.toList.replace old new⟩, by simp⟩ }
  else s

def aiSubmit (s : AiState) (pid gpuId priority batchSize tick : Nat) : Option Nat × AiState :=
  if s.count ≥ MAX_AI_QUEUES then (none, s)
  else
    (some s.count,
      { s.setQueue s.count
          ⟨pid, gpuId, min priority PRIO_REALTIME, .queued, batchSize, 0, tick⟩ with
        count := s.count + 1 })

def gpuRunning (s : AiState) : Nat → Nat :=
  (List.range s.count).foldl (fun running i =>
    let gid := (s.queues i).gpuId
    if (s.queues i).state = .running ∧ gid < MAX_GPU_DEVS then
      Function.update running gid (running gid + 1)
    else running) fun _ => 0

/-- The second loop: the index, priority and tick of the best workload so far. -/
def selectStep (s : AiState) (best : Option (Nat × Nat × Nat)) (i : Nat) :
    Option (Nat × Nat × Nat) :=
  let w := s.queues i
  if w.state ≠ .queued ∧ w.state ≠ .preempted then best
  else if w.gpuId < MAX_GPU_DEVS ∧ s.gpuRunning w.gpuId ≥ MAX_CONCURRENT_PER_GPU then best
  else
    match best with
    | none => some (i, w.priority, w.submitTick)
    | some (_, bestPrio, bestTick) =>
        if w.priority > bestPrio ∨ (w.priority = bestPrio ∧ w.submitTick < bestTick) then
          some (i, w.priority, w.submitTick)
        else best

def selectBest (s : AiState) : Option (Nat × Nat × Nat) :=
  (List.range s.count).foldl s.selectStep none

def aiSchedule (s : AiState) : Option Nat × AiState :=
  match s.selectBest with
  | some (idx, _, _) =>
      (some idx, (s.setState idx .running).replaceSlot (s.queues idx).gpuId (-1) idx)
  | none => (none, s)

def aiComplete (s : AiState) (id : Nat) (result : Bool) : Bool × AiState :=
  if id ≥ s.count then (false, s)
  else
    let gid := (s.queues id).gpuId
    let s1 := (s.setState id (if result then .completed else .failed)).replaceSlot gid id (-1)
    let dev := s1.devices gid
    (true,
      if gid < MAX_GPU_DEVS then
        s1.setDevice gid
          { dev with totalOpsCompleted := wrapAdd dev.totalOpsCompleted (s.queues id).opsDone }
      else s1)

def aiPreempt (s : AiState) (id : Nat) : Bool × AiState :=
  if id ≥ s.count ∨ (s.queues id).state ≠ .running then (false, s)
  else (true, (s.setState id .preempted).replaceSlot (s.queues id).gpuId id (-1))

def checkOne (s : AiState) (i : Nat) : AiState :=
  if (s.queues i).state = .running ∧ (s.queues i).opsDone ≥ TIME_QUANTUM_OPS ∧
      (List.range s.count).any (fun j => j ≠ i ∧ (s.queues j).state = .queued ∧
        (s.queues j).gpuId = (s.queues i).gpuId) then
    (s.aiPreempt i).2
  else s

def aiCheckPreemption (s : AiState) : AiState := (List.range s.count).foldl checkOne s

def aiAdvanceOps (s : AiState) (id ops : Nat) : AiState :=
  if id < s.count ∧ (s.queues id).state = .running then
    s.setQueue id { s.queues id with opsDone := wrapAdd (s.queues id).opsDone ops }
  else s

end AiState

/-! ### Runs -/

inductive AiCall where
  | submit (pid gpuId priority batchSize tick : Nat)
  | schedule
  | complete (id : Nat) (result : Bool)
  | preempt (id : Nat)
  | checkPreemption
  | advanceOps (id ops : Nat)

def AiCall.exec (s : AiState) : AiCall → AiState
  | .submit pid gpuId priority batchSize tick => (s.aiSubmit pid gpuId priority batchSize tick).2
  | .schedule => s.aiSchedule.2
  | .complete id result => (s.aiComplete id result).2
  | .preempt id => (s.aiPreempt id).2
  | .checkPreemption => s.aiCheckPreemption
  | .advanceOps id ops => s.aiAdvanceOps id ops

def AiStep (s : AiState) (c : AiCall) (s' : AiState) : Prop := s' = c.exec s

/-! ### The lists are exact -/

namespace AiState

def runsOn (s : AiState) (g i : Nat) : Bool :=
  (s.queues i).state = .running ∧ (s.queues i).gpuId = g

def runningOn (s : AiState) (g : Nat) : List Nat := (List.range s.count).filter (s.runsOn g)

def slots (s : AiState) (g : Nat) : List Int := (s.devices g).activeWorkloads.toList

end AiState

/-- The slots of every GPU hold the workloads that run on it.  An id below the count fits the
    type of the slots, `i16`. -/
structure Inv (s : AiState) : Prop where
  count_le : s.count ≤ MAX_AI_QUEUES
  tracks : ∀ g < MAX_GPU_DEVS, Tracks (-1) (s.slots g) ((s.runningOn g).map Int.ofNat)

open List

variable {s s' : AiState} {g gid id i j : Nat} {old new : Int} {st : WlState} {w : AiWorkload}

theorem ofNat_ne_neg_one (n : Nat) : Int.ofNat n ≠ -1 := nofun

theorem mem_runningOn : i ∈ s.runningOn g ↔ i < s.count ∧ s.runsOn g i = true := by
  simp [AiState.runningOn]

theorem length_slots : (s.slots g).length = MAX_CONCURRENT_PER_GPU :=
  Vector.length_toList

theorem slots_replaceSlot (hg : g < MAX_GPU_DEVS) : (s.replaceSlot gid old new).slots g =
    if g = gid then (s.slots g).replace old new else s.slots g := by
  unfold AiState.replaceSlot
  by_cases hgid : g = gid
  · subst hgid
    simp [hg, AiState.slots, AiState.setDevice]
  · split <;> simp [hgid, AiState.slots, AiState.setDevice]

theorem queues_replaceSlot : (s.replaceSlot gid old new).queues = s.queues := by
  unfold AiState.replaceSlot
  split <;> rfl

theorem count_replaceSlot : (s.replaceSlot gid old new).count = s.count := by
  unfold AiState.replaceSlot
  split <;> rfl

theorem runningOn_replaceSlot : (s.replaceSlot gid old new).runningOn g = s.runningOn g := by
  unfold AiState.runningOn AiState.runsOn
  rw [queues_replaceSlot, count_replaceSlot]

theorem runsOn_setQueue : (s.setQueue id w).runsOn g i =
    if i = id then decide (w.state = .running ∧ w.gpuId = g) else s.runsOn g i := by
  unfold AiState.runsOn AiState.setQueue
  by_cases hi : i = id <;> simp [hi]

theorem runningOn_setQueue (h : decide (w.state = .running ∧ w.gpuId = g) = s.runsOn g id) :
    (s.setQueue id w).runningOn g = s.runningOn g := by
  refine filter_congr fun i _ => ?_
  rw [runsOn_setQueue]
  split
  · next hi => rw [hi, h]
  · rfl

theorem inv_registered : Inv registered := by
  refine ⟨Nat.zero_le _, fun g _ => ?_⟩
  exact .refl _

theorem Inv.setQueue (h : Inv s) (hstate : w.state = .running ↔ (s.queues id).state = .running)
    (hgpu : w.gpuId = (s.queues id).gpuId) : Inv (s.setQueue id w) := by
  refine ⟨h.count_le, fun g hg => ?_⟩
  rw [runningOn_setQueue (by simp [AiState.runsOn, hstate, hgpu])]
  exact h.tracks g hg

theorem Inv.setDevice (h : Inv s) {dev : GpuDevice}
    (hslots : dev.activeWorkloads = (s.devices gid).activeWorkloads) :
    Inv (s.setDevice gid dev) := by
  refine ⟨h.count_le, fun g hg => ?_⟩
  have hsame : (s.setDevice gid dev).slots g = s.slots g := by
    by_cases hgid : g = gid
    · simp [AiState.slots, AiState.setDevice, hgid, hslots]
    · simp [AiState.slots, AiState.setDevice, hgid]
  rw [hsame]
  exact h.tracks g hg

theorem runningOn_setState_of_ne (hg : (s.queues id).gpuId ≠ g) :
    (s.setState id st).runningOn g = s.runningOn g :=
  runningOn_setQueue (by simp [AiState.runsOn, hg])

section

variable (h : Inv s)
include h

theorem Inv.start (hid : id < s.count) (hidle : (s.queues id).state ≠ .running)
    (hfree : (s.queues id).gpuId < MAX_GPU_DEVS →
      (s.runningOn (s.queues id).gpuId).length < MAX_CONCURRENT_PER_GPU) :
    Inv ((s.setState id .running).replaceSlot (s.queues id).gpuId (-1) id) := by
  refine ⟨count_replaceSlot.trans_le h.count_le, fun g hg => ?_⟩
  rw [slots_replaceSlot hg, runningOn_replaceSlot]
  split
  · next hgpu =>
    rw [← hgpu] at hfree
    have hstarted : ((s.setState id .running).runningOn g).Perm (id :: s.runningOn g) := by
      refine perm_filter_range hid ?_ ?_ fun j hj => ?_
      · simp [AiState.setState, runsOn_setQueue, hgpu]
      · simp [AiState.runsOn, hidle]
      · simp [AiState.setState, runsOn_setQueue, hj]
    have hempty : -1 ∈ s.slots g := by
      refine (h.tracks g hg).exists_empty ?_
      rw [length_map, length_slots]
      exact hfree hg
    exact ((h.tracks g hg).add hempty (ofNat_ne_neg_one id)).trans (hstarted.map Int.ofNat).symm
  · next hgpu =>
    rw [runningOn_setState_of_ne (Ne.symm hgpu)]
    exact h.tracks g hg

theorem Inv.stop (hid : id < s.count) (hst : st ≠ .running) :
    Inv ((s.setState id st).replaceSlot (s.queues id).gpuId id (-1)) := by
  refine ⟨count_replaceSlot.trans_le h.count_le, fun g hg => ?_⟩
  rw [slots_replaceSlot hg, runningOn_replaceSlot]
  split
  · next hgpu =>
    have hothers : ∀ j, j ≠ id → s.runsOn g j = (s.setState id st).runsOn g j := by
      intro j hj
      simp [AiState.setState, runsOn_setQueue, hj]
    have hgone : (s.setState id st).runsOn g id = false := by
      simp [AiState.setState, runsOn_setQueue, hst]
    cases hruns : s.runsOn g id with
    | true =>
      have hstopped := (perm_filter_range hid hruns hgone hothers).map Int.ofNat
      exact .remove ((h.tracks g hg).trans hstopped)
    | false =>
      have hsame : (s.setState id st).runningOn g = s.runningOn g :=
        runningOn_setQueue (by simp [hst, hruns])
      have hno : Int.ofNat id ∉ (s.runningOn g).map Int.ofNat := by
        intro hmem
        obtain ⟨j, hj, heq⟩ := mem_map.mp hmem
        rw [Int.ofNat.inj heq, mem_runningOn, hruns] at hj
        cases hj.2
      rw [hsame]
      exact ((h.tracks g hg).replace_absent hno (ofNat_ne_neg_one id)).symm ▸ h.tracks g hg
  · next hgpu =>
    rw [runningOn_setState_of_ne (Ne.symm hgpu)]
    exact h.tracks g hg

theorem Inv.aiSubmit (pid gpuId priority batchSize tick : Nat) :
    Inv (s.aiSubmit pid gpuId priority batchSize tick).2 := by
  unfold AiState.aiSubmit
  split
  · exact h
  · next hcount =>
    refine ⟨Nat.lt_of_not_le hcount, fun g hg => ?_⟩
    generalize hw : (⟨pid, gpuId, min priority PRIO_REALTIME, .queued, batchSize, 0, tick⟩ :
      AiWorkload) = w
    have hstate : w.state = .queued := hw ▸ rfl
    have hsame : (range (s.count + 1)).filter ((s.setQueue s.count w).runsOn g) =
        s.runningOn g := by
      rw [range_succ, filter_append, filter_cons_of_neg, filter_nil, append_nil]
      · refine filter_congr fun i hi => ?_
        rw [runsOn_setQueue, if_neg (Nat.ne_of_lt (mem_range.mp hi))]
      · simp [runsOn_setQueue, hstate]
    show Tracks (-1) (s.slots g)
      (((range (s.count + 1)).filter ((s.setQueue s.count w).runsOn g)).map Int.ofNat)
    rw [hsame]
    exact h.tracks g hg

theorem Inv.aiComplete (id : Nat) (result : Bool) : Inv (s.aiComplete id result).2 := by
  unfold AiState.aiComplete
  split
  · exact h
  · next hid =>
    have hst : (if result then WlState.completed else .failed) ≠ .running := by
      cases result <;> decide
    have hstopped := h.stop (Nat.lt_of_not_le hid) hst
    dsimp only
    split
    · exact hstopped.setDevice rfl
    · exact hstopped

theorem Inv.aiPreempt (id : Nat) : Inv (s.aiPreempt id).2 := by
  unfold AiState.aiPreempt
  split
  · exact h
  · next hid => exact h.stop (Nat.lt_of_not_le (not_or.mp hid).1) (by decide)

theorem Inv.aiCheckPreemption : Inv s.aiCheckPreemption := by
  refine foldlRecOn _ _ h fun s h i _ => ?_
  unfold AiState.checkOne
  split
  · exact h.aiPreempt i
  · exact h

theorem Inv.aiAdvanceOps (id ops : Nat) : Inv (s.aiAdvanceOps id ops) := by
  unfold AiState.aiAdvanceOps
  split
  · exact h.setQueue .rfl rfl
  · exact h

end

/-! ### The selection -/

theorem gpuRunning_eq (hg : g < MAX_GPU_DEVS) : s.gpuRunning g = (s.runningOn g).length := by
  have hloop : ∀ (todo : List Nat) (running : Nat → Nat),
      todo.foldl (fun running i =>
        let gid := (s.queues i).gpuId
        if (s.queues i).state = .running ∧ gid < MAX_GPU_DEVS then
          Function.update running gid (running gid + 1)
        else running) running g = running g + (todo.filter (s.runsOn g)).length := by
    intro todo
    induction todo with
    | nil => exact fun running => rfl
    | cons i todo ih =>
      intro running
      rw [foldl_cons, ih, filter_cons]
      by_cases hruns : s.runsOn g i = true
      · obtain ⟨hstate, rfl⟩ : (s.queues i).state = .running ∧ (s.queues i).gpuId = g := by
          simpa [AiState.runsOn] using hruns
        rw [if_pos hruns, if_pos ⟨hstate, hg⟩, Function.update_self, length_cons]
        omega
      · rw [if_neg hruns]
        congr 1
        split
        · next hcounted =>
          refine Function.update_of_ne (fun (heq : g = _) => hruns ?_) _ _
          simp [AiState.runsOn, hcounted.1, heq]
        · rfl
  exact (hloop _ _).trans (Nat.zero_add _)

namespace AiState

/-- The workload may be selected: it waits, and its GPU is below the limit. -/
structure Eligible (s : AiState) (i : Nat) : Prop where
  submitted : i < s.count
  waits : (s.queues i).state = .queued ∨ (s.queues i).state = .preempted
  below : (s.queues i).gpuId < MAX_GPU_DEVS →
    (s.runningOn (s.queues i).gpuId).length < MAX_CONCURRENT_PER_GPU

/-- The workload `i` goes before `j`: by priority, then by age, then by index. -/
def Precedes (s : AiState) (i j : Nat) : Prop :=
  (s.queues j).priority < (s.queues i).priority ∨
    (s.queues j).priority = (s.queues i).priority ∧
      ((s.queues i).submitTick < (s.queues j).submitTick ∨
        (s.queues i).submitTick = (s.queues j).submitTick ∧ i ≤ j)

def passes (s : AiState) (i : Nat) : Bool :=
  ((s.queues i).state = .queued ∨ (s.queues i).state = .preempted) ∧
    ((s.queues i).gpuId < MAX_GPU_DEVS → s.gpuRunning (s.queues i).gpuId < MAX_CONCURRENT_PER_GPU)

def rank (s : AiState) (i : Nat) : Nat ×ₗ Natᵒᵈ :=
  toLex ((s.queues i).priority, OrderDual.toDual (s.queues i).submitTick)

def entry (s : AiState) (i : Nat) : Nat × Nat × Nat :=
  (i, (s.queues i).priority, (s.queues i).submitTick)

end AiState

theorem eligible_iff : s.Eligible i ↔ i ∈ (range s.count).filter s.passes := by
  simp only [mem_filter, mem_range, AiState.passes, decide_eq_true_eq]
  constructor <;> rintro ⟨hcount, hwaits, hbelow⟩ <;>
    exact ⟨hcount, hwaits, fun hg => gpuRunning_eq hg ▸ hbelow hg⟩

theorem rank_lt_iff : s.rank j < s.rank i ↔ (s.queues i).priority > (s.queues j).priority ∨
      ((s.queues i).priority = (s.queues j).priority ∧
        (s.queues i).submitTick < (s.queues j).submitTick) := by
  rw [AiState.rank, AiState.rank, Prod.Lex.toLex_lt_toLex]
  exact or_congr_right (and_congr_left' eq_comm)

theorem selectStep_entry (best : Option Nat) : s.selectStep (best.map s.entry) i =
    (if s.passes i then argAux (fun a b => s.rank b < s.rank a) best i else best).map
      s.entry := by
  unfold AiState.selectStep
  by_cases hpasses : s.passes i = true
  · rw [if_pos hpasses]
    simp only [AiState.passes, decide_eq_true_eq] at hpasses
    rw [if_neg (by tauto), if_neg (fun h => Nat.not_le.mpr (hpasses.2 h.1) h.2)]
    cases best with
    | none => rfl
    | some j =>
      simp only [Option.map_some, AiState.entry, argAux, rank_lt_iff]
      split <;> rfl
  · rw [if_neg hpasses]
    simp only [AiState.passes, decide_eq_true_eq, not_and_or, not_forall, Nat.not_lt] at hpasses
    dsimp only
    split
    · rfl
    · next hwaits =>
      rcases hpasses with h | ⟨hg, hfull⟩
      · tauto
      · rw [if_pos ⟨hg, hfull⟩]

theorem selectBest_eq_argmax :
    s.selectBest = (((range s.count).filter s.passes).argmax s.rank).map s.entry := by
  have hloop : ∀ (todo : List Nat) (best : Option Nat),
      todo.foldl s.selectStep (best.map s.entry) =
        ((todo.filter s.passes).foldl (argAux fun a b => s.rank b < s.rank a) best).map
          s.entry := by
    intro todo
    induction todo with
    | nil => exact fun best => rfl
    | cons i todo ih =>
      intro best
      rw [foldl_cons, selectStep_entry, ih, filter_cons]
      split <;> rfl
  exact hloop _ none

theorem le_of_idxOf_le {l : List Nat} {a b : Nat} (hl : l.Pairwise (· < ·)) (ha : a ∈ l)
    (hb : b ∈ l) (h : l.idxOf a ≤ l.idxOf b) : a ≤ b := by
  have hla := idxOf_lt_length_of_mem ha
  have hlb := idxOf_lt_length_of_mem hb
  rcases Nat.lt_or_eq_of_le h with hlt | heq
  · have := pairwise_iff_getElem.mp hl _ _ hla hlb hlt
    rw [getElem_idxOf, getElem_idxOf] at this
    exact Nat.le_of_lt this
  · exact Nat.le_of_eq ((idxOf_inj ha).mp heq)

theorem precedes_of_argmax (hi : ((range s.count).filter s.passes).argmax s.rank = some i)
    (hj : s.Eligible j) :
    s.Precedes i j := by
  obtain ⟨hmem, hmax, hfirst⟩ := argmax_eq_some_iff.mp hi
  have hjmem := eligible_iff.mp hj
  rcases Nat.lt_trichotomy (s.queues j).priority (s.queues i).priority with hlt | heq | hgt
  · exact .inl hlt
  · refine .inr ⟨heq, ?_⟩
    rcases Nat.lt_trichotomy (s.queues i).submitTick (s.queues j).submitTick with hlt | htick | hgt
    · exact .inl hlt
    · have hsame : s.rank i = s.rank j := by
        rw [AiState.rank, AiState.rank, heq, htick]
      have hsorted : ((range s.count).filter s.passes).Pairwise (· < ·) :=
        pairwise_lt_range.filter _
      exact .inr ⟨htick, le_of_idxOf_le hsorted hmem hjmem (hfirst j hjmem hsame.le)⟩
    · exact absurd (rank_lt_iff.mpr (.inr ⟨heq, hgt⟩)) (not_lt.mpr (hmax j hjmem))
  · exact absurd (rank_lt_iff.mpr (.inl hgt)) (not_lt.mpr (hmax j hjmem))

theorem selectBest_none (h : s.selectBest = none) : ¬ s.Eligible i := by
  rw [selectBest_eq_argmax, Option.map_eq_none_iff, argmax_eq_none] at h
  rw [eligible_iff, h]
  exact not_mem_nil

theorem selectBest_some {p t : Nat} (h : s.selectBest = some (i, p, t)) :
    s.Eligible i ∧ ∀ j, s.Eligible j → s.Precedes i j := by
  rw [selectBest_eq_argmax] at h
  obtain ⟨k, hk, hentry⟩ := Option.map_eq_some_iff.mp h
  obtain rfl : k = i := congrArg Prod.fst hentry
  exact ⟨eligible_iff.mpr (argmax_mem hk), fun j hj => precedes_of_argmax hk hj⟩

theorem Inv.aiSchedule (h : Inv s) : Inv s.aiSchedule.2 := by
  unfold AiState.aiSchedule
  split
  · next idx _ _ hbest =>
    obtain ⟨⟨hcount, hwaits, hbelow⟩, -⟩ := selectBest_some hbest
    refine h.start hcount (fun hrunning => ?_) hbelow
    rw [hrunning] at hwaits
    rcases hwaits with h | h <;> cases h
  · exact h

theorem Inv.step {c : AiCall} (h : Inv s) (hstep : AiStep s c s') : Inv s' := by
  rw [hstep]
  cases c with
  | submit pid gpuId priority batchSize tick => exact h.aiSubmit pid gpuId priority batchSize tick
  | schedule => exact h.aiSchedule
  | complete id result => exact h.aiComplete id result
  | preempt id => exact h.aiPreempt id
  | checkPreemption => exact h.aiCheckPreemption
  | advanceOps id ops => exact h.aiAdvanceOps id ops

/-- After any calls, every GPU runs at most four workloads and lists exactly these, each once;
    and the next workload to be scheduled is eligible and goes before every other one that is,
    with none returned only if there is none. -/
theorem workload_scheduler {calls : List AiCall} {s : AiState}
    (hrun : Run AiStep registered calls s) : (∀ g < MAX_GPU_DEVS,
      (s.runningOn g).length ≤ MAX_CONCURRENT_PER_GPU ∧
        (occupied (-1) (s.slots g)).Nodup ∧
        ∀ x : Int, x ∈ occupied (-1) (s.slots g) ↔
          ∃ i < s.count, x = i ∧ (s.queues i).state = .running ∧ (s.queues i).gpuId = g) ∧
      match s.aiSchedule with
      | (some i, s') => s.Eligible i ∧ (∀ j, s.Eligible j → s.Precedes i j) ∧
          (s'.queues i).state = .running
      | (none, s') => (∀ j, ¬ s.Eligible j) ∧ s' = s := by
  have hinv : Inv s := hrun.invariant (fun _ _ _ h hstep => h.step hstep) inv_registered
  refine ⟨fun g hg => ?_, ?_⟩
  · have htracks := hinv.tracks g hg
    have hnodup : ((s.runningOn g).map Int.ofNat).Nodup :=
      List.Nodup.map (fun _ _ => Int.ofNat.inj) (nodup_range.filter _)
    refine ⟨?_, htracks.nodup_iff.mpr hnodup, fun x => ?_⟩
    · calc (s.runningOn g).length
          = (occupied (-1) (s.slots g)).length := by rw [htracks.length_eq, length_map]
        _ ≤ (s.slots g).length := length_filter_le _ _
        _ = MAX_CONCURRENT_PER_GPU := length_slots
    · rw [htracks.mem_iff, mem_map]
      constructor
      · rintro ⟨i, hi, rfl⟩
        obtain ⟨hcount, hruns⟩ := mem_runningOn.mp hi
        exact ⟨i, hcount, rfl, by simpa [AiState.runsOn] using hruns⟩
      · rintro ⟨i, hcount, rfl, hruns⟩
        exact ⟨i, mem_runningOn.mpr ⟨hcount, by simpa [AiState.runsOn] using hruns⟩, rfl⟩
  · unfold AiState.aiSchedule
    cases hbest : s.selectBest with
    | none => exact ⟨fun j => selectBest_none hbest, rfl⟩
    | some best =>
      obtain ⟨heligible, hfirst⟩ := selectBest_some hbest
      refine ⟨heligible, hfirst, ?_⟩
      rw [queues_replaceSlot]
      simp [AiState.setState, AiState.setQueue]

/-- Five workloads for one GPU: four of them run, one with a full time slice makes room for the
    fifth, and then it is not eligible. -/
theorem workload_scheduler_five : let calls : List AiCall :=
      [.submit 1 0 2 10 7, .submit 1 0 2 10 8, .submit 1 0 2 10 6, .submit 1 0 0 10 9, .schedule,
        .schedule, .schedule, .schedule, .submit 1 0 9 10 9, .advanceOps 1 1000, .checkPreemption,
        .schedule]
    let s := calls.foldl AiCall.exec registered
    (s.runningOn 0).length ≤ MAX_CONCURRENT_PER_GPU ∧ s.slots 0 = [2, 0, 4, 3] ∧
      s.aiSchedule.1 = none ∧ ¬ s.Eligible 1 := by
  intro calls s
  have hnone : s.aiSchedule.1 = none := by decide +kernel
  have hrun : Run AiStep registered calls s :=
    run_foldl AiCall.exec calls (fun c _ s => show AiStep s c (c.exec s) from rfl) _
  obtain ⟨hgpus, hselect⟩ := workload_scheduler hrun
  refine ⟨(hgpus 0 (by decide)).1, by decide +kernel, hnone, ?_⟩
  rcases hs : s.aiSchedule with ⟨_ | i, s'⟩
  · exact hselect.1 1
  · rw [hs] at hnone
    cases hnone

end TrainOS.Ai
