import TrainOS.Scheduling

/-!
# The queue of an endpoint (`MessageQueue` in `ipc/endpoint.rs`)

A history of a queue keeps what was pushed and what was popped beside the queue itself.
What is still queued is the difference of the two, so messages leave in the order in which
they came, each of them once.
-/

namespace TrainOS.Sched

inductive QueueCall where
  | pushBack (senderPid : Nat) (msg : Message)
  | popFront

/-- A queue with everything that went in and everything that came out. -/
structure QueueHistory where
  queue : VecQueue (Nat × Message)
  pushed : List (Nat × Message)
  popped : List (Nat × Message)

def QueueHistory.start : QueueHistory := ⟨.new, [], []⟩

def QueueHistory.step (h : QueueHistory) : QueueCall → QueueHistory
  | .pushBack senderPid msg =>
      { h with
        queue := h.queue.pushBack (senderPid, msg)
        pushed := h.pushed ++ [(senderPid, msg)] }
  | .popFront =>
      match h.queue.popFront with
      | none => h
      | some (item, rest) => { h with queue := rest, popped := h.popped ++ [item] }

def QueueHistory.Ordered (h : QueueHistory) : Prop := h.pushed = h.popped ++ h.queue.toList

theorem QueueHistory.Ordered.step {h : QueueHistory} (hh : h.Ordered) (call : QueueCall) :
    (h.step call).Ordered := by
  cases call with
  | pushBack senderPid msg =>
    simp only [Ordered, QueueHistory.step, VecQueue.toList_pushBack]
    rw [hh, List.append_assoc]
  | popFront =>
    unfold QueueHistory.step
    cases hpop : h.queue.popFront with
    | none => exact hh
    | some r =>
      have hlist := VecQueue.popFront_eq_some hpop
      simp only [Ordered]
      rw [hh, hlist, List.append_assoc]
      rfl

theorem head_after_pop {α : Type} {q rest : VecQueue α} {item : α}
    (h : q.popFront = some (item, rest)) : rest.head ≤ 64 ∨ 2 * rest.head < rest.items.length := by
  unfold VecQueue.popFront at h
  split at h
  · cases h
    unfold VecQueue.advance
    split
    · exact .inl (Nat.zero_le 64)
    · dsimp only
      omega
  · cases h

/-- **The queue is a FIFO.**  After any history what was popped, followed by what is queued,
    is what was pushed; the queue is empty, and a pop gives nothing, exactly when everything
    has been popped. -/
theorem message_queue_fifo (calls : List QueueCall) :
    let h := calls.foldl QueueHistory.step QueueHistory.start
    h.pushed = h.popped ++ h.queue.toList ∧
      (∀ item rest, h.queue.popFront = some (item, rest) →
        h.pushed = h.popped ++ item :: rest.toList) ∧
      (h.queue.popFront = none ↔ h.popped = h.pushed) ∧
      (h.queue.isEmpty = true ↔ h.popped = h.pushed) ∧
      ∀ item rest, h.queue.popFront = some (item, rest) →
        rest.head ≤ 64 ∨ 2 * rest.head < rest.items.length := by
  intro h
  have hordered : h.Ordered := List.foldlRecOn calls _ rfl fun _ h0 call _ => h0.step call
  have hempty : h.queue.toList = [] ↔ h.popped = h.pushed := by
    rw [hordered]
    exact List.self_eq_append_right.symm
  refine ⟨hordered, fun item rest hpop => ?_, VecQueue.popFront_eq_none.trans hempty,
    VecQueue.isEmpty_iff.trans hempty, fun item rest hpop => head_after_pop hpop⟩
  rw [hordered, VecQueue.popFront_eq_some hpop]

end TrainOS.Sched
