import Mathlib.Data.Set.Insert

/-!
# One direction of a stream

A sender sends lists of elements as segments with their position; a segment may be delivered
late, again or never.  The receiver takes a segment into an empty buffer when it begins where
the stream read so far ends.  What is read stays a beginning of what was sent
(`Channel.Intact.move`).
-/

namespace TrainOS.StreamChannel

open List

variable {α : Type*}

structure Channel (α : Type*) where
  sent : List α
  flight : Set (Nat × List α)
  unread : List α
  taken : List α

namespace Channel

inductive Moves : Channel α → Channel α → Prop
  | idle (c : Channel α) : Moves c c
  | send (c : Channel α) (seg : List α) :
      Moves c { c with
        sent := c.sent ++ seg
        flight := insert (c.sent.length, seg) c.flight }
  | accept (c : Channel α) (seg : List α) (hempty : c.unread = [])
      (hflight : (c.taken.length, seg) ∈ c.flight) : Moves c { c with unread := seg }
  | take (c : Channel α) : Moves c { c with taken := c.taken ++ c.unread, unread := [] }

/-- What was taken and what waits are the beginning of the stream, and every segment has the
elements at its position. -/
structure Intact (c : Channel α) : Prop where
  prefix_sent : c.taken ++ c.unread <+: c.sent
  flight_sent : ∀ x ∈ c.flight, ∃ front, front.length = x.1 ∧ front ++ x.2 <+: c.sent

theorem Intact.taken_begins_sent {c : Channel α} (h : c.Intact) : c.taken <+: c.sent :=
  (prefix_append _ _).trans h.prefix_sent

theorem Intact.move {c c' : Channel α} (h : c.Intact) (hmove : Moves c c') : c'.Intact := by
  cases hmove with
  | idle => exact h
  | send seg =>
    have hgrows : c.sent <+: c.sent ++ seg := prefix_append _ _
    refine ⟨h.prefix_sent.trans hgrows, ?_⟩
    rintro x (rfl | hx)
    · exact ⟨c.sent, rfl, prefix_refl _⟩
    · obtain ⟨front, hlen, hfront⟩ := h.flight_sent x hx
      exact ⟨front, hlen, hfront.trans hgrows⟩
  | accept seg hempty hflight =>
    refine ⟨?_, h.flight_sent⟩
    obtain ⟨front, hlen, hfront⟩ := h.flight_sent _ hflight
    -- both are the beginning of the stream up to the position of the segment
    have heq : front = c.taken := by
      rw [prefix_iff_eq_take.mp ((prefix_append _ _).trans hfront), hlen,
        ← prefix_iff_eq_take.mp h.taken_begins_sent]
    rwa [heq] at hfront
  | take =>
    refine ⟨?_, h.flight_sent⟩
    rw [append_nil]
    exact h.prefix_sent

end Channel

end TrainOS.StreamChannel
