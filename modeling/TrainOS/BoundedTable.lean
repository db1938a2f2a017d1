import Mathlib.Data.List.Basic

/-!
# Static tables with a count

The kernel keeps most of its records in a static array together with the number of
slots in use; slots at or above the count are never read.  A `Table α cap` holds the
used slots.  That they fit the array is part of the type, so a loop over the used slots
stays inside it.
-/

namespace TrainOS

/-- The used slots of a static array of `cap` slots. -/
structure Table (α : Type*) (cap : Nat) where
  entries : List α
  length_le : entries.length ≤ cap

namespace Table

variable {α : Type*} {cap : Nat}

def empty : Table α cap := ⟨[], Nat.zero_le cap⟩

def push? (t : Table α cap) (a : α) : Option (Table α cap) :=
  if h : t.entries.length < cap then some ⟨t.entries ++ [a], by simpa using Nat.succ_le_of_lt h⟩
  else none

def updateFirst (p : α → Bool) (f : α → α) (t : Table α cap) : Table α cap :=
  ⟨t.entries.modify (t.entries.findIdx p) f, by simpa using t.length_le⟩

theorem entries_of_push? {t t' : Table α cap} {a : α} (h : t.push? a = some t') :
    t'.entries = t.entries ++ [a] := by
  unfold push? at h
  split at h
  · cases h
    rfl
  · cases h

end Table

end TrainOS
