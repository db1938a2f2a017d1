import Mathlib.Data.List.Basic

/-!
# Ring buffers with free-running counters

A ring of `n` slots with two counters that only grow: entry number `i` is in the slot `i % n`,
and the entries from `head` up to `tail` are live.  The queue that the ring stands for is the list
of its live entries (`live`).
-/

namespace TrainOS.RingBuffer

open List

variable {α : Type*} {n head tail : Nat} {slots : Nat → α} {a : α}

def live (n : Nat) (slots : Nat → α) (head tail : Nat) : List α :=
  (range' head (tail - head)).map fun i => slots (i % n)

@[simp] theorem length_live : (live n slots head tail).length = tail - head := by
  simp [live]

/-- Two of `n` consecutive numbers are in different slots. -/
theorem mod_ne_of_lt {i j : Nat} (hlt : i < j) (hnear : j - i < n) : i % n ≠ j % n := by
  intro h
  have hzero : (j - i) % n = 0 := Nat.sub_mod_eq_zero_of_mod_eq h.symm
  rw [Nat.mod_eq_of_lt hnear] at hzero
  omega

/-- A write to the slot after the last entry appends to the queue, whatever the slot is. -/
theorem live_push (hle : head ≤ tail) (hroom : tail - head < n) :
    live n (Function.update slots (tail % n) a) head (tail + 1) =
      live n slots head tail ++ [a] := by
  have hsucc : tail + 1 - head = (tail - head) + 1 := by omega
  have hlast : head + (tail - head) = tail := by omega
  unfold live
  rw [hsucc, range'_1_concat, map_append, hlast, map_singleton, Function.update_self]
  congr 1
  refine map_congr_left fun i hi => Function.update_of_ne ?_ _ _
  obtain ⟨hge, hlt⟩ := mem_range'_1.mp hi
  exact mod_ne_of_lt (by omega) (by omega)

theorem live_pop (h : head < tail) :
    live n slots head tail = slots (head % n) :: live n slots (head + 1) tail := by
  have hsucc : tail - head = (tail - (head + 1)) + 1 := by omega
  unfold live
  rw [hsucc, range'_succ, map_cons]

end TrainOS.RingBuffer
