import Mathlib.Data.List.Nodup

/-!
# Singly linked lists given by a successor function

`Chain next head l` says that following `next` from `head` visits exactly the nodes of `l`, in
order, and then stops.  A chain only looks at the successors of its own nodes, it is
determined by its head, and removing a node redirects one successor.
-/

namespace TrainOS.LinkedChain

open List

variable {α : Type*}

/-- Following `next` from `head` visits exactly `l`. -/
def Chain (next : α → Option α) : Option α → List α → Prop
  | head, [] => head = none
  | head, p :: l => head = some p ∧ Chain next (next p) l

variable {next next' : α → Option α} {head : Option α} {l : List α}

/-- A chain depends only on the successors of its nodes. -/
theorem Chain.congr (h : Chain next head l) (hag : ∀ p ∈ l, next' p = next p) :
    Chain next' head l := by
  induction l generalizing head with
  | nil => exact h
  | cons p l ih =>
    obtain ⟨hhead, htail⟩ := h
    refine ⟨hhead, ?_⟩
    rw [hag p mem_cons_self]
    exact ih htail fun q hq => hag q (mem_cons_of_mem p hq)

theorem Chain.head_eq (h : Chain next head l) : head = l.head? := by
  cases l with
  | nil => exact h
  | cons p l => exact h.1

/-- The last node of a prefix, or `default` when the prefix is empty. -/
def lastOr (default : Option α) : List α → Option α
  | [] => default
  | p :: l => lastOr (some p) l

variable {p : α}

theorem lastOr_eq_some_mem {q : α} (h : lastOr (some p) l = some q) : q = p ∨ q ∈ l := by
  induction l generalizing p with
  | nil => exact .inl (Option.some.inj h).symm
  | cons r l ih =>
    rcases ih h with rfl | hmem
    · exact .inr mem_cons_self
    · exact .inr (mem_cons_of_mem _ hmem)

theorem lastOr_cons_ne_none : lastOr (some p) l ≠ none := by
  induction l generalizing p with
  | nil => exact Option.some_ne_none p
  | cons r l ih => exact ih

variable {pre post : List α}

/-- **Unlinking behind a node.**  When `t` follows the last node of the non-empty
    prefix `p :: pre`, redirecting that node's successor to the successor of `t`
    removes `t` from the chain. -/
theorem Chain.unlink [DecidableEq α] {q t : α}
    (h : Chain next head (p :: pre ++ t :: post)) (hnodup : (p :: pre ++ t :: post).Nodup)
    (hq : lastOr (some p) pre = some q) (hredirect : next' q = next t)
    (hkeep : ∀ r ∈ p :: pre ++ t :: post, r ≠ q → next' r = next r) :
    Chain next' head (p :: pre ++ post) := by
  induction pre generalizing head p with
  | nil =>
    have hpq : p = q := Option.some.inj hq
    subst hpq
    obtain ⟨hhead, _, hpost⟩ := h
    refine ⟨hhead, ?_⟩
    rw [hredirect]
    refine hpost.congr fun r hr => hkeep r (by simp [hr]) ?_
    rintro rfl
    simp [hr] at hnodup
  | cons p' pre ih =>
    obtain ⟨hhead, htail⟩ := h
    have hnodup' : (p' :: pre ++ t :: post).Nodup := (nodup_cons.mp hnodup).2
    have hpq : p ≠ q := by
      rintro rfl
      have hmem : p ∈ p' :: pre ++ t :: post := by
        rcases lastOr_eq_some_mem (l := pre) (p := p') hq with rfl | hin
        · exact mem_cons_self
        · exact mem_cons_of_mem _ (mem_append_left _ hin)
      exact (nodup_cons.mp hnodup).1 hmem
    refine ⟨hhead, ?_⟩
    rw [hkeep p mem_cons_self hpq]
    exact ih htail hnodup' hq fun r hr hne => hkeep r (mem_cons_of_mem _ hr) hne

/-! ### Walking a chain -/

def nodes (next : α → Option α) : Nat → Option α → List α
  | 0, _ => []
  | _ + 1, none => []
  | fuel + 1, some p => p :: nodes next fuel (next p)

variable {fuel : Nat}

section

variable (h : Chain next head l) (hfuel : l.length ≤ fuel)
include h hfuel

/-- Induction along a chain, with the fuel of a walk. -/
theorem Chain.walk {motive : Nat → Option α → List α → Prop} (nil : ∀ fuel, motive fuel none [])
    (cons : ∀ fuel p l, motive fuel (next p) l → motive (fuel + 1) (some p) (p :: l)) :
    motive fuel head l := by
  induction l generalizing head fuel with
  | nil =>
    have hnone : head = none := h
    rw [hnone]
    exact nil fuel
  | cons p l ih =>
    obtain ⟨hhead, htail⟩ := h
    rw [hhead]
    cases fuel with
    | zero => simp at hfuel
    | succ fuel => exact cons fuel p l (ih htail (by simpa using hfuel))

theorem nodes_eq : nodes next fuel head = l := by
  refine h.walk (motive := (nodes next · · = ·)) hfuel (fun fuel => ?_) fun fuel p l ih => ?_
  · cases fuel <;> rfl
  · rw [nodes, ih]

/-- Accumulate over the nodes from `head` to the end of the list; `none` when the
    list has more than `fuel` nodes. -/
def foldNodes {β : Type*} (f : β → α → β) (next : α → Option α) :
    Nat → β → Option α → Option β
  | _, acc, none => some acc
  | 0, _, some _ => none
  | fuel + 1, acc, some p => foldNodes f next fuel (f acc p) (next p)

theorem foldNodes_eq {β : Type*} {f : β → α → β} {acc : β} :
    foldNodes f next fuel acc head = some (l.foldl f acc) := by
  refine h.walk (motive := fun fuel head l => ∀ acc, foldNodes f next fuel acc head =
    some (l.foldl f acc)) hfuel (fun fuel acc => ?_) (fun fuel p l ih acc => ?_) acc
  · cases fuel <;> rfl
  · rw [foldNodes, ih]
    rfl

/-! ### Searching a chain -/

/-- How a search of an intrusive list ends; `found` carries the node before the
    target. -/
inductive Scan (α : Type*) where
  | found (prev : Option α)
  | absent
  | diverged

/-- Walk from `curr` until `target` or the end of the list, at most `fuel`
    nodes. -/
def scan [DecidableEq α] (next : α → Option α) (target : α) :
    Nat → Option α → Option α → Scan α
  | _, _, none => .absent
  | 0, _, some _ => .diverged
  | fuel + 1, prev, some p =>
      if p = target then .found prev else scan next target fuel (some p) (next p)

variable [DecidableEq α] {target : α} {prev : Option α}

theorem scan_absent (hmem : target ∉ l) : scan next target fuel prev head = .absent := by
  refine h.walk (motive := fun fuel head l => target ∉ l → ∀ prev,
    scan next target fuel prev head = .absent) hfuel (fun fuel _ prev => ?_)
    (fun fuel p l ih hmem prev => ?_) hmem prev
  · cases fuel <;> rfl
  · obtain ⟨hne, hrest⟩ := not_or.mp (mt mem_cons.mpr hmem)
    rw [scan, if_neg (Ne.symm hne)]
    exact ih hrest _

/-- A search with enough fuel for the whole list ends. -/
theorem scan_ne_diverged : scan next target fuel prev head ≠ .diverged := by
  refine h.walk (motive := fun fuel head _ => ∀ prev, scan next target fuel prev head ≠ .diverged)
    hfuel (fun fuel prev => ?_) (fun fuel p l ih prev => ?_) prev
  · cases fuel <;> nofun
  · rw [scan]
    split
    · nofun
    · exact ih _

end

variable [DecidableEq α] {target : α} {prev : Option α}

theorem scan_found (h : Chain next head (pre ++ target :: post)) (hmem : target ∉ pre)
    (hfuel : pre.length < fuel) : scan next target fuel prev head = .found (lastOr prev pre) := by
  induction pre generalizing head fuel prev with
  | nil =>
    obtain ⟨hhead, _⟩ := h
    rw [hhead]
    cases fuel with
    | zero => simp at hfuel
    | succ fuel =>
      rw [scan, if_pos rfl]
      rfl
  | cons p pre ih =>
    obtain ⟨hhead, htail⟩ := h
    rw [hhead]
    cases fuel with
    | zero => simp at hfuel
    | succ fuel =>
      have hne : p ≠ target := fun heq => hmem (heq ▸ mem_cons_self)
      rw [scan, if_neg hne]
      exact ih htail (fun hin => hmem (mem_cons_of_mem _ hin)) (by simpa using hfuel)

end TrainOS.LinkedChain
