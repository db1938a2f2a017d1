import Mathlib.Data.Finset.Max
import Mathlib.Logic.Relation

/-!
# Depth-first search along forward edges

A graph on the natural numbers whose edges all lead to larger nodes is searched from node 0 with
a stack, and the successors of a node are taken from the largest to the smallest.  `Route s` is
the way on which the search comes to `s`, and `Done s` are the nodes that it has visited then;
`done_succ` says how they grow along an edge.  Under a stack the nodes grow from one pending node
to the next (`Chain`), which one round of the search keeps (`chain_push`).
-/

namespace TrainOS.ForwardSearch

open List Relation

section

variable (succ : Nat → List Nat)

def Leads : Nat → Nat → Prop := ReflTransGen fun a b => b ∈ succ a

/-- The way to `s`: from each node to its largest successor from which `s` can be reached. -/
inductive Route (s : Nat) : Nat → Prop
  | start : Route s 0
  | next {n c : Nat} : Route s n → c ∈ succ n → Leads succ c s →
      (∀ t ∈ succ n, Leads succ t s → t ≤ c) → Route s c

/-- A node on the way to `s` has a successor behind all those from which `s` can be reached, and
    that one leads to `y`. -/
def SeenBefore (s y : Nat) : Prop :=
  ∃ n t, Route succ s n ∧ n ≠ s ∧ t ∈ succ n ∧ (∀ c ∈ succ n, Leads succ c s → c < t) ∧
    Leads succ t y

/-- What the search has visited when it comes to `s`. -/
def Done (s y : Nat) : Prop := Route succ s y ∧ y ≠ s ∨ SeenBefore succ s y

/-- What the search has visited when this is its stack. -/
def Before : List Nat → Nat → Prop
  | [] => Leads succ 0
  | s :: _ => Done succ s

/-- When all that a pending node leads to is visited, it is the turn of the next one. -/
def Chain : List Nat → Prop
  | [] => True
  | s :: stack => (∀ y, Before succ stack y ↔ Done succ s y ∨ Leads succ s y) ∧ Chain stack

end

variable {succ : Nat → List Nat} {a b c n s y : Nat}

theorem Route.reached (h : Route succ s n) : Leads succ 0 n := by
  induction h with
  | start => exact .refl
  | next _ hc _ _ ih => exact ih.tail hc

theorem Route.leads (hs : Leads succ 0 s) (h : Route succ s n) : Leads succ n s := by
  cases h with
  | start => exact hs
  | next _ _ hlead _ => exact hlead

theorem leads_iff : Leads succ s y ↔ y = s ∨ ∃ t ∈ succ s, Leads succ t y := by
  constructor
  · intro h
    rcases h.cases_head with rfl | ⟨t, ht, hlead⟩
    · exact .inl rfl
    · exact .inr ⟨t, ht, hlead⟩
  · rintro (rfl | ⟨t, ht, hlead⟩)
    · exact .refl
    · exact .head ht hlead

theorem exists_largest (hne : n ≠ s) (h : Leads succ n s) :
    ∃ c ∈ succ n, Leads succ c s ∧ ∀ t ∈ succ n, Leads succ t s → t ≤ c := by
  classical
  obtain ⟨c₀, hc₀, hlead₀⟩ := (leads_iff.mp h).resolve_left hne.symm
  obtain ⟨c, hc, hmax⟩ := Finset.exists_max_image ((succ n).toFinset.filter (Leads succ · s)) id
    ⟨c₀, by simp [hc₀, hlead₀]⟩
  simp only [Finset.mem_filter, mem_toFinset, id, and_imp] at hc hmax
  exact ⟨c, hc.1, hc.2, hmax⟩

section

variable (hfwd : ∀ a, Leads succ 0 a → ∀ b ∈ succ a, a < b)
include hfwd

theorem Leads.le (ha : Leads succ 0 a) (h : Leads succ a b) : a ≤ b := by
  induction h with
  | refl => exact le_rfl
  | tail hlead hstep ih => exact ih.trans (hfwd _ (ha.trans hlead) _ hstep).le

theorem not_done_zero : ¬ Done succ 0 y := by
  have hzero {n : Nat} (h : Route succ 0 n) : n = 0 :=
    Nat.le_zero.mp (Leads.le hfwd h.reached (h.leads .refl))
  rintro (⟨h, hne⟩ | ⟨n, -, h, hne, -⟩)
  · exact hne (hzero h)
  · exact hne (hzero h)

/-- The way to a node leads to it. -/
theorem route_self (hs : Leads succ 0 s) : Route succ s s := by
  suffices h : ∀ k n, s - n = k → Route succ s n → Route succ s s from h s 0 rfl .start
  intro k
  induction k using Nat.strong_induction_on with
  | _ k ih =>
    intro n hk hroute
    by_cases hne : n = s
    · exact hne ▸ hroute
    obtain ⟨c, hc, hlead, hmax⟩ := exists_largest hne (hroute.leads hs)
    have hlt := hfwd n hroute.reached c hc
    have hle := Leads.le hfwd (hroute.reached.tail hc) hlead
    exact ih (s - c) (by omega) c rfl (.next hroute hc hlead hmax)

section

variable (hs : Leads succ 0 s) (hc : c ∈ succ s) (hnew : ¬ Done succ s c)
include hs hc hnew

/-- The way to an unvisited successor is the way to the node and one step more. -/
theorem route_succ : Route succ c n ↔ Route succ s n ∨ n = c := by
  have hlt := hfwd s hs c hc
  have hnot : ¬ SeenBefore succ s c := fun h => hnew (.inr h)
  have hext {n : Nat} (h : Route succ s n) : Route succ c n := by
    induction h with
    | start => exact .start
    | @next n c' hroute hc' hlead hmax ih =>
      refine .next ih hc' (hlead.tail hc) fun t ht hlead' => ?_
      by_contra hgt
      have hne : n ≠ s := fun heq => by
        subst heq
        have hle := Leads.le hfwd (hs.tail hc') hlead
        exact absurd (hfwd n hs c' hc') hle.not_gt
      exact hnot ⟨n, t, hroute, hne, ht, fun d hd hleadd =>
        (hmax d hd hleadd).trans_lt (not_le.mp hgt), hlead'⟩
  constructor
  · intro h
    induction h with
    | start => exact .inl .start
    | @next n c' hroute hc' hlead hmax ih =>
      have hn := hroute.reached
      have hle' := Leads.le hfwd (hn.tail hc') hlead
      rcases ih with ih | rfl
      · by_cases hne : n = s
        · subst hne
          exact .inr (hle'.antisymm (hmax c hc .refl))
        obtain ⟨d, hd, hleadd, hmaxd⟩ := exists_largest hne (ih.leads hs)
        have hdc : d ≤ c' := hmax d hd (hleadd.tail hc)
        by_cases heq : d = c'
        · subst heq
          exact .inl (.next ih hd hleadd hmaxd)
        · refine absurd ⟨n, c', ih, hne, hc', fun d' hd' hleadd' => ?_, hlead⟩ hnot
          have := hmaxd d' hd' hleadd'
          omega
      · exact absurd (hfwd n hn c' hc') hle'.not_gt
  · rintro (h | rfl)
    · exact hext h
    · refine .next (hext (route_self hfwd hs)) hc .refl fun t ht hlead => ?_
      exact Leads.le hfwd (hs.tail ht) hlead

theorem seenBefore_succ : SeenBefore succ c y ↔
    SeenBefore succ s y ∨ ∃ t ∈ succ s, c < t ∧ Leads succ t y := by
  have hlt := hfwd s hs c hc
  constructor
  · rintro ⟨n, t, hroute, hne, ht, hbehind, hlead⟩
    have hroute' := ((route_succ hfwd hs hc hnew).mp hroute).resolve_right hne
    by_cases heq : n = s
    · subst heq
      exact .inr ⟨t, ht, hbehind c hc .refl, hlead⟩
    · exact .inl ⟨n, t, hroute', heq, ht, fun d hd hleadd => hbehind d hd (hleadd.tail hc), hlead⟩
  · rintro (⟨n, t, hroute, hne, ht, hbehind, hlead⟩ | ⟨t, ht, hct, hlead⟩)
    · have hle := Leads.le hfwd hroute.reached (hroute.leads hs)
      refine ⟨n, t, (route_succ hfwd hs hc hnew).mpr (.inl hroute), by omega, ht, ?_, hlead⟩
      intro d hd hleadd
      -- otherwise `d` is behind `t`, and the search has visited `c` on the way through it
      by_contra hge
      exact hnew (.inr ⟨n, d, hroute, hne, hd, fun d' hd' hleadd' =>
        (hbehind d' hd' hleadd').trans_le (not_lt.mp hge), hleadd⟩)
    · refine ⟨s, t, (route_succ hfwd hs hc hnew).mpr (.inl (route_self hfwd hs)), hlt.ne, ht, ?_,
        hlead⟩
      exact fun d hd hleadd => (Leads.le hfwd (hs.tail hd) hleadd).trans_lt hct

/-- At an unvisited successor the node itself is visited too, and what its larger successors lead
    to. -/
theorem done_succ : Done succ c y ↔
    Done succ s y ∨ y = s ∨ ∃ t ∈ succ s, c < t ∧ Leads succ t y := by
  have hlt := hfwd s hs c hc
  have hroute : Route succ c y ∧ y ≠ c ↔ Route succ s y ∧ y ≠ s ∨ y = s := by
    rw [route_succ hfwd hs hc hnew]
    constructor
    · rintro ⟨h, hne⟩
      by_cases heq : y = s
      · exact .inr heq
      · exact .inl ⟨h.resolve_right hne, heq⟩
    · rintro (⟨h, -⟩ | rfl)
      · have hle := Leads.le hfwd h.reached (h.leads hs)
        exact ⟨.inl h, by omega⟩
      · exact ⟨.inl (route_self hfwd hs), hlt.ne⟩
  rw [Done, hroute, seenBefore_succ hfwd hs hc hnew, Done]
  tauto

end

theorem seenBefore_of_done (hs : Leads succ 0 s) (hc : c ∈ succ s) (h : Done succ s c) :
    SeenBefore succ s c := by
  refine h.resolve_left fun hroute => ?_
  have hle := Leads.le hfwd (hs.tail hc) (hroute.1.leads hs)
  exact absurd (hfwd s hs c hc) hle.not_gt

/-- What a visited successor leads to is visited. -/
theorem Done.closed (hs : Leads succ 0 s) (hc : c ∈ succ s) (h : Done succ s c)
    (hlead : Leads succ c y) : Done succ s y := by
  obtain ⟨n, t, hroute, hne, ht, hbehind, hlead'⟩ := seenBefore_of_done hfwd hs hc h
  exact .inr ⟨n, t, hroute, hne, ht, hbehind, hlead'.trans hlead⟩

/-- **One round of the search.**  The unvisited successors of the node on top are pushed, the
    largest one last. -/
theorem chain_push {fresh stack : List Nat} (hs : Leads succ 0 s)
    (hfresh : ∀ t, t ∈ fresh ↔ t ∈ succ s ∧ ¬ Done succ s t) (hsorted : fresh.Pairwise (· < ·))
    (h : Chain succ (s :: stack)) :
    Chain succ (fresh.reverse ++ stack) ∧
      ∀ y, Before succ (fresh.reverse ++ stack) y ↔ Done succ s y ∨ y = s := by
  -- the claim for the successors from some point on, over what was pushed before
  suffices hpush : ∀ l pre stack', fresh = pre ++ l → Chain succ stack' →
      (∀ y, Before succ stack' y ↔ Done succ s y ∨ y = s ∨ ∃ t ∈ l, Leads succ t y) →
      Chain succ (l.reverse ++ stack') ∧
        ∀ y, Before succ (l.reverse ++ stack') y ↔ Done succ s y ∨ y = s by
    refine hpush fresh [] stack rfl h.2 fun y => ?_
    rw [h.1 y, leads_iff]
    constructor
    · rintro (hdone | rfl | ⟨t, ht, hlead⟩)
      · exact .inl hdone
      · exact .inr (.inl rfl)
      · by_cases hseen : Done succ s t
        · exact .inl (hseen.closed hfwd hs ht hlead)
        · exact .inr (.inr ⟨t, (hfresh t).mpr ⟨ht, hseen⟩, hlead⟩)
    · rintro (hdone | rfl | ⟨t, ht, hlead⟩)
      · exact .inl hdone
      · exact .inr (.inl rfl)
      · exact .inr (.inr ⟨t, ((hfresh t).mp ht).1, hlead⟩)
  intro l
  induction l with
  | nil =>
    intro pre stack' _ hchain hbefore
    exact ⟨hchain, fun y => by simpa using hbefore y⟩
  | cons c l ih =>
    intro pre stack' hsplit hchain hbefore
    obtain ⟨hc, hnew⟩ := (hfresh c).mp (hsplit ▸ by simp)
    have hbehind (y : Nat) : Done succ c y ↔ Done succ s y ∨ y = s ∨ ∃ t ∈ l, Leads succ t y := by
      rw [done_succ hfwd hs hc hnew]
      have hparts := pairwise_append.mp (hsplit ▸ hsorted)
      refine or_congr_right' fun hnot => or_congr_right ?_
      constructor
      · rintro ⟨t, ht, hct, hlead⟩
        have hmem : t ∈ pre ++ c :: l :=
          hsplit ▸ (hfresh t).mpr ⟨ht, fun hseen => hnot (hseen.closed hfwd hs ht hlead)⟩
        rcases mem_append.mp hmem with hpre | hl
        · exact absurd (hparts.2.2 t hpre c mem_cons_self) hct.not_gt
        · exact ⟨t, (mem_cons.mp hl).resolve_left hct.ne', hlead⟩
      · rintro ⟨t, ht, hlead⟩
        have hmem : t ∈ fresh := hsplit ▸ mem_append_right pre (mem_cons_of_mem c ht)
        exact ⟨t, ((hfresh t).mp hmem).1, (pairwise_cons.mp hparts.2.1).1 t ht, hlead⟩
    rw [reverse_cons, append_assoc]
    refine ih (pre ++ [c]) (c :: stack') (by simp [hsplit]) ⟨fun y => ?_, hchain⟩ hbehind
    rw [hbefore, hbehind]
    simp only [mem_cons, exists_eq_or_imp]
    grind

end

end TrainOS.ForwardSearch
