import Mathlib.Data.List.Pairwise
import TrainOS.DyadicBlocks
import TrainOS.RadixTable

/-!
# What a radix table occupies

A walk over all entries lists the frames of the tables and what the leaves stand for
(`footprint`); it only reads frames of its own list (`footprint_congr`).  Filling an empty entry
with something that occupies `x` adds `x` (`footprint_fill`).
-/

namespace TrainOS.RadixTable

open List

variable {φ ι ν β : Type*}

/-- What one entry occupies, given what its leaf or its subtable does. -/
def Entry.occupies (leaf : ν → List β) (sub : φ → List β) : Entry φ ν → List β
  | .empty => []
  | .leaf v => leaf v
  | .branch f => sub f

section Footprint

variable (all : List ι) (leaf : Nat → ν → List β) (frame : φ → β)

/-- The table at `f` with `d` levels of tables below it.  A leaf of level `d` occupies `leaf d`;
    a branch of the lowest level is not followed. -/
def footprint (h : Heap φ ι ν) : Nat → φ → List β
  | 0, f => all.flatMap (fun i => (h f i).occupies (leaf 0) fun _ => []) ++ [frame f]
  | d + 1, f => all.flatMap (fun i => (h f i).occupies (leaf (d + 1)) (footprint h d)) ++ [frame f]

def below (h : Heap φ ι ν) : Nat → φ → List β
  | 0 => fun _ => []
  | d + 1 => footprint all leaf frame h d

end Footprint

variable {all : List ι} {leaf : Nat → ν → List β} {frame : φ → β} {h h' : Heap φ ι ν} {d : Nat}
  {f g t : φ} {i : ι} {x : β}

theorem footprint_eq : footprint all leaf frame h d f =
    all.flatMap (fun i => (h f i).occupies (leaf d) (below all leaf frame h d)) ++ [frame f] := by
  cases d <;> rfl

theorem frame_mem_footprint : frame f ∈ footprint all leaf frame h d f := by
  rw [footprint_eq]
  exact mem_append_right _ (mem_singleton_self _)

theorem below_subset (hi : i ∈ all) (hbranch : h f i = .branch g) :
    below all leaf frame h d g ⊆ footprint all leaf frame h d f := by
  intro y hy
  rw [footprint_eq]
  refine mem_append_left _ (mem_flatMap.mpr ⟨i, hi, ?_⟩)
  rw [hbranch]
  exact hy

/-- Entries that agree, with subtables that do not change, occupy the same. -/
theorem occupies_congr {e : Entry φ ν} {lf : ν → List β} {sub sub' : φ → List β}
    (hsub : ∀ g, e = .branch g → sub' g = sub g) : e.occupies lf sub' = e.occupies lf sub := by
  cases e with
  | empty => rfl
  | leaf v => rfl
  | branch g => exact hsub g rfl

theorem footprint_congr
    (hsame : ∀ g, frame g ∈ footprint all leaf frame h d f → ∀ i, h' g i = h g i) :
    footprint all leaf frame h' d f = footprint all leaf frame h d f := by
  induction d generalizing f with
  | zero =>
    rw [footprint_eq, footprint_eq]
    congr 1
    refine flatMap_congr fun i _ => ?_
    rw [hsame f frame_mem_footprint i]
    rfl
  | succ d ih =>
    rw [footprint_eq, footprint_eq]
    congr 1
    refine flatMap_congr fun i hi => ?_
    rw [hsame f frame_mem_footprint i]
    refine occupies_congr fun g hbranch => ih fun k hk j => ?_
    exact hsame k (below_subset hi hbranch hk) j

theorem below_congr (hsame : ∀ k, frame k ∈ below all leaf frame h d g → ∀ i, h' k i = h k i) :
    below all leaf frame h' d g = below all leaf frame h d g := by
  cases d with
  | zero => rfl
  | succ d => exact footprint_congr hsame

variable {path l : List ι}

theorem frame_mem_of_frameAt (hall : ∀ i, i ∈ all) (hpath : frameAt h f path = some t)
    (hd : path.length ≤ d) : frame t ∈ footprint all leaf frame h d f := by
  induction path generalizing f d with
  | nil =>
    obtain rfl : f = t := Option.some.inj hpath
    exact frame_mem_footprint
  | cons j path ih =>
    obtain ⟨g, hbranch, hrest⟩ := frameAt_cons.mp hpath
    cases d with
    | zero => cases hd
    | succ d => exact below_subset (hall j) hbranch (ih hrest (Nat.le_of_succ_le_succ hd))

variable {F : ι → List β}

theorem perm_flatMap_of_cons {F' : ι → List β} (hnodup : l.Nodup) (hi : i ∈ l)
    (hcons : (F' i).Perm (x :: F i)) (hothers : ∀ j ∈ l, j ≠ i → F' j = F j) :
    (l.flatMap F').Perm (x :: l.flatMap F) :=
  DyadicBlocks.flatMap_perm_of_change hnodup hi hothers (show [] ++ F' i ~ [x] ++ F i from hcons)

/-- The entry `i` of the table `t`, which is found along `path`, was empty and now occupies `x`;
    otherwise the frames of the table are as before. -/
theorem footprint_fill {k : Nat} (hall : ∀ i, i ∈ all) (hindices : all.Nodup)
    (hpath : frameAt h f path = some t) (hd : d = path.length + k)
    (hnodup : (footprint all leaf frame h d f).Nodup) (hempty : h t i = .empty)
    (hsame : ∀ g j, frame g ∈ footprint all leaf frame h d f → ¬ (g = t ∧ j = i) → h' g j = h g j)
    (hfilled : (h' t i).occupies (leaf k) (below all leaf frame h' k) = [x]) :
    (footprint all leaf frame h' d f).Perm (x :: footprint all leaf frame h d f) := by
  induction path generalizing f d with
  | nil =>
    obtain rfl : f = t := Option.some.inj hpath
    obtain rfl : d = k := hd.trans (Nat.zero_add k)
    rw [footprint_eq] at hnodup
    have hlast :
        frame f ∉ all.flatMap fun i => (h f i).occupies (leaf d) (below all leaf frame h d) :=
      fun hmem => (disjoint_of_nodup_append hnodup) hmem (mem_singleton_self _)
    rw [footprint_eq, footprint_eq]
    refine (perm_flatMap_of_cons hindices (hall i) ?_ fun j _ hj => ?_).append_right [frame f]
    · rw [hfilled, hempty]
      exact .refl _
    · rw [hsame f j frame_mem_footprint fun hboth => hj hboth.2]
      refine occupies_congr fun g hbranch => below_congr fun k' hk' l => ?_
      have hmem := below_subset (hall j) hbranch hk'
      refine hsame k' l hmem fun hboth => hlast ?_
      refine mem_flatMap.mpr ⟨j, hall j, ?_⟩
      rw [hbranch, ← hboth.1]
      exact hk'
  | cons j path ih =>
    obtain ⟨g, hbranch, hrest⟩ := frameAt_cons.mp hpath
    obtain ⟨d, rfl⟩ : ∃ d', d = d' + 1 := ⟨path.length + k, by rw [hd, length_cons]; omega⟩
    have hd' : d = path.length + k := by rw [length_cons] at hd; omega
    obtain ⟨hparts, -, hlast⟩ := nodup_append.mp hnodup
    obtain ⟨hpart, hapart⟩ := nodup_flatMap.mp hparts
    have htable : frame t ∈ footprint all leaf frame h d g :=
      frame_mem_of_frameAt hall hrest (hd' ▸ Nat.le_add_right _ _)
    have hpartj : (h f j).occupies (leaf (d + 1)) (below all leaf frame h (d + 1)) =
        footprint all leaf frame h d g := by
      rw [hbranch]
      rfl
    -- the table above `t` is another one, so its entries are as before
    have hft : f ≠ t := by
      rintro rfl
      exact hlast _ (mem_flatMap.mpr ⟨j, hall j, hpartj ▸ htable⟩) _ (mem_singleton_self _) rfl
    have hentry : ∀ l, h' f l = h f l :=
      fun l => hsame f l frame_mem_footprint fun hboth => hft hboth.1
    rw [footprint_eq, footprint_eq]
    refine (perm_flatMap_of_cons hindices (hall j) ?_ fun l _ hl => ?_).append_right [frame f]
    · rw [hentry, hpartj, hbranch]
      refine ih hrest hd' (hpartj ▸ hpart j (hall j)) fun k' l hk' hne => ?_
      exact hsame k' l (below_subset (hall j) hbranch hk') hne
    · rw [hentry]
      refine occupies_congr fun g' hbranch' => below_congr fun k' hk' m => ?_
      refine hsame k' m (below_subset (hall l) hbranch' hk') fun hboth => ?_
      rw [hboth.1] at hk'
      have {F : ι → List β} : Std.Symm (Function.onFun List.Disjoint F) :=
        ⟨fun _ _ hxy _ hx hy => hxy hy hx⟩
      refine hapart.forall (hall l) (hall j) hl (?_ : frame t ∈ _) ?_
      · simp only [hbranch']
        exact hk'
      · simp only [hbranch]
        exact htable

end TrainOS.RadixTable
