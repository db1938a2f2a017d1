import Mathlib.Data.List.Basic

/-!
# Radix tables in a heap of frames

A multi-level table is a family of frames of entries; an entry is empty, a leaf, or a branch to
another frame.  A lookup follows branches along a list of indices to the first leaf.  Every
frame is owned by one root and one path: a write is seen only by lookups of that root along
that path (`lookup_write`), a fresh frame only below its entry (`lookup_attach`), and a cleared
one under an empty entry by nobody (`lookup_graft`).
-/

namespace TrainOS.RadixTable

open List

variable {ρ φ ι ν : Type*}

/-- An entry of a frame. -/
inductive Entry (φ ν : Type*) where
  | empty
  | leaf (v : ν)
  | branch (f : φ)

/-- The contents of all frames. -/
abbrev Heap (φ ι ν : Type*) := φ → ι → Entry φ ν

/-- Follow the indices from frame `f`; the result is the first leaf met and the
    indices left over. -/
def lookup (h : Heap φ ι ν) : φ → List ι → Option (ν × List ι)
  | _, [] => none
  | f, i :: is =>
      match h f i with
      | .empty => none
      | .leaf v => some (v, is)
      | .branch g => lookup h g is

variable {h h' : Heap φ ι ν} {f g : φ} {i : ι} {v : ν}

@[simp] theorem lookup_nil (h : Heap φ ι ν) (f : φ) : lookup h f [] = none := rfl

theorem lookup_empty (is : List ι) (he : h f i = .empty) : lookup h f (i :: is) = none := by
  simp [lookup, he]

theorem lookup_leaf (is : List ι) (he : h f i = .leaf v) : lookup h f (i :: is) = some (v, is) := by
  simp [lookup, he]

theorem lookup_branch (is : List ι) (he : h f i = .branch g) :
    lookup h f (i :: is) = lookup h g is := by
  simp [lookup, he]

variable {is rest q : List ι}

theorem lookup_cons_eq_some : lookup h f (i :: is) = some (v, rest) ↔
      (h f i = .leaf v ∧ is = rest) ∨ ∃ g, h f i = .branch g ∧ lookup h g is = some (v, rest) := by
  cases hentry : h f i <;> simp [lookup, hentry]

theorem lookup_append (hl : lookup h f is = some (v, [])) (rest : List ι) :
    lookup h f (is ++ rest) = some (v, rest) := by
  induction is generalizing f with
  | nil => cases hl
  | cons i is ih =>
    rcases lookup_cons_eq_some.mp hl with ⟨hleaf, rfl⟩ | ⟨g, hbranch, hl⟩
    · exact lookup_leaf rest hleaf
    · exact (lookup_branch _ hbranch).trans (ih hl)

/-- One step of a lookup sees one entry. -/
theorem lookup_cons_congr {k : φ} (he : h' k i = h f i)
    (hrest : ∀ g, h f i = .branch g → lookup h' g is = lookup h g is) :
    lookup h' k (i :: is) = lookup h f (i :: is) := by
  simp only [lookup, he]
  cases hentry : h f i with
  | empty => rfl
  | leaf v => rfl
  | branch g => exact hrest g hentry

theorem lookup_cleared (hf : ∀ i, h f i = .empty) (is : List ι) : lookup h f is = none := by
  cases is with
  | nil => rfl
  | cons i is => exact lookup_empty is (hf i)

theorem lookup_rest_lt (hl : lookup h f is = some (v, rest)) : rest.length < is.length := by
  induction is generalizing f with
  | nil => cases hl
  | cons i is ih =>
    rcases lookup_cons_eq_some.mp hl with ⟨_, rfl⟩ | ⟨g, _, hl⟩
    · exact Nat.lt_succ_self _
    · exact Nat.lt_succ_of_lt (ih hl)

def frameAt (h : Heap φ ι ν) : φ → List ι → Option φ
  | f, [] => some f
  | f, i :: is =>
      match h f i with
      | .branch g => frameAt h g is
      | _ => none

@[simp] theorem frameAt_nil (h : Heap φ ι ν) (f : φ) : frameAt h f [] = some f := rfl

theorem frameAt_cons :
    frameAt h f (i :: is) = some g ↔ ∃ k, h f i = .branch k ∧ frameAt h k is = some g := by
  cases hentry : h f i <;> simp [frameAt, hentry]

theorem frameAt_snoc :
    frameAt h f (is ++ [i]) = some g ↔ ∃ k, frameAt h f is = some k ∧ h k i = .branch g := by
  induction is generalizing f with
  | nil => cases hentry : h f i <;> simp [frameAt, hentry]
  | cons j is ih =>
    simp only [cons_append, frameAt_cons, ih]
    constructor
    · rintro ⟨k, hk, k', hk', hg⟩
      exact ⟨k', ⟨k, hk, hk'⟩, hg⟩
    · rintro ⟨k', ⟨k, hk, hk'⟩, hg⟩
      exact ⟨k, hk, k', hk', hg⟩

theorem frameAt_append (hg : frameAt h f q = some g) (is : List ι) :
    frameAt h f (q ++ is) = frameAt h g is := by
  induction q generalizing f with
  | nil =>
    cases hg
    rfl
  | cons i q ih =>
    obtain ⟨k, hk, hrest⟩ := frameAt_cons.mp hg
    simp only [cons_append, frameAt, hk]
    exact ih hrest

theorem frameAt_append_none (hq : frameAt h f q = none) (is : List ι) :
    frameAt h f (q ++ is) = none := by
  induction q generalizing f with
  | nil => cases hq
  | cons i q ih =>
    simp only [cons_append, frameAt] at hq ⊢
    cases hentry : h f i with
    | empty => rfl
    | leaf v => rfl
    | branch k =>
      rw [hentry] at hq
      exact ih hq

theorem lookup_frameAt (hg : frameAt h f q = some g) (is : List ι) :
    lookup h f (q ++ is) = lookup h g is := by
  induction q generalizing f with
  | nil =>
    cases hg
    rfl
  | cons i q ih =>
    obtain ⟨k, hk, hg'⟩ := frameAt_cons.mp hg
    rw [cons_append, lookup_branch _ hk]
    exact ih hg'

/-- A lookup sees the entries along its path only. -/
theorem lookup_congr_path
    (hsame : ∀ q j g, q ++ [j] <+: is → frameAt h f q = some g → h' g j = h g j) :
    lookup h' f is = lookup h f is := by
  induction is generalizing f with
  | nil => rfl
  | cons i is ih =>
    refine lookup_cons_congr (hsame [] i f ⟨is, rfl⟩ rfl) fun k hk => ih fun q j g hpre hg => ?_
    exact hsame (i :: q) j g ((prefix_cons_inj i).mpr hpre) (frameAt_cons.mpr ⟨k, hk, hg⟩)

theorem lookup_congr_frames
    (hsame : ∀ q g, q <+: is → q.length < is.length → frameAt h f q = some g →
      ∀ i, h' g i = h g i) :
    lookup h' f is = lookup h f is := by
  refine lookup_congr_path fun q j g hpre hg => ?_
  have hlen := hpre.length_le
  rw [length_append] at hlen
  exact hsame q g ((prefix_append q [j]).trans hpre) hlen hg j

theorem frameAt_congr_path
    (hsame : ∀ q j g, q ++ [j] <+: is → frameAt h f q = some g → h' g j = h g j) :
    frameAt h' f is = frameAt h f is := by
  induction is generalizing f with
  | nil => rfl
  | cons i is ih =>
    simp only [frameAt, hsame [] i f ⟨is, rfl⟩ rfl]
    cases hentry : h f i with
    | empty => rfl
    | leaf v => rfl
    | branch k =>
      refine ih fun q j g hpre hg => ?_
      exact hsame (i :: q) j g ((prefix_cons_inj i).mpr hpre)
        (frameAt_cons.mpr ⟨k, hentry, hg⟩)

theorem frameAt_congr
    (hsame : ∀ q g, q.length < is.length → frameAt h f q = some g → ∀ i, h' g i = h g i) :
    frameAt h' f is = frameAt h f is := by
  refine frameAt_congr_path fun q j g hpre hg => ?_
  have hlen := hpre.length_le
  rw [length_append] at hlen
  exact hsame q g hlen hg j

/-! ### Closed sets of frames -/

/-- The frames of `K` branch only to frames of `K`. -/
def Closed (h : Heap φ ι ν) (K : φ → Prop) : Prop :=
  ∀ f i g, K f → h f i = .branch g → K g

/-- Lookups inside a closed set see only the frames of the set. -/
theorem lookup_congr_closed {K : φ → Prop} (hclosed : Closed h K)
    (hsame : ∀ f, K f → ∀ i, h' f i = h f i) (hf : K f) (is : List ι) :
    lookup h' f is = lookup h f is := by
  induction is generalizing f with
  | nil => rfl
  | cons i is ih => exact lookup_cons_congr (hsame f hf i) fun g hg => ih (hclosed f i g hf hg)

/-! ### Ownership -/

/-- Frame `f` is owned by root `r` at path `p`: `own f = some (r, p)`.  A branch of
    an owned frame leads to the frame owned at the extended path; the frames of the
    last of the `d` levels hold no branches that count. -/
def Owned (d : Nat) (h : Heap φ ι ν) (own : φ → Option (ρ × List ι)) : Prop :=
  ∀ f r p i g, own f = some (r, p) → p.length + 1 < d → h f i = .branch g →
    own g = some (r, p ++ [i])

variable {d : Nat} {own : φ → Option (ρ × List ι)} {r r' : ρ} {p q : List ι} {o : ρ × List ι}

theorem ne_of_fresh (hfresh : own g = none) (hf : own f = some o) : f ≠ g := by
  rintro rfl
  rw [hf] at hfresh
  cases hfresh

/-- The frames of an owned root are owned at their paths. -/
theorem Owned.frameAt (howned : Owned d h own) (hf : own f = some (r, p))
    (hlevel : p.length + q.length < d) (hg : frameAt h f q = some g) :
    own g = some (r, p ++ q) := by
  induction q generalizing f p with
  | nil =>
    cases hg
    rw [append_nil]
    exact hf
  | cons i q ih =>
    obtain ⟨k, hk, hg'⟩ := frameAt_cons.mp hg
    rw [length_cons] at hlevel
    have hkown := howned f r p i k hf (by omega) hk
    have hown := ih hkown (by simp; omega) hg'
    rwa [append_assoc, singleton_append] at hown

theorem lookup_congr_owned (howned : Owned d h own)
    (hsame : ∀ f o, own f = some o → ∀ i, h' f i = h f i) (hf : own f = some (r, q))
    (hdepth : q.length + is.length ≤ d) : lookup h' f is = lookup h f is :=
  lookup_congr_frames fun q' g _ hq' hg => hsame g _ (howned.frameAt hf (by omega) hg)

variable {j : ι} {k : φ}

/-- An entry along another path is another entry. -/
theorem Owned.entry_ne (howned : Owned d h own) (hf : own f = some (r, p))
    (hg : own g = some (r', q)) (hdepth : q.length + is.length ≤ d)
    (hother : r' ≠ r ∨ ¬ p ++ [i] <+: q ++ is) {q' : List ι}
    (hpre : q' ++ [j] <+: is) (hk : RadixTable.frameAt h g q' = some k) : ¬ (k = f ∧ j = i) := by
  rintro ⟨rfl, rfl⟩
  have hlen := hpre.length_le
  rw [length_append] at hlen
  have hown := howned.frameAt hg (Nat.lt_of_lt_of_le (Nat.add_lt_add_left hlen _) hdepth) hk
  cases hf.symm.trans hown
  rcases hother with hne | hnot
  · exact hne rfl
  · rw [append_assoc] at hnot
    exact hnot ((prefix_append_right_inj q).mpr hpre)

variable [DecidableEq φ]

def overwrite (h : Heap φ ι ν) (f : φ) (c : ι → Entry φ ν) : Heap φ ι ν :=
  fun g j => if g = f then c j else h g j

theorem overwrite_self (h : Heap φ ι ν) (f : φ) (c : ι → Entry φ ν) (i : ι) :
    overwrite h f c f i = c i := by
  simp [overwrite]

theorem overwrite_of_ne {c : ι → Entry φ ν} (hne : g ≠ f) : overwrite h f c g i = h g i := by
  simp [overwrite, hne]

def clear (h : Heap φ ι ν) (f : φ) : Heap φ ι ν := overwrite h f fun _ => .empty

theorem clear_self (h : Heap φ ι ν) (f : φ) (i : ι) : clear h f f i = .empty :=
  overwrite_self h f _ i

theorem clear_of_ne (hne : g ≠ f) : clear h f g i = h g i :=
  overwrite_of_ne hne

variable {c : ι → Entry φ ν}

theorem Owned.overwrite (howned : Owned d h own) (hfresh : own g = none) :
    Owned d (overwrite h g c) own := by
  intro f r p i k hf hlevel hbranch
  rw [overwrite_of_ne (ne_of_fresh hfresh hf)] at hbranch
  exact howned f r p i k hf hlevel hbranch

/-- The owners after frame `g` was hung under entry `i` of frame `f`. -/
def graftOwn (own : φ → Option (ρ × List ι)) (f : φ) (i : ι) (g : φ) :
    φ → Option (ρ × List ι) :=
  fun k => if k = g then (own f).map fun o => (o.1, o.2 ++ [i]) else own k

theorem graftOwn_self (hf : own f = some (r, p)) : graftOwn own f i g g = some (r, p ++ [i]) := by
  simp [graftOwn, hf]

theorem graftOwn_of_owned (hfresh : own g = none) (hk : own k = some o) :
    graftOwn own f i g k = some o := by
  simp [graftOwn, if_neg (ne_of_fresh hfresh hk), hk]

variable [DecidableEq ι]

def write (h : Heap φ ι ν) (f : φ) (i : ι) (e : Entry φ ν) : Heap φ ι ν :=
  fun g j => if g = f ∧ j = i then e else h g j

def attach (h : Heap φ ι ν) (f : φ) (i : ι) (g : φ) (c : ι → Entry φ ν) : Heap φ ι ν :=
  write (overwrite h g c) f i (.branch g)

@[simp] theorem write_self (h : Heap φ ι ν) (f : φ) (i : ι) (e : Entry φ ν) :
    write h f i e f i = e := by
  simp [write]

variable {e : Entry φ ν}

theorem write_of_frame_ne (hne : g ≠ f) : write h f i e g j = h g j := by
  simp [write, hne]

theorem write_of_ne (hne : ¬ (g = f ∧ j = i)) : write h f i e g j = h g j :=
  if_neg hne

/-- **Frame rule.**  A write to an owned frame is seen only by lookups of the same
    root along the path of the written entry. -/
theorem lookup_write (howned : Owned d h own) (hf : own f = some (r, p)) (hg : own g = some (r', q))
    (hdepth : q.length + is.length ≤ d) (hother : r' ≠ r ∨ ¬ p ++ [i] <+: q ++ is) :
    lookup (write h f i e) g is = lookup h g is :=
  lookup_congr_path fun _ _ _ hpre hk =>
    write_of_ne (howned.entry_ne hf hg hdepth hother hpre hk)

/-- Writing a branch to the frame owned at the extended path, or no branch at all,
    keeps the ownership. -/
theorem Owned.write (howned : Owned d h own)
    (hleaf : ∀ g r p, e = .branch g → own f = some (r, p) → p.length + 1 < d →
      own g = some (r, p ++ [i])) :
    Owned d (write h f i e) own := by
  intro f' r p j g hf hlevel hentry
  by_cases hsame : f' = f ∧ j = i
  · obtain ⟨rfl, rfl⟩ := hsame
    rw [write_self] at hentry
    exact hleaf g r p hentry hf hlevel
  · rw [write_of_ne hsame] at hentry
    exact howned f' r p j g hf hlevel hentry

/-! ### Attaching a frame -/

theorem attach_frame (hfresh : own g = none) (hf : own f = some (r, p)) (j : ι) :
    attach h f i g c g j = c j := by
  rw [attach, write_of_frame_ne (ne_of_fresh hfresh hf).symm, overwrite_self]

theorem attach_of_ne (hkg : k ≠ g) (hne : ¬ (k = f ∧ j = i)) : attach h f i g c k j = h k j := by
  simp [attach, write, if_neg hne, overwrite_of_ne hkg]

section

variable (howned : Owned d h own)
include howned

section

variable (hf : own f = some (r, p)) (hfresh : own g = none)
include hf hfresh

/-- Attaching a fresh frame without branches keeps the ownership. -/
theorem Owned.attach (hc : ∀ j k, c j ≠ .branch k) :
    Owned d (attach h f i g c) (graftOwn own f i g) := by
  intro k r' q j k' hk hlevel hentry
  by_cases hkg : k = g
  · subst hkg
    rw [attach_frame hfresh hf] at hentry
    exact absurd hentry (hc j k')
  · have hkown : own k = some (r', q) := by
      simpa only [graftOwn, if_neg hkg] using hk
    by_cases hsame : k = f ∧ j = i
    · obtain ⟨rfl, rfl⟩ := hsame
      rw [RadixTable.attach, write_self] at hentry
      cases hentry
      cases hf.symm.trans hkown
      exact graftOwn_self hf
    · rw [attach_of_ne hkg hsame] at hentry
      exact graftOwn_of_owned hfresh (howned k r' q j k' hkown hlevel hentry)

/-- Attaching a fresh frame is seen only below the entry. -/
theorem lookup_attach (hk : own k = some (r', q)) (hdepth : q.length + is.length ≤ d)
    (hother : r' ≠ r ∨ ¬ p ++ [i] <+: q ++ is) :
    lookup (RadixTable.attach h f i g c) k is = lookup h k is := by
  rw [RadixTable.attach, lookup_write (howned.overwrite hfresh) hf hk hdepth hother]
  apply lookup_congr_owned howned _ hk hdepth
  intro k' o hk' i
  exact overwrite_of_ne (ne_of_fresh hfresh hk')

/-- Attaching a frame moves no table that is not below the entry. -/
theorem frameAt_attach (hk : own k = some (r', q)) (hdepth : q.length + is.length < d)
    (hother : r' ≠ r ∨ ¬ p ++ [i] <+: q ++ is) :
    frameAt (RadixTable.attach h f i g c) k is = frameAt h k is := by
  refine frameAt_congr_path fun q' j k' hpre hk' => ?_
  have hlen := hpre.length_le
  rw [length_append] at hlen
  have hown := howned.frameAt hk (Nat.lt_trans (Nat.add_lt_add_left hlen _) hdepth) hk'
  exact attach_of_ne (ne_of_fresh hfresh hown)
    (howned.entry_ne hf hk (Nat.le_of_lt hdepth) hother hpre hk')

end

/-- **Grafting is invisible.**  Hanging a cleared fresh frame under an empty entry
    changes no lookup from an owned frame. -/
theorem lookup_graft {o' : ρ × List ι}
    (hf : own f = some o) (hfresh : own g = none) (hempty : h f i = .empty)
    (hk : own k = some o') (is : List ι) (hdepth : o'.2.length + is.length ≤ d) :
    lookup (RadixTable.attach h f i g fun _ => .empty) k is = lookup h k is := by
  induction is generalizing k o' with
  | nil => rfl
  | cons j is ih =>
    by_cases hsame : k = f ∧ j = i
    · obtain ⟨rfl, rfl⟩ := hsame
      have hbranch : RadixTable.attach h k j g (fun _ => .empty) k j = .branch g :=
        write_self _ _ _ _
      rw [lookup_empty is hempty, lookup_branch is hbranch]
      exact lookup_cleared (attach_frame hfresh hf) is
    · refine lookup_cons_congr (attach_of_ne (ne_of_fresh hfresh hk) hsame) fun k' hcase => ?_
      cases is with
      | nil => rfl
      | cons j' is =>
        obtain ⟨r, q⟩ := o'
        simp only [length_cons] at hdepth
        apply ih (howned k r q j k' hk (by omega) hcase)
        simp only [length_append, length_cons, length_nil]
        omega

end

end TrainOS.RadixTable
