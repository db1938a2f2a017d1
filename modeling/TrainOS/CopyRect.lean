import Mathlib.Data.List.Basic
import Mathlib.Tactic.Linarith

/-!
# Copying a rectangle of the screen (`device/framebuffer.rs`)

`copy_rect` copies pixel after pixel in place.  The rows go from the last to the first if the
target lies below the source, so that no pixel is overwritten before it is read.  The columns
always go from left to right: a copy to the right within its rows repeats what it has written
(`copy_rect_moves_iff`).
-/

namespace TrainOS.Graphics

open Function List

section Copies

variable {κ α : Type*} [DecidableEq κ]

/-- Copies made one after another, each from its second component to its first. -/
def copyAll (copies : List (κ × κ)) (m : κ → α) : κ → α :=
  copies.foldl (fun m c => update m c.1 (m c.2)) m

variable {copies : List (κ × κ)} {c : κ × κ} {k : κ} {m : κ → α}

theorem copyAll_of_not_mem (h : ∀ c ∈ copies, c.1 ≠ k) : copyAll copies m k = m k := by
  induction copies generalizing m with
  | nil => rfl
  | cons a copies ih =>
    obtain ⟨ha, h⟩ := forall_mem_cons.mp h
    exact (ih h).trans (update_of_ne ha.symm _ _)

/-- A target receives what its source held, unless an earlier copy has written there. -/
theorem copyAll_of_mem (hc : c ∈ copies) (h : copies.Pairwise fun a b => a.1 ≠ b.1)
    (hsource : copies.Pairwise fun a b => b = c → a.1 ≠ c.2) : copyAll copies m c.1 = m c.2 := by
  induction copies generalizing m with
  | nil => cases hc
  | cons a copies ih =>
    obtain ⟨ha, h⟩ := pairwise_cons.mp h
    obtain ⟨hbefore, hsource⟩ := pairwise_cons.mp hsource
    by_cases hin : c ∈ copies
    · exact (ih hin h hsource).trans (update_of_ne (hbefore c hin rfl).symm _ _)
    · obtain rfl := (mem_cons.mp hc).resolve_right hin
      exact (copyAll_of_not_mem fun b hb => (ha b hb).symm).trans (update_self _ _ _)

end Copies

/-- The size of a framebuffer.  Its pixels have different 32-bit offsets, and are named by their
    positions. -/
structure ScreenSize where
  width : Nat
  height : Nat
  width_pos : 0 < width
  height_pos : 0 < height
  size_lt : width * 4 * height < 2 ^ 32

/-- The colours of the pixels. -/
abbrev Content := Nat × Nat → UInt32

/-- One round of the inner loop. -/
def copyPixel (s : ScreenSize) (sx sy dx dy : Nat) (m : Content) (cell : Nat × Nat) : Content :=
  let srcX := (sx + cell.1) % 2 ^ 32
  let srcY := (sy + cell.2) % 2 ^ 32
  let dstX := (dx + cell.1) % 2 ^ 32
  let dstY := (dy + cell.2) % 2 ^ 32
  if srcX < s.width ∧ dstX < s.width ∧ srcY < s.height ∧ dstY < s.height then
    update m (dstX, dstY) (m (srcX, srcY))
  else m

/-- Going up, the row is a signed number. -/
def rowOrder (sy dy rows : Nat) : List Nat :=
  if sy < dy then if rows ≤ 2 ^ 31 then (range rows).reverse else [] else range rows

/-- The columns and rows in the order in which the loops visit them. -/
def cells (sy dy cols rows : Nat) : List (Nat × Nat) :=
  (rowOrder sy dy rows).flatMap fun row => (range cols).map fun col => (col, row)

def copyRect (s : ScreenSize) (sx sy dx dy w h : Nat) (m : Content) : Content :=
  if w = 0 ∨ h = 0 then m
  else
    let cols := (min ((sx + w) % 2 ^ 32) s.width + 2 ^ 32 - sx) % 2 ^ 32
    let rows := (min ((sy + h) % 2 ^ 32) s.height + 2 ^ 32 - sy) % 2 ^ 32
    (cells sy dy cols rows).foldl (copyPixel s sx sy dx dy) m

/-- The target shows what the source showed, and every other pixel is as it was. -/
def Moved (sx sy dx dy w h : Nat) (m m' : Content) : Prop :=
  ∀ x y, m' (x, y) =
    if dx ≤ x ∧ x < dx + w ∧ dy ≤ y ∧ y < dy + h then m (sx + (x - dx), sy + (y - dy))
    else m (x, y)

variable {s : ScreenSize} {sx sy dx dy w h : Nat} {m : Content}

theorem ScreenSize.small (s : ScreenSize) : s.width < 2 ^ 30 ∧ s.height < 2 ^ 30 := by
  constructor <;> nlinarith [s.width_pos, s.height_pos, s.size_lt]

/-- The copies of a rectangle inside the screen. -/
def rectCopies (sx sy dx dy w h : Nat) : List ((Nat × Nat) × Nat × Nat) :=
  (cells sy dy w h).map fun c => ((dx + c.1, dy + c.2), sx + c.1, sy + c.2)

theorem mem_cells {c : Nat × Nat} (hh : h < 2 ^ 30) : c ∈ cells sy dy w h ↔ c.1 < w ∧ c.2 < h := by
  rw [cells, rowOrder, if_pos (show h ≤ 2 ^ 31 by omega)]
  split <;> simp [Prod.ext_iff, and_comm]

/-- Of two cells the first is further left in the row, or in a row that is visited before. -/
theorem pairwise_cells : (cells sy dy w h).Pairwise fun c c' =>
      c.2 = c'.2 ∧ c.1 < c'.1 ∨ if sy < dy then c'.2 < c.2 else c.2 < c'.2 := by
  rw [cells, pairwise_flatMap]
  refine ⟨fun row _ => pairwise_map.mpr (pairwise_lt_range.imp fun hlt => .inl ⟨rfl, hlt⟩), ?_⟩
  unfold rowOrder
  split
  · split
    · exact pairwise_reverse.mpr (pairwise_lt_range.imp (by simp +contextual))
    · exact .nil
  · exact pairwise_lt_range.imp (by simp +contextual)

section Inside

variable (hsrc : sx + w ≤ s.width ∧ sy + h ≤ s.height)
  (hdst : dx + w ≤ s.width ∧ dy + h ≤ s.height)
include hsrc hdst

theorem copyRect_eq : copyRect s sx sy dx dy w h m = copyAll (rectCopies sx sy dx dy w h) m := by
  have hsmall := s.small
  have hcols : (min ((sx + w) % 2 ^ 32) s.width + 2 ^ 32 - sx) % 2 ^ 32 = w := by omega
  have hrows : (min ((sy + h) % 2 ^ 32) s.height + 2 ^ 32 - sy) % 2 ^ 32 = h := by omega
  rw [copyRect, rectCopies, copyAll, foldl_map, hcols, hrows]
  split
  case isTrue hzero =>
    have hnil : cells sy dy w h = [] := eq_nil_iff_forall_not_mem.mpr fun c hc => by
      have := (mem_cells (by omega)).mp hc
      omega
    rw [hnil, foldl_nil]
  case isFalse hpos =>
    refine foldl_ext _ _ _ fun m c hc => ?_
    have := (mem_cells (by omega)).mp hc
    rw [copyPixel, Nat.mod_eq_of_lt (by omega), Nat.mod_eq_of_lt (by omega),
      Nat.mod_eq_of_lt (by omega), Nat.mod_eq_of_lt (by omega), if_pos (by omega)]

/-- **`copy_rect` is a move** of every rectangle inside the screen unless the target lies to the
    right of the source, in the same rows, and overlaps it. -/
theorem copy_rect_moves_iff :
    (∀ m, Moved sx sy dx dy w h m (copyRect s sx sy dx dy w h m)) ↔
      ¬ (sy = dy ∧ 0 < h ∧ sx < dx ∧ dx < sx + w) := by
  have htargets : (rectCopies sx sy dx dy w h).Pairwise fun a b => a.1 ≠ b.1 := by
    refine pairwise_map.mpr (pairwise_cells.imp fun hlt heq => ?_)
    rw [Prod.mk.injEq] at heq
    split at hlt <;> omega
  have hsmall := s.small
  simp only [copyRect_eq hsrc hdst]
  constructor
  · rintro hmoved ⟨rfl, hh, hlt, hover⟩
    -- the first copy writes the pixel that a later one of its row reads
    have hmoved := hmoved (fun p => if p = (sx, sy) then 1 else 0) (dx + (dx - sx)) sy
    rw [if_pos (by omega)] at hmoved
    have hc : ((dx + (dx - sx), sy), dx, sy) ∈ rectCopies sx sy dx sy w h :=
      mem_map.mpr ⟨(dx - sx, 0), (mem_cells (by omega)).mpr (by simp; omega), by simp; omega⟩
    obtain ⟨rest, hrest⟩ : ∃ rest, rectCopies sx sy dx sy w h = ((dx, sy), sx, sy) :: rest := by
      obtain ⟨h, rfl⟩ := Nat.exists_eq_add_of_lt hh
      obtain ⟨w, rfl⟩ := Nat.exists_eq_add_of_lt (show 0 < w by omega)
      simp [rectCopies, cells, rowOrder, range_succ_eq_map]
    rw [hrest] at hmoved hc htargets
    obtain ⟨hfirst, htargets⟩ := pairwise_cons.mp htargets
    have hc := (mem_cons.mp hc).resolve_left (by simp; omega)
    have hcopy := hmoved.symm.trans (copyAll_of_mem hc htargets
      (pairwise_of_forall_mem_list fun a ha b _ _ => (hfirst a ha).symm))
    simp at hcopy
    omega
  · intro hnot m x y
    split_ifs with hin
    · have hc : ((x, y), sx + (x - dx), sy + (y - dy)) ∈ rectCopies sx sy dx dy w h :=
        mem_map.mpr ⟨(x - dx, y - dy), (mem_cells (by omega)).mpr (by simp; omega), by simp; omega⟩
      refine copyAll_of_mem hc htargets (pairwise_map.mpr (pairwise_cells.imp ?_))
      intro c c' hlt heq heq'
      simp only [Prod.mk.injEq] at heq heq'
      split at hlt <;> omega
    · refine copyAll_of_not_mem fun c hc heq => hin ?_
      obtain ⟨cell, hcell, rfl⟩ := mem_map.mp hc
      have := (mem_cells (by omega)).mp hcell
      simp only [Prod.mk.injEq] at heq
      omega

end Inside

theorem copy_rect_moves_down : ∃ s : ScreenSize, s.width = 1024 ∧
      ∀ m, Moved 0 0 8 8 16 16 m (copyRect s 0 0 8 8 16 16 m) :=
  ⟨⟨1024, 768, by decide, by decide, by decide⟩, rfl,
    (copy_rect_moves_iff (by decide) (by decide)).mpr (by decide)⟩

/-- Three pixels in a row: the first one is copied over both others. -/
theorem copy_rect_repeats : ¬ Moved 0 0 1 0 2 1 (fun p => .ofNat p.1)
      (copyRect ⟨3, 1, by decide, by decide, by decide⟩ 0 0 1 0 2 1 fun p => .ofNat p.1) :=
  fun h => absurd (h 2 0) (by decide)

end TrainOS.Graphics
