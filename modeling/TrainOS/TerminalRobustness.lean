import TrainOS.Terminal

/-!
# The cursor of the terminal

The parser reads behind its array of parameters in one case, an extended colour that starts at
the fifteenth of sixteen parameters (`AnsiParser.feed_eq_none`).  A change of the size may leave
the cursor outside a grid that has shrunk or is empty, and a printed character moves it past the
last column; each action says where it leaves the cursor.  `robust_iff` says for which streams of
bytes and changes of the size the cursor is inside after each byte and no index leaves an array.
-/

namespace TrainOS.Terminal

open List Option

/-! ### When the parser leaves its parameters -/

namespace AnsiParser

/-- The parameters from index `i` on start an extended colour: `38` or `48`, then `5`. -/
def colorAt (p : AnsiParser) (i : Nat) : Bool :=
  (p.param? i = some 38 ∨ p.param? i = some 48) ∧ p.param? (i + 1) = some 5

/-- Index `2 * m` is the number of the extended colour that starts two places before it. -/
def numberAt (p : AnsiParser) : Nat → Bool
  | 0 => false
  | m + 1 => p.colorAt (2 * m) && !p.numberAt m

/-- There are sixteen parameters, and the last two start an extended colour. -/
def Overruns (p : AnsiParser) : Prop :=
  p.paramCount.val = 16 ∧ p.colorAt 14 = true ∧ p.numberAt 7 = false

variable {lighten : Color → Color} {p : AnsiParser} {i : Nat} {action : Option TerminalAction}

theorem param?_of_lt (hi : i < 16) : ∃ v, p.param? i = some v := ⟨_, dif_pos hi⟩

theorem extendedColor_eq_none :
    p.extendedColor lighten i = none ↔
      p.paramCount.val = 16 ∧ i = 14 ∧ p.param? (i + 1) = some 5 := by
  have hcount := p.paramCount.isLt
  unfold extendedColor
  split
  · rename_i hnear
    obtain ⟨kind, hkind⟩ := p.param?_of_lt (i := i + 1) (by omega)
    rw [hkind, bind_some, some_inj]
    split
    · rename_i hfive
      rw [map_eq_none_iff]
      have hbehind : p.param? (i + 2) = none ↔ ¬ i + 2 < 16 := by simp [param?]
      rw [hbehind, hfive]
      exact ⟨fun h => ⟨by omega, by omega, rfl⟩, fun h => by omega⟩
    · rename_i hother
      exact iff_of_false (by simp) fun h => hother h.2.2
  · exact iff_of_false (by simp) (by omega)

theorem extendedColor_isSome {c : Option Color} (h : p.extendedColor lighten i = some c) :
    c.isSome ↔ i + 2 ≤ p.paramCount.val ∧ p.param? (i + 1) = some 5 := by
  unfold extendedColor at h
  split at h
  · rename_i hnear
    obtain ⟨kind, hkind, h⟩ := bind_eq_some_iff.mp h
    split at h
    · rename_i hfive
      obtain ⟨_, _, rfl⟩ := map_eq_some_iff.mp h
      exact iff_of_true rfl ⟨hnear, hfive ▸ hkind⟩
    · rename_i hother
      cases h
      refine iff_of_false (by simp) fun hboth => hother ?_
      exact some_inj.mp (hkind.symm.trans hboth.2)
  · rename_i hfar
    cases h
    exact iff_of_false (by simp) fun hboth => hfar hboth.1

/-- The parameter that a round looks at. -/
theorem sgrRound_value (hi : i ≤ p.paramCount.val) :
    ∃ v, (if i = p.paramCount.val then some p.currentParam else p.param? i) = some v ∧
      (i < p.paramCount.val → p.param? i = some v) := by
  have hcount := p.paramCount.isLt
  by_cases hlast : i = p.paramCount.val
  · exact ⟨_, if_pos hlast, fun h => absurd hlast h.ne⟩
  · obtain ⟨v, hv⟩ := p.param?_of_lt (i := i) (by omega)
    exact ⟨v, (if_neg hlast).trans hv, fun _ => hv⟩

/-- A round reads behind the array only for the number of a colour that starts at the last but
    one parameter of sixteen. -/
theorem sgrRound_eq_none {skip : Nat} (hi : i ≤ p.paramCount.val) :
    p.sgrRound lighten (skip, action) i = none ↔
      skip = 0 ∧ p.paramCount.val = 16 ∧ i = 14 ∧ p.colorAt i = true := by
  cases skip with
  | succ skip => exact iff_of_false (by simp [sgrRound]) (by simp)
  | zero =>
    obtain ⟨v, hv, hparam⟩ := sgrRound_value hi
    simp only [sgrRound, hv, bind_some, true_and]
    calc
      _ ↔ (v = 38 ∨ v = 48) ∧ p.extendedColor lighten i = none := by
        split
        · simp [*]
        · split
          · simp [*]
          · simp [*]
      _ ↔ _ := by
        rw [extendedColor_eq_none]
        constructor
        · rintro ⟨hv', hcount, rfl, hfive⟩
          have hat := hparam (by omega)
          exact ⟨hcount, rfl, by simp [colorAt, hat, hv', hfive]⟩
        · rintro ⟨hcount, rfl, hcolor⟩
          have hat := hparam (by omega)
          simp only [colorAt, hat, some_inj, decide_eq_true_eq] at hcolor
          exact ⟨hcolor.1, hcount, rfl, hcolor.2⟩

/-- A round passes over the next two exactly if a colour starts there. -/
theorem sgrRound_skip {skip : Nat} {action' : Option TerminalAction}
    (hcount : p.paramCount.val = 16) (hi : i + 2 ≤ 16)
    (h : p.sgrRound lighten (0, action) i = some (skip, action')) :
    skip = if p.colorAt i then 2 else 0 := by
  obtain ⟨v, hv, hparam⟩ := sgrRound_value (p := p) (i := i) (by omega)
  have hat := hparam (by omega)
  simp only [sgrRound, hv, bind_some] at h
  have hext {next : Option Color → Nat × Option TerminalAction} (hv' : v = 38 ∨ v = 48)
      (hnone : (next none).1 = 0) (hsome : ∀ c, (next (some c)).1 = 2)
      (hmap : (p.extendedColor lighten i).map next = some (skip, action')) :
      skip = if p.colorAt i then 2 else 0 := by
    obtain ⟨c, hc, hpair⟩ := map_eq_some_iff.mp hmap
    obtain rfl : (next c).1 = skip := congrArg Prod.fst hpair
    have hcolor := extendedColor_isSome hc
    cases c with
    | none =>
      have hplain : ¬ p.param? (i + 1) = some 5 := by simpa [hcount, hi] using hcolor
      simp [colorAt, hplain, hnone]
    | some c =>
      have hfive : p.param? (i + 1) = some 5 := by simpa [hcount, hi] using hcolor
      simp [colorAt, hat, hv', hfive, hsome]
  split at h
  · exact hext (.inl ‹_›) rfl (fun _ => rfl) h
  · split at h
    · exact hext (.inr ‹_›) rfl (fun _ => rfl) h
    · cases h
      simp [colorAt, *]

/-- How many rounds from index `i` on are passed over. -/
def passedOver (p : AnsiParser) : Nat → Nat
  | 0 => 0
  | i + 1 => if p.passedOver i = 0 then if p.colorAt i then 2 else 0 else p.passedOver i - 1

theorem exists_sgrRounds (lighten : Color → Color) (hcount : p.paramCount.val = 16) (hi : i ≤ 14) :
    ∃ action, (range i).foldlM (p.sgrRound lighten) (0, none) =
      some (p.passedOver i, action) := by
  induction i with
  | zero => exact ⟨none, rfl⟩
  | succ i ih =>
    obtain ⟨action, hrun⟩ := ih (by omega)
    rw [range_succ, foldlM_append, hrun]
    simp only [passedOver, bind_eq_bind, bind_some, foldlM_cons, foldlM_nil,
      Option.pure_def, bind_fun_some]
    cases hskip : p.passedOver i with
    | succ skip => exact ⟨action, rfl⟩
    | zero =>
      cases hround : p.sgrRound lighten (0, action) i with
      | none =>
        have hnone := (sgrRound_eq_none (by omega)).mp hround
        omega
      | some x => exact ⟨x.2, by simp [← sgrRound_skip hcount (by omega) hround]⟩

/-- Before an even index the loop has one round to pass over exactly if the index is the number
    of a colour. -/
theorem passedOver_even (p : AnsiParser) (m : Nat) :
    p.passedOver (2 * m) = 0 ∧ p.numberAt m = false ∨
      p.passedOver (2 * m) = 1 ∧ p.numberAt m = true ∨
      p.passedOver (2 * m) = 2 ∧ p.numberAt m = false ∧ p.param? (2 * m) = some 5 := by
  induction m with
  | zero => exact .inl ⟨rfl, rfl⟩
  | succ m ih =>
    have hodd : p.colorAt (2 * m + 1) = true → p.param? (2 * m + 2) = some 5 := fun h => by
      simp only [colorAt, decide_eq_true_eq] at h
      exact h.2
    have hfive : p.param? (2 * m) = some 5 → p.colorAt (2 * m) = false := fun h => by
      simp [colorAt, h]
    simp only [Nat.mul_succ, passedOver, numberAt]
    rcases ih with ⟨hskip, hnumber⟩ | ⟨hskip, hnumber⟩ | ⟨hskip, hnumber, hparam⟩
    · grind
    · grind
    · grind

theorem foldlM_ne_none {α β : Type} {f : β → α → Option β} {l : List α}
    (h : ∀ x, ∀ i ∈ l, f x i ≠ none) (x : β) : l.foldlM f x ≠ none := by
  induction l generalizing x with
  | nil => exact some_ne_none x
  | cons i l ih =>
    obtain ⟨y, hy⟩ := ne_none_iff_exists'.mp (h x i mem_cons_self)
    rw [foldlM_cons, hy]
    exact ih (fun x j hj => h x j (mem_cons_of_mem i hj)) y

/-- The loop of `m` reads behind the array exactly if the parameters overrun. -/
theorem sgr_eq_none : p.sgr lighten = none ↔ p.Overruns := by
  have hle := p.paramCount.isLt
  have hrounds {l : List Nat} (x : Nat × Option TerminalAction)
      (hl : ∀ i ∈ l, i ≤ p.paramCount.val ∧ ¬ (p.paramCount.val = 16 ∧ i = 14)) :
      l.foldlM (p.sgrRound lighten) x ≠ none := by
    refine foldlM_ne_none (fun x i hi hround => ?_) x
    obtain ⟨_, hcount, hlast, _⟩ := (sgrRound_eq_none (hl i hi).1).mp hround
    exact (hl i hi).2 ⟨hcount, hlast⟩
  unfold sgr Overruns
  split
  · rename_i hzero
    simp [hzero]
  · rw [map_eq_none_iff]
    by_cases hcount : p.paramCount.val = 16
    · obtain ⟨action, hrun⟩ := exists_sgrRounds lighten hcount le_rfl
      have hsplit : range (16 + 1) = range 14 ++ [14] ++ [15, 16] := by decide
      have hlast : p.sgrRound lighten (p.passedOver 14, action) 14 = none ↔
          p.colorAt 14 = true ∧ p.numberAt 7 = false := by
        have hfive : p.param? 14 = some 5 → p.colorAt 14 = false := fun h => by simp [colorAt, h]
        have heven := p.passedOver_even 7
        rw [sgrRound_eq_none (by omega)]
        grind
      have hone : [14].foldlM (p.sgrRound lighten) (p.passedOver 14, action) =
          p.sgrRound lighten (p.passedOver 14, action) 14 := by simp
      rw [hcount, hsplit, foldlM_append, foldlM_append, hrun, bind_eq_bind,
        bind_some, hone, ← hlast, and_iff_right rfl]
      cases hround : p.sgrRound lighten (p.passedOver 14, action) 14 with
      | none => exact iff_of_true rfl rfl
      | some x =>
        refine iff_of_false (hrounds x fun i hi => ?_) (some_ne_none x)
        rw [mem_cons, mem_singleton] at hi
        omega
    · refine iff_of_false (hrounds _ fun i hi => ?_) fun h => hcount h.1
      have := mem_range.mp hi
      omega

theorem feed_eq_none {byte : UInt8} : p.feed lighten byte = none ↔
    p.state = .csi ∧ byte = 'm'.toUInt8 ∧ p.finalizeParam.Overruns := by
  unfold feed
  split
  · simp [*]
  · simp [*]
  · unfold feedCsi
    split
    · simp [sgr_eq_none, *]
    · simp [*]
  · simp [*]

end AnsiParser

namespace TerminalEmulator

def Inside (t : TerminalEmulator) : Prop := t.cursorRow < t.rows ∧ t.cursorCol < t.cols

inductive Event where
  | byte (b : UInt8)
  | resize (cols rows : UInt32)
  | setClientRect (w h : UInt32)

section Events

variable (lighten : Color → Color)

def handle (t : TerminalEmulator) : Event → Option TerminalEmulator
  | .byte b => t.write lighten b
  | .resize cols rows => some (t.resize cols rows)
  | .setClientRect w h => some (t.setClientRect w h)

/-- No event panics, and after each byte the cursor lies inside the grid. -/
def Robust : TerminalEmulator → List Event → Prop
  | _, [] => True
  | t, e :: es =>
      ∃ t', t.handle lighten e = some t' ∧ (∀ b, e = .byte b → t'.Inside) ∧ Robust t' es

/-- In a grid with a row and a column, the action leaves the cursor inside: it sets the row and
    the column or leaves one that is inside.  A printed character needs a column behind its own,
    and past the last column it goes to the next line. -/
def Stays (t : TerminalEmulator) : Option TerminalAction → Prop
  | some (.print _) =>
      if t.cols ≤ t.cursorCol then 1 < t.cols else t.cursorRow < t.rows ∧ t.cursorCol + 1 < t.cols
  | some .restoreCursor => t.parser.savedY < t.rows ∧ t.parser.savedX < t.cols
  | some (.moveCursor _ _) | some .clearScreen => True
  | some (.moveCursorUp n) => saturatingSub t.cursorRow n < t.rows ∧ t.cursorCol < t.cols
  | some (.moveCursorLeft n) => t.cursorRow < t.rows ∧ saturatingSub t.cursorCol n < t.cols
  | some .backspace => t.cursorRow < t.rows ∧ saturatingSub t.cursorCol 1 < t.cols
  | some (.moveCursorDown _) | some (.scrollUp _) | some .lineFeed => t.cursorCol < t.cols
  | some (.moveCursorRight _) | some .carriageReturn | some .tab => t.cursorRow < t.rows
  | _ => t.Inside

/-- A byte comes while the grid has a row and a column, does not end a sequence of parameters that
    overrun, and the action that it completes leaves the cursor inside. -/
def Safe (t : TerminalEmulator) : Event → Prop
  | .byte b => 0 < t.rows ∧ 0 < t.cols ∧
      ¬ (t.parser.state = .csi ∧ b = 'm'.toUInt8 ∧ t.parser.finalizeParam.Overruns) ∧
      ∀ action parser, t.parser.feed lighten b = some (action, parser) →
        Stays { t with parser } action
  | .resize _ _ | .setClientRect _ _ => True

def AllSafe : TerminalEmulator → List Event → Prop
  | _, [] => True
  | t, e :: es => t.Safe lighten e ∧ ∀ t', t.handle lighten e = some t' → AllSafe t' es

end Events

/-! ### What an action does to the cursor -/

theorem clamp_lt {x n : UInt32} (hn : 0 < n) : clamp x n < n := by
  unfold clamp
  grind

theorem clamp_le {x n : UInt32} : clamp x n ≤ x := by
  unfold clamp
  grind

theorem blank?_of_le (s : Screen) (rowLo colLo : Nat) {rowHi colHi : Nat} (hrow : rowHi ≤ MAX_ROWS)
    (hcol : colHi ≤ MAX_COLS) : ∃ s', s.blank? rowLo rowHi colLo colHi = some s' := by
  unfold Screen.blank?
  rw [if_neg (by omega)]
  exact ⟨_, rfl⟩

variable {t t' : TerminalEmulator}

section

variable (h : t.Inside)
include h

theorem Inside.row_lt : t.cursorRow.toNat < MAX_ROWS :=
  (UInt32.lt_iff_toNat_lt.mp h.1).trans_le t.rows_le

theorem Inside.rows_pos : 0 < t.rows := by
  have hrow := h.1
  grind

theorem Inside.cols_pos : 0 < t.cols := by
  have hcol := h.2
  grind

end

theorem applyAction_size {a : TerminalAction} (h : t.applyAction a = some t') :
    t'.rows = t.rows ∧ t'.cols = t.cols := by
  cases a with
  | print ch =>
    obtain ⟨hin, hcall⟩ := dite_none_right_eq_some.mp h
    cases hcall
    unfold wrapLine
    dsimp only
    split
    · split
      · exact ⟨rfl, rfl⟩
      · exact ⟨rfl, rfl⟩
    · exact ⟨rfl, rfl⟩
  | clearScreen | clearLine | clearToEndOfLine | clearToEndOfScreen =>
    obtain ⟨_, _, rfl⟩ := map_eq_some_iff.mp h
    exact ⟨rfl, rfl⟩
  | lineFeed | backspace =>
    simp only [applyAction] at h
    split at h
    · cases h
      exact ⟨rfl, rfl⟩
    · cases h
      exact ⟨rfl, rfl⟩
  | _ =>
    cases h
    exact ⟨rfl, rfl⟩

section

variable (hrows : 0 < t.rows) (hrow : t.cursorRow.toNat < MAX_ROWS)
include hrows

theorem scrollUp_row_lt (n : Nat) : (t.scrollUp n).cursorRow < t.rows := by
  simp only [scrollUp, saturatingSub]
  grind

/-- Past the last column the cursor goes to the start of the next line, or of the last one. -/
theorem wrapLine_of_past (hpast : t.cols ≤ t.cursorCol) :
    t.wrapLine.rows = t.rows ∧ t.wrapLine.cols = t.cols ∧ t.wrapLine.cursorCol = 0 ∧
      t.wrapLine.cursorRow < t.rows := by
  have hlast : t.rows - 1 < t.rows := by grind
  rw [wrapLine, if_pos hpast]
  dsimp only
  split
  · exact ⟨rfl, rfl, rfl, hlast⟩
  · exact ⟨rfl, rfl, rfl, UInt32.not_le.mp ‹_›⟩

include hrow

theorem putChar_spec (ch : UInt8) :
    ∃ t', t.putChar ch = some t' ∧ (t'.Inside ↔ t.Stays (some (.print ch))) := by
  have hstore {u : TerminalEmulator} (hu : u.cursorRow.toNat < MAX_ROWS)
      (hu' : u.cursorCol.toNat < MAX_COLS) :
      ∃ t', u.storeChar ch = some t' ∧
        (t'.Inside ↔ u.cursorRow < u.rows ∧ u.cursorCol + 1 < u.cols) := by
    rw [storeChar, dif_pos ⟨hu, hu'⟩]
    exact ⟨_, rfl, .rfl⟩
  rw [putChar]
  unfold Stays
  by_cases hpast : t.cols ≤ t.cursorCol
  · obtain ⟨hsize, hsize', hcol, hline⟩ := wrapLine_of_past hrows hpast
    have hline' := (UInt32.lt_iff_toNat_lt.mp hline).trans_le t.rows_le
    obtain ⟨t', hcall, hiff⟩ := hstore hline' (hcol ▸ by decide)
    rw [hsize, hsize', hcol, and_iff_right hline] at hiff
    rw [if_pos hpast]
    exact ⟨t', hcall, hiff⟩
  · have hcol : t.cursorCol < t.cols := UInt32.not_le.mp hpast
    rw [wrapLine, if_neg hpast, if_neg hpast]
    exact hstore hrow ((UInt32.lt_iff_toNat_lt.mp hcol).trans_le t.cols_le)

/-- What an action does from any cursor whose row is in the array. -/
theorem applyAction_spec (hcols : 0 < t.cols) (a : TerminalAction) :
    ∃ t', t.applyAction a = some t' ∧ (t'.Inside ↔ t.Stays (some a)) := by
  cases a with
  | print ch => exact putChar_spec hrows hrow ch
  | restoreCursor => exact ⟨_, rfl, .rfl⟩
  | moveCursor row col => exact ⟨_, rfl, iff_of_true ⟨clamp_lt hrows, clamp_lt hcols⟩ trivial⟩
  | moveCursorUp n => exact ⟨_, rfl, .rfl⟩
  | moveCursorDown n => exact ⟨_, rfl, and_iff_right (clamp_lt hrows)⟩
  | moveCursorLeft n => exact ⟨_, rfl, .rfl⟩
  | moveCursorRight n => exact ⟨_, rfl, and_iff_left (clamp_lt hcols)⟩
  | clearScreen =>
    obtain ⟨s', hblank⟩ := blank?_of_le t.screen 0 0 t.rows_le t.cols_le
    rw [applyAction, hblank]
    exact ⟨_, rfl, iff_of_true ⟨hrows, hcols⟩ trivial⟩
  | clearLine =>
    obtain ⟨s', hblank⟩ := blank?_of_le t.screen t.cursorRow.toNat 0 hrow t.cols_le
    rw [applyAction, hblank]
    exact ⟨_, rfl, .rfl⟩
  | clearToEndOfLine =>
    obtain ⟨s', hblank⟩ := blank?_of_le t.screen t.cursorRow.toNat t.cursorCol.toNat hrow t.cols_le
    rw [applyAction, hblank]
    exact ⟨_, rfl, .rfl⟩
  | clearToEndOfScreen =>
    obtain ⟨s', hblank⟩ := blank?_of_le t.screen t.cursorRow.toNat 0 t.rows_le t.cols_le
    rw [applyAction, hblank]
    exact ⟨_, rfl, .rfl⟩
  | scrollUp n => exact ⟨_, rfl, and_iff_right (scrollUp_row_lt hrows n.toNat)⟩
  | carriageReturn => exact ⟨_, rfl, and_iff_left hcols⟩
  | lineFeed =>
    rw [applyAction]
    split
    · exact ⟨_, rfl, and_iff_right (scrollUp_row_lt hrows 1)⟩
    · rename_i hnext
      exact ⟨_, rfl, and_iff_right (UInt32.not_le.mp hnext)⟩
  | backspace =>
    have hback : saturatingSub t.cursorCol 1 =
        if t.cursorCol > 0 then t.cursorCol - 1 else t.cursorCol := by
      unfold saturatingSub
      grind
    unfold Stays
    rw [applyAction, hback]
    split
    · exact ⟨_, rfl, .rfl⟩
    · exact ⟨_, rfl, .rfl⟩
  | tab => exact ⟨_, rfl, and_iff_left (clamp_lt hcols)⟩
  | _ => exact ⟨_, rfl, .rfl⟩

end

/-! ### Streams of events -/

variable {lighten : Color → Color}

theorem write_size {b : UInt8} (h : t.write lighten b = some t') :
    t'.rows = t.rows ∧ t'.cols = t.cols := by
  obtain ⟨⟨_ | a, parser⟩, _, hrun⟩ := bind_eq_some_iff.mp h
  · cases hrun
    exact ⟨rfl, rfl⟩
  · exact applyAction_size (t := { t with parser }) hrun

/-- A byte ends inside exactly if it is safe. -/
theorem write_spec (hrow : t.cursorRow.toNat < MAX_ROWS) (b : UInt8) :
    (∃ t', t.write lighten b = some t' ∧ t'.Inside) ↔ t.Safe lighten (.byte b) := by
  have happly (parser : AnsiParser) (hrows : 0 < t.rows) (hcols : 0 < t.cols) :=
    applyAction_spec (t := { t with parser }) hrows hrow hcols
  constructor
  · rintro ⟨t', hwrite, hinside⟩
    obtain ⟨hrows, hcols⟩ := write_size hwrite
    have hpos : 0 < t.rows := hrows ▸ hinside.rows_pos
    have hpos' : 0 < t.cols := hcols ▸ hinside.cols_pos
    obtain ⟨⟨action, parser⟩, hfeed, hrun⟩ := bind_eq_some_iff.mp hwrite
    refine ⟨hpos, hpos', fun hover => ?_, fun action' parser' hfeed' => ?_⟩
    · cases hfeed.symm.trans (AnsiParser.feed_eq_none.mpr hover)
    · cases hfeed.symm.trans hfeed'
      cases action with
      | none =>
        cases hrun
        exact hinside
      | some a =>
        obtain ⟨t'', hcall, hiff⟩ := happly parser hpos hpos' a
        cases hcall.symm.trans hrun
        exact hiff.mp hinside
  · rintro ⟨hpos, hpos', hover, hstays⟩
    unfold write
    cases hfeed : t.parser.feed lighten b with
    | none => exact absurd (AnsiParser.feed_eq_none.mp hfeed) hover
    | some x =>
      obtain ⟨action, parser⟩ := x
      cases action with
      | none => exact ⟨_, rfl, hstays none parser hfeed⟩
      | some a =>
        obtain ⟨t', hcall, hiff⟩ := happly parser hpos hpos' a
        exact ⟨t', hcall, hiff.mpr (hstays (some a) parser hfeed)⟩

/-- The row of the cursor stays in the array, since a byte leaves the cursor inside the grid and
    no change of the size moves it down. -/
theorem robust_iff_allSafe (hrow : t.cursorRow.toNat < MAX_ROWS) (events : List Event) :
    Robust lighten t events ↔ AllSafe lighten t events := by
  induction events generalizing t with
  | nil => exact .rfl
  | cons e events ih =>
    have hsize {u : TerminalEmulator} (hu : u.cursorRow.toNat < MAX_ROWS) (hb : ∀ b, e ≠ .byte b)
        (hcall : t.handle lighten e = some u) (hsafe : t.Safe lighten e) :
        Robust lighten t (e :: events) ↔ AllSafe lighten t (e :: events) := by
      constructor
      · rintro ⟨t', hcall', _, hrest⟩
        cases hcall.symm.trans hcall'
        refine ⟨hsafe, fun t' hcall' => ?_⟩
        cases hcall.symm.trans hcall'
        exact (ih hu).mp hrest
      · rintro ⟨_, hrest⟩
        exact ⟨u, hcall, fun b h => absurd h (hb b), (ih hu).mpr (hrest u hcall)⟩
    cases e with
    | resize cols rows =>
      have hle := UInt32.le_iff_toNat_le.mp (clamp_le (x := t.cursorRow) (n := clampTo 64 rows))
      exact hsize (hle.trans_lt hrow) (fun _ h => nomatch h) rfl trivial
    | setClientRect w h =>
      exact hsize (u := t.setClientRect w h) hrow (fun _ h => nomatch h) rfl trivial
    | byte b =>
      constructor
      · rintro ⟨t', hcall, hinside, hrest⟩
        have hin := hinside b rfl
        refine ⟨(write_spec hrow b).mp ⟨t', hcall, hin⟩, fun t'' hcall' => ?_⟩
        cases hcall.symm.trans hcall'
        exact (ih hin.row_lt).mp hrest
      · rintro ⟨hsafe, hrest⟩
        obtain ⟨t', hcall, hin⟩ := (write_spec hrow b).mpr hsafe
        exact ⟨t', hcall, fun _ _ => hin, (ih hin.row_lt).mpr (hrest t' hcall)⟩

/-- **Robustness of the terminal.**  For every size and every stream of bytes, resizes and new
    client areas, no event panics and the cursor is inside the grid after each byte, exactly if
    every byte comes while the grid is not empty, does not end an attribute sequence whose
    parameters overrun, and completes no action that leaves the cursor outside. -/
theorem robust_iff (lighten : Color → Color) (cols rows : UInt32) (events : List Event) :
    Robust lighten (new cols rows) events ↔ AllSafe lighten (new cols rows) events :=
  robust_iff_allSafe (t := new cols rows) (show 0 < MAX_ROWS by decide) events

/-- Handle a list of events and look at the cursor and the size of the grid. -/
def cursorAfter (t : TerminalEmulator) (events : List Event) : Option (List Nat) :=
  (events.foldlM (handle id) t).map fun t =>
    [t.cursorRow.toNat, t.cursorCol.toNat, t.rows.toNat, t.cols.toNat]

/-- A character in the last column; a position restored after the grid has shrunk; a byte for an
    empty grid; an attribute sequence with a colour behind the last parameter; a byte after a
    client area that ends before the cursor. -/
theorem cursor_leaves_grid : cursorAfter (new 2 1) [.byte 65, .byte 66] = some [0, 2, 1, 2] ∧
    cursorAfter (new 80 24) ([27, 91, 57, 59, 57, 72, 27, 55].map Event.byte ++
      [.resize 5 5, .byte 27, .byte 56]) = some [8, 8, 5, 5] ∧
    cursorAfter (new 80 24) [.resize 0 0, .byte 65] = none ∧
    cursorAfter (new 80 24) ([.byte 27, .byte 91] ++ replicate 14 (.byte 59) ++
      [51, 56, 59, 53, 109].map Event.byte) = none ∧
    cursorAfter (new 80 24) ([27, 91, 57, 59, 57, 72].map Event.byte ++
      [.setClientRect 64 64, .byte 7]) = some [8, 8, 4, 8] := by
  decide +kernel

end TerminalEmulator

end TrainOS.Terminal
