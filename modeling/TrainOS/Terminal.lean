import TrainOS.MachineWord

/-!
# The terminal emulator

`device/terminal.rs`: the parser of escape sequences, the actions on the grid, and `resize`.
The grid is an array of 64 rows and 256 columns, of which the first `rows` and `cols` are in
use.  An index outside an array is a panic; functions that can panic return an `Option`.
-/

namespace TrainOS.Terminal

open MachineWord

abbrev Color := UInt32

structure TerminalCell where
  ch : UInt8
  fg : Color
  bg : Color
  bold : Bool
  italic : Bool
  underline : Bool
  inverse : Bool

def DEFAULT_FG : Color := 0xFFD0D0D0
def DEFAULT_BG : Color := 0xFF1E1E2E

def TerminalCell.new : TerminalCell where
  ch := 0x20
  fg := DEFAULT_FG
  bg := DEFAULT_BG
  bold := false
  italic := false
  underline := false
  inverse := false

/-! ### Colours -/

def rgba (r g b a : UInt8) : Color :=
  a.toUInt32 <<< 24 ||| r.toUInt32 <<< 16 ||| g.toUInt32 <<< 8 ||| b.toUInt32

section Parser

-- `graphics::lighten(c, 0.5)`, which computes with floating point numbers

variable (lighten : Color → Color)

def ansiColor (code : UInt8) (bright : Bool) : Color :=
  let c := match (code % 8).toNat with
    | 0 => 0xFF000000
    | 1 => 0xFFFF3333
    | 2 => 0xFF33FF33
    | 3 => 0xFFFFFF33
    | 4 => 0xFF3399FF
    | 5 => 0xFFFF33FF
    | 6 => 0xFF33FFFF
    | _ => 0xFFFFFFFF
  if bright then lighten c else c

def color256 (idx : UInt8) : Color :=
  if idx < 16 then ansiColor lighten idx (idx ≥ 8)
  else if idx < 232 then
    -- the products are bytes and wrap
    let r := (idx - 16) / 36
    let g := ((idx - 16) / 6) % 6
    let b := (idx - 16) % 6
    rgba (r * 255 / 5) (g * 255 / 5) (b * 255 / 5) 0xFF
  else
    let v := (idx - 232) * 10 + 8
    rgba v v v 0xFF

/-! ### The parser of escape sequences -/

inductive AnsiState where
  | normal
  | escape
  | csi
  | osc
  deriving DecidableEq

inductive TerminalAction where
  | print (ch : UInt8)
  | moveCursor (row col : UInt32)
  | moveCursorUp (n : UInt32)
  | moveCursorDown (n : UInt32)
  | moveCursorLeft (n : UInt32)
  | moveCursorRight (n : UInt32)
  | clearScreen
  | clearLine
  | clearToEndOfLine
  | clearToEndOfScreen
  | setFg (c : Color)
  | setBg (c : Color)
  | setBold (b : Bool)
  | setItalic (i : Bool)
  | setUnderline (u : Bool)
  | setInverse (i : Bool)
  | resetAttributes
  | saveCursor
  | restoreCursor
  | scrollUp (n : UInt32)
  | scrollDown (n : UInt32)
  | bell
  | setCursorVisible (v : Bool)
  | carriageReturn
  | lineFeed
  | backspace
  | tab
  deriving DecidableEq

structure AnsiParser where
  state : AnsiState
  params : Fin 16 → UInt16
  paramCount : Fin 17
  currentParam : UInt16
  savedX : UInt32
  savedY : UInt32

namespace AnsiParser

def new : AnsiParser where
  state := .normal
  params := fun _ => 0
  paramCount := 0
  currentParam := 0
  savedX := 0
  savedY := 0

def finalizeParam (p : AnsiParser) : AnsiParser :=
  if h : p.paramCount.val < 16 then
    { p with
      params := Function.update p.params ⟨p.paramCount, h⟩ p.currentParam
      paramCount := ⟨p.paramCount + 1, Nat.succ_lt_succ h⟩
      currentParam := 0 }
  else { p with currentParam := 0 }

def param? (p : AnsiParser) (i : Nat) : Option UInt16 :=
  if h : i < 16 then some (p.params ⟨i, h⟩) else none

def getParam (p : AnsiParser) (idx : Fin 16) (default : UInt16) : UInt16 :=
  if idx.val < p.paramCount.val ∧ p.params idx > 0 then p.params idx else default

/-- The extended colour at index `i` of the parameters: `5` and the number of a colour. -/
def extendedColor (p : AnsiParser) (i : Nat) : Option (Option Color) :=
  if i + 2 ≤ p.paramCount.val then
    (p.param? (i + 1)).bind fun kind =>
      if kind = 5 then
        (p.param? (i + 2)).map fun cidx => some (color256 lighten cidx.toUInt8)
      else some none
  else some none

/-- The action of a parameter of `m` other than `38` and `48`. -/
def sgrAction (v : UInt16) : Option TerminalAction :=
  if v = 0 then some .resetAttributes
  else if v = 1 then some (.setBold true)
  else if v = 3 then some (.setItalic true)
  else if v = 4 then some (.setUnderline true)
  else if v = 7 then some (.setInverse true)
  else if v = 22 then some (.setBold false)
  else if v = 23 then some (.setItalic false)
  else if v = 24 then some (.setUnderline false)
  else if v = 27 then some (.setInverse false)
  else if 30 ≤ v ∧ v ≤ 37 then some (.setFg (ansiColor lighten (v - 30).toUInt8 false))
  else if 40 ≤ v ∧ v ≤ 47 then some (.setBg (ansiColor lighten (v - 40).toUInt8 false))
  else if 90 ≤ v ∧ v ≤ 97 then some (.setFg (ansiColor lighten (v - 90).toUInt8 true))
  else if 100 ≤ v ∧ v ≤ 107 then some (.setBg (ansiColor lighten (v - 100).toUInt8 true))
  else none

/-- One round of the loop over the parameters of `m`: how many of the next indices are passed
    over, and the last action so far. -/
def sgrRound (p : AnsiParser) :
    Nat × Option TerminalAction → Nat → Option (Nat × Option TerminalAction)
  | (skip + 1, action), _ => some (skip, action)
  | (0, action), i =>
      let extended (set : Color → TerminalAction) :=
        (p.extendedColor lighten i).map fun
          | some c => (2, some (set c))
          | none => (0, action)
      (if i = p.paramCount.val then some p.currentParam else p.param? i).bind fun v =>
        if v = 38 then extended .setFg
        else if v = 48 then extended .setBg
        else some (0, (sgrAction lighten v).or action)

def sgr (p : AnsiParser) : Option (Option TerminalAction) :=
  if p.paramCount = 0 then some (some .resetAttributes)
  else ((List.range (p.paramCount + 1)).foldlM (p.sgrRound lighten) (0, none)).map Prod.snd

def feedNormal (p : AnsiParser) (byte : UInt8) : Option TerminalAction × AnsiParser :=
  if byte = 0x1B then (none, { p with state := .escape, paramCount := 0, currentParam := 0 })
  else if byte = 0x0A then (some .lineFeed, p)
  else if byte = 0x0D then (some .carriageReturn, p)
  else if byte = 0x08 then (some .backspace, p)
  else if byte = 0x09 then (some .tab, p)
  else if byte = 0x07 then (some .bell, p)
  else if byte = 0x7F then (some .backspace, p)
  else if byte ≥ 0x20 then (some (.print byte), p)
  else (none, p)

def feedEscape (p : AnsiParser) (byte : UInt8) : Option TerminalAction × AnsiParser :=
  let normal := { p with state := .normal }
  if byte = '['.toUInt8 then
    (none, { p with state := .csi, params := fun _ => 0, paramCount := 0, currentParam := 0 })
  else if byte = ']'.toUInt8 then (none, { p with state := .osc })
  else if byte = '7'.toUInt8 then (some .saveCursor, normal)
  else if byte = '8'.toUInt8 then (some .restoreCursor, normal)
  else if byte = 'D'.toUInt8 then (some (.moveCursorDown 1), normal)
  else if byte = 'M'.toUInt8 then (some (.moveCursorUp 1), normal)
  else if byte = 'c'.toUInt8 then (some .resetAttributes, normal)
  else (none, normal)

def feedControl (p : AnsiParser) (byte : UInt8) : Option TerminalAction × AnsiParser :=
  let final := { p.finalizeParam with state := .normal }
  let first (default : UInt16) := (p.finalizeParam.getParam 0 default).toUInt32
  if '0'.toUInt8 ≤ byte ∧ byte ≤ '9'.toUInt8 then
    (none, { p with currentParam := p.currentParam * 10 + (byte - '0'.toUInt8).toUInt16 })
  else if byte = ';'.toUInt8 then (none, p.finalizeParam)
  else if byte = 'A'.toUInt8 then (some (.moveCursorUp (first 1)), final)
  else if byte = 'B'.toUInt8 then (some (.moveCursorDown (first 1)), final)
  else if byte = 'C'.toUInt8 then (some (.moveCursorRight (first 1)), final)
  else if byte = 'D'.toUInt8 then (some (.moveCursorLeft (first 1)), final)
  else if byte = 'H'.toUInt8 ∨ byte = 'f'.toUInt8 then
    -- the parameters are not zero here
    let row := p.finalizeParam.getParam 0 1 - 1
    let col := p.finalizeParam.getParam 1 1 - 1
    (some (.moveCursor row.toUInt32 col.toUInt32), final)
  else if byte = 'J'.toUInt8 then
    (some (if first 0 ≤ 1 then .clearToEndOfScreen else .clearScreen), final)
  else if byte = 'K'.toUInt8 then
    (some (if first 0 ≤ 1 then .clearToEndOfLine else .clearLine), final)
  else if byte = 's'.toUInt8 then (some .saveCursor, { p with state := .normal })
  else if byte = 'u'.toUInt8 then (some .restoreCursor, { p with state := .normal })
  else (none, { p with state := .normal })

def feedCsi (p : AnsiParser) (byte : UInt8) : Option (Option TerminalAction × AnsiParser) :=
  if byte = 'm'.toUInt8 then
    (p.finalizeParam.sgr lighten).map fun action =>
      (action, { p.finalizeParam with state := .normal })
  else some (p.feedControl byte)

def feed (p : AnsiParser) (byte : UInt8) : Option (Option TerminalAction × AnsiParser) :=
  match p.state with
  | .normal => some (p.feedNormal byte)
  | .escape => some (p.feedEscape byte)
  | .csi => p.feedCsi lighten byte
  | .osc =>
      some (none, if byte = 0x07 ∨ byte = 0x1B then { p with state := .normal } else p)

end AnsiParser

/-! ### The grid -/

def MAX_COLS : Nat := 256
def MAX_ROWS : Nat := 64
def SCROLLBACK_ROWS : Nat := 512

abbrev Row := Fin MAX_COLS → TerminalCell
abbrev Screen := Fin MAX_ROWS → Row

/-- The loops that write blank cells into `[rowLo, rowHi)` and `[colLo, colHi)`. -/
def Screen.blank? (s : Screen) (rowLo rowHi colLo colHi : Nat) : Option Screen :=
  if rowLo < rowHi ∧ colLo < colHi ∧ (MAX_ROWS < rowHi ∨ MAX_COLS < colHi) then none
  else some fun row col =>
    if rowLo ≤ row.val ∧ row.val < rowHi ∧ colLo ≤ col.val ∧ col.val < colHi then .new
    else s row col

structure TerminalEmulator where
  cols : UInt32
  rows : UInt32
  screen : Screen
  cursorX : UInt32
  cursorY : UInt32
  scrollback : Fin SCROLLBACK_ROWS → Row
  scrollbackRows : Nat
  fgColor : Color
  bgColor : Color
  cursorVisible : Bool
  cursorRow : UInt32
  cursorCol : UInt32
  parser : AnsiParser
  bold : Bool
  italic : Bool
  underline : Bool
  inverse : Bool
  dirty : Bool
  cols_le : cols.toNat ≤ MAX_COLS
  rows_le : rows.toNat ≤ MAX_ROWS

def clampTo (max n : UInt32) : UInt32 := if n ≤ max then n else max

theorem clampTo_le (max n : UInt32) : (clampTo max n).toNat ≤ max.toNat := by
  unfold clampTo
  split
  · rwa [← UInt32.le_iff_toNat_le]
  · exact le_rfl

namespace TerminalEmulator

def new (cols rows : UInt32) : TerminalEmulator where
  cols := clampTo 256 cols
  rows := clampTo 64 rows
  screen := fun _ _ => .new
  cursorX := 0
  cursorY := 0
  scrollback := fun _ _ => .new
  scrollbackRows := 0
  fgColor := DEFAULT_FG
  bgColor := DEFAULT_BG
  cursorVisible := true
  cursorRow := 0
  cursorCol := 0
  parser := .new
  bold := false
  italic := false
  underline := false
  inverse := false
  dirty := true
  cols_le := clampTo_le 256 cols
  rows_le := clampTo_le 64 rows

/-- `min(x, n - 1)`, where `n - 1` wraps for `n = 0`. -/
def clamp (x n : UInt32) : UInt32 := if x ≤ n - 1 then x else n - 1

def saturatingSub (a b : UInt32) : UInt32 := if b ≤ a then a - b else 0

/-- The rows that leave the screen at the top go into the ring of the scrollback. -/
def saveRows (t : TerminalEmulator) (n : Nat) : Fin SCROLLBACK_ROWS → Row :=
  (List.finRange MAX_ROWS).foldl
    (fun scrollback i =>
      if i.val < n then
        let idx : Fin SCROLLBACK_ROWS :=
          ⟨(t.scrollbackRows + i.val) % SCROLLBACK_ROWS, Nat.mod_lt _ (by decide)⟩
        Function.update scrollback idx fun col =>
          if col.val < t.cols.toNat then t.screen i col else scrollback idx col
      else scrollback)
    t.scrollback

def scrollUp (t : TerminalEmulator) (n : Nat) : TerminalEmulator :=
  let scrollRows := min n t.rows.toNat
  { t with
    scrollback := t.saveRows scrollRows
    scrollbackRows := wrapAdd t.scrollbackRows scrollRows
    screen := fun row col =>
      if col.val < t.cols.toNat ∧ row.val < t.rows.toNat then
        if h : row.val + scrollRows < t.rows.toNat then
          t.screen ⟨row.val + scrollRows, h.trans_le t.rows_le⟩ col
        else .new
      else t.screen row col
    cursorRow :=
      if t.cursorRow ≥ saturatingSub t.rows (UInt32.ofNat n) then t.rows - 1 else t.cursorRow
    dirty := true }

def scrollDown (t : TerminalEmulator) (n : Nat) : TerminalEmulator :=
  let scrollRows := min n t.rows.toNat
  { t with
    screen := fun row col =>
      if col.val < t.cols.toNat ∧ row.val < t.rows.toNat then
        if scrollRows ≤ row.val then
          t.screen ⟨row.val - scrollRows, (Nat.sub_le _ _).trans_lt row.isLt⟩ col
        else .new
      else t.screen row col
    dirty := true }

def wrapLine (t : TerminalEmulator) : TerminalEmulator :=
  if t.cursorCol ≥ t.cols then
    let t := { t with cursorCol := 0, cursorRow := t.cursorRow + 1 }
    if t.cursorRow ≥ t.rows then { t.scrollUp 1 with cursorRow := t.rows - 1 } else t
  else t

def cellFor (t : TerminalEmulator) (ch : UInt8) (cell : TerminalCell) : TerminalCell :=
  { cell with
    fg := if t.inverse then t.bgColor else t.fgColor
    bg := if t.inverse then t.fgColor else t.bgColor
    ch := if ch = 0x0A ∨ ch = 0x0D then 0x20 else ch
    bold := t.bold
    italic := t.italic
    underline := t.underline }

def storeChar (t : TerminalEmulator) (ch : UInt8) : Option TerminalEmulator :=
  if h : t.cursorRow.toNat < MAX_ROWS ∧ t.cursorCol.toNat < MAX_COLS then
    some
      { t with
        screen := Function.update t.screen ⟨t.cursorRow.toNat, h.1⟩
          (Function.update (t.screen ⟨t.cursorRow.toNat, h.1⟩) ⟨t.cursorCol.toNat, h.2⟩
            (t.cellFor ch (t.screen ⟨t.cursorRow.toNat, h.1⟩ ⟨t.cursorCol.toNat, h.2⟩)))
        cursorCol := t.cursorCol + 1
        cursorX := t.cursorCol + 1
        cursorY := t.cursorRow
        dirty := true }
  else none

def putChar (t : TerminalEmulator) (ch : UInt8) : Option TerminalEmulator :=
  t.wrapLine.storeChar ch

def applyAction (t : TerminalEmulator) : TerminalAction → Option TerminalEmulator
  | .print ch => t.putChar ch
  | .moveCursor row col =>
      some { t with cursorRow := clamp row t.rows, cursorCol := clamp col t.cols }
  | .moveCursorUp n => some { t with cursorRow := saturatingSub t.cursorRow n }
  | .moveCursorDown n => some { t with cursorRow := clamp (t.cursorRow + n) t.rows }
  | .moveCursorLeft n => some { t with cursorCol := saturatingSub t.cursorCol n }
  | .moveCursorRight n => some { t with cursorCol := clamp (t.cursorCol + n) t.cols }
  | .clearScreen =>
      (t.screen.blank? 0 t.rows.toNat 0 t.cols.toNat).map fun screen =>
        { t with screen, cursorRow := 0, cursorCol := 0, dirty := true }
  | .clearLine =>
      (t.screen.blank? t.cursorRow.toNat (t.cursorRow.toNat + 1) 0 t.cols.toNat).map fun screen =>
        { t with screen, dirty := true }
  | .clearToEndOfLine =>
      (t.screen.blank? t.cursorRow.toNat (t.cursorRow.toNat + 1) t.cursorCol.toNat
        t.cols.toNat).map fun screen => { t with screen, dirty := true }
  | .clearToEndOfScreen =>
      (t.screen.blank? t.cursorRow.toNat t.rows.toNat 0 t.cols.toNat).map fun screen =>
        { t with screen, dirty := true }
  | .setFg c => some { t with fgColor := c }
  | .setBg c => some { t with bgColor := c }
  | .setBold b => some { t with bold := b }
  | .setItalic i => some { t with italic := i }
  | .setUnderline u => some { t with underline := u }
  | .setInverse i => some { t with inverse := i }
  | .resetAttributes =>
      some
        { t with
          fgColor := DEFAULT_FG, bgColor := DEFAULT_BG, bold := false, italic := false
          underline := false, inverse := false }
  | .saveCursor =>
      some { t with parser := { t.parser with savedX := t.cursorCol, savedY := t.cursorRow } }
  | .restoreCursor =>
      some { t with cursorCol := t.parser.savedX, cursorRow := t.parser.savedY }
  | .scrollUp n => some (t.scrollUp n.toNat)
  | .scrollDown n => some (t.scrollDown n.toNat)
  | .bell => some t
  | .setCursorVisible v => some { t with cursorVisible := v }
  | .carriageReturn => some { t with cursorCol := 0 }
  | .lineFeed =>
      if t.cursorRow + 1 ≥ t.rows then some (t.scrollUp 1)
      else some { t with cursorRow := t.cursorRow + 1 }
  | .backspace => if t.cursorCol > 0 then some { t with cursorCol := t.cursorCol - 1 } else some t
  | .tab => some { t with cursorCol := clamp ((t.cursorCol / 8 + 1) * 8) t.cols }

def write (t : TerminalEmulator) (byte : UInt8) : Option TerminalEmulator :=
  (t.parser.feed lighten byte).bind fun
    | (none, parser) => some { t with parser }
    | (some action, parser) => { t with parser }.applyAction action

def resize (t : TerminalEmulator) (cols rows : UInt32) : TerminalEmulator :=
  { t with
    cols := clampTo 256 cols
    rows := clampTo 64 rows
    cursorRow := clamp t.cursorRow (clampTo 64 rows)
    cursorCol := clamp t.cursorCol (clampTo 256 cols)
    dirty := true
    cols_le := clampTo_le 256 cols
    rows_le := clampTo_le 64 rows }

/-- Fit the grid to a client area of `w` times `h` pixels; the cursor stays where it is. -/
def setClientRect (t : TerminalEmulator) (w h : UInt32) : TerminalEmulator :=
  { t with
    cols := clampTo 256 (max (w / 8) 8)
    rows := clampTo 64 (max (h / 16) 4)
    cols_le := clampTo_le 256 _
    rows_le := clampTo_le 64 _ }

end TerminalEmulator

end Parser

end TrainOS.Terminal
