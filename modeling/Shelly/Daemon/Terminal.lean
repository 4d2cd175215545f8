import Shelly.Daemon.Projection
import Shelly.Daemon.Session
import Shelly.Daemon.Sgr

namespace Shelly.Daemon

inductive MouseReporting
  | off | clicks | drag | motion
  deriving DecidableEq

structure TermModes where
  showCursor : Bool
  origin : Bool
  autowrap : Bool
  insert : Bool
  applicationCursor : Bool
  bracketedPaste : Bool
  mouse : MouseReporting
  lineDrawing : Bool
  deriving DecidableEq

def TermModes.fresh : TermModes := ⟨true, false, true, false, false, false, .off, false⟩

structure SavedCursor where
  line : Nat
  column : Nat
  pen : CellAttributes
  deriving DecidableEq

/-- What decides how later bytes are read: the attributes of the characters to come, the modes, the
lines that scroll, and the saved cursor. -/
structure Interpretation where
  pen : CellAttributes
  modes : TermModes
  scrollTop : Nat
  scrollBottom : Nat
  saved : SavedCursor
  deriving DecidableEq

def Interpretation.fresh (size : ClientSize) : Interpretation :=
  ⟨.default, .fresh, 0, size.rows, ⟨0, 0, .default⟩⟩

/-- A terminal between two sequences. `column` is that of the next character; once the last column
is filled it is the width of the terminal. -/
structure View where
  size : ClientSize
  cell : Nat → Nat → Cell
  altScreen : Bool
  line : Nat
  column : Nat
  tabStop : Nat → Bool
  interpretation : Interpretation

/-- What a terminal is told, as far as a snapshot tells it. -/
inductive TermOp
  | print (c : Char)
  | tab
  | sgr (params : SgrParams)
  | moveTo (line column : Nat)
  | home
  | clear
  | switchScreen (altScreen : Bool)
  | title (text : String)

def TermOp.bytes : TermOp → List UInt8
  | .print c => String.utf8EncodeChar c
  | .tab => [0x09]
  | .sgr params => sgrBytes params
  | .moveTo line column => Daemon.moveTo line column
  | .home => csi ++ [0x48]
  | .clear => csi ++ [0x32, 0x4a]
  | .switchScreen altScreen => Daemon.switchScreen altScreen
  | .title text =>
    [0x1b, 0x5d, 0x30, 0x3b] ++ text.toList.flatMap String.utf8EncodeChar ++ [0x1b, 0x5c]

/-- The title after an operation. -/
def TermOp.setTitle (old : String) : TermOp → String
  | .title text => text
  | _ => old

/-- A title that a sequence can set. A title of more than fifteen parts is cut off. -/
def CleanTitle (title : String) : Prop :=
  trim title = title ∧ title.toList.all (0x20 ≤ ·.toNat) ∧ title.toList.count ';' < 15

instance (title : String) : Decidable (CleanTitle title) :=
  inferInstanceAs (Decidable (_ ∧ _ ∧ _))

theorem CleanTitle.le_toNat {title : String} (h : CleanTitle title) {c : Char}
    (hc : c ∈ title.toList) : 0x20 ≤ c.toNat := by
  simpa using List.all_eq_true.mp h.2.1 c hc

/-- A cell in which nothing can be seen. -/
def Cell.isEmpty (cell : Cell) : Bool :=
  let flags := cell.attributes.flags
  (cell.c == ' ' || cell.c == '\t') && cell.attributes.foreground == .named .foreground &&
    cell.attributes.background == .named .background &&
    !(flags.inverse || flags.underline || flags.doubleUnderline || flags.undercurl ||
      flags.dottedUnderline || flags.dashedUnderline || flags.strikeout || cell.wrapline ||
      cell.spacer) && cell.zerowidth.isEmpty

namespace View

def fresh (size : ClientSize) : View :=
  ⟨size, fun _ _ => .default, false, 0, 0, fun column => column % 8 == 0, .fresh size⟩

/-- A cursor past the last column is shown in it. -/
def screen (v : View) : Screen where
  grid := (List.range v.size.rows).map fun line => (List.range v.size.cols).map (v.cell line)
  altScreen := v.altScreen
  cursorLine := v.line
  cursorColumn := min v.column (v.size.cols - 1)

def pen (v : View) : CellAttributes := v.interpretation.pen

def setPen (v : View) (pen : CellAttributes) : View :=
  { v with interpretation := { v.interpretation with pen } }

def setCell (v : View) (line column : Nat) (cell : Cell) : View :=
  { v with
    cell := fun l c => if l = line ∧ c = column then cell else v.cell l c }

/-- The column that a tab leads to: the next tab stop, or else the last column. -/
def nextStop (v : View) (column : Nat) : Nat :=
  ((List.range' (column + 1) (v.size.cols - (column + 1))).find? v.tabStop).getD (v.size.cols - 1)

/-- The cell of the character before the cursor. -/
def lastColumn (v : View) : Nat :=
  if (v.cell v.line (v.column - 1)).wideCharSpacer then v.column - 2 else v.column - 1

/-- Prints a character as wide as this: of no width, it goes to the character before. -/
def print (v : View) (c : Char) : Nat → View
  | 0 =>
    let cell := v.cell v.line v.lastColumn
    v.setCell v.line v.lastColumn { cell with zerowidth := cell.zerowidth ++ [c] }
  | 1 =>
    { v.setCell v.line v.column ⟨c, [], v.pen, false, false, false, false⟩ with
      column := v.column + 1 }
  | _ =>
    let v' := v.setCell v.line v.column ⟨c, [], v.pen, true, false, false, false⟩
    { v'.setCell v.line (v.column + 1) ⟨' ', [], v.pen, false, true, false, false⟩ with
      column := v.column + 2 }

/-- A tab is kept in a blank cell, and changes nothing else of it. -/
def tab (v : View) : View :=
  let cell := v.cell v.line v.column
  let v' := if cell.c = ' ' then v.setCell v.line v.column { cell with c := '\t' } else v
  { v' with column := v.nextStop v.column }

def moveTo (v : View) (line column : Nat) : View := { v with line, column }

def clear (v : View) : View := { v with cell := fun _ _ => .default }

end View

variable {T : Type*}

/-- What an operation does to a terminal that it fits. -/
def TermOp.apply (width : Char → Nat) (v : View) : TermOp → View
  | .print c => v.print c (width c)
  | .tab => v.tab
  | .sgr params => v.setPen ((applySgr params v.pen).getD v.pen)
  | .moveTo line column => v.moveTo line column
  | .home => v.moveTo 0 0
  | .clear => v.clear
  | .switchScreen altScreen => { if altScreen then v.clear else v with altScreen }
  | .title _ => v

def Cell.whole (cell : Cell) : Bool := !(cell.wideChar || cell.spacer)

/-- When an operation has its plain meaning: a character has the room that it needs, over cells
that are no halves of wide ones, and no mode changes what is done. -/
def TermOp.Fits (width : Char → Nat) (v : View) : TermOp → Prop
  | .print c => isControl c = false ∧ v.interpretation.modes.insert = false ∧
      v.interpretation.modes.lineDrawing = false ∧ width c ≤ 2 ∧ v.column + width c ≤ v.size.cols ∧
      (width c = 0 → 0 < v.column) ∧
      ∀ i < width c, (v.cell v.line (v.column + i)).whole = true
  | .tab => v.column < v.size.cols
  | .sgr params => params.WellFormed ∧ (applySgr params v.pen).isSome
  | .moveTo line column => v.interpretation.modes.origin = false ∧ line < v.size.rows ∧
      column < v.size.cols
  | .home => v.interpretation.modes.origin = false
  | .clear => v.pen = .default
  | .switchScreen _ => v.altScreen = false ∧ v.line = 0 ∧ v.column = 0 ∧
      v.interpretation = .fresh v.size
  | .title text => CleanTitle text

instance (width : Char → Nat) (v : View) (op : TermOp) : Decidable (op.Fits width v) := by
  cases op <;> unfold TermOp.Fits <;> infer_instance

section Attributes

variable {width : Char → Nat} {attrs : CellAttributes}

/-- The parameters for some attributes have a meaning under every pen. -/
theorem fits_sgrParams (h : attrs.Expressible) (v : View) :
    (TermOp.sgr (sgrParams attrs)).Fits width v := by
  refine ⟨wellFormed_sgrParams attrs, ?_⟩
  rw [applySgr_sgrParams h v.pen]
  rfl

theorem apply_sgrParams (h : attrs.Expressible) (v : View) :
    (TermOp.sgr (sgrParams attrs)).apply width v = v.setPen attrs := by
  rw [TermOp.apply, applySgr_sgrParams h v.pen]
  rfl

end Attributes

/-- Text that no terminal of this width refuses. -/
def TermOp.Text (width : Char → Nat) (cols : Nat) : TermOp → Prop
  | .print c => isControl c = false ∧ width c ≤ 2 ∧ width c ≤ cols
  | .tab => True
  | _ => False

instance (width : Char → Nat) (cols : Nat) (op : TermOp) : Decidable (op.Text width cols) := by
  cases op <;> unfold TermOp.Text <;> infer_instance

/-- A cell that a terminal of this width can have. -/
structure Cell.Drawn (width : Char → Nat) (cols : Nat) (cell : Cell) : Prop where
  c : cell.c = '\t' ∨
    (isControl cell.c = false ∧ 0 < width cell.c ∧ width cell.c ≤ 2 ∧ width cell.c ≤ cols)
  zerowidth : ∀ c ∈ cell.zerowidth, isControl c = false ∧ width c = 0
  attributes : cell.attributes.Expressible

/-- A screen that a terminal of this size can have. -/
structure Screen.Drawn (width : Char → Nat) (size : ClientSize) (screen : Screen) : Prop where
  lines : screen.grid.length = size.rows
  columns : ∀ line ∈ screen.grid, line.length = size.cols
  cells : ∀ line ∈ screen.grid, ∀ cell ∈ line, cell.Drawn width size.cols
  cursorLine : screen.cursorLine < size.rows
  cursorColumn : screen.cursorColumn < size.cols

/-- Reads bytes, as far as the terminal and its title are concerned. -/
def Emulator.read (E : Emulator T) : List UInt8 → T → String → Option (T × String)
  | [], t, title => some (t, title)
  | byte :: bytes, t, title =>
    match E.advance t byte with
    | (_, none) => none
    | (events, some t) =>
      E.read bytes t (events.foldl (fun title event => event.setTitle title) title)

/-- What is relied on of a terminal emulator. `view` is what it shows between two sequences. -/
structure Standard (E : Emulator T) (width : Char → Nat) (view : T → Option View) : Prop where
  fresh : ∀ size, invalidClientSize size = none → view (E.new size) = some (.fresh size)
  screen : ∀ t v, view t = some v → E.screen t = some v.screen
  isEmpty : ∀ cell, E.isEmpty cell = cell.isEmpty
  operation : ∀ t v (op : TermOp) title, view t = some v → op.Fits width v →
    ∃ t', E.read op.bytes t title = some (t', op.setTitle title) ∧
      view t' = some (op.apply width v)
  text : ∀ t v (op : TermOp) title, view t = some v → op.Text width v.size.cols →
    ∃ t' v', E.read op.bytes t title = some (t', title) ∧ view t' = some v' ∧
      v'.size = v.size ∧ v'.altScreen = v.altScreen ∧ v'.interpretation = v.interpretation
  drawn : ∀ size bytes title t title', invalidClientSize size = none →
    E.read bytes (E.new size) title = some (t, title') →
      ∀ screen, E.screen t = some screen → screen.Drawn width size
  cleanTitle : ∀ size bytes title t title', invalidClientSize size = none → CleanTitle title →
    E.read bytes (E.new size) title = some (t, title') → CleanTitle title'

end Shelly.Daemon
