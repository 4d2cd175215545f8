import Shelly.Protocol.Text

namespace Shelly.Daemon

structure Rgb where
  r : UInt8
  g : UInt8
  b : UInt8
  deriving DecidableEq

/-- The colours that have a name: the sixteen of the palette, then the roles. -/
inductive NamedColor
  | ansi (index : Fin 8)
  | brightAnsi (index : Fin 8)
  | foreground | background | cursor
  | dim (index : Fin 8)
  | brightForeground | dimForeground
  deriving DecidableEq

inductive Color
  | named (name : NamedColor)
  | spec (rgb : Rgb)
  | indexed (index : UInt8)
  deriving DecidableEq

/-- The flags of a cell that its attributes keep. -/
structure StyleFlags where
  bold : Bool
  dim : Bool
  italic : Bool
  underline : Bool
  doubleUnderline : Bool
  undercurl : Bool
  dottedUnderline : Bool
  dashedUnderline : Bool
  inverse : Bool
  hidden : Bool
  strikeout : Bool
  deriving DecidableEq

def StyleFlags.empty : StyleFlags :=
  ⟨false, false, false, false, false, false, false, false, false, false, false⟩

structure CellAttributes where
  foreground : Color
  background : Color
  flags : StyleFlags
  underlineColor : Option Color
  deriving DecidableEq

def CellAttributes.default : CellAttributes :=
  ⟨.named .foreground, .named .background, .empty, none⟩

/-- A cell of the grid. The second half of a wide character is a spacer, and so is the last column
of a line that a wide character did not fit into. -/
structure Cell where
  c : Char
  zerowidth : List Char
  attributes : CellAttributes
  wideChar : Bool
  wideCharSpacer : Bool
  leadingWideCharSpacer : Bool
  wrapline : Bool
  deriving DecidableEq

def Cell.default : Cell := ⟨' ', [], .default, false, false, false, false⟩

def Cell.spacer (cell : Cell) : Bool := cell.wideCharSpacer || cell.leadingWideCharSpacer

/-- What can be seen of a terminal. -/
structure Screen where
  grid : List (List Cell)
  altScreen : Bool
  cursorLine : Nat
  cursorColumn : Nat
  deriving DecidableEq

/-- A line up to its last cell that is not empty. -/
def occupied (isEmpty : Cell → Bool) (line : List Cell) : List Cell :=
  (line.reverse.dropWhile isEmpty).reverse

def pushCellString (cell : Cell) : List Char := cell.c :: cell.zerowidth

def pushCellText (cell : Cell) : List UInt8 := (pushCellString cell).flatMap String.utf8EncodeChar

/-- The last `count` decimal digits of a number, without leading zeros. -/
def pushDigits : Nat → Nat → List UInt8
  | 0, _ => []
  | count + 1, value =>
    (if value / 10 = 0 then [] else pushDigits count (value / 10)) ++ [(48 + value % 10).toUInt8]

/-- Five digits are enough for every number here. -/
def pushU16 (value : Nat) : List UInt8 := pushDigits 5 value

/-- The bytes of an attribute sequence so far, and whether its first parameter is still to come. -/
abbrev SgrOut := List UInt8 × Bool

def pushSeparator (out : SgrOut) : List UInt8 := if out.2 then out.1 else out.1 ++ [0x3b]

def pushSgrParam (value : Nat) (out : SgrOut) : SgrOut :=
  (pushSeparator out ++ pushU16 value, false)

def pushSgrSubparams (values : List Nat) (out : SgrOut) : SgrOut :=
  (pushSeparator out ++ [0x3a].intercalate (values.map pushU16), false)

def pushColorParam (color : Color) (extendedCode : Nat) (foreground : Bool) (out : SgrOut) :
    SgrOut :=
  match color with
  | .named (.ansi index) => pushSgrParam ((if foreground then 30 else 40) + index) out
  | .named (.brightAnsi index) => pushSgrParam ((if foreground then 90 else 100) + index) out
  | .named _ => out
  | .indexed index =>
    pushSgrParam index.toNat (pushSgrParam 5 (pushSgrParam extendedCode out))
  | .spec rgb =>
    pushSgrParam rgb.b.toNat (pushSgrParam rgb.g.toNat (pushSgrParam rgb.r.toNat
      (pushSgrParam 2 (pushSgrParam extendedCode out))))

/-- One step of an attribute sequence, taken if the flag is set. -/
def pushIf (flag : Bool) (push : SgrOut → SgrOut) (out : SgrOut) : SgrOut :=
  if flag then push out else out

/-- At most one underline style is written. -/
def pushUnderline (flags : StyleFlags) (out : SgrOut) : SgrOut :=
  if flags.underline then pushSgrParam 4 out
  else if flags.doubleUnderline then pushSgrSubparams [4, 2] out
  else if flags.undercurl then pushSgrSubparams [4, 3] out
  else if flags.dottedUnderline then pushSgrSubparams [4, 4] out
  else if flags.dashedUnderline then pushSgrSubparams [4, 5] out
  else out

/-- `ESC [`, which begins a control sequence. -/
def csi : List UInt8 := [0x1b, 0x5b]

def pushSgr (attrs : CellAttributes) : List UInt8 :=
  let out := pushSgrParam 0 (csi, true)
  let out := pushIf attrs.flags.bold (pushSgrParam 1) out
  let out := pushIf attrs.flags.dim (pushSgrParam 2) out
  let out := pushIf attrs.flags.italic (pushSgrParam 3) out
  let out := pushUnderline attrs.flags out
  let out := pushIf attrs.flags.inverse (pushSgrParam 7) out
  let out := pushIf attrs.flags.hidden (pushSgrParam 8) out
  let out := pushIf attrs.flags.strikeout (pushSgrParam 9) out
  let out := pushColorParam attrs.foreground 38 true out
  let out := pushColorParam attrs.background 48 false out
  let out := attrs.underlineColor.elim out fun color => pushColorParam color 58 false out
  out.1 ++ [0x6d]

/-- `ESC [ 0 m`. -/
def resetSgr : List UInt8 := csi ++ [0x30, 0x6d]

/-- The cells of a line after cells with these attributes. -/
def renderCells : CellAttributes → List Cell → List UInt8
  | attrs, [] => if attrs = .default then [] else resetSgr
  | attrs, cell :: cells =>
    if cell.spacer then renderCells attrs cells
    else
      (if cell.attributes = attrs then [] else pushSgr cell.attributes) ++ pushCellText cell ++
        renderCells cell.attributes cells

/-- `ESC [ line ; column H`, both counted from one. -/
def moveTo (line column : Nat) : List UInt8 :=
  csi ++ pushU16 (line + 1) ++ [0x3b] ++ pushU16 (column + 1) ++ [0x48]

/-- `ESC ] 0 ; title ESC \`. -/
def pushTitle (title : String) : List UInt8 :=
  [0x1b, 0x5d, 0x30, 0x3b] ++
    (title.toList.flatMap String.utf8EncodeChar).filter (fun byte => byte ≠ 0x1b ∧ byte ≠ 0x07) ++
    [0x1b, 0x5c]

/-- `ESC [ ? 1049 h` or `ESC [ ? 1049 l`. -/
def switchScreen (altScreen : Bool) : List UInt8 :=
  csi ++ [0x3f, 0x31, 0x30, 0x34, 0x39, if altScreen then 0x68 else 0x6c]

/-- `ESC [ H` and `ESC [ 2 J`. -/
def clearScreen : List UInt8 := csi ++ [0x48] ++ csi ++ [0x32, 0x4a]

def renderLines (isEmpty : Cell → Bool) : Nat → List (List Cell) → List UInt8
  | _, [] => []
  | row, line :: lines =>
    moveTo row 0 ++ renderCells .default (occupied isEmpty line) ++
      renderLines isEmpty (row + 1) lines

/-- The bytes that draw a screen on a fresh terminal. -/
def renderSnapshot (isEmpty : Cell → Bool) (screen : Screen) (title : String) : List UInt8 :=
  switchScreen screen.altScreen ++ pushTitle title ++ resetSgr ++ clearScreen ++
    renderLines isEmpty 0 screen.grid ++ moveTo screen.cursorLine screen.cursorColumn

/-- The text of a line without the white space around it. -/
def lineText (isEmpty : Cell → Bool) (line : List Cell) : String :=
  trim (String.ofList
    (((occupied isEmpty line).filter fun cell => !cell.spacer).flatMap pushCellString))

def lastNonEmptyLine (isEmpty : Cell → Bool) (screen : Screen) (maxChars : Nat) : Option String :=
  screen.grid.reverse.findSome? fun line =>
    let text := lineText isEmpty line
    if text = "" then none else some (String.ofList (text.toList.take maxChars))

end Shelly.Daemon
