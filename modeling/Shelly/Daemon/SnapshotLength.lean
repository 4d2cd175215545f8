import Mathlib.Algebra.GroupWithZero.Nat
import Mathlib.Algebra.Order.BigOperators.Group.List
import Shelly.Daemon.Screen

namespace Shelly.Daemon

section Parameters

theorem length_pushDigits_le (count value : Nat) : (pushDigits count value).length ≤ count := by
  induction count generalizing value with
  | zero => exact Nat.le_refl 0
  | succ count ih =>
    have hrest := ih (value / 10)
    rw [pushDigits, List.length_append, List.length_singleton]
    split
    · rw [List.length_nil]
      omega
    · omega

theorem length_pushU16_le (value : Nat) : (pushU16 value).length ≤ 5 :=
  length_pushDigits_le 5 value

/-- A piece of an attribute sequence adds no more than this many bytes. -/
def Adds (n : Nat) (push : SgrOut → SgrOut) : Prop :=
  ∀ out : SgrOut, (push out).1.length ≤ out.1.length + n

variable {n m : Nat} {push push' : SgrOut → SgrOut}

theorem Adds.mono (h : Adds n push) (hle : n ≤ m) : Adds m push := fun out =>
  (h out).trans (Nat.add_le_add_left hle _)

theorem Adds.comp (h : Adds n push) (h' : Adds m push') :
    Adds (n + m) fun out => push' (push out) := by
  intro out
  have hfirst := h out
  have hsecond := h' (push out)
  dsimp only
  omega

theorem Adds.pushIf (flag : Bool) (h : Adds n push) : Adds n (pushIf flag push) := by
  intro out
  cases flag with
  | false => exact Nat.le_add_right _ n
  | true => exact h out

theorem adds_nothing : Adds n fun out => out := fun _ => Nat.le_add_right _ n

theorem length_pushSeparator_le (out : SgrOut) :
    (pushSeparator out).length ≤ out.1.length + 1 := by
  unfold pushSeparator
  split
  · exact Nat.le_succ _
  · rw [List.length_append, List.length_singleton]

theorem adds_pushSgrParam (value : Nat) : Adds 6 (pushSgrParam value) := by
  intro out
  have hseparator := length_pushSeparator_le out
  have hdigits := length_pushU16_le value
  rw [pushSgrParam, List.length_append]
  omega

/-- Two parameters with a colon in between. -/
theorem adds_pushSgrSubparams (first second : Nat) :
    Adds 12 (pushSgrSubparams [first, second]) := by
  intro out
  have hseparator := length_pushSeparator_le out
  have hfirst := length_pushU16_le first
  have hsecond := length_pushU16_le second
  have hjoined : ([0x3a].intercalate ([first, second].map pushU16)).length =
      (pushU16 first).length + 1 + (pushU16 second).length := by
    simp [List.intercalate]
    omega
  rw [pushSgrSubparams, List.length_append, hjoined]
  omega

theorem adds_pushUnderline (flags : StyleFlags) : Adds 12 (pushUnderline flags) := by
  intro out
  unfold pushUnderline
  split_ifs
  · exact (adds_pushSgrParam 4).mono (by decide) out
  · exact adds_pushSgrSubparams 4 2 out
  · exact adds_pushSgrSubparams 4 3 out
  · exact adds_pushSgrSubparams 4 4 out
  · exact adds_pushSgrSubparams 4 5 out
  · exact adds_nothing out

/-- A colour by its components takes the most. -/
theorem adds_pushColorParam (color : Color) (extendedCode : Nat) (foreground : Bool) :
    Adds 30 (pushColorParam color extendedCode foreground) := by
  cases color with
  | named name =>
    cases name with
    | ansi index => exact (adds_pushSgrParam _).mono (by decide)
    | brightAnsi index => exact (adds_pushSgrParam _).mono (by decide)
    | foreground | background | cursor | dim index | brightForeground | dimForeground =>
      exact adds_nothing
  | indexed index =>
    have htwo := (adds_pushSgrParam extendedCode).comp (adds_pushSgrParam 5)
    exact (htwo.comp (adds_pushSgrParam index.toNat)).mono (by decide)
  | spec rgb =>
    have htwo := (adds_pushSgrParam extendedCode).comp (adds_pushSgrParam 2)
    have hred := htwo.comp (adds_pushSgrParam rgb.r.toNat)
    have hgreen := hred.comp (adds_pushSgrParam rgb.g.toNat)
    exact hgreen.comp (adds_pushSgrParam rgb.b.toNat)

theorem length_pushSgr_le (attrs : CellAttributes) : (pushSgr attrs).length ≤ 147 := by
  have hflags := ((((((adds_pushSgrParam 0).comp
    ((adds_pushSgrParam 1).pushIf attrs.flags.bold)).comp
    ((adds_pushSgrParam 2).pushIf attrs.flags.dim)).comp
    ((adds_pushSgrParam 3).pushIf attrs.flags.italic)).comp
    (adds_pushUnderline attrs.flags)).comp
    ((adds_pushSgrParam 7).pushIf attrs.flags.inverse)).comp
    ((adds_pushSgrParam 8).pushIf attrs.flags.hidden)
  have hcolors := ((hflags.comp
    ((adds_pushSgrParam 9).pushIf attrs.flags.strikeout)).comp
    (adds_pushColorParam attrs.foreground 38 true)).comp
    (adds_pushColorParam attrs.background 48 false)
  have hunderline : Adds 30 fun out =>
      attrs.underlineColor.elim out fun color => pushColorParam color 58 false out := by
    cases attrs.underlineColor with
    | none => exact adds_nothing
    | some color => exact adds_pushColorParam color 58 false
  have hall := hcolors.comp hunderline (csi, true)
  rw [pushSgr, List.length_append]
  exact Nat.succ_le_succ hall

end Parameters

section Cells

/-- What a cell takes up at most: its attributes and its characters. -/
def Cell.room (cell : Cell) : Nat := 151 + 4 * cell.zerowidth.length

/-- What a line takes up at most, with the way to it. -/
def lineRoom (line : List Cell) : Nat := 18 + (line.map Cell.room).sum

def Screen.room (screen : Screen) (title : String) : Nat :=
  40 + title.utf8ByteSize + (screen.grid.map lineRoom).sum

theorem length_encoded_le (chars : List Char) :
    (chars.flatMap String.utf8EncodeChar).length ≤ 4 * chars.length := by
  induction chars with
  | nil => exact Nat.le_refl 0
  | cons c chars ih =>
    have hc := c.utf8Size_le_four
    rw [List.flatMap_cons, List.length_append, String.length_utf8EncodeChar, List.length_cons]
    omega

theorem length_encoded (s : String) :
    (s.toList.flatMap String.utf8EncodeChar).length = s.utf8ByteSize := by
  rw [← String.utf8Len_toList]
  induction s.toList with
  | nil => rfl
  | cons c chars ih =>
    rw [List.flatMap_cons, List.length_append, String.length_utf8EncodeChar, ih,
      String.utf8Len_cons, Nat.add_comm]

theorem length_pushCellText_le (cell : Cell) :
    (pushCellText cell).length ≤ 4 + 4 * cell.zerowidth.length := by
  have hlength := length_encoded_le (pushCellString cell)
  rw [pushCellString, List.length_cons] at hlength
  rw [pushCellText, pushCellString]
  omega

theorem length_renderCells_le (attrs : CellAttributes) (cells : List Cell) :
    (renderCells attrs cells).length ≤ 4 + (cells.map Cell.room).sum := by
  induction cells generalizing attrs with
  | nil =>
    rw [renderCells]
    split
    · exact Nat.zero_le _
    · decide
  | cons cell cells ih =>
    rw [renderCells, List.map_cons, List.sum_cons]
    split
    · have hrest := ih attrs
      omega
    · have hrest := ih cell.attributes
      have hsgr := length_pushSgr_le cell.attributes
      have htext := length_pushCellText_le cell
      have hroom : cell.room = 151 + 4 * cell.zerowidth.length := rfl
      rw [List.length_append, List.length_append]
      split
      · rw [List.length_nil]
        omega
      · omega

theorem length_moveTo_le (line column : Nat) : (moveTo line column).length ≤ 14 := by
  have hline := length_pushU16_le (line + 1)
  have hcolumn := length_pushU16_le (column + 1)
  have hcsi : csi.length = 2 := rfl
  rw [moveTo, List.length_append, List.length_append, List.length_append, List.length_append,
    List.length_singleton, List.length_singleton]
  omega

theorem sum_occupied_le (isEmpty : Cell → Bool) (line : List Cell) :
    ((occupied isEmpty line).map Cell.room).sum ≤ (line.map Cell.room).sum := by
  have hcut : (occupied isEmpty line).Sublist line := by
    have hsuffix := (List.dropWhile_sublist (l := line.reverse) isEmpty).reverse
    rwa [List.reverse_reverse] at hsuffix
  exact (hcut.map Cell.room).sum_le_sum fun _ _ => Nat.zero_le _

theorem length_renderLines_le (isEmpty : Cell → Bool) (row : Nat) (lines : List (List Cell)) :
    (renderLines isEmpty row lines).length ≤ (lines.map lineRoom).sum := by
  induction lines generalizing row with
  | nil => exact Nat.le_refl 0
  | cons line lines ih =>
    have hmove := length_moveTo_le row 0
    have hcells := length_renderCells_le .default (occupied isEmpty line)
    have hoccupied := sum_occupied_le isEmpty line
    have hrest := ih (row + 1)
    have hroom : lineRoom line = 18 + (line.map Cell.room).sum := rfl
    rw [renderLines, List.length_append, List.length_append, List.map_cons, List.sum_cons]
    omega

/-- A snapshot takes up no more than its cells, its lines and its title have room for. -/
theorem length_renderSnapshot_le (isEmpty : Cell → Bool) (screen : Screen) (title : String) :
    (renderSnapshot isEmpty screen title).length ≤ screen.room title := by
  have hlines := length_renderLines_le isEmpty 0 screen.grid
  have hmove := length_moveTo_le screen.cursorLine screen.cursorColumn
  have htitle : (pushTitle title).length ≤ 6 + title.utf8ByteSize := by
    have hkept := List.length_filter_le (fun byte => decide (byte ≠ 0x1b ∧ byte ≠ 0x07))
      (title.toList.flatMap String.utf8EncodeChar)
    rw [length_encoded] at hkept
    rw [pushTitle, List.length_append, List.length_append]
    change 4 + _ + 2 ≤ _
    omega
  have hswitch : (switchScreen screen.altScreen).length = 8 := rfl
  have hreset : resetSgr.length = 4 := rfl
  have hclear : clearScreen.length = 7 := rfl
  rw [renderSnapshot, Screen.room, List.length_append, List.length_append, List.length_append,
    List.length_append, List.length_append]
  omega

end Cells

end Shelly.Daemon
