import Shelly.Daemon.Terminal

namespace Shelly.Daemon

variable {T : Type*}

/-- Operations one after another, as long as each of them fits. -/
def View.run (width : Char → Nat) : List TermOp → View → Option View
  | [], v => some v
  | op :: ops, v => if op.Fits width v then View.run width ops (op.apply width v) else none

section Operations

/-- A tab is not printed. -/
def charOp (c : Char) : TermOp := if c = '\t' then .tab else .print c

def textOps (cell : Cell) : List TermOp := (pushCellString cell).map charOp

def cellOps : CellAttributes → List Cell → List TermOp
  | attrs, [] => if attrs = .default then [] else [.sgr [[0]]]
  | attrs, cell :: cells =>
    if cell.spacer then cellOps attrs cells
    else
      (if cell.attributes = attrs then [] else [.sgr (sgrParams cell.attributes)]) ++
        textOps cell ++ cellOps cell.attributes cells

def lineOps : Nat → List (List Cell) → List TermOp
  | _, [] => []
  | row, line :: lines =>
    [.moveTo row 0] ++ cellOps .default (occupied Cell.isEmpty line) ++ lineOps (row + 1) lines

/-- A snapshot as operations. -/
def snapshotOps (screen : Screen) (title : String) : List TermOp :=
  [TermOp.switchScreen screen.altScreen, .title title, .sgr [[0]], .home, .clear] ++
    lineOps 0 screen.grid ++ [TermOp.moveTo screen.cursorLine screen.cursorColumn]

theorem charOp_bytes (c : Char) : (charOp c).bytes = String.utf8EncodeChar c := by
  unfold charOp
  split
  · next h => subst h; decide
  · rfl

theorem renderCells_eq (attrs : CellAttributes) (cells : List Cell) :
    renderCells attrs cells = (cellOps attrs cells).flatMap TermOp.bytes := by
  induction cells generalizing attrs with
  | nil =>
    rw [renderCells, cellOps]
    split
    · rfl
    · decide
  | cons cell cells ih =>
    have htext : (textOps cell).flatMap TermOp.bytes = pushCellText cell := by
      simp only [textOps, pushCellText, List.flatMap_map, charOp_bytes]
    rw [renderCells, cellOps]
    split
    · exact ih attrs
    · rw [ih, List.flatMap_append, List.flatMap_append, htext]
      split
      · rfl
      · simp [TermOp.bytes, pushSgr_eq]

theorem renderLines_eq (row : Nat) (lines : List (List Cell)) :
    renderLines Cell.isEmpty row lines = (lineOps row lines).flatMap TermOp.bytes := by
  induction lines generalizing row with
  | nil => rfl
  | cons line lines ih => simp [renderLines, lineOps, ih, renderCells_eq, TermOp.bytes]

/-- The bytes of a character as numbers. -/
theorem utf8EncodeChar_toNat (c : Char) :
    (String.utf8EncodeChar c).map UInt8.toNat =
      if c.toNat < 0x80 then [c.toNat]
      else if c.toNat < 0x800 then [0xc0 + c.toNat / 64, 0x80 + c.toNat % 64]
      else if c.toNat < 0x10000 then
        [0xe0 + c.toNat / 4096, 0x80 + c.toNat / 64 % 64, 0x80 + c.toNat % 64]
      else
        [0xf0 + c.toNat / 262144, 0x80 + c.toNat / 4096 % 64, 0x80 + c.toNat / 64 % 64,
          0x80 + c.toNat % 64] := by
  have hval : c.val.toNat = c.toNat := rfl
  have hlt : c.toNat < 0x110000 := by
    rcases c.valid with h | ⟨-, h⟩
    · exact Nat.lt_trans h (by decide)
    · exact h
  simp only [String.utf8EncodeChar, hval, Nat.lt_succ_iff]
  split_ifs <;> simp only [List.map_cons, List.map_nil, UInt8.toNat_ofNat'] <;>
    simp only [List.cons.injEq, and_true] <;> omega

/-- Only a control character has a byte that is one. -/
theorem le_of_mem_utf8EncodeChar {c : Char} (hc : 0x20 ≤ c.toNat) {byte : UInt8}
    (h : byte ∈ String.utf8EncodeChar c) : 0x20 ≤ byte.toNat := by
  have hmem := List.mem_map_of_mem (f := UInt8.toNat) h
  rw [utf8EncodeChar_toNat] at hmem
  split_ifs at hmem <;> simp only [List.mem_cons, List.not_mem_nil, or_false] at hmem <;> omega

theorem pushTitle_eq {title : String} (h : CleanTitle title) :
    pushTitle title = (TermOp.title title).bytes := by
  have hkept : (title.toList.flatMap String.utf8EncodeChar).filter
      (fun byte => byte ≠ 0x1b ∧ byte ≠ 0x07) = title.toList.flatMap String.utf8EncodeChar := by
    rw [List.filter_eq_self]
    intro byte hbyte
    obtain ⟨c, hc, hbyte⟩ := List.mem_flatMap.mp hbyte
    have hle := le_of_mem_utf8EncodeChar (h.le_toNat hc) hbyte
    simp only [decide_eq_true_eq]
    constructor <;> (rintro rfl; revert hle; decide)
  rw [pushTitle, hkept]
  rfl

theorem renderSnapshot_eq (screen : Screen) {title : String} (h : CleanTitle title) :
    renderSnapshot Cell.isEmpty screen title =
      (snapshotOps screen title).flatMap TermOp.bytes := by
  have hreset : resetSgr = (TermOp.sgr [[0]]).bytes := by decide
  simp only [renderSnapshot, snapshotOps, renderLines_eq, pushTitle_eq h, hreset, clearScreen,
    List.flatMap_append, List.flatMap_cons, List.flatMap_nil, TermOp.bytes, List.append_assoc,
    List.append_nil]

end Operations

section Reading

variable {E : Emulator T} {width : Char → Nat} {view : T → Option View}

theorem Emulator.read_append (bytes bytes' : List UInt8) (t : T) (title : String) :
    E.read (bytes ++ bytes') t title =
      (E.read bytes t title).bind fun p => E.read bytes' p.1 p.2 := by
  induction bytes generalizing t title with
  | nil => rfl
  | cons byte bytes ih =>
    rw [List.cons_append, Emulator.read, Emulator.read]
    split
    · rfl
    · exact ih _ _

/-- A terminal that operations fit shows what they say. -/
theorem Standard.read_run (S : Standard E width view) {t : T} {v v' : View} {ops : List TermOp}
    (title : String) (hv : view t = some v) (hrun : v.run width ops = some v') :
    ∃ t', E.read (ops.flatMap TermOp.bytes) t title = some (t', ops.foldl TermOp.setTitle title) ∧
      view t' = some v' := by
  induction ops generalizing t v title with
  | nil =>
    obtain rfl := Option.some.inj hrun
    exact ⟨t, rfl, hv⟩
  | cons op ops ih =>
    rw [View.run] at hrun
    split at hrun
    case isFalse => cases hrun
    case isTrue hfits =>
      obtain ⟨t', hread, hv'⟩ := S.operation t v op title hv hfits
      obtain ⟨t'', hread', hv''⟩ := ih (op.setTitle title) hv' hrun
      refine ⟨t'', ?_, hv''⟩
      rw [List.flatMap_cons, Emulator.read_append, hread]
      exact hread'

/-- What a model reads, its terminal reads. -/
theorem TerminalModel.advanceBytes_read (position : Nat) (bytes : List UInt8)
    (m : TerminalModel T) (r : Responder) :
    (m.advanceBytes E position bytes r).2.map (fun m => (m.terminal, m.title)) =
      E.read bytes m.terminal m.title := by
  induction bytes generalizing position m r with
  | nil => rfl
  | cons byte bytes ih =>
    rw [TerminalModel.advanceBytes, Emulator.read]
    rcases E.advance m.terminal byte with ⟨events, _ | terminal⟩
    · rfl
    · exact ih _ _ _

end Reading

end Shelly.Daemon
