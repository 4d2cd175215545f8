import Shelly.Daemon.Ansi

namespace Shelly.Daemon

variable {v : View} {op : TermOp} {title : String}

section Operations

theorem perform_of_fits (h : op.Fits ansiWidth v) : v.perform op = op.apply ansiWidth v := if_pos h

theorem read_print {c : Char} (h : isControl c = false) :
    ansiTerminal.read (TermOp.print c).bytes ⟨.ground .idle, v⟩ title =
      some (⟨.ground .idle, v.perform (.print c)⟩, title) := by
  have hc : 0x20 ≤ c.toNat := by
    simp only [isControl, Bool.or_eq_false_iff, decide_eq_false_iff_not] at h
    omega
  rw [TermOp.bytes, read_text (fun byte => le_of_mem_utf8EncodeChar hc), Utf8.run_encode]
  rfl

theorem read_tab :
    ansiTerminal.read TermOp.tab.bytes ⟨.ground .idle, v⟩ title =
      some (⟨.ground .idle, v.perform .tab⟩, title) := rfl

theorem read_sgr {params : SgrParams} (h : params.WellFormed) :
    ansiTerminal.read (TermOp.sgr params).bytes ⟨.ground .idle, v⟩ title =
      some (⟨.ground .idle, v.perform (.sgr params)⟩, title) := by
  rw [TermOp.bytes, sgrBytes, read_csi (fun _ => mem_encodeSgr) (by decide), View.dispatch,
    if_pos rfl, parseSgr_encodeSgr h]
  rfl

theorem read_moveTo {line column : Nat} (hline : line + 1 < 2 ^ 16) (hcolumn : column + 1 < 2 ^ 16) :
    ansiTerminal.read (TermOp.moveTo line column).bytes ⟨.ground .idle, v⟩ title =
      some (⟨.ground .idle, v.perform (.moveTo line column)⟩, title) := by
  have hbytes : (TermOp.moveTo line column).bytes =
      csi ++ [0x3b].intercalate ([line + 1, column + 1].map pushU16) ++ [0x48] := by
    simp [TermOp.bytes, moveTo, List.intercalate]
  have hparams : ∀ byte ∈ [0x3b].intercalate ([line + 1, column + 1].map pushU16),
      0x20 ≤ byte ∧ byte < 0x40 := by
    intro byte hbyte
    rcases mem_intercalate hbyte with rfl | ⟨part, hpart, hbyte⟩
    · decide
    · obtain ⟨value, -, rfl⟩ := List.mem_map.mp hpart
      have hdigit := mem_pushDigits hbyte
      exact ⟨UInt8.le_trans (by decide) hdigit.1, UInt8.lt_trans hdigit.2 (by decide)⟩
  have hparse := @parse_joined 0x3b (by decide) [line + 1, column + 1] (by simp)
    (by simpa using ⟨hline, hcolumn⟩)
  rw [hbytes, read_csi hparams (by decide), View.dispatch, if_neg (by decide), if_pos rfl, hparse]
  rfl

theorem read_title {text : String} (h : CleanTitle text) :
    ansiTerminal.read (TermOp.title text).bytes ⟨.ground .idle, v⟩ title =
      some (⟨.ground .idle, v⟩, text) := by
  let chars := '0' :: ';' :: text.toList
  have hbytes : (TermOp.title text).bytes =
      0x1b :: 0x5d :: (chars.flatMap String.utf8EncodeChar ++ [0x1b, 0x5c]) := by
    have hzero : String.utf8EncodeChar '0' = [0x30] := by decide
    have hsemicolon : String.utf8EncodeChar ';' = [0x3b] := by decide
    simp [TermOp.bytes, chars, hzero, hsemicolon]
  have hchars : ∀ byte ∈ chars.flatMap String.utf8EncodeChar, 0x20 ≤ byte.toNat := by
    intro byte hbyte
    obtain ⟨c, hc, hbyte⟩ := List.mem_flatMap.mp hbyte
    refine le_of_mem_utf8EncodeChar ?_ hbyte
    simp only [chars, List.mem_cons] at hc
    rcases hc with rfl | rfl | hc
    · decide
    · decide
    · exact h.le_toNat hc
  have hescape := @read_ansi title ⟨.ground .idle, v⟩ ⟨.escape, v⟩ 0x1b
    (0x5d :: (chars.flatMap String.utf8EncodeChar ++ [0x1b, 0x5c])) rfl
  have hosc := @read_ansi title ⟨.escape, v⟩ ⟨.osc [] .idle, v⟩ 0x5d
    (chars.flatMap String.utf8EncodeChar ++ [0x1b, 0x5c]) rfl
  rw [hbytes, hescape, hosc, read_osc hchars, Utf8.run_flatMap_encode]
  have hend : AnsiTerminal.finish v chars =
      ([.title text], some ⟨.ground .idle, v⟩) := by
    simp [AnsiTerminal.finish, chars, h]
  have hadvance : ansiTerminal.advance ⟨.oscEscape ([] ++ chars), v⟩ 0x5c =
      ([.title text], some ⟨.ground .idle, v⟩) := hend
  rw [Emulator.read, hadvance]
  rfl

end Operations

section Standard

theorem bounds_of_validSize {size : ClientSize} (h : invalidClientSize size = none) :
    0 < size.rows ∧ 0 < size.cols ∧ size.rows ≤ 1000 ∧ size.cols ≤ 1000 := by
  unfold invalidClientSize at h
  split at h
  · next hvalid =>
    simp only [maxTerminalDimension] at hvalid
    omega
  · cases h

/-- Text changes neither the size nor the interpretation of what follows. -/
theorem perform_text {cols : Nat} (h : op.Text ansiWidth cols) :
    (v.perform op).size = v.size ∧ (v.perform op).altScreen = v.altScreen ∧
      (v.perform op).interpretation = v.interpretation := by
  unfold View.perform
  split
  · cases op with
    | print c =>
      change (v.print c (ansiWidth c)).size = _ ∧ (v.print c (ansiWidth c)).altScreen = _ ∧
        (v.print c (ansiWidth c)).interpretation = _
      unfold View.print
      split <;> exact ⟨rfl, rfl, rfl⟩
    | tab =>
      change v.tab.size = _ ∧ v.tab.altScreen = _ ∧ v.tab.interpretation = _
      unfold View.tab
      simp only
      split <;> exact ⟨rfl, rfl, rfl⟩
    | sgr | moveTo | home | clear | switchScreen | title => exact h.elim
  · exact ⟨rfl, rfl, rfl⟩

theorem apply_size (op : TermOp) : (op.apply ansiWidth v).size = v.size := by
  cases op with
  | print c =>
    change (v.print c (ansiWidth c)).size = v.size
    unfold View.print
    split <;> rfl
  | tab =>
    change v.tab.size = v.size
    unfold View.tab
    simp only
    split <;> rfl
  | switchScreen altScreen => cases altScreen <;> rfl
  | sgr | moveTo | home | clear | title => rfl

/-- An operation that fits is read as it is meant. -/
theorem read_operation (hsize : invalidClientSize v.size = none) (h : op.Fits ansiWidth v) :
    ansiTerminal.read op.bytes ⟨.ground .idle, v⟩ title =
      some (⟨.ground .idle, op.apply ansiWidth v⟩, op.setTitle title) := by
  rw [← perform_of_fits h]
  cases op with
  | print c => exact read_print h.1
  | tab => exact read_tab
  | sgr params => exact read_sgr h.1
  | moveTo line column =>
    obtain ⟨-, hline, hcolumn⟩ := h
    have hbounds := bounds_of_validSize hsize
    exact read_moveTo (by omega) (by omega)
  | home => rfl
  | clear => rfl
  | switchScreen altScreen => cases altScreen <;> rfl
  | title text =>
    rw [perform_of_fits h]
    exact read_title h

/-- A view that a terminal of this size can have. -/
structure View.Sound (size : ClientSize) (v : View) : Prop where
  size_eq : v.size = size
  cells : ∀ line column, (v.cell line column).Drawn ansiWidth size.cols
  pen : v.pen.Expressible
  line : v.line < size.rows

theorem drawn_default {cols : Nat} (h : 0 < cols) : Cell.default.Drawn ansiWidth cols :=
  ⟨.inr ⟨rfl, by decide, by decide, h⟩, nofun, default_expressible⟩

theorem sound_fresh {size : ClientSize} (h : invalidClientSize size = none) :
    (View.fresh size).Sound size :=
  ⟨rfl, fun _ _ => drawn_default (bounds_of_validSize h).2.1, default_expressible,
    (bounds_of_validSize h).1⟩

variable {size : ClientSize}

theorem View.Sound.setCell (s : v.Sound size) {line column : Nat} {cell : Cell}
    (h : cell.Drawn ansiWidth size.cols) : (v.setCell line column cell).Sound size := by
  refine ⟨s.size_eq, fun l c => ?_, s.pen, s.line⟩
  change (if l = line ∧ c = column then cell else v.cell l c).Drawn ansiWidth size.cols
  split
  · exact h
  · exact s.cells l c

theorem View.Sound.apply (s : v.Sound size) (hcols : 0 < size.cols) (hrows : 0 < size.rows)
    (h : op.Fits ansiWidth v) : (op.apply ansiWidth v).Sound size := by
  cases op with
  | print c =>
    obtain ⟨hcontrol, -, -, hle, hroom, -⟩ := h
    rw [s.size_eq] at hroom
    change (v.print c (ansiWidth c)).Sound size
    have hchar (h : 0 < ansiWidth c) : c = '\t' ∨ (isControl c = false ∧ 0 < ansiWidth c ∧
        ansiWidth c ≤ 2 ∧ ansiWidth c ≤ size.cols) := .inr ⟨hcontrol, h, hle, by omega⟩
    rcases hwidth : ansiWidth c with _ | _ | n
    · have hold := s.cells v.line v.lastColumn
      refine s.setCell ⟨hold.c, fun c' hc' => ?_, hold.attributes⟩
      rcases List.mem_append.mp hc' with hc' | hc'
      · exact hold.zerowidth c' hc'
      · obtain rfl := List.mem_singleton.mp hc'
        exact ⟨hcontrol, hwidth⟩
    · have hcell : Cell.Drawn ansiWidth size.cols ⟨c, [], v.pen, false, false, false, false⟩ :=
        ⟨hchar (by omega), nofun, s.pen⟩
      obtain ⟨hsize, hcells, hpen, hline⟩ := @View.Sound.setCell v size s v.line v.column _ hcell
      exact ⟨hsize, hcells, hpen, hline⟩
    · have hcell : Cell.Drawn ansiWidth size.cols ⟨c, [], v.pen, true, false, false, false⟩ :=
        ⟨hchar (by omega), nofun, s.pen⟩
      have hspacer : Cell.Drawn ansiWidth size.cols ⟨' ', [], v.pen, false, true, false, false⟩ :=
        ⟨(drawn_default hcols).c, nofun, s.pen⟩
      obtain ⟨hsize, hcells, hpen, hline⟩ := @View.Sound.setCell _ size
        (@View.Sound.setCell v size s v.line v.column _ hcell) v.line (v.column + 1) _ hspacer
      exact ⟨hsize, hcells, hpen, hline⟩
  | tab =>
    have hold := s.cells v.line v.column
    have hcell : Cell.Drawn ansiWidth size.cols { v.cell v.line v.column with c := '\t' } :=
      ⟨.inl rfl, hold.zerowidth, hold.attributes⟩
    change v.tab.Sound size
    unfold View.tab
    simp only
    split
    · obtain ⟨hsize, hcells, hpen, hline⟩ := @View.Sound.setCell v size s v.line v.column _ hcell
      exact ⟨hsize, hcells, hpen, hline⟩
    · exact ⟨s.size_eq, s.cells, s.pen, s.line⟩
  | sgr params =>
    obtain ⟨attrs, hattrs⟩ := Option.isSome_iff_exists.mp h.2
    refine ⟨s.size_eq, s.cells, ?_, s.line⟩
    change ((applySgr params v.pen).getD v.pen).Expressible
    rw [hattrs]
    exact applySgr_expressible s.pen hattrs
  | moveTo line column => exact ⟨s.size_eq, s.cells, s.pen, s.size_eq ▸ h.2.1⟩
  | home => exact ⟨s.size_eq, s.cells, s.pen, hrows⟩
  | clear => exact ⟨s.size_eq, fun _ _ => drawn_default hcols, s.pen, s.line⟩
  | switchScreen altScreen =>
    cases altScreen with
    | false => exact ⟨s.size_eq, s.cells, s.pen, s.line⟩
    | true => exact ⟨s.size_eq, fun _ _ => drawn_default hcols, s.pen, s.line⟩
  | title text => exact s

theorem View.Sound.perform (s : v.Sound size) (hsize : invalidClientSize size = none)
    (op : TermOp) : (v.perform op).Sound size := by
  have hbounds := bounds_of_validSize hsize
  unfold View.perform
  split
  · next h => exact s.apply hbounds.2.1 hbounds.1 h
  · exact s

theorem View.Sound.setModes (s : v.Sound size) (modes : TermModes) :
    (v.setModes modes).Sound size := ⟨s.size_eq, s.cells, s.pen, s.line⟩

theorem View.Sound.dispatch (s : v.Sound size) (hsize : invalidClientSize size = none)
    (params : List UInt8) (final : UInt8) : (v.dispatch params final).Sound size := by
  have hmode (on : Bool) : (v.setMode on params).Sound size := by
    unfold View.setMode
    simp only
    split_ifs <;> first | exact s.perform hsize _ | exact s.setModes _
  unfold View.dispatch
  split_ifs
  · exact s.perform hsize _
  · split <;> exact s.perform hsize _
  · exact s.perform hsize _
  · exact s
  · exact hmode true
  · exact hmode false
  · exact s

/-- A byte raises clean titles only, and leaves a view that the terminal can have. -/
theorem advance_sound {t : AnsiTerminal} (s : t.view.Sound size)
    (hsize : invalidClientSize size = none) (byte : UInt8) :
    (∀ title, CleanTitle title →
      CleanTitle ((t.advance byte).1.foldl (fun title event => event.setTitle title) title)) ∧
    ∃ t', (t.advance byte).2 = some t' ∧ t'.view.Sound size := by
  have hfinish (text : List Char) : (∀ title, CleanTitle title → CleanTitle
      ((AnsiTerminal.finish t.view text).1.foldl (fun title event => event.setTitle title) title)) ∧
      ∃ t', (AnsiTerminal.finish t.view text).2 = some t' ∧ t'.view.Sound size := by
    refine ⟨fun title h => ?_, _, rfl, s⟩
    unfold AnsiTerminal.finish
    simp only
    split
    · next hclean => exact hclean.2
    · exact h
  obtain ⟨parser, view⟩ := t
  cases parser with
  | ground pending =>
    simp only [AnsiTerminal.advance]
    split
    · exact ⟨fun _ h => h, _, rfl, s⟩
    · split
      · exact ⟨fun _ h => h, _, rfl, s.perform hsize _⟩
      · rcases pending.step byte with ⟨pending, _ | c⟩
        · exact ⟨fun _ h => h, _, rfl, s⟩
        · exact ⟨fun _ h => h, _, rfl, s.perform hsize _⟩
  | escape =>
    simp only [AnsiTerminal.advance]
    split
    · exact ⟨fun _ h => h, _, rfl, s⟩
    · split <;> exact ⟨fun _ h => h, _, rfl, s⟩
  | csi params =>
    simp only [AnsiTerminal.advance]
    split
    · exact ⟨fun _ h => h, _, rfl, s⟩
    · split
      · exact ⟨fun _ h => h, _, rfl, s.dispatch hsize _ _⟩
      · exact ⟨fun _ h => h, _, rfl, s⟩
  | osc text pending =>
    simp only [AnsiTerminal.advance]
    split
    · exact ⟨fun _ h => h, _, rfl, s⟩
    · split
      · exact hfinish text
      · rcases pending.step byte with ⟨pending, _ | c⟩ <;> exact ⟨fun _ h => h, _, rfl, s⟩
  | oscEscape text =>
    simp only [AnsiTerminal.advance]
    split
    · exact hfinish text
    · exact ⟨fun _ h => h, _, rfl, s⟩

theorem read_sound {bytes : List UInt8} {t t' : AnsiTerminal} {title title' : String}
    (hsize : invalidClientSize size = none) (s : t.view.Sound size)
    (h : ansiTerminal.read bytes t title = some (t', title')) :
    t'.view.Sound size ∧ (CleanTitle title → CleanTitle title') := by
  induction bytes generalizing t title with
  | nil =>
    cases h
    exact ⟨s, id⟩
  | cons byte bytes ih =>
    obtain ⟨htitle, t₁, ht₁, s₁⟩ := advance_sound s hsize byte
    have hstep : ansiTerminal.advance t byte = ((t.advance byte).1, some t₁) :=
      Prod.ext rfl ht₁
    rw [Emulator.read, hstep] at h
    obtain ⟨s', htitle'⟩ := ih s₁ h
    exact ⟨s', fun hclean => htitle' (htitle _ hclean)⟩

theorem drawn_screen (hsize : invalidClientSize size = none) (s : v.Sound size) :
    v.screen.Drawn ansiWidth size := by
  have hbounds := bounds_of_validSize hsize
  have hline : ∀ line ∈ v.screen.grid, ∃ l, line = (List.range v.size.cols).map (v.cell l) := by
    intro line hline
    obtain ⟨l, -, rfl⟩ := List.mem_map.mp hline
    exact ⟨l, rfl⟩
  refine ⟨by simp [View.screen, s.size_eq], fun line h => ?_, fun line h cell hcell => ?_, s.line, ?_⟩
  · obtain ⟨l, rfl⟩ := hline line h
    simp [s.size_eq]
  · obtain ⟨l, rfl⟩ := hline line h
    obtain ⟨c, -, rfl⟩ := List.mem_map.mp hcell
    exact s.cells l c
  · change min v.column (v.size.cols - 1) < size.cols
    rw [s.size_eq]
    omega

theorem between_eq (hsize : invalidClientSize v.size = none) :
    AnsiTerminal.between ⟨.ground .idle, v⟩ = some v := if_pos ⟨rfl, hsize⟩

theorem ansiTerminal_standard : Standard ansiTerminal ansiWidth AnsiTerminal.between where
  fresh size hsize := between_eq hsize
  screen t v h := by
    unfold AnsiTerminal.between at h
    split_ifs at h
    rw [← Option.some.inj h]
    rfl
  isEmpty _ := rfl
  operation t v op title h hfits := by
    unfold AnsiTerminal.between at h
    split_ifs at h with hidle
    obtain rfl := Option.some.inj h
    obtain ⟨parser, view⟩ := t
    obtain ⟨rfl, hsize⟩ := hidle
    refine ⟨_, read_operation hsize hfits, between_eq ?_⟩
    rw [apply_size]
    exact hsize
  text t v op title h htext := by
    unfold AnsiTerminal.between at h
    split_ifs at h with hidle
    obtain rfl := Option.some.inj h
    obtain ⟨parser, view⟩ := t
    obtain ⟨rfl, hsize⟩ := hidle
    have hread : ansiTerminal.read op.bytes ⟨.ground .idle, view⟩ title =
        some (⟨.ground .idle, view.perform op⟩, title) := by
      cases op with
      | print c => exact read_print htext.1
      | tab => exact read_tab
      | sgr | moveTo | home | clear | switchScreen | title => exact htext.elim
    obtain ⟨hkept, hrest⟩ := @perform_text view op _ htext
    exact ⟨_, view.perform op, hread, between_eq (hkept ▸ hsize), hkept, hrest⟩
  drawn size bytes title t title' hsize h screen hscreen := by
    obtain rfl : t.view.screen = screen := Option.some.inj hscreen
    exact drawn_screen hsize (read_sound hsize (sound_fresh hsize) h).1
  cleanTitle size bytes title t title' hsize hclean h :=
    (read_sound hsize (sound_fresh hsize) h).2 hclean

end Standard

section SelfContained

/-- The attributes that attribute sequences can give, one after the other. -/
inductive SgrProduces : CellAttributes → Prop
  | default : SgrProduces .default
  | sgr {a b : CellAttributes} (params : SgrParams) :
    SgrProduces a → applySgr params a = some b → SgrProduces b

theorem sgrProduces_iff (attrs : CellAttributes) : SgrProduces attrs ↔ attrs.Expressible := by
  constructor
  · intro h
    induction h with
    | default => exact default_expressible
    | sgr params _ happly ih => exact applySgr_expressible ih happly
  · intro h
    exact .sgr (sgrParams attrs) .default (applySgr_sgrParams h .default)

/-- Whatever the pen was, the sequence for some attributes sets the pen to these attributes, and
changes nothing else. -/
theorem pushSgr_self_contained :
    (∀ attrs, SgrProduces attrs ↔ attrs.Expressible) ∧
    ∀ attrs : CellAttributes, attrs.Expressible →
      (∀ v title, ansiTerminal.read (pushSgr attrs) ⟨.ground .idle, v⟩ title =
        some (⟨.ground .idle, v.setPen attrs⟩, title)) ∧
      ∀ (T : Type) (E : Emulator T) (width : Char → Nat) (view : T → Option View),
        Standard E width view → ∀ t v title, view t = some v →
          ∃ t', E.read (pushSgr attrs) t title = some (t', title) ∧
            view t' = some (v.setPen attrs) := by
  refine ⟨sgrProduces_iff, fun attrs h => ⟨fun v title => ?_, ?_⟩⟩
  · have hread : ansiTerminal.read (TermOp.sgr (sgrParams attrs)).bytes ⟨.ground .idle, v⟩ title =
        some (⟨.ground .idle, v.perform (.sgr (sgrParams attrs))⟩, title) :=
      read_sgr (wellFormed_sgrParams attrs)
    rw [TermOp.bytes, ← pushSgr_eq, perform_of_fits (fits_sgrParams h v),
      apply_sgrParams h] at hread
    exact hread
  · intro T E width view S t v title hview
    obtain ⟨t', hread, hview'⟩ := S.operation t v (.sgr (sgrParams attrs)) title hview
      (fits_sgrParams h v)
    rw [TermOp.bytes, ← pushSgr_eq] at hread
    rw [apply_sgrParams h] at hview'
    exact ⟨t', hread, hview'⟩

/-- Bright white on an indexed colour, bold, with a red undercurl. -/
private def warning : CellAttributes :=
  ⟨.named (.brightAnsi (.last 7)), .indexed 17,
    { StyleFlags.empty with bold := true, undercurl := true }, some (.spec ⟨255, 0, 0⟩)⟩

/-- Inverse and struck out, which the sequence of another text does not mention. -/
private def struck : CellAttributes :=
  ⟨.spec ⟨1, 2, 3⟩, .named .background, { StyleFlags.empty with inverse := true, strikeout := true },
    none⟩

theorem warning_after_struck :
    warning.Expressible ∧
    ansiTerminal.read (pushSgr warning) ⟨.ground .idle, (View.fresh ⟨80, 24⟩).setPen struck⟩ "" =
      some (⟨.ground .idle, ((View.fresh ⟨80, 24⟩).setPen struck).setPen warning⟩, "") := by
  have hwarning : warning.Expressible := by
    refine ⟨by decide, by decide, ?_, 3, by decide, by decide⟩
    rintro color ⟨⟩
    decide
  exact ⟨hwarning, (pushSgr_self_contained.2 warning hwarning).1 _ _⟩

end SelfContained

end Shelly.Daemon
