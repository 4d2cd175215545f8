import Shelly.Daemon.Rows

namespace Shelly.Daemon

variable {width : Char → Nat}

namespace View

variable {v v' v'' : View}

theorem run_append (ops ops' : List TermOp) (v : View) :
    v.run width (ops ++ ops') = (v.run width ops).bind (run width ops') := by
  induction ops generalizing v with
  | nil => rfl
  | cons op ops ih =>
    rw [List.cons_append, run, run]
    split
    · exact ih _
    · rfl

theorem run_single {op : TermOp} (h : op.Fits width v) :
    v.run width [op] = some (op.apply width v) := by
  simp [run, h]

theorem run_trans {ops ops' : List TermOp} (h : v.run width ops = some v')
    (h' : v'.run width ops' = some v'') : v.run width (ops ++ ops') = some v'' := by
  rw [run_append, h]
  exact h'

/-- The modes and the tab stops are those of a fresh terminal. -/
structure Plain (v : View) : Prop where
  modes : v.interpretation.modes = .fresh
  tabStop : v.tabStop = fun column => column % 8 == 0

/-- Only the line of the cursor and the pen have changed. -/
structure Frame (v v' : View) : Prop where
  size : v'.size = v.size
  altScreen : v'.altScreen = v.altScreen
  line : v'.line = v.line
  tabStop : v'.tabStop = v.tabStop
  interpretation : v'.interpretation = { v.interpretation with pen := v'.pen }
  cell : ∀ line ≠ v.line, v'.cell line = v.cell line

theorem Frame.refl (v : View) : v.Frame v := ⟨rfl, rfl, rfl, rfl, rfl, fun _ _ => rfl⟩

theorem Frame.trans (h : v.Frame v') (h' : v'.Frame v'') : v.Frame v'' where
  size := h'.size.trans h.size
  altScreen := h'.altScreen.trans h.altScreen
  line := h'.line.trans h.line
  tabStop := h'.tabStop.trans h.tabStop
  interpretation := by rw [h'.interpretation, h.interpretation]
  cell := fun line hline => (h'.cell line (h.line ▸ hline)).trans (h.cell line hline)

theorem Frame.plain (h : v.Frame v') (p : v.Plain) : v'.Plain where
  modes := by rw [h.interpretation]; exact p.modes
  tabStop := h.tabStop.trans p.tabStop

@[simp] theorem setCell_cell (line column : Nat) (cell : Cell) (l c : Nat) :
    (v.setCell line column cell).cell l c =
      if l = line ∧ c = column then cell else v.cell l c := rfl

theorem setCell_frame (column : Nat) (cell : Cell) : v.Frame (v.setCell v.line column cell) := by
  refine ⟨rfl, rfl, rfl, rfl, rfl, fun line hline => ?_⟩
  funext c
  simp [hline]

theorem setCell_self (line column : Nat) : v.setCell line column (v.cell line column) = v := by
  have hcell : (v.setCell line column (v.cell line column)).cell = v.cell := by
    funext l c
    simp only [setCell_cell]
    split
    · next h => rw [h.1, h.2]
    · rfl
  exact congrArg (fun cell => { v with cell }) hcell

theorem setCell_setCell (line column : Nat) (cell cell' : Cell) :
    (v.setCell line column cell).setCell line column cell' = v.setCell line column cell' := by
  have hcell : ((v.setCell line column cell).setCell line column cell').cell =
      (v.setCell line column cell').cell := by
    funext l c
    simp only [setCell_cell]
    split <;> rfl
  exact congrArg (fun cell => { v with cell }) hcell

/-- Characters of no width join the cell before the cursor. -/
def combine (v : View) (column : Nat) (cs : List Char) : View :=
  let cell := v.cell v.line column
  v.setCell v.line column { cell with zerowidth := cell.zerowidth ++ cs }

theorem combine_nil (column : Nat) : v.combine column [] = v := by
  simp only [combine, List.append_nil]
  exact setCell_self v.line column

theorem combine_append (column : Nat) (cs cs' : List Char) :
    (v.combine column cs).combine column cs' = v.combine column (cs ++ cs') := by
  have hline : (v.combine column cs).line = v.line := rfl
  rw [combine, hline, combine, setCell_setCell, combine]
  simp

theorem combine_frame (column : Nat) (cs : List Char) : v.Frame (v.combine column cs) :=
  setCell_frame column _

theorem combine_lastColumn (column : Nat) (cs : List Char) :
    (v.combine column cs).lastColumn = v.lastColumn := by
  have hspacer (q : Nat) : ((v.combine column cs).cell v.line q).wideCharSpacer =
      (v.cell v.line q).wideCharSpacer := by
    simp only [combine, setCell_cell]
    split
    · next h => rw [h.2]
    · rfl
  unfold lastColumn
  rw [show (v.combine column cs).line = v.line from rfl, hspacer]
  rfl

theorem run_zerowidth {column : Nat} {cs : List Char} (p : v.Plain) (hlast : v.lastColumn = column)
    (hpos : 0 < v.column) (hle : v.column ≤ v.size.cols)
    (hcs : ∀ c ∈ cs, isControl c = false ∧ width c = 0) :
    v.run width (cs.map TermOp.print) = some (v.combine column cs) := by
  induction cs generalizing v with
  | nil => rw [combine_nil]; rfl
  | cons c cs ih =>
    obtain ⟨hcontrol, hwidth⟩ := hcs c (.head _)
    have hfits : (TermOp.print c).Fits width v := by
      simp only [TermOp.Fits, hcontrol, hwidth, p.modes, TermModes.fresh]
      simpa using ⟨hle, hpos⟩
    have happly : (TermOp.print c).apply width v = v.combine column [c] := by
      rw [TermOp.apply, hwidth, print, hlast]
      rfl
    have hrun := ih ((combine_frame column [c]).plain p) ((combine_lastColumn _ _).trans hlast)
      hpos hle fun c' hc' => hcs c' (.tail _ hc')
    rw [List.map_cons, run, if_pos hfits, happly, hrun, combine_append]
    rfl

/-- On a fresh terminal there is a tab stop every eight columns. -/
theorem nextStop_eq (p : v.Plain) {column : Nat} (h : column + 1 < v.size.cols) :
    v.nextStop column = tabTarget v.size.cols column := by
  rw [tabTarget, if_pos h, nextStop, p.tabStop]
  by_cases hstop : 8 * (column / 8 + 1) < v.size.cols
  · have hfind : (List.range' (column + 1) (v.size.cols - (column + 1))).find?
        (fun column => column % 8 == 0) = some (8 * (column / 8 + 1)) := by
      rw [List.find?_range'_eq_some]
      refine ⟨by simp, by simp; omega, fun j hj hlt => ?_⟩
      simp only [Bool.not_eq_true', beq_eq_false_iff_ne]
      omega
    rw [hfind, Option.getD_some]
    omega
  · have hfind : (List.range' (column + 1) (v.size.cols - (column + 1))).find?
        (fun column => column % 8 == 0) = none := by
      rw [List.find?_range'_eq_none]
      intro j hj hlt
      simp only [Bool.not_eq_true', beq_eq_false_iff_ne]
      omega
    rw [hfind, Option.getD_none]
    omega

end View

/-- A cell as a terminal keeps it when it is drawn. -/
def Cell.stored (width : Char → Nat) (cell : Cell) : Cell :=
  if cell.c = '\t' then { Cell.default with c := '\t', zerowidth := cell.zerowidth }
  else ⟨cell.c, cell.zerowidth, cell.attributes, width cell.c == 2, false, false, false⟩

theorem visible_stored {cell : Cell} (h : cell.spacer = false) :
    (cell.stored width).visible = cell.redrawn.visible := by
  unfold Cell.stored Cell.redrawn
  split
  · next hc => rw [if_pos ⟨hc, h⟩]
  · next hc =>
    obtain ⟨hwide, hleading⟩ := Bool.or_eq_false_iff.mp h
    rw [if_neg fun h => hc h.1]
    simp [Cell.visible, Cell.isEmpty, Cell.spacer, pushCellString, hwide, hleading]

namespace View

variable {v v' : View}

/-- A cell has been drawn at a column of a line that was blank from there on. -/
structure Drew (width : Char → Nat) (start : Nat) (cell : Cell) (v v' : View) : Prop where
  frame : v.Frame v'
  pen : v'.pen = v.pen
  column : cell.advance width v.size.cols start < v.size.cols →
    v'.column = cell.advance width v.size.cols start
  before : ∀ q < start, v'.cell v.line q = v.cell v.line q
  stored : v'.cell v.line start = cell.stored width
  after : ∀ q, start < q → (v'.cell v.line q).visible = none
  blank : ∀ q, cell.advance width v.size.cols start ≤ q → v'.cell v.line q = .default

section Drew

variable {start : Nat} {cell : Cell} {cells : List Cell}

theorem Drew.combine (d : Drew width start { cell with zerowidth := [] } v v')
    (hlt : start < cell.advance width v.size.cols start) :
    Drew width start cell v (v'.combine start cell.zerowidth) where
  frame := d.frame.trans (combine_frame _ _)
  pen := d.pen
  column := d.column
  before := by
    intro q hq
    rw [View.combine, d.frame.line, setCell_cell, if_neg fun h => by omega]
    exact d.before q hq
  stored := by
    rw [View.combine, d.frame.line, setCell_cell, if_pos ⟨rfl, rfl⟩, d.stored]
    simp only [Cell.stored]
    split <;> simp
  after := by
    intro q hq
    rw [View.combine, d.frame.line, setCell_cell, if_neg fun h => by omega]
    exact d.after q hq
  blank := by
    intro q hq
    rw [View.combine, d.frame.line, setCell_cell, if_neg fun h => by omega]
    exact d.blank q hq

theorem tab_drew (p : v.Plain) (hc : cell.c = '\t') (hs : cell.spacer = false)
    (hstart : v.column = start) (hlt : start < v.size.cols)
    (hblank : ∀ q, start ≤ q → v.cell v.line q = .default) :
    Drew width start { cell with zerowidth := [] } v v.tab := by
  have htab : v.tab = { v.setCell v.line start { Cell.default with c := '\t' } with
      column := v.nextStop start } := by
    have hcell := hblank start (Nat.le_refl _)
    simp only [tab, hstart, hcell, Cell.default, if_true]
  have hadvance : Cell.advance width v.size.cols start { cell with zerowidth := [] } =
      tabTarget v.size.cols start := advance_tab hs hc
  have htarget := (lt_tabTarget hlt).1
  refine ⟨?_, ?_, ?_, ?_, ?_, ?_, ?_⟩
  · rw [htab]
    exact ⟨rfl, rfl, rfl, rfl, rfl, (setCell_frame start _).cell⟩
  · rw [htab]; rfl
  · intro h
    rw [hadvance] at h ⊢
    rw [htab]
    refine nextStop_eq p ?_
    by_contra hlast
    rw [tabTarget, if_neg hlast] at h
    omega
  · intro q hq
    rw [htab]
    exact if_neg fun h => by omega
  · rw [htab, Cell.stored, if_pos hc]
    exact if_pos ⟨rfl, rfl⟩
  · intro q hq
    have hcell : v.tab.cell v.line q = v.cell v.line q := by
      rw [htab]
      exact if_neg fun h => by omega
    rw [hcell, hblank q (by omega)]
    rfl
  · intro q hq
    rw [hadvance] at hq
    rw [htab, ← hblank q (by omega)]
    exact if_neg fun h => by omega

theorem print_drew (hs : cell.spacer = false) (hc : cell.c ≠ '\t')
    (hwidth : width cell.c = 1 ∨ width cell.c = 2) (hpen : v.pen = cell.attributes)
    (hstart : v.column = start) (hblank : ∀ q, start ≤ q → v.cell v.line q = .default) :
    Drew width start { cell with zerowidth := [] } v (v.print cell.c (width cell.c)) := by
  have hadvance : Cell.advance width v.size.cols start { cell with zerowidth := [] } =
      start + width cell.c := advance_char hs hc
  have hstored : Cell.stored width { cell with zerowidth := [] } =
      ⟨cell.c, [], cell.attributes, width cell.c == 2, false, false, false⟩ := if_neg hc
  rcases hwidth with hwidth | hwidth
  · have hprint : v.print cell.c 1 =
        { v.setCell v.line start ⟨cell.c, [], cell.attributes, false, false, false, false⟩ with
          column := start + 1 } := by
      rw [print, hpen, hstart]
    rw [hwidth] at hadvance hstored ⊢
    rw [hprint]
    refine ⟨⟨rfl, rfl, rfl, rfl, rfl, (setCell_frame start _).cell⟩, rfl, fun _ => hadvance.symm,
      fun q hq => if_neg fun h => by omega, ?_, fun q hq => ?_, fun q hq => ?_⟩
    · rw [hstored]
      exact if_pos ⟨rfl, rfl⟩
    · rw [setCell_cell, if_neg fun h => by omega, hblank q (by omega)]
      rfl
    · rw [hadvance] at hq
      rw [setCell_cell, if_neg fun h => by omega, hblank q (by omega)]
  · let wide := v.setCell v.line start ⟨cell.c, [], cell.attributes, true, false, false, false⟩
    have hprint : v.print cell.c 2 =
        { wide.setCell v.line (start + 1) ⟨' ', [], cell.attributes, false, true, false, false⟩ with
          column := start + 2 } := by
      simp only [print, hpen, hstart, wide]
    have hframe : v.Frame (wide.setCell v.line (start + 1)
        ⟨' ', [], cell.attributes, false, true, false, false⟩) :=
      (setCell_frame start _).trans (setCell_frame (start + 1) _)
    rw [hwidth] at hadvance hstored ⊢
    rw [hprint]
    refine ⟨⟨rfl, rfl, rfl, rfl, rfl, hframe.cell⟩, rfl, fun _ => hadvance.symm,
      fun q hq => ?_, ?_, fun q hq => ?_, fun q hq => ?_⟩
    · rw [setCell_cell, if_neg fun h => by omega, setCell_cell, if_neg fun h => by omega]
    · rw [setCell_cell, if_neg fun h => by omega, hstored]
      exact if_pos ⟨rfl, rfl⟩
    · by_cases hnext : q = start + 1
      · rw [setCell_cell, if_pos ⟨rfl, hnext⟩]
        rfl
      · rw [setCell_cell, if_neg fun h => hnext h.2, setCell_cell, if_neg fun h => by omega,
          hblank q (by omega)]
        rfl
    · rw [hadvance] at hq
      rw [setCell_cell, if_neg fun h => by omega, setCell_cell, if_neg fun h => by omega,
        hblank q (by omega)]

/-- The character that was just printed is the one before the cursor. -/
theorem print_lastColumn {c : Char} {n : Nat} (hn : n = 1 ∨ n = 2) :
    (v.print c n).lastColumn = v.column ∧ (v.print c n).column = v.column + n := by
  rcases hn with rfl | rfl <;> simp [print, lastColumn, setCell]

/-- Drawing a cell that fits the row. -/
theorem run_textOps (p : v.Plain) (hdrawn : cell.Drawn width v.size.cols)
    (hfits : FitsRow width v.size.cols start (cell :: cells)) (hs : cell.spacer = false)
    (hstart : start < v.size.cols → v.column = start)
    (hblank : ∀ q, start ≤ q → v.cell v.line q = .default)
    (hpen : v.pen = cell.attributes) :
    ∃ v', v.run width (textOps cell) = some v' ∧ Drew width start cell v v' := by
  obtain ⟨hlt, hle⟩ := lt_advance hdrawn hfits hs
  have hcolumn : v.column = start := hstart (by omega)
  have hzero : cell.zerowidth.map charOp = cell.zerowidth.map TermOp.print := by
    refine List.map_congr_left fun c hc => ?_
    have hcontrol := (hdrawn.zerowidth c hc).1
    refine if_neg ?_
    rintro rfl
    cases hcontrol
  have hops : textOps cell = [charOp cell.c] ++ cell.zerowidth.map TermOp.print := by
    rw [← hzero]
    rfl
  have hfit := hfits.1 hs
  by_cases hc : cell.c = '\t'
  · rw [if_pos hc] at hfit
    have d := @tab_drew width v start cell p hc hs hcolumn hfit.1 hblank
    have htab : v.run width [charOp cell.c] = some v.tab := by
      rw [charOp, if_pos hc]
      refine run_single ?_
      rw [TermOp.Fits, hcolumn]
      exact hfit.1
    refine ⟨v.tab.combine start cell.zerowidth, ?_, d.combine hlt⟩
    rw [hops]
    refine run_trans htab ?_
    rcases hfit.2 with hnone | ⟨hnext, htarget⟩
    · rw [hnone, combine_nil]
      rfl
    · have hadvance : v.tab.column = start + 1 := by
        rw [← htarget, ← advance_tab hs hc]
        refine d.column ?_
        change cell.advance width v.size.cols start < v.size.cols
        rw [advance_tab hs hc, htarget]
        exact hnext
      refine run_zerowidth (d.frame.plain p) ?_ (by omega) ?_ hdrawn.zerowidth
      · rw [lastColumn, hadvance, d.frame.line, Nat.add_sub_cancel, d.stored]
        simp [Cell.stored, hc, Cell.default]
      · rw [hadvance, d.frame.size]
        omega
  · rw [if_neg hc] at hfit
    obtain ⟨hcontrol, hpos, hwidth, -⟩ := hdrawn.c.resolve_left hc
    have hone : width cell.c = 1 ∨ width cell.c = 2 := by omega
    have d := print_drew hs hc hone hpen hcolumn hblank
    have hprint : v.run width [charOp cell.c] = some (v.print cell.c (width cell.c)) := by
      rw [charOp, if_neg hc]
      refine run_single ?_
      simp only [TermOp.Fits, p.modes, TermModes.fresh, hcolumn]
      refine ⟨hcontrol, trivial, trivial, hwidth, hfit, by omega, fun i hi => ?_⟩
      rw [hblank _ (by omega)]
      rfl
    refine ⟨(v.print cell.c (width cell.c)).combine start cell.zerowidth, ?_, d.combine hlt⟩
    rw [hops]
    refine run_trans hprint ?_
    obtain ⟨hlast, hnext⟩ := @print_lastColumn v cell.c _ hone
    refine run_zerowidth (d.frame.plain p) (hlast.trans hcolumn) (by omega) ?_ hdrawn.zerowidth
    rw [hnext, d.frame.size, hcolumn]
    exact hfit

theorem Drew.visible_iff (d : Drew width start cell v v') (hs : cell.spacer = false)
    (hlt : start < cell.advance width v.size.cols start) (q : Nat) (x : Visible) :
    q < cell.advance width v.size.cols start ∧ (v'.cell v.line q).visible = some x ↔
      (q < start ∧ (v.cell v.line q).visible = some x) ∨
        (q = start ∧ cell.redrawn.visible = some x) := by
  rcases Nat.lt_trichotomy q start with hq | rfl | hq
  · rw [d.before q hq]
    simp [hq, show q < cell.advance width v.size.cols start by omega, show q ≠ start by omega]
  · rw [d.stored, visible_stored hs]
    simp [hlt]
  · rw [d.after q hq]
    simp [show ¬q < start by omega, show q ≠ start by omega]

theorem setPen_frame (pen : CellAttributes) : v.Frame (v.setPen pen) :=
  ⟨rfl, rfl, rfl, rfl, rfl, fun _ _ => rfl⟩

end Drew

theorem run_sgr {attrs : CellAttributes} (h : attrs.Expressible) :
    v.run width [.sgr (sgrParams attrs)] = some (v.setPen attrs) := by
  rw [run_single (fits_sgrParams h v), apply_sgrParams h]

theorem run_reset : v.run width [.sgr [[0]]] = some (v.setPen .default) :=
  @run_sgr width v .default default_expressible

/-- Attributes are only written where they change. -/
theorem run_setPen {attrs : CellAttributes} (h : attrs.Expressible) {old : CellAttributes}
    (hpen : v.pen = old) :
    v.run width (if attrs = old then [] else [.sgr (sgrParams attrs)]) = some (v.setPen attrs) := by
  split
  · next heq => rw [heq, ← hpen]; rfl
  · exact run_sgr h

/-- Drawing the cells of a row that fits. -/
theorem run_cellOps {start : Nat} {attrs : CellAttributes} {cells : List Cell} (p : v.Plain)
    (hdrawn : ∀ cell ∈ cells, cell.Drawn width v.size.cols)
    (hfits : FitsRow width v.size.cols start cells)
    (hstart : start < v.size.cols → v.column = start)
    (hblank : ∀ q, start ≤ q → v.cell v.line q = .default) (hpen : v.pen = attrs) :
    ∃ v', v.run width (cellOps attrs cells) = some v' ∧ v.Frame v' ∧ v'.pen = .default ∧
      ∀ q x, (v'.cell v.line q).visible = some x ↔
        (q < start ∧ (v.cell v.line q).visible = some x) ∨
          (q, x) ∈ redrawnCells width v.size.cols start cells := by
  induction cells generalizing v start attrs with
  | nil =>
    have hrun := @run_setPen width v _ default_expressible attrs hpen
    rw [show sgrParams .default = [[0]] from rfl] at hrun
    refine ⟨v.setPen .default, ?_, setPen_frame _, rfl, fun q x => ?_⟩
    · rw [cellOps]
      simpa only [eq_comm] using hrun
    · change (v.cell v.line q).visible = some x ↔ _
      by_cases hq : q < start
      · simp [hq, redrawnCells]
      · rw [hblank q (by omega)]
        simp [hq, redrawnCells, visible_default]
  | cons cell cells ih =>
    have hdrawn' : ∀ c ∈ cells, c.Drawn width v.size.cols := fun c hc => hdrawn c (.tail _ hc)
    rw [cellOps, redrawnCells]
    by_cases hs : cell.spacer = true
    · rw [if_pos hs, redrawn_spacer hs, visible_spacer hs, advance_spacer hs]
      have hrest := hfits.2
      rw [advance_spacer hs] at hrest
      exact ih p hdrawn' hrest hstart hblank hpen
    · rw [if_neg hs]
      replace hs : cell.spacer = false := by simpa using hs
      have hcell := hdrawn cell (.head _)
      have hlt := (lt_advance hcell hfits hs).1
      have hrun := @run_setPen width v _ hcell.attributes attrs hpen
      obtain ⟨v₂, hrun₂, d⟩ := @run_textOps width (v.setPen cell.attributes) start cell cells
        ((setPen_frame _).plain p) hcell hfits hs hstart hblank rfl
      have hframe := (setPen_frame cell.attributes).trans d.frame
      obtain ⟨v₃, hrun₃, hframe₃, hpen₃, hvisible⟩ := ih (hframe.plain p)
        (by rw [hframe.size]; exact hdrawn') (by rw [hframe.size]; exact hfits.2)
        (by rw [hframe.size]; exact d.column) (by rw [hframe.line]; exact d.blank) d.pen
      refine ⟨v₃, run_trans (run_trans hrun hrun₂) hrun₃, hframe.trans hframe₃, hpen₃,
        fun q x => ?_⟩
      rw [hframe.line, hframe.size] at hvisible
      rw [hvisible, List.mem_append, mem_visible_toList, ← or_assoc]
      exact or_congr_left (d.visible_iff hs hlt q x)

end View

end Shelly.Daemon
