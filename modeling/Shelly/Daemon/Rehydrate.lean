import Mathlib.Data.List.TakeWhile
import Shelly.Daemon.Drawing

namespace Shelly.Daemon

/-- What can be seen at a place of the screen. -/
def Screen.visibleAt (screen : Screen) (line column : Nat) : Option Visible :=
  ((screen.grid[line]?).bind fun cells => cells[column]?).bind Cell.visible

/-- The rows of a screen stay in their lines when they are drawn. -/
def Screen.FitsRows (width : Char → Nat) (cols : Nat) (screen : Screen) : Prop :=
  ∀ line ∈ screen.grid, FitsRow width cols 0 (occupied Cell.isEmpty line)

/-- Drawn one after another, all cells that can be seen get to their own columns. -/
def Screen.AlignedRows (width : Char → Nat) (cols : Nat) (screen : Screen) : Prop :=
  ∀ line ∈ screen.grid, Aligned width cols 0 0 (occupied Cell.isEmpty line)

instance (width : Char → Nat) (cols : Nat) (screen : Screen) :
    Decidable (screen.FitsRows width cols) := inferInstanceAs (Decidable (∀ _ ∈ _, _))

instance (width : Char → Nat) (cols : Nat) (screen : Screen) :
    Decidable (screen.AlignedRows width cols) := inferInstanceAs (Decidable (∀ _ ∈ _, _))

variable {width : Char → Nat}

section Occupied

variable {cells : List Cell} {cell : Cell}

theorem visible_isEmpty (h : cell.isEmpty = true) : cell.visible = none := by
  have hblank : Cell.isEmpty { cell with wrapline := false } = true := by
    simp only [Cell.isEmpty, Bool.and_eq_true, Bool.not_eq_true', Bool.or_eq_false_iff] at h ⊢
    exact ⟨⟨h.1.1, ⟨h.1.2.1.1, trivial⟩, h.1.2.2⟩, h.2⟩
  simp [Cell.visible, hblank]

/-- Behind the cells that are drawn there are only empty ones. -/
theorem occupied_append (cells : List Cell) :
    ∃ rest, cells = occupied Cell.isEmpty cells ++ rest ∧ ∀ cell ∈ rest, cell.isEmpty = true := by
  refine ⟨(cells.reverse.takeWhile Cell.isEmpty).reverse, ?_, fun cell hcell => ?_⟩
  · rw [occupied, ← List.reverse_append, List.takeWhile_append_dropWhile, List.reverse_reverse]
  · exact List.mem_takeWhile_imp (List.mem_reverse.mp hcell)

theorem mem_of_occupied (h : cell ∈ occupied Cell.isEmpty cells) : cell ∈ cells := by
  obtain ⟨rest, hcells, -⟩ := occupied_append cells
  rw [hcells]
  exact List.mem_append_left rest h

theorem mem_visibleCells_occupied {q : Nat} {x : Visible} :
    (q, x) ∈ visibleCells 0 (occupied Cell.isEmpty cells) ↔
      (cells[q]?).bind Cell.visible = some x := by
  obtain ⟨rest, hcells, hrest⟩ := occupied_append cells
  rw [mem_visibleCells]
  conv_rhs => rw [hcells]
  by_cases hq : q < (occupied Cell.isEmpty cells).length
  · simp [List.getElem?_append_left hq]
  · rw [List.getElem?_append_right (by omega), Nat.sub_zero, List.getElem?_eq_none (by omega)]
    cases hr : rest[q - (occupied Cell.isEmpty cells).length]? with
    | none => simp
    | some cell => simp [visible_isEmpty (hrest cell (List.mem_of_getElem? hr))]

end Occupied

namespace View

variable {v v' v'' : View}

/-- Only the cells and the cursor have changed. -/
structure Kept (v v' : View) : Prop where
  size : v'.size = v.size
  altScreen : v'.altScreen = v.altScreen
  tabStop : v'.tabStop = v.tabStop
  interpretation : v'.interpretation = v.interpretation

theorem Kept.trans (h : v.Kept v') (h' : v'.Kept v'') : v.Kept v'' :=
  ⟨h'.size.trans h.size, h'.altScreen.trans h.altScreen, h'.tabStop.trans h.tabStop,
    h'.interpretation.trans h.interpretation⟩

theorem Kept.plain (h : v.Kept v') (p : v.Plain) : v'.Plain :=
  ⟨by rw [h.interpretation]; exact p.modes, h.tabStop.trans p.tabStop⟩

theorem Frame.kept (h : v.Frame v') (hpen : v'.pen = v.pen) : v.Kept v' :=
  ⟨h.size, h.altScreen, h.tabStop, by rw [h.interpretation, hpen]; rfl⟩

theorem run_moveTo (p : v.Plain) {line column : Nat} (hline : line < v.size.rows)
    (hcolumn : column < v.size.cols) :
    v.run width [.moveTo line column] = some (v.moveTo line column) := by
  refine run_single ⟨?_, hline, hcolumn⟩
  rw [p.modes]
  rfl

/-- Drawing rows that fit, on blank lines. -/
theorem run_lineOps {row : Nat} {lines : List (List Cell)} (p : v.Plain) (hpen : v.pen = .default)
    (hrows : row + lines.length = v.size.rows) (hcols : 0 < v.size.cols)
    (hdrawn : ∀ line ∈ lines, ∀ cell ∈ line, cell.Drawn width v.size.cols)
    (hfits : ∀ line ∈ lines, FitsRow width v.size.cols 0 (occupied Cell.isEmpty line))
    (hblank : ∀ line, row ≤ line → ∀ q, v.cell line q = .default) :
    ∃ v', v.run width (lineOps row lines) = some v' ∧ v.Kept v' ∧
      (∀ line < row, v'.cell line = v.cell line) ∧
      ∀ i line, lines[i]? = some line → ∀ q x, (v'.cell (row + i) q).visible = some x ↔
        (q, x) ∈ redrawnCells width v.size.cols 0 (occupied Cell.isEmpty line) := by
  induction lines generalizing v row with
  | nil => exact ⟨v, rfl, ⟨rfl, rfl, rfl, rfl⟩, fun _ _ => rfl, fun i line h => by simp at h⟩
  | cons line lines ih =>
    simp only [List.length_cons] at hrows
    have hmove := @run_moveTo width v p row 0 (by omega) hcols
    obtain ⟨v₁, hrun₁, hframe₁, hpen₁, hvisible₁⟩ := @run_cellOps width (v.moveTo row 0) 0 .default
      (occupied Cell.isEmpty line) ⟨p.modes, p.tabStop⟩
      (fun cell hcell => hdrawn line (.head _) cell (mem_of_occupied hcell)) (hfits line (.head _))
      (fun _ => rfl) (fun q _ => hblank row (Nat.le_refl _) q) hpen
    have hkept₁ : v.Kept v₁ := by
      have h := hframe₁.kept (hpen₁.trans hpen.symm)
      exact ⟨h.size, h.altScreen, h.tabStop, h.interpretation⟩
    have hline₁ (l : Nat) (hl : l ≠ row) : v₁.cell l = v.cell l := hframe₁.cell l hl
    obtain ⟨v₂, hrun₂, hkept₂, hbefore₂, hvisible₂⟩ := @ih v₁ (row + 1) (hkept₁.plain p) hpen₁
      (by rw [hkept₁.size]; omega) (by rw [hkept₁.size]; exact hcols)
      (fun l hl => by rw [hkept₁.size]; exact hdrawn l (.tail _ hl))
      (fun l hl => by rw [hkept₁.size]; exact hfits l (.tail _ hl))
      (fun l hl q => by rw [hline₁ l (by omega)]; exact hblank l (by omega) q)
    refine ⟨v₂, run_trans (run_trans hmove hrun₁) hrun₂, hkept₁.trans hkept₂, fun l hl => ?_,
      fun i l hl q x => ?_⟩
    · rw [hbefore₂ l (by omega), hline₁ l (by omega)]
    · cases i with
      | zero =>
        obtain rfl : line = l := by simpa using hl
        rw [Nat.add_zero, hbefore₂ row (by omega)]
        exact (hvisible₁ q x).trans ⟨fun h => h.resolve_left fun h => absurd h.1 (by omega), .inr⟩
      | succ i =>
        have h := hvisible₂ i l (by simpa using hl) q x
        rw [hkept₁.size] at h
        rwa [show row + (i + 1) = row + 1 + i by omega]

/-- What a fresh terminal of this size shows once it has switched its screen. -/
def switched (size : ClientSize) (altScreen : Bool) : View := { fresh size with altScreen }

theorem run_prologue (size : ClientSize) (altScreen : Bool) {title : String}
    (htitle : CleanTitle title) :
    (fresh size).run width [.switchScreen altScreen, .title title, .sgr [[0]], .home, .clear] =
      some (switched size altScreen) := by
  have hswitch : (fresh size).run width [.switchScreen altScreen] =
      some (switched size altScreen) := by
    have hfits : (TermOp.switchScreen altScreen).Fits width (fresh size) := ⟨rfl, rfl, rfl, rfl⟩
    rw [run_single hfits]
    cases altScreen <;> rfl
  have hset : (switched size altScreen).run width [.title title] =
      some (switched size altScreen) := run_single htitle
  have hreset : (switched size altScreen).run width [.sgr [[0]]] =
      some (switched size altScreen) := run_reset
  have hhome : (switched size altScreen).run width [.home] = some (switched size altScreen) :=
    run_single rfl
  have hclear : (switched size altScreen).run width [.clear] = some (switched size altScreen) :=
    run_single rfl
  exact run_trans hswitch (run_trans hset (run_trans hreset (run_trans hhome hclear)))

/-- Drawing a screen whose rows fit. -/
theorem run_snapshotOps {size : ClientSize} {screen : Screen} {title : String}
    (hdrawn : screen.Drawn width size) (hfits : screen.FitsRows width size.cols)
    (htitle : CleanTitle title) :
    ∃ v, (fresh size).run width (snapshotOps screen title) = some v ∧
      (switched size screen.altScreen).Kept v ∧ v.line = screen.cursorLine ∧
      v.column = screen.cursorColumn ∧
      ∀ i line, screen.grid[i]? = some line → ∀ q x, (v.cell i q).visible = some x ↔
        (q, x) ∈ redrawnCells width size.cols 0 (occupied Cell.isEmpty line) := by
  have hprologue := @run_prologue width size screen.altScreen title htitle
  have hcols : 0 < size.cols := Nat.lt_of_le_of_lt (Nat.zero_le _) hdrawn.cursorColumn
  obtain ⟨v, hrun, hkept, -, hvisible⟩ := @run_lineOps width (switched size screen.altScreen) 0
    screen.grid ⟨rfl, rfl⟩ rfl (by rw [Nat.zero_add]; exact hdrawn.lines) hcols hdrawn.cells hfits
    (fun _ _ _ => rfl)
  have hmove := @run_moveTo width v (hkept.plain ⟨rfl, rfl⟩) screen.cursorLine screen.cursorColumn
    (by rw [hkept.size]; exact hdrawn.cursorLine) (by rw [hkept.size]; exact hdrawn.cursorColumn)
  refine ⟨v.moveTo screen.cursorLine screen.cursorColumn,
    run_trans (run_trans hprologue hrun) hmove,
    ⟨hkept.size, hkept.altScreen, hkept.tabStop, hkept.interpretation⟩, rfl, rfl, ?_⟩
  intro i line hline
  rw [← Nat.zero_add i]
  exact hvisible i line hline

end View

section Title

theorem foldl_setTitle_cellOps (attrs : CellAttributes) (cells : List Cell) (title : String) :
    (cellOps attrs cells).foldl TermOp.setTitle title = title := by
  induction cells generalizing attrs with
  | nil =>
    rw [cellOps]
    split <;> rfl
  | cons cell cells ih =>
    have htext : (textOps cell).foldl TermOp.setTitle title = title := by
      rw [textOps, List.foldl_map]
      refine List.foldl_fixed' (fun c => ?_) _
      unfold charOp
      split <;> rfl
    rw [cellOps]
    split
    · exact ih attrs
    · rw [List.foldl_append, List.foldl_append]
      split
      · rw [List.foldl_nil, htext, ih]
      · change (cellOps cell.attributes cells).foldl TermOp.setTitle
          ((textOps cell).foldl TermOp.setTitle title) = title
        rw [htext, ih]

theorem foldl_setTitle_lineOps (row : Nat) (lines : List (List Cell)) (title : String) :
    (lineOps row lines).foldl TermOp.setTitle title = title := by
  induction lines generalizing row with
  | nil => rfl
  | cons line lines ih =>
    rw [lineOps, List.foldl_append, List.foldl_append]
    change (lineOps (row + 1) lines).foldl TermOp.setTitle
      ((cellOps .default (occupied Cell.isEmpty line)).foldl TermOp.setTitle title) = title
    rw [foldl_setTitle_cellOps, ih]

/-- The title that a snapshot sets. -/
theorem foldl_setTitle_snapshotOps (screen : Screen) (title old : String) :
    (snapshotOps screen title).foldl TermOp.setTitle old = title := by
  rw [snapshotOps, List.foldl_append, List.foldl_append, foldl_setTitle_lineOps]
  rfl

end Title

section Rehydrates

variable {T : Type*} {E : Emulator T} {view : T → Option View}

/-- Both show the same: the title, which screen is used, the cursor, and what can be seen. -/
structure Screen.LooksLike (screen screen' : Screen) : Prop where
  altScreen : screen'.altScreen = screen.altScreen
  cursorLine : screen'.cursorLine = screen.cursorLine
  cursorColumn : screen'.cursorColumn = screen.cursorColumn
  visible : ∀ line column, screen'.visibleAt line column = screen.visibleAt line column

/-- A new model of the same size that reads the snapshot of this one shows the same. -/
def TerminalModel.Rehydrates (E : Emulator T) (m : TerminalModel T) : Prop :=
  ∃ screen bytes, E.screen m.terminal = some screen ∧ m.snapshot E = some bytes ∧
    ∀ r, ∃ client screen', ((TerminalModel.new E m.size 0).advanceBytes E 0 bytes r).2 = some client ∧
      E.screen client.terminal = some screen' ∧ client.title = m.title ∧ screen.LooksLike screen'

theorem TerminalModel.advanceBytes_size {position : Nat} {bytes : List UInt8}
    {m m' : TerminalModel T} {r : Responder} (h : (m.advanceBytes E position bytes r).2 = some m') :
    m'.size = m.size := by
  induction bytes generalizing position m r with
  | nil => rw [← Option.some.inj h]
  | cons byte bytes ih =>
    simp only [advanceBytes] at h
    rcases hterminal : (E.advance m.terminal byte).2 with _ | terminal
    · simp [hterminal] at h
    · simp only [hterminal] at h
      have hsize := ih h
      exact hsize

theorem View.visibleAt_screen (v : View) (line column : Nat) :
    v.screen.visibleAt line column =
      if line < v.size.rows ∧ column < v.size.cols then (v.cell line column).visible else none := by
  simp only [Screen.visibleAt, View.screen, List.getElem?_map]
  by_cases hline : line < v.size.rows
  · by_cases hcolumn : column < v.size.cols
    · simp [hline, hcolumn]
    · simp [hline, hcolumn]
  · simp [hline]

/-- A model of a new terminal has read what its terminal has. -/
theorem TerminalModel.read_of_advanceBytes {size : ClientSize} {bytes : List UInt8}
    {r : Responder} {m : TerminalModel T}
    (h : ((TerminalModel.new E size 0).advanceBytes E 0 bytes r).2 = some m) :
    E.read bytes (E.new size) defaultTitle = some (m.terminal, m.title) := by
  have hread : Option.map _ _ = E.read bytes (E.new size) defaultTitle :=
    TerminalModel.advanceBytes_read 0 bytes (TerminalModel.new E size 0) r
  rw [← hread, h]
  rfl

theorem TerminalModel.advanceBytes_of_read {size : ClientSize} {bytes : List UInt8} {t : T}
    {title : String} (h : E.read bytes (E.new size) defaultTitle = some (t, title))
    (r : Responder) :
    ∃ m, ((TerminalModel.new E size 0).advanceBytes E 0 bytes r).2 = some m ∧
      m.terminal = t ∧ m.title = title := by
  have hread : Option.map _ _ = E.read bytes (E.new size) defaultTitle :=
    TerminalModel.advanceBytes_read 0 bytes (TerminalModel.new E size 0) r
  rw [h] at hread
  obtain ⟨m, hm, hpair⟩ := Option.map_eq_some_iff.mp hread
  exact ⟨m, hm, congrArg Prod.fst hpair, congrArg Prod.snd hpair⟩

theorem cleanTitle_default : CleanTitle defaultTitle := by decide

/-- What the rows of two screens show is compared row by row. -/
theorem visibleAt_eq_iff_aligned {size : ClientSize} {screen : Screen} {v : View}
    (hdrawn : screen.Drawn width size) (hfits : screen.FitsRows width size.cols)
    (hsize : v.size = size)
    (hvisible : ∀ i line, screen.grid[i]? = some line → ∀ q x, (v.cell i q).visible = some x ↔
      (q, x) ∈ redrawnCells width size.cols 0 (occupied Cell.isEmpty line)) :
    (∀ line column, v.screen.visibleAt line column = screen.visibleAt line column) ↔
      screen.AlignedRows width size.cols := by
  have hrow {i : Nat} {row : List Cell} (hline : screen.grid[i]? = some row) :
      (∀ q, v.screen.visibleAt i q = screen.visibleAt i q) ↔
        Aligned width size.cols 0 0 (occupied Cell.isEmpty row) := by
    have hmem := List.mem_of_getElem? hline
    have hi : i < size.rows := by
      rw [← hdrawn.lines]
      exact (List.getElem?_eq_some_iff.mp hline).1
    have hcells : ∀ cell ∈ occupied Cell.isEmpty row, cell.Drawn width size.cols :=
      fun cell hcell => hdrawn.cells row hmem cell (mem_of_occupied hcell)
    have hat (q : Nat) : screen.visibleAt i q = (row[q]?).bind Cell.visible := by
      rw [Screen.visibleAt, hline]
      rfl
    rw [← mem_redrawnCells_iff_aligned hcells (hfits row hmem)]
    refine forall_congr' fun q => ?_
    rw [View.visibleAt_screen, hsize, hat]
    by_cases hq : q < size.cols
    · rw [if_pos ⟨hi, hq⟩, Option.ext_iff]
      refine forall_congr' fun x => ?_
      rw [hvisible i row hline, mem_visibleCells_occupied]
    · have hnone : row[q]? = none := by
        rw [List.getElem?_eq_none_iff, hdrawn.columns row hmem]
        omega
      rw [if_neg fun h => hq h.2, hnone]
      refine iff_of_true rfl fun x => iff_of_false (fun h => ?_) fun h => ?_
      · exact hq (bounds_redrawnCells hcells (hfits row hmem) h).2
      · rw [mem_visibleCells_occupied, hnone] at h
        cases h
  constructor
  · intro h line hline
    obtain ⟨i, hi⟩ := List.getElem?_of_mem hline
    exact (hrow hi).mp (h i)
  · intro h i q
    cases hi : screen.grid[i]? with
    | some line => exact (hrow hi).mpr (h line (List.mem_of_getElem? hi)) q
    | none =>
      have hle := List.getElem?_eq_none_iff.mp hi
      rw [hdrawn.lines] at hle
      rw [View.visibleAt_screen, hsize, if_neg fun h => by omega, Screen.visibleAt, hi]
      rfl

/-- A snapshot rehydrates a screen whose rows fit just if they are aligned. -/
theorem Standard.rehydrates_iff (S : Standard E width view) {size : ClientSize}
    (hsize : invalidClientSize size = none) {bytes : List UInt8} {r : Responder}
    {m : TerminalModel T} {screen : Screen}
    (hm : ((TerminalModel.new E size 0).advanceBytes E 0 bytes r).2 = some m)
    (hscreen : E.screen m.terminal = some screen) (hfits : screen.FitsRows width size.cols) :
    m.Rehydrates E ↔ screen.AlignedRows width size.cols := by
  have hread := TerminalModel.read_of_advanceBytes hm
  have hmsize : m.size = size := TerminalModel.advanceBytes_size hm
  have hdrawn := S.drawn size bytes _ _ _ hsize hread screen hscreen
  have htitle := S.cleanTitle size bytes _ _ _ hsize cleanTitle_default hread
  have hisEmpty : E.isEmpty = Cell.isEmpty := funext S.isEmpty
  have hsnapshot : m.snapshot E = some ((snapshotOps screen m.title).flatMap TermOp.bytes) := by
    rw [TerminalModel.snapshot, hscreen, hisEmpty, Option.map_some, renderSnapshot_eq screen htitle]
  obtain ⟨v, hrun, hkept, hline, hcolumn, hvisible⟩ := View.run_snapshotOps hdrawn hfits htitle
  obtain ⟨t, hreads, hview⟩ := S.read_run defaultTitle (S.fresh size hsize) hrun
  rw [foldl_setTitle_snapshotOps] at hreads
  have hshown := S.screen t v hview
  rw [← visibleAt_eq_iff_aligned hdrawn hfits hkept.size hvisible]
  constructor
  · rintro ⟨screen', bytes', hscreen', hbytes', hclient⟩
    obtain rfl : screen = screen' := Option.some.inj (hscreen.symm.trans hscreen')
    obtain rfl := Option.some.inj (hsnapshot.symm.trans hbytes')
    obtain ⟨client, screen'', hclient, hscreen'', -, hlike⟩ := hclient r
    rw [hmsize] at hclient
    have hterminal := hreads.symm.trans (TerminalModel.read_of_advanceBytes hclient)
    obtain rfl : t = client.terminal := congrArg Prod.fst (Option.some.inj hterminal)
    obtain rfl : v.screen = screen'' := Option.some.inj (hshown.symm.trans hscreen'')
    exact hlike.visible
  · intro hlike
    refine ⟨screen, _, hscreen, hsnapshot, fun r => ?_⟩
    obtain ⟨client, hclient, hterminal, hname⟩ := TerminalModel.advanceBytes_of_read hreads r
    refine ⟨client, v.screen, by rw [hmsize]; exact hclient, by rw [hterminal]; exact hshown, hname,
      hkept.altScreen, hline, ?_, hlike⟩
    have hlt := hdrawn.cursorColumn
    change min v.column (v.size.cols - 1) = screen.cursorColumn
    rw [hcolumn, hkept.size]
    change min screen.cursorColumn (size.cols - 1) = screen.cursorColumn
    omega

end Rehydrates

end Shelly.Daemon
