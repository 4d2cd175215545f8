import Shelly.Daemon.AnsiStandard
import Shelly.Daemon.Rehydrate

namespace Shelly.Daemon

variable {T : Type*} {E : Emulator T} {width : Char → Nat} {view : T → Option View}

/-- Bytes have taken a terminal from between two sequences to between two sequences, and of what
decides how later bytes are read only the pen has changed. -/
structure Reached (E : Emulator T) (view : T → Option View) (title : String) (ops : List TermOp)
    (t : T) (v : View) (t' : T) (v' : View) : Prop where
  read : E.read (ops.flatMap TermOp.bytes) t title = some (t', title)
  view : view t' = some v'
  size : v'.size = v.size
  altScreen : v'.altScreen = v.altScreen
  interpretation : v'.interpretation = { v.interpretation with pen := v'.pen }

section Reached

variable {title : String} {ops ops' : List TermOp} {t t' t'' : T} {v v' v'' : View}

theorem Reached.refl (hv : view t = some v) : Reached E view title [] t v t v :=
  ⟨rfl, hv, rfl, rfl, rfl⟩

theorem Reached.trans (h : Reached E view title ops t v t' v')
    (h' : Reached E view title ops' t' v' t'' v'') :
    Reached E view title (ops ++ ops') t v t'' v'' where
  read := by
    rw [List.flatMap_append, Emulator.read_append, h.read]
    exact h'.read
  view := h'.view
  size := h'.size.trans h.size
  altScreen := h'.altScreen.trans h.altScreen
  interpretation := by rw [h'.interpretation, h.interpretation]

theorem Reached.modes (h : Reached E view title ops t v t' v') :
    v'.interpretation.modes = v.interpretation.modes := by
  rw [h.interpretation]

/-- Text leaves the pen alone wherever it goes. -/
theorem Standard.reached_text (S : Standard E width view) (hv : view t = some v)
    (hops : ∀ op ∈ ops, op.Text width v.size.cols) :
    ∃ t' v', Reached E view title ops t v t' v' ∧ v'.pen = v.pen := by
  induction ops generalizing t v with
  | nil => exact ⟨t, v, .refl hv, rfl⟩
  | cons op ops ih =>
    obtain ⟨t₁, v₁, hread, hv₁, hsize, haltScreen, hinterpretation⟩ :=
      S.text t v op title hv (hops op (.head _))
    have hpen : v₁.pen = v.pen := congrArg Interpretation.pen hinterpretation
    have hfirst : Reached E view title [op] t v t₁ v₁ := by
      refine ⟨?_, hv₁, hsize, haltScreen, by rw [hinterpretation, hpen]; rfl⟩
      simpa using hread
    obtain ⟨t₂, v₂, hrest, hpen₂⟩ := ih hv₁ (by
      rw [hsize]
      exact fun op' hop' => hops op' (.tail _ hop'))
    exact ⟨t₂, v₂, hfirst.trans hrest, hpen₂.trans hpen⟩

theorem Standard.reached_sgr (S : Standard E width view) (hv : view t = some v)
    {attrs : CellAttributes} (h : attrs.Expressible) :
    ∃ t', Reached E view title [.sgr (sgrParams attrs)] t v t' (v.setPen attrs) := by
  obtain ⟨t', hread, hv'⟩ := S.read_run title hv (View.run_sgr h)
  exact ⟨t', hread, hv', rfl, rfl, rfl⟩

theorem text_of_drawn {cell : Cell} {cols : Nat} (h : cell.Drawn width cols) :
    ∀ op ∈ textOps cell, op.Text width cols := by
  intro op hop
  obtain ⟨c, hc, rfl⟩ := List.mem_map.mp hop
  unfold charOp
  split
  · trivial
  · next hne =>
    rcases List.mem_cons.mp hc with rfl | hc
    · obtain ⟨hcontrol, -, hle, hcols⟩ := h.c.resolve_left hne
      exact ⟨hcontrol, hle, hcols⟩
    · obtain ⟨hcontrol, hwidth⟩ := h.zerowidth c hc
      exact ⟨hcontrol, by omega, by omega⟩

/-- However the cells of a row come to lie, the pen is reset at the end. -/
theorem Standard.reached_cellOps (S : Standard E width view) (hv : view t = some v)
    {attrs : CellAttributes} {cells : List Cell} (hpen : v.pen = attrs)
    (hdrawn : ∀ cell ∈ cells, cell.Drawn width v.size.cols) :
    ∃ t' v', Reached E view title (cellOps attrs cells) t v t' v' ∧ v'.pen = .default := by
  induction cells generalizing t v attrs with
  | nil =>
    rw [cellOps]
    split
    · next h => exact ⟨t, v, .refl hv, hpen.trans h⟩
    · obtain ⟨t', hreset⟩ := @Standard.reached_sgr T E width view title t v S hv _ default_expressible
      exact ⟨t', _, hreset, rfl⟩
  | cons cell cells ih =>
    have hcell := hdrawn cell (.head _)
    have hcells : ∀ c ∈ cells, c.Drawn width v.size.cols := fun c hc => hdrawn c (.tail _ hc)
    rw [cellOps]
    split
    · exact ih hv hpen hcells
    · have hset : ∃ t₁ v₁, Reached E view title
          (if cell.attributes = attrs then [] else [.sgr (sgrParams cell.attributes)]) t v t₁ v₁ ∧
            v₁.pen = cell.attributes := by
        split
        · next h => exact ⟨t, v, .refl hv, hpen.trans h.symm⟩
        · obtain ⟨t₁, h₁⟩ := S.reached_sgr hv hcell.attributes
          exact ⟨t₁, _, h₁, rfl⟩
      obtain ⟨t₁, v₁, h₁, hpen₁⟩ := hset
      obtain ⟨t₂, v₂, h₂, hpen₂⟩ : ∃ t₂ v₂, Reached E view title (textOps cell) t₁ v₁ t₂ v₂ ∧
          v₂.pen = v₁.pen := S.reached_text h₁.view (by
        rw [h₁.size]
        exact text_of_drawn hcell)
      obtain ⟨t₃, v₃, h₃, hpen₃⟩ := ih h₂.view (hpen₂.trans hpen₁) (by
        rw [h₂.size, h₁.size]
        exact hcells)
      exact ⟨t₃, v₃, (h₁.trans h₂).trans h₃, hpen₃⟩

theorem Standard.reached_moveTo (S : Standard E width view) (hv : view t = some v)
    (horigin : v.interpretation.modes.origin = false) {line column : Nat}
    (hline : line < v.size.rows) (hcolumn : column < v.size.cols) :
    ∃ t', Reached E view title [.moveTo line column] t v t' (v.moveTo line column) := by
  have hfits : (TermOp.moveTo line column).Fits width v := ⟨horigin, hline, hcolumn⟩
  obtain ⟨t', hread, hv'⟩ := S.read_run title hv (View.run_single hfits)
  exact ⟨t', hread, hv', rfl, rfl, rfl⟩

theorem Standard.reached_lineOps (S : Standard E width view) (hv : view t = some v) {row : Nat}
    {lines : List (List Cell)} (hpen : v.pen = .default)
    (horigin : v.interpretation.modes.origin = false)
    (hrows : row + lines.length = v.size.rows) (hcols : 0 < v.size.cols)
    (hdrawn : ∀ line ∈ lines, ∀ cell ∈ line, cell.Drawn width v.size.cols) :
    ∃ t' v', Reached E view title (lineOps row lines) t v t' v' ∧ v'.pen = .default := by
  induction lines generalizing t v row with
  | nil => exact ⟨t, v, .refl hv, hpen⟩
  | cons line lines ih =>
    simp only [List.length_cons] at hrows
    obtain ⟨t₁, h₁⟩ := @Standard.reached_moveTo T E width view title t v S hv horigin row 0
      (by omega) hcols
    obtain ⟨t₂, v₂, h₂, hpen₂⟩ := S.reached_cellOps h₁.view hpen
      fun cell hcell => hdrawn line (.head _) cell (mem_of_occupied hcell)
    have h₁₂ := h₁.trans h₂
    have hrows₂ : row + 1 + lines.length = v₂.size.rows := by
      rw [h₁₂.size]
      omega
    obtain ⟨t₃, v₃, h₃, hpen₃⟩ := ih h₂.view hpen₂ (by rw [h₁₂.modes]; exact horigin) hrows₂
      (by rw [h₁₂.size]; exact hcols)
      (by rw [h₁₂.size]; exact fun l hl => hdrawn l (.tail _ hl))
    exact ⟨t₃, v₃, h₁₂.trans h₃, hpen₃⟩

end Reached

/-- The bytes that a client gets that has seen nothing before. -/
def coldAttachBytes (E : Emulator T) (s : Session) (m : TerminalModel T) : Option (List UInt8) :=
  (m.snapshot E).map fun snapshot => (s.attachBytes none snapshot).2

/-- What decides how a terminal reads later bytes; inside a sequence the view says nothing. -/
def TerminalModel.interpretation (view : T → Option View) (m : TerminalModel T) :
    Option Interpretation :=
  (view m.terminal).map View.interpretation

variable {size : ClientSize} {bytes : List UInt8} {r : Responder} {m : TerminalModel T}
  {screen : Screen}

/-- Whatever a client of this size is given, it stands like a fresh terminal. -/
theorem Standard.cold_attach (S : Standard E width view) (hsize : invalidClientSize size = none)
    (hm : ((TerminalModel.new E size 0).advanceBytes E 0 bytes r).2 = some m)
    (hscreen : E.screen m.terminal = some screen) (s : Session) (r' : Responder) :
    ∃ attached client v, coldAttachBytes E s m = some attached ∧
      ((TerminalModel.new E size 0).advanceBytes E 0 attached r').2 = some client ∧
      view client.terminal = some v ∧ v.altScreen = screen.altScreen ∧
      v.interpretation = .fresh size := by
  have hread := TerminalModel.read_of_advanceBytes hm
  have hdrawn := S.drawn size bytes _ _ _ hsize hread screen hscreen
  have htitle := S.cleanTitle size bytes _ _ _ hsize cleanTitle_default hread
  have hisEmpty : E.isEmpty = Cell.isEmpty := funext S.isEmpty
  have hattached : coldAttachBytes E s m =
      some ((snapshotOps screen m.title).flatMap TermOp.bytes) := by
    rw [coldAttachBytes, TerminalModel.snapshot, hscreen, hisEmpty, Option.map_some,
      renderSnapshot_eq screen htitle]
    rfl
  have hcols : 0 < size.cols := Nat.lt_of_le_of_lt (Nat.zero_le _) hdrawn.cursorColumn
  obtain ⟨t₁, hread₁, hv₁⟩ := S.read_run defaultTitle (S.fresh size hsize)
    (View.run_prologue size screen.altScreen htitle)
  obtain ⟨t₂, v₂, h₂, hpen₂⟩ : ∃ t₂ v₂, Reached E view m.title (lineOps 0 screen.grid) t₁
      (View.switched size screen.altScreen) t₂ v₂ ∧ v₂.pen = .default :=
    S.reached_lineOps hv₁ rfl rfl (by rw [Nat.zero_add]; exact hdrawn.lines) hcols hdrawn.cells
  obtain ⟨t₃, h₃⟩ : ∃ t₃, Reached E view m.title
      [.moveTo screen.cursorLine screen.cursorColumn] t₂ v₂ t₃
      (v₂.moveTo screen.cursorLine screen.cursorColumn) :=
    S.reached_moveTo h₂.view (by rw [h₂.modes]; rfl) (by rw [h₂.size]; exact hdrawn.cursorLine)
      (by rw [h₂.size]; exact hdrawn.cursorColumn)
  have h₂₃ := h₂.trans h₃
  have hreads : E.read ((snapshotOps screen m.title).flatMap TermOp.bytes) (E.new size)
      defaultTitle = some (t₃, m.title) := by
    rw [snapshotOps, List.append_assoc, List.flatMap_append, Emulator.read_append, hread₁]
    exact h₂₃.read
  obtain ⟨client, hclient, hterminal, -⟩ := TerminalModel.advanceBytes_of_read hreads r'
  refine ⟨_, client, _, hattached, hclient, hterminal ▸ h₂₃.view, h₂₃.altScreen, ?_⟩
  rw [h₂₃.interpretation]
  change { (Interpretation.fresh size) with pen := v₂.pen } = Interpretation.fresh size
  rw [hpen₂]
  rfl

/-- A cold attach hands over no state of interpretation but which screen is used: the client stands
like a fresh terminal, and so like the daemon's just if that does. -/
theorem cold_attach_interpretation (S : Standard E width view)
    (hsize : invalidClientSize size = none)
    (hm : ((TerminalModel.new E size 0).advanceBytes E 0 bytes r).2 = some m)
    (hscreen : E.screen m.terminal = some screen) (s : Session) (r' : Responder) :
    ∃ attached client, coldAttachBytes E s m = some attached ∧
      ((TerminalModel.new E size 0).advanceBytes E 0 attached r').2 = some client ∧
      client.interpretation view = some (.fresh size) ∧
      (view client.terminal).map View.altScreen = some screen.altScreen ∧
      (client.interpretation view = m.interpretation view ↔
        m.interpretation view = some (.fresh size)) := by
  obtain ⟨attached, client, v, hattached, hclient, hv, haltScreen, hinterpretation⟩ :=
    S.cold_attach hsize hm hscreen s r'
  have hfresh : client.interpretation view = some (.fresh size) := by
    rw [TerminalModel.interpretation, hv, Option.map_some, hinterpretation]
  refine ⟨attached, client, hattached, hclient, hfresh, ?_, ?_⟩
  · rw [hv, Option.map_some, haltScreen]
  · rw [hfresh]
    exact eq_comm

theorem cold_attach_interpretation_text : ∃ m attached client,
    ((TerminalModel.new ansiTerminal ⟨4, 1⟩ 0).advanceBytes ansiTerminal 0 [0x68, 0x69] .new).2 =
        some m ∧
      coldAttachBytes ansiTerminal (.spawn 0 "vim" 0) m = some attached ∧
      ((TerminalModel.new ansiTerminal ⟨4, 1⟩ 0).advanceBytes ansiTerminal 0 attached .new).2 =
        some client ∧
      client.interpretation AnsiTerminal.between = m.interpretation AnsiTerminal.between := by
  have hread : ansiTerminal.read [0x68, 0x69] (ansiTerminal.new ⟨4, 1⟩) defaultTitle =
      some (⟨.ground .idle, ((View.fresh ⟨4, 1⟩).perform (.print 'h')).perform (.print 'i')⟩,
        defaultTitle) := rfl
  obtain ⟨m, hm, hterminal, -⟩ := TerminalModel.advanceBytes_of_read hread .new
  obtain ⟨attached, client, hattached, hclient, -, -, hiff⟩ :=
    cold_attach_interpretation ansiTerminal_standard rfl hm rfl (.spawn 0 "vim" 0) .new
  refine ⟨m, attached, client, hm, hattached, hclient, hiff.mpr ?_⟩
  rw [TerminalModel.interpretation, hterminal]
  rfl

/-- A client that attaches after `ESC [ ? 25 l` shows the cursor that the session has hidden. -/
theorem cold_attach_forgets : Standard ansiTerminal ansiWidth AnsiTerminal.between ∧
    invalidClientSize ⟨4, 1⟩ = none ∧ ∃ m attached client,
      ((TerminalModel.new ansiTerminal ⟨4, 1⟩ 0).advanceBytes ansiTerminal 0
        [0x1b, 0x5b, 0x3f, 0x32, 0x35, 0x6c] .new).2 = some m ∧
      coldAttachBytes ansiTerminal (.spawn 0 "vim" 0) m = some attached ∧
      ((TerminalModel.new ansiTerminal ⟨4, 1⟩ 0).advanceBytes ansiTerminal 0 attached .new).2 =
        some client ∧
      client.interpretation AnsiTerminal.between ≠ m.interpretation AnsiTerminal.between := by
  let hidden := (View.fresh ⟨4, 1⟩).setModes { TermModes.fresh with showCursor := false }
  have hread : ansiTerminal.read [0x1b, 0x5b, 0x3f, 0x32, 0x35, 0x6c] (ansiTerminal.new ⟨4, 1⟩)
      defaultTitle = some (⟨.ground .idle, hidden⟩, defaultTitle) := rfl
  obtain ⟨m, hm, hterminal, -⟩ := TerminalModel.advanceBytes_of_read hread .new
  obtain ⟨attached, client, v, hattached, hclient, hv, -, hfresh⟩ :=
    ansiTerminal_standard.cold_attach rfl hm rfl (.spawn 0 "vim" 0) .new
  refine ⟨ansiTerminal_standard, rfl, m, attached, client, hm, hattached, hclient, ?_⟩
  rw [TerminalModel.interpretation, TerminalModel.interpretation, hv, hterminal, Option.map_some,
    hfresh]
  decide

end Shelly.Daemon
