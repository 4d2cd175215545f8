import Shelly.Daemon.Projection

namespace Shelly.Daemon

variable {T : Type*}

/-- A call on a projection. The two that read bytes come with the queue that is written to. -/
inductive ProjectionCall
  | ingest (position : Nat) (bytes : List UInt8) (r : Responder)
  | resize (size : ClientSize)
  | rebuild (start : Nat) (scrollback : List UInt8) (r : Responder)
  | cacheLastNonEmptyLine (lastLine : String)
  | lastNonEmptyLine

namespace ProjectionCall

/-- What a call leaves. All calls ask for one number of characters. -/
def perform (E : Emulator T) (maxChars : Nat) (p : TerminalProjection T) :
    ProjectionCall → TerminalProjection T
  | .ingest position bytes r => (p.ingest E position bytes r).2.1
  | .resize size => (p.resize E size).2
  | .rebuild start scrollback r => (p.rebuild E start scrollback r).2.1
  | .cacheLastNonEmptyLine lastLine => p.cacheLastNonEmptyLine lastLine maxChars
  | .lastNonEmptyLine => (p.lastNonEmptyLine E maxChars).2

/-- The line that was given since the terminal was last touched. -/
def given (line : Option String) : ProjectionCall → Option String
  | .ingest .. | .resize _ | .rebuild .. => none
  | .cacheLastNonEmptyLine lastLine => some lastLine
  | .lastNonEmptyLine => line

end ProjectionCall

namespace TerminalProjection

variable {E : Emulator T} {maxChars : Nat} {line : Option String} {p : TerminalProjection T}
  {m : TerminalModel T}

/-- What a scan of the model finds now. -/
def freshScan (E : Emulator T) (maxChars : Nat) (m : TerminalModel T) :
    Except TerminalProjectionFailure (Option String) :=
  (m.lastNonEmptyLine E maxChars).elim (.error .inspectionPanicked) .ok

/-- A cache that would be used holds the line that was given since, or what a scan finds, and a
given line is in a cache that would be used. -/
structure Cached (E : Emulator T) (maxChars : Nat) (line : Option String)
    (p : TerminalProjection T) : Prop where
  scanned : line = none → p.lastLineDirty = false → p.lastLineMaxChars = maxChars →
    ∀ m, p.model = some m → freshScan E maxChars m = .ok p.lastLine
  held : ∀ lastLine, line = some lastLine →
    p.lastLineDirty = false ∧ p.lastLineMaxChars = maxChars ∧ p.lastLine = some lastLine

/-- Without a model there is nothing a scan could find. -/
theorem cached_of_unavailable (h : p.model = none) : p.Cached E maxChars none where
  scanned _ _ _ _ hm := nomatch h.symm.trans hm
  held _ hline := nomatch hline

theorem cached_of_dirty (h : p.lastLineDirty = true) : p.Cached E maxChars none where
  scanned _ hdirty := nomatch h.symm.trans hdirty
  held _ hline := nomatch hline

theorem cached_ingest (position : Nat) (bytes : List UInt8) (r : Responder) :
    (p.ingest E position bytes r).2.1.Cached E maxChars none := by
  unfold ingest
  split
  · next hmodel => exact cached_of_unavailable hmodel
  · split
    · exact cached_of_unavailable rfl
    · exact cached_of_dirty rfl

theorem cached_resize (size : ClientSize) : (p.resize E size).2.Cached E maxChars none := by
  unfold resize
  split
  · next hmodel => exact cached_of_unavailable hmodel
  · split
    · exact cached_of_dirty rfl
    · exact cached_of_unavailable rfl

theorem cached_rebuild (start : Nat) (scrollback : List UInt8) (r : Responder) :
    (p.rebuild E start scrollback r).2.1.Cached E maxChars none := by
  unfold rebuild
  split
  · exact cached_of_dirty rfl
  · exact cached_of_unavailable rfl

theorem cached_given (lastLine : String) :
    (p.cacheLastNonEmptyLine lastLine maxChars).Cached E maxChars (some lastLine) where
  scanned hline := nomatch hline
  held _ hline := by
    cases hline
    exact ⟨rfl, rfl, rfl⟩

/-- Where the cache is not used, no line was given. -/
theorem Cached.line_eq_none (h : p.Cached E maxChars line)
    (hstale : ¬ (!p.lastLineDirty && p.lastLineMaxChars == maxChars) = true) : line = none := by
  cases hline : line with
  | none => rfl
  | some lastLine =>
    obtain ⟨hdirty, hmax, -⟩ := h.held lastLine hline
    simp [hdirty, hmax] at hstale

/-- Asking for the line leaves the cache as good as it was. -/
theorem Cached.lastNonEmptyLine (h : p.Cached E maxChars line) :
    (p.lastNonEmptyLine E maxChars).2.Cached E maxChars line := by
  unfold TerminalProjection.lastNonEmptyLine
  split
  · exact h
  · next hstale =>
    obtain rfl := h.line_eq_none hstale
    split
    · exact h
    · next m hmodel =>
      split
      · exact h
      · next lastLine hscan =>
        refine ⟨fun _ _ _ m' hm' => ?_, fun _ hline => nomatch hline⟩
        obtain rfl : m = m' := Option.some.inj (hmodel.symm.trans hm')
        rw [freshScan, hscan]
        rfl

theorem Cached.perform (h : p.Cached E maxChars line) (call : ProjectionCall) :
    (call.perform E maxChars p).Cached E maxChars (call.given line) := by
  cases call with
  | ingest position bytes r => exact cached_ingest position bytes r
  | resize size => exact cached_resize size
  | rebuild start scrollback r => exact cached_rebuild start scrollback r
  | cacheLastNonEmptyLine lastLine => exact cached_given lastLine
  | lastNonEmptyLine => exact h.lastNonEmptyLine

/-- The cache of a new projection is for no characters. A new terminal shows nothing. -/
theorem cached_new (hblank : maxChars = 0 → ∀ size, (E.screen (E.new size)).map
      (fun screen => Daemon.lastNonEmptyLine E.isEmpty screen 0) = some none) (size : ClientSize) :
    (new E size).Cached E maxChars none := by
  refine ⟨fun _ _ hmax m hm => ?_, fun _ hline => nomatch hline⟩
  obtain rfl : 0 = maxChars := hmax
  cases hm
  rw [freshScan, TerminalModel.lastNonEmptyLine, TerminalModel.new, hblank rfl size]
  rfl

theorem cached_run (h : p.Cached E maxChars line) (calls : List ProjectionCall) :
    (calls.foldl (ProjectionCall.perform E maxChars) p).Cached E maxChars
      (calls.foldl ProjectionCall.given line) := by
  induction calls generalizing p line with
  | nil => exact h
  | cons call calls ih => exact ih (h.perform call)

/-- What a projection with a model answers. -/
theorem Cached.answer (h : p.Cached E maxChars line) (hm : p.model = some m) :
    (p.lastNonEmptyLine E maxChars).1 =
      line.elim (freshScan E maxChars m) fun lastLine => .ok (some lastLine) := by
  unfold TerminalProjection.lastNonEmptyLine
  split
  · next hfresh =>
    obtain ⟨hdirty, hmax⟩ : p.lastLineDirty = false ∧ p.lastLineMaxChars = maxChars := by
      simpa using hfresh
    cases hline : line with
    | none => exact (h.scanned hline hdirty hmax m hm).symm
    | some lastLine =>
      obtain ⟨-, -, hlast⟩ := h.held lastLine hline
      rw [hlast]
      rfl
  · next hstale =>
    rw [h.line_eq_none hstale, hm]
    dsimp only
    rw [Option.elim_none, freshScan]
    cases m.lastNonEmptyLine E maxChars <;> rfl

end TerminalProjection

/-- After any calls, a projection with a model answers with the line it was given since the
terminal was last touched, or else with what a scan of the model finds. -/
theorem last_line_agrees (E : Emulator T) (maxChars : Nat)
    (hblank : maxChars = 0 → ∀ size, (E.screen (E.new size)).map
      (fun screen => lastNonEmptyLine E.isEmpty screen 0) = some none)
    (size : ClientSize) (calls : List ProjectionCall) (m : TerminalModel T)
    (hm : (calls.foldl (ProjectionCall.perform E maxChars) (.new E size)).model = some m) :
    ((calls.foldl (ProjectionCall.perform E maxChars) (.new E size)).lastNonEmptyLine E
      maxChars).1 = (calls.foldl ProjectionCall.given none).elim
        (TerminalProjection.freshScan E maxChars m) fun lastLine => .ok (some lastLine) :=
  (TerminalProjection.cached_run (TerminalProjection.cached_new hblank size) calls).answer hm

/-- A terminal of one line, which fails at the bell and below two columns. -/
private def lineTerminal : Emulator (List UInt8) where
  new _ := []
  advance line byte := ([], if byte = 7 then none else some (line ++ [byte]))
  resize line size := if size.cols < 2 then none else some line
  screen line := some
    ⟨[line.map fun byte => { Cell.default with c := Char.ofNat byte.toNat }], false, 0, 0⟩
  isEmpty cell := cell.c = ' '

/-- Calls that fail on the way, and a line that is given before the last output. -/
private def lineCalls : List ProjectionCall :=
  [.ingest 0 [0x68, 0x69] .new, .lastNonEmptyLine, .resize ⟨1, 1⟩, .lastNonEmptyLine,
    .rebuild 0 [0x68, 0x69] .new, .cacheLastNonEmptyLine "proceed?", .lastNonEmptyLine,
    .ingest 2 [0x21] .new]

theorem last_line_after_calls :
    ((lineCalls.foldl (ProjectionCall.perform lineTerminal 80)
      (.new lineTerminal ⟨80, 24⟩)).lastNonEmptyLine lineTerminal 80).1 = .ok (some "hi!") :=
  last_line_agrees lineTerminal 80 (fun h => nomatch h) ⟨80, 24⟩ lineCalls
    ⟨[0x68, 0x69, 0x21], defaultTitle, ⟨1, 1⟩, [0x68, 0x69, 0x21], 3⟩ rfl

end Shelly.Daemon
