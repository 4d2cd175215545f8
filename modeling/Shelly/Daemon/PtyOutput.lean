import Mathlib.Algebra.BigOperators.Group.List.Basic
import Mathlib.Algebra.GroupWithZero.Nat
import Shelly.Daemon.PtyInput

namespace Shelly.Daemon.PtyOutput

open PtyInput (PollResult)

/-- The turns of one `drain_pty_output`. -/
def drainTurns : Nat := 64

def bufferSize : Nat := 8192

/-- What one `read` does while bytes wait: it fails with an interrupt, or takes one byte and at
most so many others. -/
inductive Read
  | interrupted
  | upTo (others : Nat)
  deriving DecidableEq

/-- How many bytes a read can take. -/
def Read.size : Read → Nat
  | .interrupted => 0
  | .upTo others => min (others + 1) bufferSize

/-- One turn of the drain: what the child writes before it, whether the child exits then, and the
read. -/
structure Turn where
  output : List UInt8
  exit : Option Int
  read : Read
  deriving DecidableEq

inductive PtyReadState
  | open | closed
  deriving DecidableEq

/-- The thread by its place in `run_pty_io`. The final drain is the one after the child was seen to
have exited. -/
inductive PtyIo
  | checkingShutdown
  | checkingChild
  | finalDrain (exitCode : Int)
  | polling
  | reading (writable : Bool)
  | writing
  | marking (exitCode : Int)
  | gone
  deriving DecidableEq

/-- The thread has not yet decided to end. -/
def PtyIo.running : PtyIo → Bool
  | .finalDrain _ | .marking _ | .gone => false
  | _ => true

/-- The thread calls `mark_exited` next, or has called it. -/
def PtyIo.marked : PtyIo → Bool
  | .marking _ | .gone => true
  | _ => false

/-- The terminal and the thread. `waiting` is what the child wrote and nobody has read, `childExit`
the code of a child that has exited, and `seen` whether the thread saw it through
`try_child_exit_code`. The last two fields are history: what the child wrote, and the calls of
`record_output`. -/
structure State where
  pc : PtyIo
  waiting : List UInt8
  childExit : Option Int
  seen : Bool
  written : List UInt8
  recorded : List (List UInt8)
  deriving DecidableEq

inductive Action
  | child (output : List UInt8) (exit : Option Int)
  | checkShutdown (shutdown : Bool) (exitCode : Int)
  | checkChild (failed : Bool)
  | finalDrain (closed : Bool) (turns : List Turn)
  | poll (result : PollResult) (exitCode : Int)
  | drain (closed : Bool) (turns : List Turn) (exitCode : Int)
  | write (failed : Bool) (exitCode : Int)
  | markExited
  deriving DecidableEq

namespace State

variable (s : State)

/-- A child that has not exited writes, and may then exit. -/
def child (output : List UInt8) (exit : Option Int) : State :=
  match s.childExit with
  | some _ => s
  | none =>
    { s with
      waiting := s.waiting ++ output
      childExit := exit
      written := s.written ++ output }

/-- One turn of the loop in `drain_pty_output`, and its result if the drain ends with it. When
nothing waits, a read reports that the terminal is closed, or that it would block. -/
def readTurn (closed : Bool) (read : Read) : State × Option PtyReadState :=
  match read with
  | .interrupted => (s, none)
  | .upTo _ =>
    if s.waiting = [] then (s, some (if closed then .closed else .open))
    else
      ({ s with
        waiting := s.waiting.drop read.size
        recorded := s.recorded ++ [s.waiting.take read.size] }, none)

/-- The turns of `drain_pty_output`. After the last one the terminal is taken to be open. -/
def drainPtyOutput (closed : Bool) : List Turn → State → State × PtyReadState
  | [], s => (s, .open)
  | turn :: turns, s =>
    match (s.child turn.output turn.exit).readTurn closed turn.read with
    | (s, some result) => (s, result)
    | (s, none) => drainPtyOutput closed turns s

end State

def step : Action → State → Option State
  | .child output exit, s => some (s.child output exit)
  | .checkShutdown shutdown exitCode, s =>
    if s.pc = .checkingShutdown then
      some { s with pc := if shutdown then .marking exitCode else .checkingChild }
    else none
  | .checkChild failed, s =>
    if s.pc = .checkingChild then
      match s.childExit with
      | some exitCode =>
        some { s with pc := .finalDrain (if failed then 1 else exitCode), seen := true }
      | none => some { s with pc := if failed then .finalDrain 1 else .polling }
    else none
  | .finalDrain closed turns, s =>
    match s.pc with
    | .finalDrain exitCode =>
      if turns.length = drainTurns then
        some { (State.drainPtyOutput closed turns s).1 with pc := .marking exitCode }
      else none
    | _ => none
  | .poll result exitCode, s =>
    if s.pc = .polling then
      some { s with pc :=
        match result with
        | .interrupted | .timeout => .checkingShutdown
        | .failed => .marking exitCode
        | .ready true writable => .reading writable
        | .ready false true => .writing
        | .ready false false => .checkingShutdown }
    else none
  | .drain closed turns exitCode, s =>
    match s.pc with
    | .reading writable =>
      if turns.length = drainTurns then
        let r := State.drainPtyOutput closed turns s
        some { r.1 with pc :=
          if r.2 = .closed then .marking exitCode
          else if writable then .writing else .checkingShutdown }
      else none
    | _ => none
  | .write failed exitCode, s =>
    if s.pc = .writing then
      some { s with pc := if failed then .marking exitCode else .checkingShutdown }
    else none
  | .markExited, s =>
    match s.pc with
    | .marking _ => some { s with pc := .gone }
    | _ => none

def initial : State where
  pc := .checkingShutdown
  waiting := []
  childExit := none
  seen := false
  written := []
  recorded := []

def machine : Machine State Action where
  init s := s = initial
  step := step

/-- How many bytes the turns can take. -/
def capacity (turns : List Turn) : Nat := (turns.map fun turn => turn.read.size).sum

/-- The final drain is long enough for all that waits. -/
def Drains (s : State) : Action → Prop
  | .finalDrain _ turns => s.waiting.length ≤ capacity turns
  | _ => True

instance (s : State) (a : Action) : Decidable (Drains s a) := by
  cases a <;> unfold Drains <;> infer_instance

namespace State

/-- What was recorded and what waits are what the child wrote, in order. -/
def Conserved (s : State) : Prop := s.recorded.flatten ++ s.waiting = s.written

variable {s : State} {closed : Bool} {turns : List Turn}

theorem Conserved.child (h : s.Conserved) (output : List UInt8) (exit : Option Int) :
    (s.child output exit).Conserved := by
  unfold State.child
  split
  · exact h
  · rw [Conserved, ← List.append_assoc, h]

theorem Conserved.readTurn (h : s.Conserved) (closed : Bool) (read : Read) :
    (s.readTurn closed read).1.Conserved := by
  unfold State.readTurn
  split
  · exact h
  · split
    · exact h
    · rw [Conserved, List.flatten_append, List.flatten_singleton, List.append_assoc,
        List.take_append_drop, h]

theorem Conserved.drain (h : s.Conserved) (closed : Bool) (turns : List Turn) :
    (drainPtyOutput closed turns s).1.Conserved := by
  induction turns generalizing s with
  | nil => exact h
  | cons turn turns ih =>
    have hturn := (h.child turn.output turn.exit).readTurn closed turn.read
    rw [drainPtyOutput]
    split
    · next heq =>
      rw [heq] at hturn
      exact hturn
    · next heq =>
      rw [heq] at hturn
      exact ih hturn

theorem child_of_exited (h : s.childExit.isSome) (output : List UInt8) (exit : Option Int) :
    s.child output exit = s := by
  obtain ⟨code, hcode⟩ := Option.isSome_iff_exists.mp h
  rw [State.child, hcode]

theorem seen_child (s : State) (output : List UInt8) (exit : Option Int) :
    (s.child output exit).seen = s.seen := by
  unfold State.child
  split <;> rfl

/-- A turn takes as many bytes as it can, unless nothing waits. -/
theorem waiting_readTurn (s : State) (closed : Bool) (read : Read) :
    (s.readTurn closed read).1.waiting = s.waiting.drop read.size ∧
      ((s.readTurn closed read).2.isSome → s.waiting = []) := by
  unfold State.readTurn
  split
  · simp [Read.size]
  · split
    · next hempty => simp [hempty]
    · simp

theorem readTurn_frame (s : State) (closed : Bool) (read : Read) :
    (s.readTurn closed read).1.childExit = s.childExit ∧
      (s.readTurn closed read).1.seen = s.seen := by
  unfold State.readTurn
  split
  · exact ⟨rfl, rfl⟩
  · split <;> exact ⟨rfl, rfl⟩

theorem seen_drain (closed : Bool) (turns : List Turn) (s : State) :
    (drainPtyOutput closed turns s).1.seen = s.seen := by
  induction turns generalizing s with
  | nil => rfl
  | cons turn turns ih =>
    have hturn := (readTurn_frame (s.child turn.output turn.exit) closed turn.read).2
    rw [seen_child] at hturn
    rw [drainPtyOutput]
    split
    · next heq =>
      rw [heq] at hturn
      exact hturn
    · next heq =>
      rw [heq] at hturn
      exact (ih _).trans hturn

variable (closed turns) in
/-- Once the child has exited, a drain takes as much as its turns can take. -/
theorem waiting_drain (h : s.childExit.isSome) :
    (drainPtyOutput closed turns s).1.waiting = s.waiting.drop (capacity turns) ∧
      (drainPtyOutput closed turns s).1.childExit = s.childExit := by
  induction turns generalizing s with
  | nil => simp [drainPtyOutput, capacity]
  | cons turn turns ih =>
    obtain ⟨hwaiting, hended⟩ := waiting_readTurn s closed turn.read
    have hexit := (readTurn_frame s closed turn.read).1
    have hcapacity : capacity (turn :: turns) = turn.read.size + capacity turns := by
      simp [capacity]
    rw [drainPtyOutput, child_of_exited h, hcapacity, ← List.drop_drop]
    split
    · next s' result heq =>
      rw [heq] at hwaiting hended hexit
      have hempty := hended rfl
      rw [hempty, List.drop_nil] at hwaiting ⊢
      rw [List.drop_nil]
      exact ⟨hwaiting, hexit⟩
    · next s' heq =>
      rw [heq] at hwaiting hexit
      dsimp only at hwaiting hexit
      obtain ⟨hrest, hexit'⟩ := ih (s := s') (by rw [hexit]; exact h)
      rw [← hwaiting]
      exact ⟨hrest, hexit'.trans hexit⟩

/-- Everything has been recorded if and only if nothing waits. -/
theorem Conserved.recorded_iff (h : s.Conserved) :
    s.recorded.flatten = s.written ↔ s.waiting = [] := by
  rw [← h]
  exact List.self_eq_append_right

end State

/-- A thread that saw the child's exit ends, and the child has exited indeed. -/
structure Inv (s : State) : Prop where
  conserved : s.Conserved
  exited : s.seen = true → s.childExit.isSome = true
  ending : s.seen = true → s.pc.running = false

section Steps

variable {s t : State} {a : Action}

theorem Inv.not_seen (h : Inv s) (hrunning : s.pc.running = true) : s.seen = false := by
  cases hseen : s.seen with
  | false => rfl
  | true => exact nomatch hrunning.symm.trans (h.ending hseen)

/-- A thread that has not seen an exit goes anywhere. -/
theorem inv_of_unseen (hconserved : s.Conserved) (hseen : s.seen = false) : Inv s where
  conserved := hconserved
  exited h := nomatch hseen.symm.trans h
  ending h := nomatch hseen.symm.trans h

/-- From a place where it runs on, the thread goes anywhere. -/
theorem Inv.moved (h : Inv s) {pc pc' : PtyIo} (hpc : s.pc = pc) (hrunning : pc.running = true) :
    Inv { s with pc := pc' } :=
  inv_of_unseen h.conserved (h.not_seen (hpc ▸ hrunning))

theorem Inv.child (h : Inv s) (output : List UInt8) (exit : Option Int) :
    Inv (s.child output exit) := by
  cases hexit : s.childExit with
  | some code =>
    rw [State.child_of_exited (Option.isSome_of_eq_some hexit)]
    exact h
  | none =>
    apply inv_of_unseen (h.conserved.child output exit)
    rw [State.seen_child]
    cases hseen : s.seen with
    | false => rfl
    | true =>
      have hexited := h.exited hseen
      rw [hexit] at hexited
      cases hexited

/-- What one step does. -/
inductive Stepped (s : State) : Action → State → Prop
  | child (output : List UInt8) (exit : Option Int) :
    Stepped s (.child output exit) (s.child output exit)
  | moved {a : Action} (pc : PtyIo) : s.pc.running = true → Stepped s a { s with pc }
  | saw {a : Action} (exitCode : Int) : s.pc.running = true → s.childExit.isSome = true →
    Stepped s a { s with pc := .finalDrain exitCode, seen := true }
  | drained {a : Action} (closed : Bool) (turns : List Turn) (pc : PtyIo) :
    s.pc.running = true → Stepped s a { (State.drainPtyOutput closed turns s).1 with pc }
  | ended (closed : Bool) (turns : List Turn) (exitCode : Int) :
    Stepped s (.finalDrain closed turns)
      { (State.drainPtyOutput closed turns s).1 with pc := .marking exitCode }
  | marked : s.pc.marked = true → Stepped s .markExited { s with pc := .gone }

theorem stepped (ht : step a s = some t) : Stepped s a t := by
  cases a with
  | child output exit =>
    cases ht
    exact .child output exit
  | checkShutdown shutdown exitCode =>
    simp only [step, Option.ite_none_right_eq_some, Option.some.injEq] at ht
    obtain ⟨hpc, rfl⟩ := ht
    exact .moved _ (hpc ▸ rfl)
  | checkChild failed =>
    simp only [step, Option.ite_none_right_eq_some] at ht
    obtain ⟨hpc, ht⟩ := ht
    split at ht
    · next exitCode hexit =>
      cases ht
      exact .saw _ (hpc ▸ rfl) (hexit ▸ rfl)
    · cases ht
      exact .moved _ (hpc ▸ rfl)
  | finalDrain closed turns =>
    simp only [step] at ht
    split at ht
    · split at ht
      · cases ht
        exact .ended closed turns _
      · cases ht
    · cases ht
  | poll result exitCode =>
    simp only [step, Option.ite_none_right_eq_some, Option.some.injEq] at ht
    obtain ⟨hpc, rfl⟩ := ht
    exact .moved _ (hpc ▸ rfl)
  | drain closed turns exitCode =>
    simp only [step] at ht
    split at ht
    · next writable hpc =>
      split at ht
      · cases ht
        exact .drained closed turns _ (hpc ▸ rfl)
      · cases ht
    · cases ht
  | write failed exitCode =>
    simp only [step, Option.ite_none_right_eq_some, Option.some.injEq] at ht
    obtain ⟨hpc, rfl⟩ := ht
    exact .moved _ (hpc ▸ rfl)
  | markExited =>
    simp only [step] at ht
    split at ht
    · next exitCode hpc =>
      cases ht
      exact .marked (hpc ▸ rfl)
    · cases ht

theorem Inv.step (h : Inv s) (ht : Stepped s a t) : Inv t := by
  cases ht with
  | child output exit => exact h.child output exit
  | moved pc hrunning => exact inv_of_unseen h.conserved (h.not_seen hrunning)
  | saw exitCode hrunning hexit => exact ⟨h.conserved, fun _ => hexit, fun _ => rfl⟩
  | drained closed turns pc hrunning =>
    refine inv_of_unseen (h.conserved.drain closed turns) ?_
    exact (State.seen_drain closed turns s).trans (h.not_seen hrunning)
  | ended closed turns exitCode =>
    refine ⟨h.conserved.drain closed turns, fun hseen => ?_, fun _ => rfl⟩
    have hexited := h.exited ((State.seen_drain closed turns s).symm.trans hseen)
    have hsame : (State.drainPtyOutput closed turns s).1.childExit = s.childExit :=
      (State.waiting_drain closed turns hexited).2
    exact hsame.symm ▸ hexited
  | marked => exact ⟨h.conserved, h.exited, fun _ => rfl⟩

theorem reachable_inv (h : machine.Reachable s) : Inv s := by
  refine h.invariant ?_ fun t a u ht _ hu => ht.step (stepped hu)
  rintro s rfl
  exact inv_of_unseen rfl rfl

/-- Nothing waits when `mark_exited` is called. -/
def Drained (s : State) : Prop := s.seen = true → s.pc.marked = true → s.waiting = []

theorem Drained.step (h : Inv s) (hd : Drained s) (hguard : Drains s a) (ht : Stepped s a t) :
    Drained t := by
  intro hseen hmarked
  cases ht with
  | child output exit =>
    rw [State.seen_child] at hseen
    rw [State.child_of_exited (h.exited hseen)] at hmarked ⊢
    exact hd hseen hmarked
  | moved pc hrunning => exact nomatch (h.not_seen hrunning).symm.trans hseen
  | saw => cases hmarked
  | drained closed turns pc hrunning =>
    have hbefore : s.seen = true := (State.seen_drain closed turns s).symm.trans hseen
    exact nomatch (h.not_seen hrunning).symm.trans hbefore
  | ended closed turns exitCode =>
    have hbefore : s.seen = true := (State.seen_drain closed turns s).symm.trans hseen
    have hwaiting := (State.waiting_drain closed turns (h.exited hbefore)).1
    exact hwaiting.trans (List.drop_eq_nil_of_le hguard)
  | marked hpc => exact hd hseen hpc

end Steps

/-- If every final drain is long enough, everything that the child wrote has been recorded when
`mark_exited` is called, in order and once; and after each final drain this holds if and only if
the drain was long enough. -/
theorem final_drain_complete (s : State) :
    (machine.ReachableWhen Drains s → s.seen = true → s.pc.marked = true →
      s.recorded.flatten = s.written) ∧
    (machine.Reachable s → s.seen = true → ∀ closed turns t,
      step (.finalDrain closed turns) s = some t →
        t.pc.marked = true ∧
          (t.recorded.flatten = t.written ↔ Drains s (.finalDrain closed turns))) := by
  constructor
  · intro h hseen hmarked
    have hboth : Inv s ∧ Drained s := by
      refine h.invariant (I := fun s => Inv s ∧ Drained s) ?_ fun t a u ht hguard hu => ?_
      · rintro s rfl
        exact ⟨inv_of_unseen rfl rfl, fun _ _ => rfl⟩
      · exact ⟨ht.1.step (stepped hu), ht.2.step ht.1 hguard (stepped hu)⟩
    exact hboth.1.conserved.recorded_iff.mpr (hboth.2 hseen hmarked)
  · intro h hseen closed turns t ht
    have hinv := reachable_inv h
    have hconserved := (hinv.step (stepped ht)).conserved
    have hwaiting := (State.waiting_drain closed turns (hinv.exited hseen)).1
    cases stepped ht with
    | ended closed turns exitCode =>
      refine ⟨rfl, hconserved.recorded_iff.trans ?_⟩
      change (State.drainPtyOutput closed turns s).1.waiting = [] ↔ _
      rw [hwaiting]
      exact List.drop_eq_nil_iff
    | moved pc hrunning => exact nomatch (hinv.not_seen hrunning).symm.trans hseen
    | saw exitCode hrunning => exact nomatch (hinv.not_seen hrunning).symm.trans hseen
    | drained closed' turns' pc hrunning => exact nomatch (hinv.not_seen hrunning).symm.trans hseen

/-- So many reads that take one byte each. -/
private def slowTurns : List Turn := List.replicate drainTurns ⟨[], none, .upTo 0⟩

/-- A child that exits with output waiting that the final drain does not take. -/
private def exitRun (waiting : Nat) : List Action :=
  [.checkShutdown false 0, .child (List.replicate waiting 0x41) (some 0), .checkChild false,
    .finalDrain false slowTurns, .markExited]

theorem final_drain_of_sixty_four : ∃ s, machine.ReachableWhen Drains s ∧
    s.recorded = List.replicate 64 [0x41] ∧ s.recorded.flatten = s.written := by
  have hrun : ∃ s, machine.exec Drains (exitRun 64) initial = some s ∧
      s.seen = true ∧ s.pc.marked = true ∧ s.recorded = List.replicate 64 [0x41] :=
    ⟨_, rfl, rfl, rfl, rfl⟩
  obtain ⟨s, hexec, hseen, hmarked, hrecorded⟩ := hrun
  have hr : machine.ReachableWhen Drains s := ⟨initial, rfl, Machine.exec_run hexec⟩
  exact ⟨s, hr, hrecorded, (final_drain_complete s).1 hr hseen hmarked⟩

/-- The last of 65 bytes is never recorded. -/
theorem output_cut_off :
    ¬ ∀ s, machine.Reachable s → s.seen = true → s.pc.marked = true →
      s.recorded.flatten = s.written := by
  intro hall
  have hrun : ∃ s, machine.exec Machine.Any (exitRun 65) initial = some s ∧
      s.seen = true ∧ s.pc.marked = true ∧ s.recorded.flatten ≠ s.written :=
    ⟨_, rfl, rfl, rfl, by decide⟩
  obtain ⟨s, hexec, hseen, hmarked, hcut⟩ := hrun
  exact hcut (hall s ⟨initial, rfl, Machine.exec_run hexec⟩ hseen hmarked)

end Shelly.Daemon.PtyOutput
