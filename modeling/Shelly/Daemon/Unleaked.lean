import Shelly.Daemon.LiveSteps

namespace Shelly.Daemon.Live

variable {T : Type*}

/-- Where the I/O thread stands, seen without what it reads. -/
inductive Stage
  | resting
  | noting
  | setting (state : AgentState)
  | exiting (exitCode : Int)
  | settling (exitCode : Int)
  | reporting (exitCode : Int)
  | leaving
  deriving DecidableEq

/-- A session seen without the bytes its child writes. -/
structure Plain where
  id : SessionId
  name : String
  commandKind : CommandKind
  exitCode : Option Int
  killed : Bool
  lastActivity : Nat
  state : AgentState
  workingSince : Option Nat
  push : Option (List (PushCommand × Nat))
  states : List AgentState
  stage : Stage

namespace Plain

variable (s : Plain)

def sendPush (now : Nat) (command : PushCommand) : Plain :=
  { s with push := s.push.map fun commands => commands ++ [(command, now)] }

def setState (now : Nat) (state : AgentState) : Plain :=
  if s.state = state then s
  else
    let buildFinished := s.state == .working && state == .idle &&
      s.workingSince.any fun since => decide (buildFinishedMinWorkingMs ≤ now - since)
    let s' := { s with
      state
      workingSince := if state = .working then some now else none
      states := s.states ++ [state] }
    if state = .awaitingInput then s'.sendPush now (.awaitingInput s.id s.name)
    else if buildFinished then s'.sendPush now (.buildFinished s.id s.name)
    else s'

/-- The turn of a task. A task that has finished lets it pass. -/
def turn (now : Nat) (accepted : Bool) : Task → Plain → Plain × Task
  | .input (.sending _), s => (s, .input (if accepted then .checking else .returned none))
  | .input .checking, s => (s, .input (if s.exitCode.isNone then .setting else .returned none))
  | .input .setting, s => (s.setState now .working, .input (.returned none))
  | .idle .checking, s => (s, .idle (if s.exitCode.isSome then .stopped else .measuring))
  | .idle .measuring, s => (s, .idle (.comparing (now - s.lastActivity)))
  | .idle (.comparing idleFor), s =>
    (s, .idle
      (if idleAfterMs ≤ idleFor ∧ s.state ≠ .idle ∧ s.state ≠ .awaitingInput then .setting
      else .checking))
  | .idle .setting, s => (s.setState now .idle, .idle .checking)
  | .hook call .checking, s =>
    (s, .hook call
      (if s.exitCode.isSome || !DaemonState.sourceMatchesCommand call.source s.commandKind then
        .returned none
      else .lining))
  | .hook call .lining, s => (s, .hook call (call.line.elim .setting .caching))
  | .hook call (.caching _), s => (s, .hook call .setting)
  | .hook call .setting, s => (s.setState now call.state, .hook call .dirtying)
  | .hook call .dirtying, s => (s, .hook call .reading)
  | .hook call .reading, s => (s, .hook call (.returned none))
  | x, s => (s, x)

/-- The turn of the I/O thread. -/
def thread (now : Nat) : Plain :=
  match s.stage with
  | .noting => { s with lastActivity := now, stage := .setting .working }
  | .setting state =>
    { (if state = .idle then s else s.setState now state) with stage := .resting }
  | .exiting exitCode =>
    if s.exitCode.isSome then { s with stage := .leaving }
    else { s with exitCode := some exitCode, stage := .settling exitCode }
  | .settling exitCode =>
    { s with
      state := LiveSession.exitState exitCode
      states := s.states ++ [LiveSession.exitState exitCode]
      stage := .reporting exitCode }
  | .reporting exitCode =>
    { (if exitCode ≠ 0 ∧ s.killed = false then s.sendPush now (.sessionCrashed s.id s.name)
      else s) with stage := .leaving }
  | .resting | .leaving => s

end Plain

/-- The events of a schedule, without the bytes of the chunks: a call of `write_input` or of a hook
and the idle loop start; one of them has its turn, and an input is accepted or not; a chunk comes;
the child exits; the session is killed; the I/O thread has its turn. -/
inductive Scheduled
  | start (i : Nat) (x : Task)
  | turn (i now : Nat) (accepted : Bool)
  | chunk
  | exit (exitCode : Int)
  | kill
  | thread (now : Nat)
  deriving DecidableEq

/-- The event, whatever becomes of an input. -/
def Scheduled.regardless : Scheduled → Scheduled
  | .turn i now _ => .turn i now true
  | e => e

/-- What decides the states of a plain session: the session and the calls under way. -/
abbrev PlainPool := Plain × (Nat → Option Task)

def Plain.play : Scheduled → PlainPool → PlainPool
  | .start i x, (s, tasks) => (s, Function.update tasks i (some x))
  | .turn i now accepted, (s, tasks) =>
    match tasks i with
    | some x => ((s.turn now accepted x).1, Function.update tasks i (some (s.turn now accepted x).2))
    | none => (s, tasks)
  | .chunk, (s, tasks) => ({ s with stage := .noting }, tasks)
  | .exit exitCode, (s, tasks) => ({ s with stage := .exiting exitCode }, tasks)
  | .kill, (s, tasks) => ({ s with killed := true }, tasks)
  | .thread now, (s, tasks) => (s.thread now, tasks)

def Plain.run (schedule : List Scheduled) (s : PlainPool) : PlainPool :=
  schedule.foldl (fun s e => Plain.play e s) s

def IoPc.stage : IoPc → Stage
  | .reading | .sending .. | .dirtying => .resting
  | .ingested .. | .rebuilding .. | .noting .. => .noting
  | .inspecting .. | .inferring .. => .setting .working
  | .settingState _ _ state _ => .setting state
  | .exiting exitCode => .exiting exitCode
  | .settling exitCode => .settling exitCode
  | .announcing exitCode | .reporting exitCode => .reporting exitCode
  | .clearing | .persisting _ | .updating | .closing | .exited => .leaving

/-- The I/O thread is at a step that reads the clock or changes what is seen. -/
def IoPc.watched : IoPc → Bool
  | .noting .. | .settingState .. | .exiting _ | .settling _ | .reporting _ => true
  | _ => false

def plain (s : LiveSession T) : Plain :=
  ⟨s.id, s.name, s.commandKind, s.exitCode, s.killed, s.lastActivity, s.state, s.workingSince,
    s.push, s.states, s.io.stage⟩

/-- What is seen of a task, without what it returns. A resize, an attach and a flush are not seen. -/
def Task.seen : Task → Option Task
  | .input (.returned _) => some (.input (.returned none))
  | .hook call (.returned _) => some (.hook call (.returned none))
  | .input pc => some (.input pc)
  | .idle pc => some (.idle pc)
  | .hook call pc => some (.hook call pc)
  | .resize .. | .attach .. | .flush _ => none

/-- The queue to the child takes what an input hands to it. -/
def Task.accepted (s : LiveSession T) : Task → Bool
  | .input (.sending bytes) => (s.responder.sender.trySend bytes).isOk
  | _ => true

def plainPool (p : Pool (LiveSession T) Task) : PlainPool :=
  (plain p.shared, fun i => (p.task i).bind Task.seen)

/-- The event of the schedule that a move is. -/
def scheduled (p : Pool (LiveSession T) Task) : Move Task Choice Event → Option Scheduled
  | .spawn i x => x.seen.map (.start i)
  | .advance i c =>
    (p.task i).bind fun x => x.seen.map fun _ => .turn i c.now (x.accepted p.shared)
  | .environment (.read _) => some .chunk
  | .environment (.exit exitCode) => some (.exit exitCode)
  | .environment .kill => some .kill
  | .environment (.proceed c) => if p.shared.io.watched then some (.thread c.now) else none
  | .environment .drain | .drop _ => none

/-- A run is played move by move; a task that has finished lets its turns pass. -/
inductive Played
  | move (a : Move Task Choice Event)
  | pass (i now : Nat)

def Task.finished : Task → Bool
  | .input (.returned _) | .hook _ (.returned _) | .idle .stopped => true
  | _ => false

variable (E : Emulator T) (infer : StateInfer)

def playOne : Played → Pool (LiveSession T) Task →
    Option (Pool (LiveSession T) Task × List Scheduled)
  | .move a, p => ((tasking E infer).machine.step a p).map fun q => (q, (scheduled p a).toList)
  | .pass i now, p =>
    if (p.task i).any Task.finished then some (p, [.turn i now true]) else none

/-- Plays a run and writes its schedule down. -/
def play : List Played → Pool (LiveSession T) Task →
    Option (Pool (LiveSession T) Task × List Scheduled)
  | [], p => some (p, [])
  | m :: ms, p =>
    (playOne E infer m p).bind fun r => (play ms r.1).map fun r' => (r'.1, r.2 ++ r'.2)

/-- The state is reached by a run with this schedule. -/
def Follows (p : Pool (LiveSession T) Task) (schedule : List Scheduled)
    (q : Pool (LiveSession T) Task) : Prop :=
  ∃ ms, play E infer ms p = some (q, schedule)

variable {E infer} {c : Choice} {s s' : LiveSession T}

theorem play_append (ms ms' : List Played) (p : Pool (LiveSession T) Task) :
    play E infer (ms ++ ms') p = (play E infer ms p).bind fun r =>
      (play E infer ms' r.1).map fun r' => (r'.1, r.2 ++ r'.2) := by
  induction ms generalizing p with
  | nil =>
    rw [List.nil_append, play, Option.bind_some]
    exact Option.map_id'.symm
  | cons m ms ih =>
    rw [List.cons_append, play, play, Option.bind_assoc]
    congr 1
    funext r
    rw [ih]
    cases play E infer ms r.1 with
    | none => rfl
    | some r' =>
      simp only [Option.map_some, Option.bind_some, Option.map_map]
      congr 1
      funext r''
      exact Prod.ext rfl (List.append_assoc _ _ _).symm

/-- Every run has a schedule. -/
theorem exists_schedule {p q : Pool (LiveSession T) Task}
    (h : (tasking E infer).machine.Run Machine.Any p q) :
    ∃ schedule, Follows E infer p schedule q := by
  induction h with
  | refl => exact ⟨[], [], rfl⟩
  | @snoc t u a _ _ hs ih =>
    obtain ⟨schedule, ms, hms⟩ := ih
    refine ⟨schedule ++ (scheduled t a).toList, ms ++ [.move a], ?_⟩
    rw [play_append, hms, Option.bind_some, play, playOne, hs]
    simp [play]

theorem plain_setState (now : Nat) (state : AgentState) (line : Option String) :
    plain (s.setState now state line) = (plain s).setState now state := by
  unfold LiveSession.setState Plain.setState
  by_cases hsame : s.state = state
  · rw [if_pos hsame, if_pos (show (plain s).state = state from hsame)]
  · rw [if_neg hsame, if_neg (show ¬ (plain s).state = state from hsame)]
    dsimp only [plain, LiveSession.sendPush, Plain.sendPush]
    split_ifs <;> rfl

/-- A step that sets no state leaves what is seen alone. -/
theorem Effect.plain_eq {x : Task} (h : Effect E s x s') (hx : x.target = none) :
    plain s' = plain s := by
  cases h with
  | setState now state line htarget => cases hx.symm.trans htarget
  | same | enqueue | line | cache | resize | rebuild | dirty | store => rfl

/-- A step of a task that is not seen. -/
theorem advance_unseen {x x' : Task} (hs : advance E c x s = some (s', x')) (hx : x.seen = none) :
    plain s' = plain s ∧ x'.seen = none := by
  have hplain := (advance_effect hs).plain_eq
  cases x with
  | resize | attach | flush =>
    refine ⟨hplain rfl, ?_⟩
    obtain ⟨r, -, hr⟩ := Option.map_eq_some_iff.mp hs
    obtain ⟨-, rfl⟩ := Prod.mk.inj hr
    rfl
  | input pc => cases pc <;> cases hx
  | idle => cases hx
  | hook call pc => cases pc <;> cases hx

/-- A step of a task that is seen is its turn. -/
theorem advance_turn {x x' y : Task} (hs : advance E c x s = some (s', x'))
    (hx : x.seen = some y) :
    plain s' = ((plain s).turn c.now (x.accepted s) y).1 ∧
      x'.seen = some ((plain s).turn c.now (x.accepted s) y).2 := by
  cases x with
  | input pc =>
    obtain ⟨⟨t, pc'⟩, hstep, hr⟩ := Option.map_eq_some_iff.mp hs
    obtain ⟨rfl, rfl⟩ := Prod.mk.inj hr
    cases pc with
    | sending bytes =>
      cases hx
      simp only [inputStep] at hstep
      split at hstep
      · rename_i hsend
        cases hstep
        rw [Task.accepted, hsend]
        exact ⟨rfl, rfl⟩
      · rename_i hsend
        cases hstep
        rw [Task.accepted, hsend]
        exact ⟨rfl, rfl⟩
    | checking =>
      cases hx
      cases hstep
      cases hexit : s.exitCode <;> simp [Plain.turn, plain, hexit, Task.seen]
    | setting =>
      cases hx
      cases hstep
      exact ⟨plain_setState _ _ _, rfl⟩
    | returned error => cases hstep
  | idle pc =>
    obtain ⟨⟨t, pc'⟩, hstep, hr⟩ := Option.map_eq_some_iff.mp hs
    obtain ⟨rfl, rfl⟩ := Prod.mk.inj hr
    cases hx
    cases pc with
    | checking | measuring | comparing => cases hstep; exact ⟨rfl, rfl⟩
    | setting => cases hstep; exact ⟨plain_setState _ _ _, rfl⟩
    | stopped => cases hstep
  | hook call pc =>
    obtain ⟨⟨t, pc'⟩, hstep, hr⟩ := Option.map_eq_some_iff.mp hs
    obtain ⟨rfl, rfl⟩ := Prod.mk.inj hr
    cases pc with
    | checking =>
      cases hx
      cases hstep
      refine ⟨rfl, ?_⟩
      dsimp only [Plain.turn, plain]
      split <;> rfl
    | lining =>
      cases hx
      simp only [hookStep] at hstep
      cases hline : call.line with
      | none => rw [hline] at hstep; cases hstep; simp [Plain.turn, hline, Task.seen]
      | some line =>
        rw [hline] at hstep
        cases hstep
        simp only [Plain.turn, hline]
        exact ⟨rfl, rfl⟩
    | caching | dirtying | reading => cases hx; cases hstep; exact ⟨rfl, rfl⟩
    | setting => cases hx; cases hstep; exact ⟨plain_setState _ _ _, rfl⟩
    | returned result => cases hstep
  | resize | attach | flush => cases hx

/-- A step of the I/O thread is its turn, or is not seen. -/
theorem ioStep_thread (hs : ioStep E infer c s = some s') (hkind : s.commandKind = .unknown) :
    plain s' = if s.io.watched then (plain s).thread c.now else plain s := by
  unfold ioStep at hs
  cases hio : s.io with
  | reading | exited => rw [hio] at hs; cases hs
  | ingested bytes seq failure =>
    rw [hio] at hs
    dsimp only at hs
    split at hs <;> cases hs <;> simp only [plain, hio, IoPc.stage] <;> rfl
  | noting bytes seq =>
    rw [hio] at hs
    cases hs
    simp only [plain, Plain.thread, hio, IoPc.stage]
    rfl
  | inspecting bytes seq =>
    rw [hio] at hs
    dsimp only at hs
    rw [if_pos hkind] at hs
    cases hs
    simp only [plain, hio, IoPc.stage]
    rfl
  | inferring bytes seq line =>
    rw [hio] at hs
    simp only [hkind, Option.getD_none] at hs
    cases hs
    simp only [plain, hio, IoPc.stage, ← hkind]
    rfl
  | settingState bytes seq state line =>
    rw [hio] at hs
    cases hs
    have hset := plain_setState (s := s) c.now state line
    simp only [IoPc.watched, if_true, Plain.thread, show (plain s).stage = .setting state from by
      rw [plain, hio]; rfl]
    by_cases hidle : state = .idle
    · rw [if_pos hidle, if_pos hidle]
      rfl
    · rw [if_neg hidle, if_neg hidle, ← hset]
      rfl
  | exiting exitCode =>
    rw [hio] at hs
    dsimp only at hs
    simp only [plain, Plain.thread, hio, IoPc.stage, IoPc.watched, if_true]
    split at hs <;> cases hs
    · rename_i hexit
      rw [if_pos hexit]
    · rename_i hexit
      rw [if_neg hexit]
  | settling exitCode =>
    rw [hio] at hs
    cases hs
    simp only [plain, Plain.thread, hio, IoPc.stage]
    rfl
  | reporting exitCode =>
    rw [hio] at hs
    cases hs
    simp only [plain, Plain.thread, hio, IoPc.stage, IoPc.watched, if_true]
    split <;> rfl
  | persisting pc =>
    rw [hio] at hs
    cases pc with
    | saving stored =>
      obtain ⟨⟨t, pc'⟩, hsave, rfl⟩ := Option.map_eq_some_iff.mp hs
      simp only [saveStep] at hsave
      split at hsave <;> cases hsave <;> simp only [plain, hio, IoPc.stage] <;> rfl
    | checking | capturing | completing | returned =>
      cases hs
      simp only [plain, hio, IoPc.stage]
      rfl
  | _ =>
    rw [hio] at hs
    cases hs
    simp only [plain, hio, IoPc.stage]
    rfl

theorem event_play {e : Event} {keep : Bool} {p : Pool (LiveSession T) Task}
    (hs : event E infer e p.shared = some (s', keep)) (hkind : p.shared.commandKind = .unknown) :
    keep = true ∧ (plain s', fun i => (p.task i).bind Task.seen) =
      Plain.run (scheduled p (.environment e)).toList (plainPool p) := by
  cases e with
  | read bytes =>
    simp only [event, Option.ite_none_right_eq_some, Option.some.injEq, Prod.mk.injEq] at hs
    obtain ⟨-, rfl, rfl⟩ := hs
    exact ⟨rfl, rfl⟩
  | drain =>
    simp only [event, Option.ite_none_right_eq_some, Option.some.injEq, Prod.mk.injEq] at hs
    obtain ⟨-, rfl, rfl⟩ := hs
    exact ⟨rfl, rfl⟩
  | exit exitCode =>
    simp only [event, Option.ite_none_right_eq_some, Option.some.injEq, Prod.mk.injEq] at hs
    obtain ⟨-, rfl, rfl⟩ := hs
    exact ⟨rfl, rfl⟩
  | proceed c =>
    obtain ⟨t, hstep, hr⟩ := Option.map_eq_some_iff.mp hs
    obtain ⟨rfl, rfl⟩ := Prod.mk.inj hr
    refine ⟨rfl, ?_⟩
    rw [ioStep_thread hstep hkind, scheduled]
    split <;> rfl
  | kill =>
    cases hs
    exact ⟨rfl, rfl⟩

/-- What is seen of a move is its event in the schedule. -/
theorem step_play {p q : Pool (LiveSession T) Task} {a : Move Task Choice Event}
    (hs : (tasking E infer).machine.step a p = some q) (hkind : p.shared.commandKind = .unknown) :
    plainPool q = Plain.run (scheduled p a).toList (plainPool p) := by
  cases Tasking.stepped_of_step hs with
  | spawn i x hx hi =>
    have htasks : (fun j => ((p.setTask i x).task j).bind Task.seen) =
        Function.update (fun j => (p.task j).bind Task.seen) i x.seen := by
      funext j
      rw [Pool.setTask_task, Function.update_apply]
      split <;> rfl
    rw [plainPool, htasks, scheduled]
    cases hseen : x.seen with
    | some y =>
      have hy : x = y := by
        cases x with
        | input pc =>
          cases pc with
          | sending => exact Option.some.inj hseen
          | checking | setting | returned => cases hx
        | idle pc => exact Option.some.inj hseen
        | hook call pc =>
          cases pc with
          | checking => exact Option.some.inj hseen
          | lining | caching | setting | dirtying | reading | returned => cases hx
        | resize | attach | flush => cases hseen
      rw [hy]
      rfl
    | none =>
      refine Prod.ext rfl (Function.update_eq_self_iff.mpr ?_)
      rw [hi]
      rfl
  | advance i c x x' s' hx hr =>
    have htasks : (fun j => (((p.setShared s').setTask i x').task j).bind Task.seen) =
        Function.update (fun j => (p.task j).bind Task.seen) i x'.seen := by
      funext j
      rw [Pool.setTask_task, Function.update_apply]
      split <;> rfl
    rw [plainPool, htasks, scheduled, hx, Option.bind_some]
    cases hseen : x.seen with
    | some y =>
      obtain ⟨hplain, hseen'⟩ := advance_turn hr hseen
      have hslot : (plainPool p).2 i = some y := by
        change (p.task i).bind Task.seen = some y
        rw [hx]
        exact hseen
      change _ = Plain.play (.turn i c.now (x.accepted p.shared)) (plainPool p)
      simp only [Plain.play, hslot, hseen']
      exact Prod.ext hplain rfl
    | none =>
      obtain ⟨hplain, hseen'⟩ := advance_unseen hr hseen
      refine Prod.ext hplain (Function.update_eq_self_iff.mpr ?_)
      rw [hseen', hx, Option.bind_some, hseen]
  | drop i x hx hcancellable => cases hcancellable
  | keep e s' hr => exact (event_play hr hkind).2
  | clear e s' hr => cases (event_play hr hkind).1

namespace Plain

variable (s : Plain) (now : Nat)

@[simp] theorem sendPush_commandKind (command : PushCommand) :
    (s.sendPush now command).commandKind = s.commandKind := rfl

@[simp] theorem setState_commandKind (state : AgentState) :
    (s.setState now state).commandKind = s.commandKind := by
  unfold setState
  split
  · rfl
  · dsimp only
    split_ifs <;> rfl

theorem turn_commandKind (accepted : Bool) (x : Task) :
    (s.turn now accepted x).1.commandKind = s.commandKind := by
  unfold turn
  split <;> simp

theorem thread_commandKind : (s.thread now).commandKind = s.commandKind := by
  unfold thread
  split
  · rfl
  · split <;> simp
  · split <;> rfl
  · rfl
  · split <;> rfl
  · rfl
  · rfl

theorem play_commandKind (e : Scheduled) (s : PlainPool) :
    (play e s).1.commandKind = s.1.commandKind := by
  cases e with
  | start | chunk | exit | kill => rfl
  | turn i now accepted =>
    rw [play]
    split
    · exact turn_commandKind _ _ _ _
    · rfl
  | thread now => exact thread_commandKind _ _

theorem run_append (es es' : List Scheduled) (s : PlainPool) :
    run (es ++ es') s = run es' (run es s) := List.foldl_append

theorem run_commandKind (schedule : List Scheduled) (s : PlainPool) :
    (run schedule s).1.commandKind = s.1.commandKind := by
  induction schedule generalizing s with
  | nil => rfl
  | cons e es ih => exact (ih _).trans (play_commandKind e s)

end Plain

/-- A task that has finished has nothing left to do in its turns. -/
theorem Task.finished_turn {x : Task} (hx : x.finished = true) :
    ∃ y, x.seen = some y ∧ ∀ (s : Plain) (now : Nat) (accepted : Bool),
      s.turn now accepted y = (s, y) := by
  cases x with
  | input pc =>
    cases pc with
    | returned error => exact ⟨_, rfl, fun _ _ _ => rfl⟩
    | sending | checking | setting => cases hx
  | idle pc =>
    cases pc with
    | stopped => exact ⟨_, rfl, fun _ _ _ => rfl⟩
    | checking | measuring | comparing | setting => cases hx
  | hook call pc =>
    cases pc with
    | returned result => exact ⟨_, rfl, fun _ _ _ => rfl⟩
    | checking | lining | caching | setting | dirtying | reading => cases hx
  | resize | attach | flush => cases hx

theorem playOne_plain {m : Played} {p q : Pool (LiveSession T) Task} {schedule : List Scheduled}
    (h : playOne E infer m p = some (q, schedule)) (hkind : p.shared.commandKind = .unknown) :
    plainPool q = Plain.run schedule (plainPool p) := by
  cases m with
  | move a =>
    obtain ⟨t, hs, hr⟩ := Option.map_eq_some_iff.mp h
    obtain ⟨rfl, rfl⟩ := Prod.mk.inj hr
    exact step_play hs hkind
  | pass i now =>
    obtain ⟨hfinished, hr⟩ := Option.ite_none_right_eq_some.mp h
    obtain ⟨rfl, rfl⟩ := Prod.mk.inj (Option.some.inj hr)
    obtain ⟨x, hx, hfinished⟩ := (Option.any_eq_true _ _).mp hfinished
    obtain ⟨y, hy, hturn⟩ := Task.finished_turn hfinished
    have hslot : (plainPool p).2 i = some y := by
      change (p.task i).bind Task.seen = some y
      rw [hx]
      exact hy
    change plainPool p = Plain.play (.turn i now true) (plainPool p)
    simp only [Plain.play, hslot, hturn]
    refine Prod.ext rfl (Function.update_eq_self_iff.mpr ?_).symm
    exact hslot.symm

/-- A run of a session goes as its schedule says. -/
theorem Follows.plain {p q : Pool (LiveSession T) Task} {schedule : List Scheduled}
    (h : Follows E infer p schedule q) (hkind : p.shared.commandKind = .unknown) :
    plainPool q = Plain.run schedule (plainPool p) := by
  obtain ⟨ms, h⟩ := h
  induction ms generalizing p schedule with
  | nil =>
    cases h
    rfl
  | cons m ms ih =>
    obtain ⟨⟨p', first⟩, hone, h⟩ := Option.bind_eq_some_iff.mp h
    obtain ⟨⟨q', rest⟩, hrest, hr⟩ := Option.map_eq_some_iff.mp h
    obtain ⟨rfl, rfl⟩ := Prod.mk.inj hr
    have hfirst := playOne_plain hone hkind
    have hkind' : p'.shared.commandKind = .unknown := by
      calc p'.shared.commandKind
          = (Plain.run first (plainPool p)).1.commandKind := congrArg (·.1.commandKind) hfirst
        _ = p.shared.commandKind := Plain.run_commandKind _ _
        _ = .unknown := hkind
    rw [ih hkind' hrest, hfirst, Plain.run_append]

def Scheduled.isHook : Scheduled → Bool
  | .start _ (.hook ..) => true
  | _ => false

/-- Nothing has asked for input, and nothing is about to. -/
structure Unprompted (s : PlainPool) : Prop where
  hooks : ∀ i call pc, s.2 i ≠ some (.hook call pc)
  stage : s.1.stage ≠ .setting .awaitingInput
  state : s.1.state ≠ .awaitingInput
  states : .awaitingInput ∉ s.1.states

namespace Unprompted

variable {s : Plain} {tasks : Nat → Option Task}

theorem setState (h : Unprompted (s, tasks)) (now : Nat) {state : AgentState}
    (hstate : state ≠ .awaitingInput) : Unprompted (s.setState now state, tasks) := by
  have hset : (s.setState now state).stage = s.stage ∧ (s.setState now state).state = state ∧
      ∀ state' ∈ (s.setState now state).states, state' ∈ s.states ∨ state' = state := by
    unfold Plain.setState Plain.sendPush
    split
    · exact ⟨rfl, ‹_›, fun _ => .inl⟩
    · dsimp only
      split_ifs <;> exact ⟨rfl, rfl, fun _ hmem => (List.mem_append.mp hmem).imp_right
        List.mem_singleton.mp⟩
  obtain ⟨hstage, hnew, hstates⟩ := hset
  refine ⟨h.hooks, by rw [hstage]; exact h.stage, by rw [hnew]; exact hstate, fun hmem => ?_⟩
  rcases hstates _ hmem with hold | heq
  · exact h.states hold
  · exact hstate heq.symm

theorem turn (h : Unprompted (s, tasks)) (i now : Nat) (accepted : Bool) {x : Task}
    (hx : tasks i = some x) : Unprompted ((s.turn now accepted x).1,
      Function.update tasks i (some (s.turn now accepted x).2)) := by
  have hset : ∀ (t : Plain) (y : Task), (∀ call pc, y ≠ .hook call pc) → Unprompted (t, tasks) →
      Unprompted (t, Function.update tasks i (some y)) := by
    intro t y hy ht
    refine ⟨fun j call pc hj => ?_, ht.stage, ht.state, ht.states⟩
    simp only [Function.update_apply] at hj
    split at hj
    · exact hy call pc (Option.some.inj hj)
    · exact ht.hooks j call pc hj
  cases x with
  | hook call pc => exact absurd hx (h.hooks i call pc)
  | input pc =>
    cases pc with
    | setting => exact hset _ _ (fun _ _ => (nomatch ·)) (h.setState now (nomatch ·))
    | sending | checking | returned => exact hset _ _ (fun _ _ => (nomatch ·)) h
  | idle pc =>
    cases pc with
    | setting => exact hset _ _ (fun _ _ => (nomatch ·)) (h.setState now (nomatch ·))
    | checking | measuring | comparing | stopped => exact hset _ _ (fun _ _ => (nomatch ·)) h
  | resize | attach | flush => exact hset _ _ (fun _ _ => (nomatch ·)) h

theorem thread (h : Unprompted (s, tasks)) (now : Nat) : Unprompted (s.thread now, tasks) := by
  unfold Plain.thread
  split
  · exact ⟨h.hooks, (nomatch ·), h.state, h.states⟩
  · rename_i state hstage
    have hstate : state ≠ .awaitingInput := by
      rintro rfl
      exact h.stage hstage
    split
    · exact ⟨h.hooks, (nomatch ·), h.state, h.states⟩
    · obtain ⟨hhooks, -, hnew, hstates⟩ := h.setState now hstate
      exact ⟨hhooks, (nomatch ·), hnew, hstates⟩
  · split <;> exact ⟨h.hooks, (nomatch ·), h.state, h.states⟩
  · rename_i exitCode hstage
    have hexit : LiveSession.exitState exitCode ≠ .awaitingInput := by
      unfold LiveSession.exitState
      split <;> exact (nomatch ·)
    refine ⟨h.hooks, (nomatch ·), hexit, fun hmem => ?_⟩
    rcases List.mem_append.mp hmem with hold | hnew
    · exact h.states hold
    · exact hexit (List.mem_singleton.mp hnew).symm
  · split <;> exact ⟨h.hooks, (nomatch ·), h.state, h.states⟩
  · exact h
  · exact h

theorem play {s : PlainPool} (h : Unprompted s) {e : Scheduled} (he : e.isHook = false) :
    Unprompted (Plain.play e s) := by
  cases e with
  | start i x =>
    refine ⟨fun j call pc hj => ?_, h.stage, h.state, h.states⟩
    simp only [Plain.play, Function.update_apply] at hj
    split at hj
    · rw [Option.some.inj hj] at he
      cases he
    · exact h.hooks j call pc hj
  | turn i now accepted =>
    rw [Plain.play]
    split
    · rename_i x hx
      exact h.turn i now accepted hx
    · exact h
  | chunk => exact ⟨h.hooks, (nomatch ·), h.state, h.states⟩
  | exit exitCode => exact ⟨h.hooks, (nomatch ·), h.state, h.states⟩
  | kill => exact ⟨h.hooks, h.stage, h.state, h.states⟩
  | thread now => exact h.thread now

theorem run {s : PlainPool} (h : Unprompted s) {schedule : List Scheduled}
    (hhooks : ∀ e ∈ schedule, e.isHook = false) : Unprompted (Plain.run schedule s) := by
  induction schedule generalizing s with
  | nil => exact h
  | cons e es ih =>
    exact ih (h.play (hhooks e List.mem_cons_self)) fun e' he' =>
      hhooks e' (List.mem_cons_of_mem e he')

end Unprompted

/-- Two runs of a plain session with the same schedule, in which the same inputs are accepted, go
through the same states and queue the same pushes, whatever the child writes; and without a hook no
run awaits input. -/
theorem states_of_schedule {p q q' : Pool (LiveSession T) Task} {schedule : List Scheduled}
    (hinit : (tasking E infer).machine.init p) (hkind : p.shared.commandKind = .unknown)
    (h : Follows E infer p schedule q) (h' : Follows E infer p schedule q') :
    (q.shared.states = q'.shared.states ∧ q.shared.push = q'.shared.push) ∧
      ((∀ e ∈ schedule, e.isHook = false) →
        .awaitingInput ∉ q.shared.states ∧ q.shared.state ≠ .awaitingInput) := by
  have hsame : plainPool q = plainPool q' := (h.plain hkind).trans (h'.plain hkind).symm
  refine ⟨⟨congrArg (·.1.states) hsame, congrArg (·.1.push) hsame⟩, fun hhooks => ?_⟩
  obtain ⟨⟨id, name, createdAt, commandKind, size, store, push, hs⟩, htasks⟩ := hinit
  have hstart : Unprompted (plainPool p) := by
    refine ⟨fun i call pc hi => ?_, ?_, ?_, ?_⟩
    · have hnone : (plainPool p).2 i = none := congrArg (·.bind Task.seen) (htasks i)
      cases hnone.symm.trans hi
    · rw [plainPool, hs]
      exact (nomatch ·)
    · rw [plainPool, hs]
      exact (nomatch ·)
    · rw [plainPool, hs]
      exact (nomatch ·)
  have hend := hstart.run hhooks
  rw [← h.plain hkind] at hend
  exact ⟨hend.states, hend.state⟩

theorem exists_follows (E : Emulator T) (infer : StateInfer) (p : Pool (LiveSession T) Task)
    (schedule : List Scheduled) (P : Pool (LiveSession T) Task → Prop) [DecidablePred P]
    (ms : List Played)
    (h : (play E infer ms p).any (fun r => decide (r.2 = schedule) && decide (P r.1)) = true) :
    ∃ q, Follows E infer p schedule q ∧ P q := by
  obtain ⟨⟨q, schedule'⟩, hplay, h⟩ := (Option.any_eq_true _ _).mp h
  obtain ⟨hschedule, hP⟩ := Bool.and_eq_true_iff.mp h
  obtain rfl : schedule' = schedule := of_decide_eq_true hschedule
  exact ⟨q, ⟨ms, hplay⟩, of_decide_eq_true hP⟩

/-- A chunk, two seconds later the idle loop, and then an input. -/
private def inputAfter (chunk : List UInt8) (accepted : Bool) : List Played :=
  let moves : List (Move Task Choice Event) :=
    [Move.environment (Event.read chunk)] ++
      List.replicate 6 (Move.environment (Event.proceed ⟨0, true⟩)) ++
      [Move.spawn 0 (Task.idle .checking)] ++ Move.repeated 4 0 ⟨2000, true⟩ ++
      [Move.spawn 1 (Task.input (.sending [121])), Move.advance 1 ⟨3000, true⟩]
  let turn : Played := if accepted then .move (.advance 1 ⟨3000, true⟩) else .pass 1 3000
  moves.map .move ++ [turn, turn]

private def inputSchedule (accepted : Bool) : List Scheduled :=
  [.chunk, .thread 0, .thread 0, .start 0 (.idle .checking), .turn 0 2000 true, .turn 0 2000 true,
    .turn 0 2000 true, .turn 0 2000 true, .start 1 (.input (.sending [121])), .turn 1 3000 accepted,
    .turn 1 3000 true, .turn 1 3000 true]

/-- One child writes a letter and one asks for the position of the cursor. -/
theorem states_of_schedule_run :
    ∃ q q' : Pool (LiveSession Nat) Task, q.shared.stream ≠ q'.shared.stream ∧
      q.shared.states = [.working, .idle, .working] ∧
      (q.shared.states = q'.shared.states ∧ q.shared.push = q'.shared.push) ∧
        .awaitingInput ∉ q.shared.states ∧ q.shared.state ≠ .awaitingInput := by
  obtain ⟨q, hq, hstream, hstates⟩ := exists_follows queryTerminal noInfer
    (opened queryTerminal .unknown) (inputSchedule true)
    (fun q => q.shared.stream = [97] ∧ q.shared.states = [.working, .idle, .working])
    (inputAfter [97] true) (by decide)
  obtain ⟨q', hq', hstream'⟩ := exists_follows queryTerminal noInfer
    (opened queryTerminal .unknown) (inputSchedule true) (fun q => q.shared.stream = cursorQuery)
    (inputAfter cursorQuery true) (by decide)
  obtain ⟨hsame, hprompt⟩ :=
    states_of_schedule (opened_init queryTerminal noInfer .unknown) rfl hq hq'
  refine ⟨q, q', ?_, hstates, hsame, hprompt (by decide)⟩
  rw [hstream, hstream']
  decide

/-- The replies to what one child asks fill the queue, and the input is refused; after the output of
the other it is accepted and sets the session working. -/
theorem states_leak :
    ¬ ∀ (p q q' : Pool (LiveSession Nat) Task) (schedule schedule' : List Scheduled),
      (tasking queryTerminal noInfer).machine.init p → p.shared.commandKind = .unknown →
      Follows queryTerminal noInfer p schedule q → Follows queryTerminal noInfer p schedule' q' →
      schedule.map Scheduled.regardless = schedule'.map Scheduled.regardless →
      (q.shared.states = q'.shared.states ∧ q.shared.push = q'.shared.push) ∧
        ((∀ e ∈ schedule, e.isHook = false) →
          .awaitingInput ∉ q.shared.states ∧ q.shared.state ≠ .awaitingInput) := by
  intro hall
  obtain ⟨q, hq, hstates⟩ := exists_follows queryTerminal noInfer
    (opened queryTerminal .unknown) (inputSchedule false)
    (fun q => q.shared.states = [.working, .idle])
    (inputAfter (List.replicate 64 cursorQuery).flatten false) (by decide +kernel)
  obtain ⟨q', hq', hstates'⟩ := exists_follows queryTerminal noInfer
    (opened queryTerminal .unknown) (inputSchedule true)
    (fun q => q.shared.states = [.working, .idle, .working])
    (inputAfter [97] true) (by decide)
  obtain ⟨⟨hsame, -⟩, -⟩ := hall _ q q' _ _ (opened_init queryTerminal noInfer .unknown) rfl hq hq'
    (by decide)
  rw [hstates, hstates'] at hsame
  exact absurd hsame (by decide)

end Shelly.Daemon.Live
