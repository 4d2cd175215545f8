import Shelly.Daemon.LiveSteps

namespace Shelly.Daemon

variable {T : Type*}

/-- One change of the state of a session. `exit` is whether the end of the child made it. -/
structure StateEdge where
  source : AgentState
  target : AgentState
  time : Nat
  exit : Bool
  deriving DecidableEq

/-- When the present state was entered; the edges come latest first. -/
def enteredAt (edges : List StateEdge) : Option Nat := edges.head?.map (·.time)

/-- What an edge is to be announced as, after the edges before it. `finishing` says which edges from
working to idle can end a build. -/
def StateEdge.notice (finishing : StateEdge → Bool) (id : SessionId) (name : String)
    (before : List StateEdge) (e : StateEdge) : Option (PushCommand × Nat) :=
  if e.target = .awaitingInput then some (.awaitingInput id name, e.time)
  else if finishing e = true ∧ e.source = .working ∧ e.target = .idle ∧
      ∃ since ∈ enteredAt before, buildFinishedMinWorkingMs ≤ e.time - since then
    some (.buildFinished id name, e.time)
  else none

/-- What the edges are to be announced as, in the order in which they were taken. -/
def edgeNotices (finishing : StateEdge → Bool) (id : SessionId) (name : String) :
    List StateEdge → List (PushCommand × Nat)
  | [] => []
  | e :: before =>
    edgeNotices finishing id name before ++ (e.notice finishing id name before).toList

def PushCommand.isCrash : PushCommand → Bool
  | .sessionCrashed .. => true
  | _ => false

/-- What was queued, without the crashes. -/
def edgePushes (pushed : List (PushCommand × Nat)) : List (PushCommand × Nat) :=
  pushed.filter fun command => !command.1.isCrash

namespace Live

/-- What the clock shows in a step that reads it. -/
def moveTime : Move Task Choice Event → Nat
  | .advance _ c => c.now
  | .environment (.proceed c) => c.now
  | _ => 0

/-- The step in which `mark_exited` changes the state. -/
def exitMove (s : LiveSession T) : Move Task Choice Event → Bool
  | .environment (.proceed _) =>
    match s.io with
    | .settling _ => true
    | _ => false
  | _ => false

/-- A change of the state is put down. -/
def noteEdge (a : Move Task Choice Event) (p q : Pool (LiveSession T) Task)
    (edges : List StateEdge) : List StateEdge :=
  if p.shared.state = q.shared.state then edges
  else ⟨p.shared.state, q.shared.state, moveTime a, exitMove p.shared a⟩ :: edges

/-- The threads of a session, with the changes of its state beside it, latest first. -/
def edgeMachine (E : Emulator T) (infer : StateInfer) :
    Machine (Pool (LiveSession T) Task × List StateEdge) (Move Task Choice Event) :=
  (tasking E infer).machine.watched (fun _ => []) noteEdge

variable {E : Emulator T} {infer : StateInfer} {c : Choice} {x x' : Task} {s s' : LiveSession T}

section Steps

/-- What decides about notifications. -/
structure SameNotices (s s' : LiveSession T) : Prop where
  id : s'.id = s.id
  name : s'.name = s.name
  state : s'.state = s.state
  workingSince : s'.workingSince = s.workingSince
  push : s'.push.map edgePushes = s.push.map edgePushes

theorem SameNotices.refl (s : LiveSession T) : SameNotices s s := ⟨rfl, rfl, rfl, rfl, rfl⟩

/-- A task leaves what decides about notifications, or sets a state at the time it reads. -/
theorem advance_notices (h : advance E c x s = some (s', x')) :
    SameNotices s s' ∨ ∃ state line, s' = s.setState c.now state line := by
  cases htarget : x.target with
  | none =>
    cases advance_effect h with
    | setState now state line hx => cases htarget.symm.trans hx
    | same | enqueue | line | cache | resize | rebuild | dirty | store =>
      exact .inl ⟨rfl, rfl, rfl, rfl, rfl⟩
  | some state =>
    cases x with
    | input pc =>
      cases pc with
      | setting => cases h; exact .inr ⟨_, _, rfl⟩
      | sending | checking | returned => cases htarget
    | idle pc =>
      cases pc with
      | setting => cases h; exact .inr ⟨_, _, rfl⟩
      | checking | measuring | comparing | stopped => cases htarget
    | hook call pc =>
      cases pc with
      | setting => cases h; exact .inr ⟨_, _, rfl⟩
      | checking | lining | caching | dirtying | reading | returned => cases htarget
    | resize | attach | flush => cases htarget

/-- So does the thread that reads and writes, except that an exit sets the state by itself. -/
theorem ioStep_notices (h : ioStep E infer c s = some s') :
    SameNotices s s' ∨
      (∃ state line, exitMove s (.environment (.proceed c)) = false ∧
        SameNotices (s.setState c.now state line) s') ∨
      ∃ exitCode, exitMove s (.environment (.proceed c)) = true ∧
        s'.state = LiveSession.exitState exitCode ∧
        SameNotices { s with state := s'.state } s' := by
  unfold ioStep at h
  simp only [exitMove]
  cases hio : s.io with
  | reading | exited => rw [hio] at h; cases h
  | inspecting | exiting =>
    rw [hio] at h
    dsimp only at h
    split at h <;> cases h <;> exact .inl ⟨rfl, rfl, rfl, rfl, rfl⟩
  | settingState bytes seq state line =>
    rw [hio] at h
    cases h
    by_cases hidle : state = .idle
    · rw [if_pos hidle]
      exact .inl ⟨rfl, rfl, rfl, rfl, rfl⟩
    · rw [if_neg hidle]
      exact .inr (.inl ⟨state, line, rfl, rfl, rfl, rfl, rfl, rfl⟩)
  | settling exitCode =>
    rw [hio] at h
    cases h
    exact .inr (.inr ⟨exitCode, rfl, rfl, rfl, rfl, rfl, rfl, rfl⟩)
  | reporting exitCode =>
    rw [hio] at h
    cases h
    left
    split
    · refine ⟨rfl, rfl, rfl, rfl, ?_⟩
      cases hpush : s.push with
      | none => simp [LiveSession.sendPush, hpush]
      | some pushed => simp [LiveSession.sendPush, hpush, edgePushes, PushCommand.isCrash]
    · exact ⟨rfl, rfl, rfl, rfl, rfl⟩
  | persisting pc =>
    rw [hio] at h
    cases pc with
    | saving stored =>
      obtain ⟨⟨t, pc'⟩, hsave, rfl⟩ := Option.map_eq_some_iff.mp h
      simp only [saveStep] at hsave
      split at hsave <;> cases hsave <;> exact .inl ⟨rfl, rfl, rfl, rfl, rfl⟩
    | checking | capturing | completing | returned =>
      cases h
      exact .inl ⟨rfl, rfl, rfl, rfl, rfl⟩
  | _ => rw [hio] at h; cases h; exact .inl ⟨rfl, rfl, rfl, rfl, rfl⟩

/-- What an event does about notifications. -/
theorem event_notices {e : Event} {keep : Bool} (h : event E infer e s = some (s', keep)) :
    SameNotices s s' ∨
      (∃ state line, exitMove s (.environment e) = false ∧
        SameNotices (s.setState (moveTime (.environment e)) state line) s') ∨
      ∃ exitCode, exitMove s (.environment e) = true ∧
        s'.state = LiveSession.exitState exitCode ∧
        SameNotices { s with state := s'.state } s' := by
  cases e with
  | read | drain | exit =>
    simp only [event, Option.ite_none_right_eq_some, Option.some.injEq, Prod.mk.injEq] at h
    obtain ⟨-, rfl, -⟩ := h
    exact .inl ⟨rfl, rfl, rfl, rfl, rfl⟩
  | kill =>
    cases h
    exact .inl ⟨rfl, rfl, rfl, rfl, rfl⟩
  | proceed c =>
    obtain ⟨t, hio, heq⟩ := Option.map_eq_some_iff.mp h
    obtain ⟨rfl, -⟩ := Prod.mk.inj heq
    rcases ioStep_notices hio with hsame | ⟨state, line, hset, hs⟩ | ⟨exitCode, hset, hstate, hs⟩
    · exact .inl hsame
    · exact .inr (.inl ⟨state, line, hset, hs⟩)
    · exact .inr (.inr ⟨exitCode, hset, hstate, hs⟩)

end Steps

section Invariant

variable {edges : List StateEdge}

/-- The state that the edges lead to. -/
def presentState (edges : List StateEdge) : AgentState := (edges.head?.map (·.target)).getD .idle

/-- When the last edge entered the working state that `set_state` made. -/
def setSince (edges : List StateEdge) : Option Nat :=
  (edges.find? fun e => !e.exit).bind fun e => if e.target = .working then some e.time else none

/-- A session beside its edges. -/
structure Noticed (s : LiveSession T) (edges : List StateEdge) : Prop where
  state : s.state = presentState edges
  exits : ∀ e ∈ edges, e.exit = true → e.target = .idle ∨ e.target = .crashed
  since : s.workingSince = setSince edges
  pushed : ∀ pushed, s.push = some pushed →
    edgePushes pushed = edgeNotices (fun e => !e.exit) s.id s.name edges

namespace Noticed

/-- A working state was entered by the latest edge, and that was no exit. -/
theorem working_since (h : Noticed s edges) (hworking : s.state = .working) :
    s.workingSince = enteredAt edges := by
  have hstate := h.state.symm.trans hworking
  rw [h.since]
  cases edges with
  | nil => cases hstate
  | cons e before =>
    have htarget : e.target = .working := hstate
    cases hexit : e.exit with
    | true =>
      rcases h.exits e List.mem_cons_self hexit with hidle | hcrashed
      · cases htarget.symm.trans hidle
      · cases htarget.symm.trans hcrashed
    | false => simp [setSince, enteredAt, hexit, htarget]

theorem same (h : Noticed s edges) (hs : SameNotices s s') : Noticed s' edges := by
  refine ⟨hs.state.trans h.state, h.exits, hs.workingSince.trans h.since, fun pushed hp => ?_⟩
  have hpush := hs.push
  rw [hp] at hpush
  obtain ⟨before, hbefore, heq⟩ := Option.map_eq_some_iff.mp hpush.symm
  rw [← heq, hs.id, hs.name]
  exact h.pushed before hbefore

/-- What `set_state` queues is what the edge it makes is to be announced as. -/
theorem setState_push (h : Noticed s edges) {state : AgentState} (hne : s.state ≠ state) (now : Nat)
    (line : Option String) :
    (s.setState now state line).push = s.push.map fun pushed => pushed ++
      ((⟨s.state, state, now, false⟩ : StateEdge).notice (fun e => !e.exit) s.id s.name
        edges).toList := by
  have hfinished : (s.state == .working && state == .idle &&
      s.workingSince.any fun since => decide (buildFinishedMinWorkingMs ≤ now - since)) = true ↔
      s.state = .working ∧ state = .idle ∧
        ∃ since ∈ enteredAt edges, buildFinishedMinWorkingMs ≤ now - since := by
    simp only [Bool.and_eq_true, beq_iff_eq, Option.any_eq_true, decide_eq_true_eq, and_assoc]
    refine and_congr_right fun hworking => and_congr_right fun _ => ?_
    rw [h.working_since hworking]
    rfl
  unfold LiveSession.setState StateEdge.notice
  rw [if_neg hne]
  by_cases hawaiting : state = .awaitingInput
  · simp [hawaiting, LiveSession.sendPush]
  · simp only [hawaiting, if_false, hfinished, Bool.not_false, true_and]
    split
    · rfl
    · cases s.push <;> simp

theorem setState_workingSince {state : AgentState} (hne : s.state ≠ state) (now : Nat)
    (line : Option String) :
    (s.setState now state line).workingSince = if state = .working then some now else none := by
  unfold LiveSession.setState LiveSession.sendPush
  rw [if_neg hne]
  dsimp only
  split_ifs <;> rfl

/-- A notice is no crash. -/
theorem edgePushes_append_notice (finishing : StateEdge → Bool) (id : SessionId) (name : String)
    (e : StateEdge) (pushed : List (PushCommand × Nat)) :
    edgePushes (pushed ++ (e.notice finishing id name edges).toList) =
      edgePushes pushed ++ (e.notice finishing id name edges).toList := by
  unfold edgePushes StateEdge.notice
  rw [List.filter_append]
  split_ifs <;> rfl

theorem setState (h : Noticed s edges) {state : AgentState} (hne : s.state ≠ state) (now : Nat)
    (line : Option String) :
    Noticed (s.setState now state line) (⟨s.state, state, now, false⟩ :: edges) := by
  refine ⟨LiveSession.setState_state s now state line, fun e he hexit => ?_, ?_,
    fun pushed hp => ?_⟩
  · rcases List.mem_cons.mp he with rfl | he
    · cases hexit
    · exact h.exits e he hexit
  · rw [setState_workingSince hne]
    rfl
  · rw [h.setState_push hne] at hp
    obtain ⟨before, hbefore, rfl⟩ := Option.map_eq_some_iff.mp hp
    rw [edgePushes_append_notice, h.pushed before hbefore, LiveSession.setState_id,
      LiveSession.setState_name]
    rfl

/-- An exit queues no notice, and its edge is to be announced as none. -/
theorem exit (h : Noticed s edges) {state : AgentState} (now : Nat)
    (hstate : state = .idle ∨ state = .crashed) (hs : SameNotices { s with state } s') :
    Noticed s' (⟨s.state, state, now, true⟩ :: edges) := by
  refine ⟨hs.state, fun e he hexit => ?_, hs.workingSince.trans h.since, fun pushed hp => ?_⟩
  · rcases List.mem_cons.mp he with rfl | he
    · exact hstate
    · exact h.exits e he hexit
  · have hpush := hs.push
    rw [hp] at hpush
    obtain ⟨before, hbefore, heq⟩ := Option.map_eq_some_iff.mp hpush.symm
    have hnone : (⟨s.state, state, now, true⟩ : StateEdge).notice (fun e => !e.exit) s.id s.name
        edges = none := by
      rcases hstate with rfl | rfl <;> simp [StateEdge.notice]
    rw [← heq, hs.id, hs.name, edgeNotices, hnone]
    exact (h.pushed before hbefore).trans (List.append_nil _).symm

end Noticed

/-- A step that reads the clock and may set a state adds the edge it makes. -/
theorem Noticed.setState_edge {p q : Pool (LiveSession T) Task} {a : Move Task Choice Event}
    (h : Noticed p.shared edges) {state : AgentState} {line : Option String}
    (hexit : exitMove p.shared a = false)
    (hs : SameNotices (p.shared.setState (moveTime a) state line) q.shared) :
    Noticed q.shared (noteEdge a p q edges) := by
  have hstate : q.shared.state = state := hs.state.trans (LiveSession.setState_state _ _ _ _)
  unfold noteEdge
  by_cases hsame : p.shared.state = state
  · rw [if_pos (hsame.trans hstate.symm)]
    rw [LiveSession.setState_self _ _ _ _ hsame] at hs
    exact h.same hs
  · rw [hstate, if_neg hsame, hexit]
    exact (h.setState hsame (moveTime a) line).same hs

/-- An exit adds an edge of its own kind. -/
theorem Noticed.exit_edge {p q : Pool (LiveSession T) Task} {a : Move Task Choice Event}
    (h : Noticed p.shared edges) {exitCode : Int} (hexit : exitMove p.shared a = true)
    (hstate : q.shared.state = LiveSession.exitState exitCode)
    (hs : SameNotices { p.shared with state := q.shared.state } q.shared) :
    Noticed q.shared (noteEdge a p q edges) := by
  have hended : q.shared.state = .idle ∨ q.shared.state = .crashed := by
    rw [hstate]
    unfold LiveSession.exitState
    split
    · exact .inl rfl
    · exact .inr rfl
  unfold noteEdge
  split
  · rename_i hsame
    exact h.same ⟨hs.id, hs.name, hsame.symm, hs.workingSince, hs.push⟩
  · rw [hexit]
    exact h.exit (moveTime a) hended hs

/-- A step that leaves the state adds no edge. -/
theorem Noticed.same_edge {p q : Pool (LiveSession T) Task} {a : Move Task Choice Event}
    (h : Noticed p.shared edges) (hs : SameNotices p.shared q.shared) :
    Noticed q.shared (noteEdge a p q edges) := by
  unfold noteEdge
  rw [if_pos hs.state.symm]
  exact h.same hs

theorem noticed_step {p q : Pool (LiveSession T) Task} {a : Move Task Choice Event}
    (h : Noticed p.shared edges) (hs : (tasking E infer).machine.step a p = some q) :
    Noticed q.shared (noteEdge a p q edges) := by
  cases Tasking.stepped_of_step hs with
  | spawn i x hx hi => exact h.same_edge (.refl _)
  | drop i x hx hcancel => cases hcancel
  | advance i c x x' s' hx hr =>
    rcases advance_notices hr with hsame | ⟨state, line, rfl⟩
    · exact h.same_edge hsame
    · exact h.setState_edge rfl (.refl _)
  | keep e s' hr | clear e s' hr =>
    rcases event_notices hr with hsame | ⟨state, line, hexit, hset⟩ | ⟨exitCode, hexit, hst, hset⟩
    · exact h.same_edge hsame
    · exact h.setState_edge hexit hset
    · exact h.exit_edge hexit hst hset

theorem noticed_init (h : (tasking E infer).init s) : Noticed s [] := by
  obtain ⟨id, name, createdAt, commandKind, size, store, push, rfl⟩ := h
  refine ⟨rfl, fun e he => (nomatch he), rfl, fun pushed hp => ?_⟩
  cases push with
  | true => cases hp; rfl
  | false => cases hp

theorem noticed {p : Pool (LiveSession T) Task × List StateEdge}
    (h : (edgeMachine E infer).Reachable p) : Noticed p.1.shared p.2 := by
  refine Machine.ReachableWhen.invariant (I := fun p => Noticed p.1.shared p.2) ?_ ?_ h
  · intro p hp
    rw [hp.2]
    exact noticed_init hp.1.1
  · intro p a q hp _ hs
    obtain ⟨hstep, hedges⟩ := Machine.watched_step hs
    rw [hedges]
    exact noticed_step hp hstep

/-- After a change that `set_state` made, the working time is there exactly while the session works,
and says since when. -/
theorem Noticed.since_iff (h : Noticed s edges) (hexit : ∀ e ∈ edges.head?, e.exit = false)
    (since : Nat) :
    s.workingSince = some since ↔ s.state = .working ∧ enteredAt edges = some since := by
  constructor
  · intro hsince
    have hset := h.since.symm.trans hsince
    have hstate := h.state
    cases edges with
    | nil => cases hset
    | cons e before =>
      have hnot := hexit e rfl
      simp only [setSince, List.find?_cons, hnot, Bool.not_false, Option.bind_some,
        Option.ite_none_right_eq_some, Option.some.injEq] at hset
      obtain ⟨htarget, htime⟩ := hset
      exact ⟨hstate.trans htarget, congrArg some htime⟩
  · rintro ⟨hworking, hentered⟩
    exact (h.working_since hworking).trans hentered

/-- The working time is that of the last change `set_state` made, if that was to working; what is
queued, beside crashes, is what its changes are to be announced as, once each and in their order. -/
theorem notifications_at_edges {p : Pool (LiveSession T) Task × List StateEdge}
    (h : (edgeMachine E infer).Reachable p) :
    (∀ since, p.1.shared.workingSince = some since ↔
      ∃ e, p.2.find? (fun e => !e.exit) = some e ∧ e.target = .working ∧ e.time = since) ∧
    ((∀ e ∈ p.2.head?, e.exit = false) → ∀ since, p.1.shared.workingSince = some since ↔
      p.1.shared.state = .working ∧ enteredAt p.2 = some since) ∧
    ∀ pushed, p.1.shared.push = some pushed →
      edgePushes pushed =
        edgeNotices (fun e => !e.exit) p.1.shared.id p.1.shared.name p.2 := by
  have hn := noticed h
  refine ⟨fun since => ?_, hn.since_iff, hn.pushed⟩
  rw [hn.since, setSince, Option.bind_eq_some_iff]
  simp only [Option.ite_none_right_eq_some, Option.some.injEq]

/-- A build of seven seconds, and a question. -/
theorem notifications_of_build :
    ∃ p : Pool (LiveSession Nat) Task × List StateEdge,
      p.2 = [⟨.idle, .awaitingInput, 8000, false⟩, ⟨.working, .idle, 7000, false⟩,
        ⟨.idle, .working, 0, false⟩] ∧
      (∀ since, p.1.shared.workingSince = some since ↔
        p.1.shared.state = .working ∧ enteredAt p.2 = some since) ∧
      ∃ pushed, p.1.shared.push = some pushed ∧ edgePushes pushed =
        [(.buildFinished 7 "shell", 7000), (.awaitingInput 7 "shell", 8000)] := by
  obtain ⟨p, hr, hedges, hpush⟩ :=
    (edgeMachine queryTerminal noInfer).exists_reachable_of_exec (s := (opened _ .claude, []))
      Machine.Any
      (fun p => p.2 = [⟨.idle, .awaitingInput, 8000, false⟩, ⟨.working, .idle, 7000, false⟩,
          ⟨.idle, .working, 0, false⟩] ∧
        p.1.shared.push.isSome = true ∧ p.1.shared.id = 7 ∧ p.1.shared.name = "shell")
      (List.flatten [[.environment (.read [97])],
        List.replicate 6 (.environment (.proceed ⟨0, true⟩)),
        [.spawn 0 (.idle .checking)], Move.repeated 4 0 ⟨7000, true⟩,
        [.spawn 1 (.hook ⟨.claude, .awaitingInput, none⟩ .checking)],
        Move.repeated 3 1 ⟨8000, true⟩])
      ⟨opened_init queryTerminal noInfer .claude, rfl⟩ (by decide)
  obtain ⟨hsome, hid, hname⟩ := hpush
  obtain ⟨pushed, hpushed⟩ := Option.isSome_iff_exists.mp hsome
  obtain ⟨-, hsince, hnotices⟩ := notifications_at_edges hr
  refine ⟨p, hedges, hsince ?_, pushed, hpushed, ?_⟩
  · intro e he
    rw [hedges] at he
    cases he
    rfl
  · rw [hnotices pushed hpushed, hedges, hid, hname]
    decide

/-- A session that has worked for nine seconds ends with code 0. It is idle, its working time stays,
and no end of a build is announced. -/
theorem notifications_not_at_exit :
    ¬ ∀ p : Pool (LiveSession Nat) Task × List StateEdge,
      (edgeMachine queryTerminal noInfer).Reachable p →
      (∀ since, p.1.shared.workingSince = some since ↔
        p.1.shared.state = .working ∧ enteredAt p.2 = some since) ∧
      ∀ pushed, p.1.shared.push = some pushed →
        edgePushes pushed = edgeNotices (fun _ => true) p.1.shared.id p.1.shared.name p.2 := by
  intro hall
  obtain ⟨p, hr, hsince, hstate⟩ :=
    (edgeMachine queryTerminal noInfer).exists_reachable_of_exec (s := (opened _ .unknown, []))
      Machine.Any
      (fun p => p.1.shared.workingSince = some 0 ∧ p.1.shared.state = .idle)
      (List.flatten [[.environment (.read [97])],
        List.replicate 6 (.environment (.proceed ⟨0, true⟩)),
        [.environment (.exit 0)], List.replicate 2 (.environment (.proceed ⟨9000, true⟩))])
      ⟨opened_init queryTerminal noInfer .unknown, rfl⟩ (by decide)
  obtain ⟨hworking, -⟩ := ((hall p hr).1 0).mp hsince
  cases hstate.symm.trans hworking

end Invariant

end Live
end Shelly.Daemon
