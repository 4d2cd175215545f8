import Shelly.Daemon.LiveSteps

namespace Shelly.Daemon.Live

variable {T : Type*}

def announcesState : ServerToClientMsg → Bool
  | .agentStateChanged .. => true
  | _ => false

def announcesExit : ServerToClientMsg → Bool
  | .sessionExited .. => true
  | _ => false

/-- How far `mark_exited` has come: it has set the exit code, then the state, then announced the
exit. -/
inductive ExitPhase
  | running
  | settling (exitCode : Int)
  | settled
  | announced
  deriving DecidableEq

def IoPc.phase : IoPc → ExitPhase
  | .settling exitCode => .settling exitCode
  | .announcing _ => .settled
  | .reporting _ | .clearing | .persisting _ | .updating | .closing | .exited => .announced
  | _ => .running

/-- The exit has left its state behind. -/
def ExitPhase.final : ExitPhase → Bool
  | .settled | .announced => true
  | _ => false

/-- `mark_exited` has returned. -/
def IoPc.finished : IoPc → Bool
  | .closing | .exited => true
  | _ => false

/-- A task sets a state only while `mark_exited` has not yet set its own, unless it is the state
that is set already. -/
def timely (p : Pool (LiveSession T) Task) : Move Task Choice Event → Bool
  | .advance i _ =>
    !p.shared.io.phase.final ||
      (p.task i).all fun x => x.target.all fun state => p.shared.state == state
  | _ => true

/-- No state is announced after the exit. -/
def QuietAfterExit (sent : List ServerToClientMsg) : Prop :=
  sent.Pairwise fun m n => announcesExit m = true → announcesState n = false

def Unannounced (sent : List ServerToClientMsg) : Prop := ∀ m ∈ sent, announcesExit m = false

def ExitOk (s : LiveSession T) : ExitPhase → Prop
  | .running => s.exitCode = none ∧ Unannounced s.subscribers.sent
  | .settling exitCode => s.exitCode = some exitCode ∧ Unannounced s.subscribers.sent
  | .settled =>
    (∃ exitCode, s.exitCode = some exitCode ∧ s.state = LiveSession.exitState exitCode) ∧
      Unannounced s.subscribers.sent
  | .announced =>
    ∃ exitCode, s.exitCode = some exitCode ∧ s.state = LiveSession.exitState exitCode

def Final (s : LiveSession T) : Prop :=
  ExitOk s s.io.phase ∧ QuietAfterExit s.subscribers.sent

variable {E : Emulator T} {infer : StateInfer} {c : Choice} {s s' : LiveSession T}
  {sent : List ServerToClientMsg} {m : ServerToClientMsg}

theorem Unannounced.send (h : Unannounced sent) (hm : announcesExit m = false) :
    Unannounced (sent ++ [m]) := by
  intro n hn
  rcases List.mem_append.mp hn with hn | hn
  · exact h n hn
  · rwa [List.mem_singleton.mp hn]

/-- A message that announces no state may always be sent. -/
theorem QuietAfterExit.send (h : QuietAfterExit sent) (hm : announcesState m = false) :
    QuietAfterExit (sent ++ [m]) := by
  refine List.pairwise_append.mpr ⟨h, List.pairwise_singleton _ _, fun n _ n' hn' _ => ?_⟩
  rwa [List.mem_singleton.mp hn']

/-- A state may be announced before the exit is. -/
theorem QuietAfterExit.send_running (h : QuietAfterExit sent) (hrunning : Unannounced sent) :
    QuietAfterExit (sent ++ [m]) := by
  refine List.pairwise_append.mpr ⟨h, List.pairwise_singleton _ _, fun n hn _ _ hexit => ?_⟩
  cases hexit.symm.trans (hrunning n hn)

theorem Final.of_same (h : Final s) (hphase : s'.io.phase = s.io.phase)
    (hexit : s'.exitCode = s.exitCode) (hstate : s'.state = s.state)
    (hsent : s'.subscribers = s.subscribers) : Final s' := by
  unfold Final at h ⊢
  rw [hphase, hsent]
  refine ⟨?_, h.2⟩
  have hok := h.1
  cases hp : s.io.phase <;> rw [hp] at hok <;> simp only [ExitOk, hexit, hstate, hsent] at hok ⊢ <;>
    exact hok

theorem ExitOk.unannounced {phase : ExitPhase} (h : ExitOk s phase) (hp : phase ≠ .announced) :
    Unannounced s.subscribers.sent := by
  cases phase with
  | running | settling | settled => exact h.2
  | announced => exact absurd rfl hp

/-- A state that is set before the exit leaves its own. -/
theorem Final.setState (h : Final s) (now : Nat) (state : AgentState) (line : Option String)
    (ht : s.io.phase.final = false ∨ s.state = state) : Final (s.setState now state line) := by
  by_cases hsame : s.state = state
  · rwa [LiveSession.setState_self s now state line hsame]
  have hphase : s.io.phase.final = false := ht.resolve_right hsame
  have hun : Unannounced s.subscribers.sent :=
    h.1.unannounced fun hp => by rw [hp] at hphase; cases hphase
  have hun' : Unannounced (s.setState now state line).subscribers.sent := by
    rcases LiveSession.setState_sent s now state line with hsent | hsent <;> rw [hsent]
    · exact hun
    · exact hun.send rfl
  refine ⟨?_, ?_⟩
  · have hok := h.1
    rw [LiveSession.setState_io]
    cases hp : s.io.phase <;> rw [hp] at hok hphase
    · exact ⟨(LiveSession.setState_exitCode s now state line).trans hok.1, hun'⟩
    · exact ⟨(LiveSession.setState_exitCode s now state line).trans hok.1, hun'⟩
    · cases hphase
    · cases hphase
  · rcases LiveSession.setState_sent s now state line with hsent | hsent <;> rw [hsent]
    · exact h.2
    · exact h.2.send_running hun

/-- One step of a task. -/
theorem Final.advance {x x' : Task} (h : Final s) (hs : advance E c x s = some (s', x'))
    (ht : s.io.phase.final = false ∨ ∀ state, x.target = some state → s.state = state) :
    Final s' := by
  cases advance_effect hs with
  | setState now state line hx => exact h.setState now state line (ht.imp_right fun ht => ht state hx)
  | same | enqueue | line | cache | resize | rebuild | dirty | store =>
    exact h.of_same rfl rfl rfl rfl

/-- One step of the I/O thread. -/
theorem Final.io (h : Final s) (hs : ioStep E infer c s = some s') : Final s' := by
  have hok := h.1
  unfold ioStep at hs
  cases hio : s.io with
  | reading | exited => rw [hio] at hs; cases hs
  | ingested bytes seq failure =>
    rw [hio] at hs
    cases hs
    refine h.of_same ?_ rfl rfl rfl
    rw [hio]
    dsimp only
    split <;> rfl
  | rebuilding | noting | dirtying =>
    rw [hio] at hs
    cases hs
    exact h.of_same (by rw [hio]; rfl) rfl rfl rfl
  | inspecting bytes seq =>
    rw [hio] at hs
    dsimp only at hs
    split at hs <;> cases hs
    · exact h.of_same (by rw [hio]; rfl) rfl rfl rfl
    · refine h.of_same ?_ rfl rfl rfl
      rw [hio]
      dsimp only
      split <;> rfl
  | inferring bytes seq line =>
    rw [hio] at hs
    cases hs
    exact h.of_same (by rw [hio]; rfl) rfl rfl rfl
  | settingState bytes seq state line =>
    rw [hio] at hs
    cases hs
    have hset : Final (if state = .idle then s else s.setState c.now state line) := by
      split
      · exact h
      · exact h.setState c.now state line (.inl (by rw [hio]; rfl))
    refine hset.of_same ?_ rfl rfl rfl
    have hphase : (if state = .idle then s else s.setState c.now state line).io = s.io := by
      split
      · rfl
      · exact LiveSession.setState_io s c.now state line
    rw [hphase, hio]
    rfl
  | sending bytes seq =>
    rw [hio] at hs hok
    cases hs
    exact ⟨⟨hok.1, hok.2.send rfl⟩, h.2.send rfl⟩
  | exiting exitCode =>
    rw [hio] at hs hok
    dsimp only at hs
    split at hs <;> cases hs
    · rename_i hexit
      rw [hok.1] at hexit
      cases hexit
    · exact ⟨⟨rfl, hok.2⟩, h.2⟩
  | settling exitCode =>
    rw [hio] at hs hok
    cases hs
    exact ⟨⟨⟨exitCode, hok.1, rfl⟩, hok.2⟩, h.2⟩
  | announcing exitCode =>
    rw [hio] at hs hok
    cases hs
    exact ⟨hok.1, h.2.send rfl⟩
  | reporting exitCode =>
    rw [hio] at hs
    cases hs
    split <;> exact h.of_same (by rw [hio]; rfl) rfl rfl rfl
  | clearing | updating | closing =>
    rw [hio] at hs
    cases hs
    exact h.of_same (by rw [hio]; rfl) rfl rfl rfl
  | persisting pc =>
    rw [hio] at hs
    cases pc with
    | returned ok => cases hs; exact h.of_same (by rw [hio]; rfl) rfl rfl rfl
    | checking | capturing | completing =>
      cases hs
      exact h.of_same (by rw [hio]; rfl) rfl rfl rfl
    | saving stored =>
      obtain ⟨⟨t, pc'⟩, hsave, rfl⟩ := Option.map_eq_some_iff.mp hs
      simp only [saveStep] at hsave
      split at hsave <;> cases hsave <;> exact h.of_same (by rw [hio]; rfl) rfl rfl rfl

theorem Final.event {e : Event} {keep : Bool} (h : Final s)
    (hs : event E infer e s = some (s', keep)) : Final s' := by
  cases e with
  | read bytes =>
    simp only [Live.event, Option.ite_none_right_eq_some, Option.some.injEq, Prod.mk.injEq] at hs
    obtain ⟨⟨hio, -⟩, rfl, -⟩ := hs
    exact h.of_same (by rw [hio]; rfl) rfl rfl rfl
  | drain =>
    simp only [Live.event, Option.ite_none_right_eq_some, Option.some.injEq, Prod.mk.injEq] at hs
    obtain ⟨-, rfl, -⟩ := hs
    exact h.of_same rfl rfl rfl rfl
  | exit exitCode =>
    simp only [Live.event, Option.ite_none_right_eq_some, Option.some.injEq, Prod.mk.injEq] at hs
    obtain ⟨hio, rfl, -⟩ := hs
    exact h.of_same (by rw [hio]; rfl) rfl rfl rfl
  | proceed c =>
    obtain ⟨t, hio, hr⟩ := Option.map_eq_some_iff.mp hs
    obtain ⟨rfl, -⟩ := Prod.mk.inj hr
    exact h.io hio
  | kill =>
    cases hs
    exact h.of_same rfl rfl rfl rfl

theorem Final.spawn (id : SessionId) (name : String) (createdAt : Nat) (commandKind : CommandKind)
    (size : ClientSize) (store push : Bool) :
    Final (LiveSession.spawn E id name createdAt commandKind size store push) :=
  ⟨⟨rfl, fun _ hm => nomatch hm⟩, .nil⟩

theorem final_of_reachable {p : Pool (LiveSession T) Task}
    (h : (tasking E infer).machine.ReachableWhen (fun p a => timely p a = true) p) :
    Final p.shared := by
  refine h.invariant (I := fun p => Final p.shared) ?_ ?_
  · rintro p ⟨⟨id, name, createdAt, commandKind, size, store, push, hs⟩, -⟩
    rw [hs]
    exact Final.spawn id name createdAt commandKind size store push
  · intro p a q hp hc hs
    cases Tasking.stepped_of_step hs with
    | spawn | drop => exact hp
    | advance i c x x' s' ht hr =>
      refine hp.advance hr ?_
      simp only [timely, ht, Option.all_some, Bool.or_eq_true, Bool.not_eq_true'] at hc
      refine hc.imp_right fun hc state hx => ?_
      rw [hx] at hc
      exact beq_iff_eq.mp hc
    | keep e s' hr => exact hp.event hr
    | clear e s' hr => exact hp.event hr

/-- Once `mark_exited` has returned the state is the one the exit left behind, and nothing
announces a state after the exit. -/
theorem exit_is_final {p : Pool (LiveSession T) Task}
    (h : (tasking E infer).machine.ReachableWhen (fun p a => timely p a = true) p) :
    (∀ exitCode, p.shared.io.finished = true → p.shared.exitCode = some exitCode →
      p.shared.state = LiveSession.exitState exitCode) ∧
      QuietAfterExit p.shared.subscribers.sent := by
  obtain ⟨hok, hquiet⟩ := final_of_reachable h
  refine ⟨fun exitCode hfinished hexit => ?_, hquiet⟩
  have hphase : p.shared.io.phase = .announced := by
    cases hio : p.shared.io <;> rw [hio] at hfinished <;> first | rfl | cases hfinished
  rw [hphase] at hok
  obtain ⟨code, hcode, hstate⟩ := hok
  obtain rfl := Option.some.inj (hexit.symm.trans hcode)
  exact hstate

/-- The I/O thread goes on to the end of `mark_exited`. -/
private def exitRun (exitCode : Int) : List (Move Task Choice Event) :=
  .environment (.exit exitCode) :: List.replicate 12 (.environment (.proceed ⟨0, true⟩))

/-- An input sets its state before the exit. -/
theorem exit_is_final_run :
    ∃ p : Pool (LiveSession Nat) Task, p.shared.io = .exited ∧ p.shared.exitCode = some 1 ∧
      p.shared.states = [.working, .crashed] ∧ p.shared.state = .crashed ∧
      QuietAfterExit p.shared.subscribers.sent := by
  obtain ⟨p, hr, hio, hexit, hstates⟩ :=
    (tasking queryTerminal noInfer).machine.exists_reachable_of_exec
    (fun p a => timely p a = true)
    (fun p => p.shared.io = .exited ∧ p.shared.exitCode = some 1 ∧
      p.shared.states = [.working, .crashed])
    (List.flatten [[.spawn 0 (.input (.sending [97]))], Move.repeated 3 0 ⟨0, true⟩, exitRun 1])
    (opened_init queryTerminal noInfer .unknown) (by decide)
  obtain ⟨hstate, hquiet⟩ := exit_is_final hr
  exact ⟨p, hio, hexit, hstates, hstate 1 (by rw [hio]; rfl) hexit, hquiet⟩

/-- An input that has found the session running sets its state after the exit. -/
theorem state_set_after_exit :
    ¬ ∀ p : Pool (LiveSession Nat) Task, (tasking queryTerminal noInfer).machine.Reachable p →
      (∀ exitCode, p.shared.io.finished = true → p.shared.exitCode = some exitCode →
        p.shared.state = LiveSession.exitState exitCode) ∧
        QuietAfterExit p.shared.subscribers.sent := by
  intro hall
  obtain ⟨p, hr, hio, hexit, hstate⟩ :=
    (tasking queryTerminal noInfer).machine.exists_reachable_of_exec
    Machine.Any
    (fun p => p.shared.io = .exited ∧ p.shared.exitCode = some 0 ∧ p.shared.state = .working)
    (List.flatten [[.spawn 0 (.input (.sending [97]))], Move.repeated 2 0 ⟨0, true⟩, exitRun 0,
      [.advance 0 ⟨0, true⟩]])
    (opened_init queryTerminal noInfer .unknown) (by decide)
  have hfinal := (hall p hr).1 0 (by rw [hio]; rfl) hexit
  rw [hstate] at hfinal
  cases hfinal

end Shelly.Daemon.Live
