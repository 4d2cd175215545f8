import Shelly.Daemon.LiveSteps

namespace Shelly.Daemon.Live

variable {T : Type*}

/-- A session beside the clock its threads read. The last two fields are history: when the child
last wrote, and when input was last accepted. -/
structure Timed (T : Type*) extends LiveSession T where
  clock : Nat
  lastOutput : Option Nat
  lastInput : Option Nat

/-- It did not happen, or long enough ago for the idle loop. -/
def Past (now : Nat) (happened : Option Nat) : Prop := ∀ t ∈ happened, t + idleAfterMs ≤ now

instance (now : Nat) (happened : Option Nat) : Decidable (Past now happened) :=
  inferInstanceAs (Decidable (∀ t ∈ happened, t + idleAfterMs ≤ now))

/-- Neither output nor input is recent. -/
def Timed.Quiet (s : Timed T) : Prop := Past s.clock s.lastOutput ∧ Past s.clock s.lastInput

instance (s : Timed T) : Decidable s.Quiet :=
  inferInstanceAs (Decidable (_ ∧ _))

/-- Output has been recorded and its time has not. -/
def IoPc.unnoted : IoPc → Bool
  | .ingested .. | .rebuilding .. | .noting .. => true
  | _ => false

/-- The task is a `write_input` whose bytes the queue to the child takes now. -/
def Task.taken (s : LiveSession T) : Task → Bool
  | .input (.sending bytes) => (s.responder.sender.trySend bytes).isOk
  | _ => false

/-- A tick of the idle loop that has found no recent activity and is not over. -/
def Task.found : Task → Bool
  | .idle (.comparing idleFor) => decide (idleAfterMs ≤ idleFor)
  | .idle .setting => true
  | _ => false

/-- A tick of the idle loop that has seen a state it may replace. -/
def Task.replacing : Task → Bool
  | .idle .setting => true
  | _ => false

inductive TimedEvent
  | tick (ms : Nat)
  | event (e : Event)

namespace TimedEvent

/-- Every thread reads the same clock. -/
def read (now : Nat) : Event → Event
  | .proceed c => .proceed { c with now }
  | e => e

def isOutput : Event → Bool
  | .read _ => true
  | _ => false

end TimedEvent

/-- The threads of a session under one clock that only goes forward. What is left of a choice is
whether a call succeeds. -/
def timedTasking (E : Emulator T) (infer : StateInfer) :
    Tasking (Timed T) Task Bool TimedEvent where
  init s := (tasking E infer).init s.toLiveSession ∧ s.lastOutput = none ∧ s.lastInput = none
  start := start
  cancellable _ := false
  advance ok _ x s :=
    (advance E ⟨s.clock, ok⟩ x s.toLiveSession).map fun r =>
      ({ s with
        toLiveSession := r.1
        lastInput := if x.taken s.toLiveSession then some s.clock else s.lastInput }, r.2)
  environment
    | .tick ms, s => some ({ s with clock := s.clock + ms }, true)
    | .event e, s =>
      (event E infer (TimedEvent.read s.clock e) s.toLiveSession).map fun r =>
        ({ s with
          toLiveSession := r.1
          lastOutput := if TimedEvent.isOutput e then some s.clock else s.lastOutput }, r.2)

/-- The session without its clock. -/
def untimed (p : Pool (Timed T) Task) : Pool (LiveSession T) Task :=
  ⟨p.shared.toLiveSession, p.tasks⟩

/-- A tick reads an old activity time only when output and input are old, no output and no input
comes before the tick is over, and nobody starts to wait for input between its look at the state and
its own change. -/
def undisturbed (p : Pool (Timed T) Task) : Move Task Bool TimedEvent → Bool
  | .advance i _ =>
    (p.task i).all fun x =>
      match x with
      | .idle .measuring =>
        decide (idleAfterMs ≤ p.shared.clock - p.shared.lastActivity →
          (p.shared.io.unnoted = true → Past p.shared.clock p.shared.lastOutput) ∧
            Past p.shared.clock p.shared.lastInput)
      | .hook call .setting =>
        decide (call.state = .awaitingInput → p.Lacks fun _ => Task.replacing)
      | x => decide (x.taken p.shared.toLiveSession = true → p.Lacks fun _ => Task.found)
  | .environment (.event (.read _)) => decide (p.Lacks fun _ => Task.found)
  | .environment (.event (.proceed _)) =>
    match p.shared.io with
    | .settingState _ _ .awaitingInput _ => decide (p.Lacks fun _ => Task.replacing)
    | _ => true
  | _ => true

variable {E : Emulator T} {infer : StateInfer} {c : Choice} {x x' : Task}

theorem Past.mono {now later : Nat} {happened : Option Nat} (h : Past now happened)
    (hle : now ≤ later) : Past later happened := by
  intro t ht
  have hpast := h t ht
  omega

section Untimed

/-- A step under the clock is a step of the session, or the clock alone moves. -/
theorem untimed_step {p q : Pool (Timed T) Task} {a : Move Task Bool TimedEvent}
    (h : (timedTasking E infer).machine.step a p = some q) :
    untimed q = untimed p ∨
      ∃ b, (tasking E infer).machine.step b (untimed p) = some (untimed q) := by
  cases Tasking.stepped_of_step h with
  | spawn i x hx hi =>
    refine .inr ⟨.spawn i x, ?_⟩
    have hstart : Live.start x = true := hx
    have hnone : (untimed p).task i = none := hi
    simp only [Tasking.machine, tasking, hstart, hnone]
    rfl
  | advance i ok x x' s' hx hs =>
    obtain ⟨r, hr, heq⟩ := Option.map_eq_some_iff.mp hs
    obtain ⟨rfl, rfl⟩ := Prod.mk.inj heq
    refine .inr ⟨.advance i ⟨p.shared.clock, ok⟩, ?_⟩
    have htask : (untimed p).task i = some x := hx
    have hadvance : advance E ⟨p.shared.clock, ok⟩ x (untimed p).shared = some r := hr
    simp only [Tasking.machine, tasking, htask, Option.bind_some, hadvance, Option.map_some]
    rfl
  | drop i x hx hcancel => cases hcancel
  | keep e s' hs =>
    cases e with
    | tick ms =>
      cases hs
      exact .inl rfl
    | event e =>
      obtain ⟨r, hr, heq⟩ := Option.map_eq_some_iff.mp hs
      obtain ⟨rfl, hkeep⟩ := Prod.mk.inj heq
      refine .inr ⟨.environment (TimedEvent.read p.shared.clock e), ?_⟩
      have hevent : event E infer (TimedEvent.read p.shared.clock e) (untimed p).shared = some r :=
        hr
      simp only [Tasking.machine, tasking, hevent, Option.map_some, hkeep]
      rfl
  | clear e s' hs =>
    cases e with
    | tick ms => cases hs
    | event e =>
      obtain ⟨r, hr, heq⟩ := Option.map_eq_some_iff.mp hs
      obtain ⟨rfl, hkeep⟩ := Prod.mk.inj heq
      refine .inr ⟨.environment (TimedEvent.read p.shared.clock e), ?_⟩
      have hevent : event E infer (TimedEvent.read p.shared.clock e) (untimed p).shared = some r :=
        hr
      simp only [Tasking.machine, tasking, hevent, Option.map_some, hkeep]
      rfl

/-- What a session does under the clock, it does without one. -/
theorem untimed_reachable {p : Pool (Timed T) Task}
    (h : (timedTasking E infer).machine.Reachable p) :
    (tasking E infer).machine.Reachable (untimed p) := by
  refine Machine.ReachableWhen.invariant
    (I := fun p => (tasking E infer).machine.Reachable (untimed p)) ?_ ?_ h
  · intro p hp
    exact ⟨untimed p, ⟨hp.1.1, hp.2⟩, .refl⟩
  · intro p a q hp _ hs
    rcases untimed_step hs with heq | ⟨b, hb⟩
    · rwa [heq]
    · obtain ⟨s, hi, hr⟩ := hp
      exact ⟨s, hi, hr.snoc b trivial hb⟩

end Untimed

section Activity

variable {s s' : LiveSession T}

/-- A task sets the state it is about to set, and no other. -/
theorem Effect.activity (h : Effect E s x s') :
    s'.lastActivity = s.lastActivity ∧ s'.io = s.io ∧
      (s'.state = s.state ∨ x.target = some s'.state) := by
  cases h with
  | setState now state line hx =>
    refine ⟨by simp, by simp, .inr ?_⟩
    rw [LiveSession.setState_state]
    exact hx
  | same | enqueue | line | cache | resize | rebuild | dirty | store => exact ⟨rfl, rfl, .inl rfl⟩

/-- The thread that reads the child's output notes the time, or leaves it and has nothing to
note that it had noted. -/
theorem ioStep_activity (h : ioStep E infer c s = some s') :
    (s'.io.unnoted = false → s'.lastActivity = c.now ∨
      s.io.unnoted = false ∧ s'.lastActivity = s.lastActivity) ∧
    (s'.state = .awaitingInput → s.state = .awaitingInput ∨
      ∃ bytes seq line, s.io = .settingState bytes seq .awaitingInput line) := by
  unfold ioStep at h
  cases hio : s.io with
  | reading | exited => rw [hio] at h; cases h
  | ingested bytes seq failure =>
    rw [hio] at h
    cases h
    refine ⟨fun hnoted => ?_, .inl⟩
    dsimp only at hnoted
    split at hnoted <;> cases hnoted
  | rebuilding bytes seq scrollback =>
    rw [hio] at h
    cases h
    exact ⟨fun hnoted => (nomatch hnoted), .inl⟩
  | noting bytes seq =>
    rw [hio] at h
    cases h
    exact ⟨fun _ => .inl rfl, .inl⟩
  | inspecting | exiting =>
    rw [hio] at h
    dsimp only at h
    split at h <;> cases h <;> exact ⟨fun _ => .inr ⟨rfl, rfl⟩, .inl⟩
  | settingState bytes seq state line =>
    rw [hio] at h
    cases h
    refine ⟨fun _ => .inr ⟨rfl, ?_⟩, fun hstate => ?_⟩
    · dsimp only
      split <;> simp
    · dsimp only at hstate
      split at hstate
      · exact .inl hstate
      · rw [LiveSession.setState_state] at hstate
        exact .inr ⟨bytes, seq, line, by rw [hstate]⟩
  | settling exitCode =>
    rw [hio] at h
    cases h
    refine ⟨fun _ => .inr ⟨rfl, rfl⟩, fun hstate => ?_⟩
    simp only [LiveSession.exitState] at hstate
    split at hstate <;> cases hstate
  | reporting exitCode =>
    rw [hio] at h
    cases h
    refine ⟨fun _ => .inr ⟨rfl, ?_⟩, fun hstate => .inl ?_⟩
    · dsimp only
      split <;> rfl
    · dsimp only at hstate
      split at hstate <;> exact hstate
  | persisting pc =>
    rw [hio] at h
    cases pc with
    | saving stored =>
      obtain ⟨⟨t, pc'⟩, hsave, rfl⟩ := Option.map_eq_some_iff.mp h
      simp only [saveStep] at hsave
      split at hsave <;> cases hsave <;> exact ⟨fun _ => .inr ⟨rfl, rfl⟩, .inl⟩
    | checking | capturing | completing | returned =>
      cases h
      exact ⟨fun _ => .inr ⟨rfl, rfl⟩, .inl⟩
  | _ => rw [hio] at h; cases h; exact ⟨fun _ => .inr ⟨rfl, rfl⟩, .inl⟩

/-- What an event does to the time of the last activity, and to a session that waits for input. -/
theorem event_activity {e : Event} {keep : Bool} (h : event E infer e s = some (s', keep)) :
    (TimedEvent.isOutput e = true ∧ s'.io.unnoted = true ∨
      TimedEvent.isOutput e = false ∧ (s'.io.unnoted = false →
        (∃ c, e = .proceed c ∧ s'.lastActivity = c.now) ∨
          s.io.unnoted = false ∧ s'.lastActivity = s.lastActivity)) ∧
    (s'.state = .awaitingInput → s.state = .awaitingInput ∨ ∃ c, e = .proceed c ∧
      ∃ bytes seq line, s.io = .settingState bytes seq .awaitingInput line) := by
  cases e with
  | read bytes =>
    simp only [event, Option.ite_none_right_eq_some, Option.some.injEq, Prod.mk.injEq] at h
    obtain ⟨-, rfl, -⟩ := h
    exact ⟨.inl ⟨rfl, rfl⟩, .inl⟩
  | drain =>
    simp only [event, Option.ite_none_right_eq_some, Option.some.injEq, Prod.mk.injEq] at h
    obtain ⟨-, rfl, -⟩ := h
    exact ⟨.inr ⟨rfl, fun hnoted => .inr ⟨hnoted, rfl⟩⟩, .inl⟩
  | exit exitCode =>
    simp only [event, Option.ite_none_right_eq_some, Option.some.injEq, Prod.mk.injEq] at h
    obtain ⟨hio, rfl, -⟩ := h
    exact ⟨.inr ⟨rfl, fun _ => .inr ⟨by rw [hio]; rfl, rfl⟩⟩, .inl⟩
  | proceed c =>
    obtain ⟨t, ht, heq⟩ := Option.map_eq_some_iff.mp h
    obtain ⟨rfl, -⟩ := Prod.mk.inj heq
    obtain ⟨hnoted, hstate⟩ := ioStep_activity ht
    refine ⟨.inr ⟨rfl, fun hn => (hnoted hn).imp_left fun hnow => ⟨c, rfl, hnow⟩⟩, fun hs => ?_⟩
    exact (hstate hs).imp_right fun hio => ⟨c, rfl, hio⟩
  | kill =>
    cases h
    exact ⟨.inr ⟨rfl, fun hnoted => .inr ⟨hnoted, rfl⟩⟩, .inl⟩

end Activity

section Ticks

variable {s : Timed T} {p q : Pool (Timed T) Task}

/-- Where output has been noted, the activity time is no older than it. -/
structure Noted (s : Timed T) : Prop where
  past : ∀ t ∈ s.lastOutput, t ≤ s.clock
  noted : s.io.unnoted = false → ∀ t ∈ s.lastOutput, t ≤ s.lastActivity

/-- What a tick has found still holds. -/
def TickOk (s : Timed T) (_ : Nat) (x : Task) : Prop :=
  (x.found = true → s.Quiet) ∧ (x.replacing = true → s.state ≠ .awaitingInput)

theorem found_of_replacing (h : x.replacing = true) : x.found = true := by
  unfold Task.replacing at h
  split at h
  · rfl
  · cases h

/-- Only a tick can have found anything. -/
theorem tickOk_of_not_idle {i : Nat} (h : ∀ pc, x ≠ .idle pc) : TickOk s i x := by
  cases x with
  | idle pc => exact absurd rfl (h pc)
  | input | hook | resize | attach | flush =>
    exact ⟨fun hfound => (nomatch hfound), fun hreplacing => nomatch hreplacing⟩

theorem Noted.advance {r : LiveSession T × Task} {ok : Bool} {input : Option Nat} (h : Noted s)
    (hs : Live.advance E ⟨s.clock, ok⟩ x s.toLiveSession = some r) :
    Noted { s with toLiveSession := r.1, lastInput := input } := by
  obtain ⟨hactivity, hio, -⟩ := (advance_effect hs).activity
  refine ⟨h.past, fun hnoted t ht => ?_⟩
  have hle := h.noted (hio ▸ hnoted) t ht
  exact hle.trans (Nat.le_of_eq hactivity.symm)

/-- A tick that reads an old activity time has found no recent activity. -/
theorem TickOk.advance {i : Nat} {pc : IdlePc} {r : LiveSession T × Task} {ok : Bool}
    (h : Noted s) (hok : TickOk s i (.idle pc))
    (hmeasure : pc = .measuring → idleAfterMs ≤ s.clock - s.lastActivity →
      (s.io.unnoted = true → Past s.clock s.lastOutput) ∧ Past s.clock s.lastInput)
    (hs : Live.advance E ⟨s.clock, ok⟩ (.idle pc) s.toLiveSession = some r) :
    TickOk { s with toLiveSession := r.1 } i r.2 := by
  obtain ⟨⟨t, pc'⟩, ht, rfl⟩ := Option.map_eq_some_iff.mp hs
  cases pc with
  | checking =>
    cases ht
    dsimp only
    split <;> exact ⟨fun hfound => (nomatch hfound), fun hreplacing => nomatch hreplacing⟩
  | measuring =>
    cases ht
    refine ⟨fun hfound => ?_, fun hreplacing => nomatch hreplacing⟩
    have hold : idleAfterMs ≤ s.clock - s.lastActivity := of_decide_eq_true hfound
    obtain ⟨hunnoted, hinput⟩ := hmeasure rfl hold
    refine ⟨?_, hinput⟩
    cases hio : s.io.unnoted with
    | true => exact hunnoted hio
    | false =>
      -- The output was noted, so it is as old as the time that was read.
      intro t ht
      have hle := h.noted hio t ht
      have hpos : 0 < idleAfterMs := by decide
      change t + idleAfterMs ≤ s.clock
      omega
  | comparing idleFor =>
    cases ht
    dsimp only
    split
    · rename_i hreplace
      refine ⟨fun _ => hok.1 (decide_eq_true hreplace.1), fun _ => hreplace.2.2⟩
    · exact ⟨fun hfound => (nomatch hfound), fun hreplacing => nomatch hreplacing⟩
  | setting =>
    cases ht
    exact ⟨fun hfound => (nomatch hfound), fun hreplacing => nomatch hreplacing⟩
  | stopped => cases ht

theorem lacks_found_of_taken {i : Nat} {ok : Bool}
    (hc : undisturbed p (.advance i ok) = true) (hx : p.task i = some x)
    (htaken : x.taken p.shared.toLiveSession = true) : p.Lacks fun _ => Task.found := by
  simp only [undisturbed, hx, Option.all_some] at hc
  cases x with
  | input pc => exact of_decide_eq_true hc htaken
  | idle | hook | resize | attach | flush => cases htaken

theorem lacks_replacing_of_awaiting {i : Nat} {ok : Bool}
    (hc : undisturbed p (.advance i ok) = true) (hx : p.task i = some x)
    (htarget : x.target = some .awaitingInput) : p.Lacks fun _ => Task.replacing := by
  simp only [undisturbed, hx, Option.all_some] at hc
  cases x with
  | hook call pc =>
    cases pc with
    | setting => exact of_decide_eq_true hc (Option.some.inj htarget)
    | checking | lining | caching | dirtying | reading | returned => cases htarget
  | input pc => cases pc <;> cases htarget
  | idle pc => cases pc <;> cases htarget
  | resize | attach | flush => cases htarget

/-- What a tick has found, the steps of the other tasks leave. -/
theorem TickOk.beside {i j : Nat} {y : Task} {r : LiveSession T × Task} {ok : Bool}
    (hc : undisturbed p (.advance i ok) = true) (hx : p.task i = some x) (hy : p.task j = some y)
    (hok : TickOk p.shared j y)
    (hs : Live.advance E ⟨p.shared.clock, ok⟩ x p.shared.toLiveSession = some r) :
    TickOk { p.shared with
      toLiveSession := r.1
      lastInput := if x.taken p.shared.toLiveSession then some p.shared.clock
        else p.shared.lastInput } j y := by
  refine ⟨fun hfound => ⟨(hok.1 hfound).1, ?_⟩, fun hreplacing => ?_⟩
  · dsimp only
    split
    · rename_i htaken
      have hnone := lacks_found_of_taken hc hx htaken j y hy
      cases hfound.symm.trans hnone
    · exact (hok.1 hfound).2
  · intro hawaiting
    obtain ⟨-, -, hsame | htarget⟩ := (advance_effect hs).activity
    · exact hok.2 hreplacing (hsame.symm.trans hawaiting)
    · change r.1.state = .awaitingInput at hawaiting
      rw [hawaiting] at htarget
      have hnone := lacks_replacing_of_awaiting hc hx htarget j y hy
      cases hreplacing.symm.trans hnone

theorem TimedEvent.isOutput_read (now : Nat) (e : Event) :
    TimedEvent.isOutput (TimedEvent.read now e) = TimedEvent.isOutput e := by
  cases e <;> rfl

theorem TimedEvent.now_of_read {now : Nat} {e : Event} (h : TimedEvent.read now e = .proceed c) :
    c.now = now := by
  cases e <;> cases h
  rfl

theorem TimedEvent.eq_proceed {now : Nat} {e : Event} (h : TimedEvent.read now e = .proceed c) :
    ∃ c, e = .proceed c := by
  cases e with
  | proceed c => exact ⟨c, rfl⟩
  | read | drain | exit | kill => cases h

variable {e : Event} {r : LiveSession T × Bool}

theorem Noted.event (h : Noted s)
    (hs : Live.event E infer (TimedEvent.read s.clock e) s.toLiveSession = some r) :
    Noted { s with
      toLiveSession := r.1
      lastOutput := if TimedEvent.isOutput e then some s.clock else s.lastOutput } := by
  obtain ⟨hnoted, -⟩ := event_activity hs
  rw [TimedEvent.isOutput_read] at hnoted
  rcases hnoted with ⟨hout, hunnoted⟩ | ⟨hout, hnoted⟩
  · refine ⟨fun t ht => ?_, fun hn => by cases hunnoted.symm.trans hn⟩
    simp only [hout, if_true, Option.mem_def, Option.some.injEq] at ht
    exact Nat.le_of_eq ht.symm
  · simp only [hout, Bool.false_eq_true, if_false]
    refine ⟨h.past, fun hn t ht => ?_⟩
    rcases hnoted hn with ⟨c, hc, hnow⟩ | ⟨hbefore, hsame⟩
    · have hle := h.past t ht
      rw [← TimedEvent.now_of_read hc] at hle
      exact hle.trans (Nat.le_of_eq hnow.symm)
    · exact (h.noted hbefore t ht).trans (Nat.le_of_eq hsame.symm)

theorem TickOk.event {i : Nat} {y : Task}
    (hc : undisturbed p (.environment (.event e)) = true) (hy : p.task i = some y)
    (hok : TickOk p.shared i y)
    (hs : Live.event E infer (TimedEvent.read p.shared.clock e) p.shared.toLiveSession = some r) :
    TickOk { p.shared with
      toLiveSession := r.1
      lastOutput := if TimedEvent.isOutput e then some p.shared.clock
        else p.shared.lastOutput } i y := by
  refine ⟨fun hfound => ⟨?_, (hok.1 hfound).2⟩, fun hreplacing hawaiting => ?_⟩
  · cases e with
    | read bytes =>
      have hnone : p.Lacks fun _ => Task.found := of_decide_eq_true hc
      cases hfound.symm.trans (hnone i y hy)
    | drain | exit | proceed | kill => exact (hok.1 hfound).1
  · rcases (event_activity hs).2 hawaiting with hbefore | ⟨c, he, bytes, seq, line, hio⟩
    · exact hok.2 hreplacing hbefore
    · obtain ⟨c, rfl⟩ := TimedEvent.eq_proceed he
      simp only [undisturbed, hio] at hc
      have hnone := of_decide_eq_true hc
      cases hreplacing.symm.trans (hnone i y hy)

theorem tick_noninterference :
    (timedTasking E infer).Noninterference (fun p a => undisturbed p a = true) Noted TickOk where
  init s hs := by
    have hnone : s.lastOutput = none := hs.2.1
    refine ⟨fun t ht => ?_, fun _ t ht => ?_⟩ <;>
    · rw [hnone] at ht
      cases ht
  fresh p i x _ _ hx := by
    cases x with
    | idle pc =>
      cases pc with
      | checking => exact ⟨fun hfound => (nomatch hfound), fun hreplacing => nomatch hreplacing⟩
      | measuring | comparing | setting | stopped => cases hx
    | input | hook | resize | attach | flush => exact tickOk_of_not_idle (by intro pc; simp)
  own p i ok x s' x' hc h hx hok hs := by
    obtain ⟨r, hr, heq⟩ := Option.map_eq_some_iff.mp hs
    obtain ⟨rfl, rfl⟩ := Prod.mk.inj heq
    refine ⟨h.advance hr, ?_⟩
    cases x with
    | idle pc =>
      refine TickOk.advance h hok ?_ hr
      rintro rfl hold
      simp only [undisturbed, hx, Option.all_some] at hc
      exact of_decide_eq_true hc hold
    | input | hook | resize | attach | flush =>
      obtain ⟨t, -, ht⟩ := Option.map_eq_some_iff.mp hr
      rw [← ht]
      exact tickOk_of_not_idle (by intro pc; simp)
  others p i ok x s' x' hc _ hx _ hs j y _ hy hok := by
    obtain ⟨r, hr, heq⟩ := Option.map_eq_some_iff.mp hs
    obtain ⟨rfl, rfl⟩ := Prod.mk.inj heq
    exact hok.beside hc hx hy hr
  environment p e s' keep hc h hs := by
    cases e with
    | tick ms =>
      cases hs
      have hle : p.shared.clock ≤ p.shared.clock + ms := Nat.le_add_right _ _
      refine ⟨⟨fun t ht => (h.past t ht).trans hle, h.noted⟩, fun _ j y _ hok => ⟨fun hfound => ?_,
        hok.2⟩⟩
      obtain ⟨houtput, hinput⟩ := hok.1 hfound
      exact ⟨houtput.mono hle, hinput.mono hle⟩
    | event e =>
      obtain ⟨r, hr, heq⟩ := Option.map_eq_some_iff.mp hs
      obtain ⟨rfl, -⟩ := Prod.mk.inj heq
      exact ⟨h.event hr, fun _ j y hy hok => hok.event hc hy hr⟩

/-- The idle loop makes a session idle only when it neither waits for input nor was active
lately. -/
theorem idle_spares_fresh_activity
    (h : (timedTasking E infer).machine.ReachableWhen (fun p a => undisturbed p a = true) p) :
    ∀ i pc ok q, p.task i = some (.idle pc) →
      (timedTasking E infer).machine.step (.advance i ok) p = some q →
      p.shared.state ≠ .idle → q.shared.state = .idle →
      p.shared.state ≠ .awaitingInput ∧ p.shared.Quiet := by
  intro i pc ok q hx hs hbefore hafter
  have hok := (tick_noninterference.invariant h).2 i _ hx
  cases Tasking.stepped_of_step hs with
  | advance i ok x x' s' hx' hadvance =>
    obtain rfl := Option.some.inj (hx.symm.trans hx')
    obtain ⟨r, hr, heq⟩ := Option.map_eq_some_iff.mp hadvance
    obtain ⟨rfl, -⟩ := Prod.mk.inj heq
    -- Only the last step of a tick changes the state.
    obtain ⟨-, -, hsame | htarget⟩ := (advance_effect hr).activity
    · exact absurd (hsame.symm.trans hafter) hbefore
    · cases pc with
      | setting => exact ⟨hok.2 rfl, hok.1 rfl⟩
      | checking | measuring | comparing | stopped => cases htarget

/-- A session that was spawned at the start of the clock. -/
def openedAtZero : Pool (Timed Nat) Task :=
  .empty ⟨.spawn queryTerminal 7 "shell" 0 .unknown ⟨80, 24⟩ true true, 0, none, none⟩

theorem openedAtZero_init :
    (timedTasking queryTerminal noInfer).machine.init openedAtZero :=
  Tasking.init_empty ⟨⟨7, "shell", 0, .unknown, ⟨80, 24⟩, true, true, rfl⟩, rfl, rfl⟩

/-- A tick up to its last step. -/
private def tickUpToSetting (i : Nat) : List (Move Task Bool TimedEvent) :=
  .spawn i (.idle .checking) :: Move.repeated 3 i true

/-- The last step of a tick makes a working session idle. -/
private def setsIdle (i : Nat) (p : Pool (Timed Nat) Task) : Bool :=
  p.task i == some (.idle .setting) && p.shared.state == .working &&
    ((timedTasking queryTerminal noInfer).machine.step (.advance i true) p).any fun q =>
      q.shared.state == .idle

private theorem exists_of_setsIdle {i : Nat} {p : Pool (Timed Nat) Task} (h : setsIdle i p = true) :
    p.task i = some (.idle .setting) ∧ p.shared.state = .working ∧
      ∃ q, (timedTasking queryTerminal noInfer).machine.step (.advance i true) p = some q ∧
        q.shared.state = .idle := by
  simp only [setsIdle, Bool.and_eq_true, beq_iff_eq, Option.any_eq_true] at h
  obtain ⟨⟨htask, hstate⟩, q, hs, hq⟩ := h
  exact ⟨htask, hstate, q, hs, hq⟩

/-- The child writes, and nothing happens for five seconds. -/
theorem idle_after_silence :
    ∃ p q : Pool (Timed Nat) Task, p.shared.lastOutput = some 0 ∧ p.shared.state = .working ∧
      (timedTasking queryTerminal noInfer).machine.step (.advance 0 true) p = some q ∧
      q.shared.state = .idle ∧ p.shared.state ≠ .awaitingInput ∧ p.shared.Quiet := by
  obtain ⟨p, hr, houtput, hidle⟩ :=
    (timedTasking queryTerminal noInfer).machine.exists_reachable_of_exec
      (fun p a => undisturbed p a = true)
      (fun p => p.shared.lastOutput = some 0 ∧ setsIdle 0 p = true)
      (List.flatten [[.environment (.event (.read [97]))],
        List.replicate 6 (.environment (.event (.proceed ⟨0, true⟩))),
        [.environment (.tick 5000)], tickUpToSetting 0])
      openedAtZero_init (by decide)
  obtain ⟨htask, hworking, q, hs, hq⟩ := exists_of_setsIdle hidle
  have hbefore : p.shared.state ≠ .idle := by
    rw [hworking]
    decide
  obtain ⟨hawaiting, hquiet⟩ := idle_spares_fresh_activity hr 0 _ true q htask hs hbefore hq
  exact ⟨p, q, houtput, hworking, hs, hq, hawaiting, hquiet⟩

/-- Input is accepted five seconds after the session was spawned. It leaves the activity time, and
the next tick makes the session idle at once. -/
theorem idle_after_input :
    ¬ ∀ p : Pool (Timed Nat) Task, (timedTasking queryTerminal noInfer).machine.Reachable p →
      ∀ i pc ok q, p.task i = some (.idle pc) →
        (timedTasking queryTerminal noInfer).machine.step (.advance i ok) p = some q →
        p.shared.state ≠ .idle → q.shared.state = .idle →
        p.shared.state ≠ .awaitingInput ∧ p.shared.Quiet := by
  intro hall
  obtain ⟨p, hr, hrecent, hidle⟩ :=
    (timedTasking queryTerminal noInfer).machine.exists_reachable_of_exec Machine.Any
      (fun p => ¬ p.shared.Quiet ∧ setsIdle 1 p = true)
      (List.flatten [[.environment (.tick 5000), .spawn 0 (.input (.sending [97]))],
        Move.repeated 3 0 true, tickUpToSetting 1])
      openedAtZero_init (by decide)
  obtain ⟨htask, hworking, q, hs, hq⟩ := exists_of_setsIdle hidle
  have hbefore : p.shared.state ≠ .idle := by
    rw [hworking]
    decide
  exact hrecent (hall p hr 1 _ true q htask hs hbefore hq).2

end Ticks

end Shelly.Daemon.Live
