import Shelly.Daemon.Attach
import Shelly.Daemon.Exhaustion

namespace Shelly.Daemon.Attach

/-- What the child's end of the session and the registries hold. -/
structure SameRecords (s t : State) : Prop where
  session : t.session = s.session
  pty : t.pty = s.pty
  restored : t.restored = s.restored

/-- Whether an action belongs to the connection or to the client. -/
def Action.connects : Action → Bool
  | .sendAttach _ | .leave | .lookUp | .subscribe _ | .attachBytes _ | .writeAttached
  | .checkExit | .writeReply | .answer _ _ | .receive | .forward | .stopForwarder | .read => true
  | _ => false

/-- The connection and the client leave the session and its store alone. -/
theorem sameRecords_step {a : Action} {s t : State} (ha : a.connects = true)
    (h : step a s = some t) : SameRecords s t := by
  cases a with
  | lookUp =>
    simp only [step] at h
    split at h
    · obtain rfl := Option.some.inj h
      unfold State.lookUp
      dsimp only
      repeat' split
      all_goals exact ⟨rfl, rfl, rfl⟩
    · cases h
  | subscribe failure =>
    simp only [step] at h
    split at h
    · obtain rfl := Option.some.inj h
      cases failure <;> exact ⟨rfl, rfl, rfl⟩
    · cases h
  | checkExit =>
    simp only [step] at h
    split at h
    · obtain rfl := Option.some.inj h
      unfold State.checkExit
      split <;> exact ⟨rfl, rfl, rfl⟩
    · cases h
  | receive =>
    simp only [step] at h
    split at h
    · obtain ⟨⟨received, rx⟩, -, rfl⟩ := Option.map_eq_some_iff.mp h
      cases received with
      | message event => dsimp only; split <;> exact ⟨rfl, rfl, rfl⟩
      | lagged skipped => exact ⟨rfl, rfl, rfl⟩
    · cases h
  | read =>
    simp only [step] at h
    split at h
    · unfold State.read at h
      split at h
      · obtain rfl := Option.some.inj h; exact ⟨rfl, rfl, rfl⟩
      · obtain rfl := Option.some.inj h; exact ⟨rfl, rfl, rfl⟩
      · cases h
    · cases h
  | record => cases ha
  | broadcastOutput => cases ha
  | markExited => cases ha
  | broadcastExit => cases ha
  | setState => cases ha
  | capture => cases ha
  | unregister => cases ha
  | forget => cases ha
  | _ =>
    simp only [step] at h
    try split at h
    all_goals first
      | (obtain rfl := Option.some.inj h; exact ⟨rfl, rfl, rfl⟩)
      | cases h

/-- A running session has not exited, and what was stored of an exited one is the window
its ring still has. -/
structure Stored (s : State) : Prop where
  windowed : s.session.ring.Windowed
  running : (s.pty = .reading ∨ ∃ seq bytes, s.pty = .recorded seq bytes) →
    s.session.exitCode = none
  stored : ∀ stored, s.restored = some stored → s.session.exitCode.isSome = true ∧
    stored.scrollbackStartSeq = s.session.ring.startSeq ∧
    stored.scrollback = s.session.ring.data

theorem Stored.same {s t : State} (h : Stored s) (e : SameRecords s t) : Stored t := by
  constructor
  · rw [e.session]
    exact h.windowed
  · rw [e.pty, e.session]
    exact h.running
  · rw [e.restored, e.session]
    exact h.stored

/-- Nothing is stored yet while the session runs. -/
theorem Stored.not_restored {s : State} (h : Stored s) (hrun : s.session.exitCode = none)
    {stored : StoredSession} : s.restored ≠ some stored := by
  intro hstored
  have hexit := (h.stored stored hstored).1
  rw [hrun] at hexit
  cases hexit

theorem Stored.step {a : Action} {s t : State} (h : Stored s) (ht : step a s = some t) :
    Stored t := by
  cases a with
  | record bytes =>
    simp only [Attach.step, Option.ite_none_right_eq_some, Option.some.injEq] at ht
    obtain ⟨hpty, rfl⟩ := ht
    have hrun := h.running (.inl hpty)
    exact ⟨h.windowed.pushed bytes, fun _ => hrun,
      fun stored hstored => absurd hstored (h.not_restored hrun)⟩
  | broadcastOutput =>
    simp only [Attach.step] at ht
    split at ht
    · rename_i seq bytes hpty
      obtain rfl := Option.some.inj ht
      exact ⟨h.windowed, fun _ => h.running (.inr ⟨seq, bytes, hpty⟩), h.stored⟩
    · cases ht
  | markExited exitCode =>
    simp only [Attach.step, Option.ite_none_right_eq_some, Option.some.injEq] at ht
    obtain ⟨hpty, rfl⟩ := ht
    have hrun := h.running (.inl hpty)
    refine ⟨h.windowed, fun hreads => ?_, fun stored hstored => ?_⟩
    · rcases hreads with hreads | ⟨seq, bytes, hreads⟩ <;> cases hreads
    · exact absurd hstored (h.not_restored hrun)
  | broadcastExit =>
    simp only [Attach.step] at ht
    split at ht
    · obtain rfl := Option.some.inj ht
      refine ⟨h.windowed, fun hreads => ?_, h.stored⟩
      rcases hreads with hreads | ⟨seq, bytes, hreads⟩ <;> cases hreads
    · cases ht
  | setState state lastLine =>
    obtain rfl := Option.some.inj ht
    exact ⟨h.windowed, h.running, h.stored⟩
  | capture =>
    simp only [Attach.step, Option.ite_none_right_eq_some, Option.some.injEq] at ht
    obtain ⟨hexit, rfl⟩ := ht
    refine ⟨h.windowed, h.running, fun stored hstored => ?_⟩
    obtain rfl := Option.some.inj hstored
    exact ⟨hexit, rfl, rfl⟩
  | unregister =>
    obtain rfl := Option.some.inj ht
    exact ⟨h.windowed, h.running, h.stored⟩
  | forget =>
    obtain rfl := Option.some.inj ht
    exact ⟨h.windowed, h.running, fun stored hstored => by cases hstored⟩
  | _ => exact h.same (sameRecords_step rfl ht)

theorem stored_of_reachable {s : State} (h : machine.Reachable s) : Stored s := by
  refine h.invariant ?_ fun t a u ht _ hu => ht.step hu
  rintro s ⟨id, name, createdAt, lastSeenSeq, rfl⟩
  exact ⟨⟨rfl, Nat.zero_le _⟩, fun _ => rfl, fun stored hstored => by cases hstored⟩

/-- Dropping some of the window leaves all of it only when nothing is dropped. -/
theorem drop_eq_self_iff {α : Type*} {l : List α} {n : Nat} (hn : n ≤ l.length) :
    l = l.drop n ↔ n = 0 := by
  constructor
  · intro h
    have hlen := congrArg List.length h
    rw [List.length_drop] at hlen
    omega
  · rintro rfl
    rfl

/-- An exited session answers a resume with everything that was stored, whatever the number
asked for. That is what its ring would have replayed exactly when the number is the oldest
one in the window. -/
theorem resume_exited_iff {s : State} {stored : StoredSession} {size : ClientSize}
    {seq start : Nat} {replay : List UInt8} (h : machine.Reachable s) (hlive : s.live = false)
    (hrestored : s.restored = some stored) (hidle : s.handler = .idle)
    (hrequest : s.request = some (size, some seq)) (hsize : invalidClientSize size = none)
    (hreplay : s.session.ring.replayFrom seq = some (start, replay)) :
    ∃ t initialBytes endSeq exitCode, step .lookUp s = some t ∧
      t.handler = .replying [.attached s.session.id initialBytes endSeq,
        .sessionExited s.session.id exitCode] ∧
      (initialBytes = replay ↔ seq = s.session.ring.startSeq) := by
  have hinv := stored_of_reachable h
  obtain ⟨-, -, hdata⟩ := hinv.stored stored hrestored
  have hends := hinv.windowed.ends
  have hlook : step .lookUp s = some (s.lookUp size (some seq)) := by
    simp only [step, hidle, hrequest]
  have hanswer : (s.lookUp size (some seq)).handler =
      .replying [.attached s.session.id stored.scrollback
        (saturatingAdd stored.scrollbackStartSeq stored.scrollback.length),
        .sessionExited s.session.id (stored.exitCode.getD 0)] := by
    simp only [State.lookUp, hsize, hlive, hrestored, Bool.false_eq_true, if_false]
  refine ⟨_, _, _, _, hlook, hanswer, ?_⟩
  unfold PtyRingBuffer.replayFrom at hreplay
  split at hreplay
  · cases hreplay
  · rename_i hwindow
    obtain ⟨-, rfl⟩ := Prod.mk.inj (Option.some.inj hreplay)
    rw [hdata, drop_eq_self_iff (by omega)]
    omega

/-- The session writes three bytes and exits; a client that has seen some of them attaches
once it is only stored. -/
def exitedRun : List Action :=
  [.record [97, 98, 99], .broadcastOutput, .markExited 0, .broadcastExit, .capture, .unregister,
    .sendAttach ⟨80, 24⟩]

theorem resume_exited_iff_oldest : ∃ s t : State, machine.Reachable s ∧
    s.session.ring.replayFrom 0 = some (0, [97, 98, 99]) ∧ step .lookUp s = some t ∧
    ∃ endSeq exitCode, t.handler = .replying [.attached s.session.id [97, 98, 99] endSeq,
      .sessionExited s.session.id exitCode] := by
  obtain ⟨s, hr, hlive, hrestored, hidle, hrequest, hreplay, hstart⟩ :=
    machine.exists_reachable_of_exec Machine.Any
      (fun s => s.live = false ∧ s.restored = some s.session.storedSnapshot ∧
        s.handler = .idle ∧ s.request = some (⟨80, 24⟩, some 0) ∧
        s.session.ring.replayFrom 0 = some (0, [97, 98, 99]) ∧ s.session.ring.startSeq = 0)
      exitedRun ⟨7, "shell", 0, some 0, rfl⟩ (by decide)
  obtain ⟨t, initialBytes, endSeq, exitCode, hstep, hanswer, hiff⟩ :=
    resume_exited_iff hr hlive hrestored hidle hrequest (by decide) hreplay
  rw [hiff.mpr hstart.symm] at hanswer
  exact ⟨s, t, hr, hreplay, hstep, endSeq, exitCode, hanswer⟩

/-- The client has two of the three bytes and is sent all of them again. -/
theorem resume_exited_repeats :
    ∃ s t : State, machine.Reachable s ∧ s.request = some (⟨80, 24⟩, some 2) ∧
      s.session.ring.replayFrom 2 = some (2, [99]) ∧ step .lookUp s = some t ∧
      t.handler = .replying [.attached 7 [97, 98, 99] 3, .sessionExited 7 0] := by
  obtain ⟨s, hr, hrequest, hreplay, hanswer⟩ :=
    machine.exists_reachable_of_exec Machine.Any
      (fun s => s.request = some (⟨80, 24⟩, some 2) ∧
        s.session.ring.replayFrom 2 = some (2, [99]) ∧
        (step .lookUp s).map State.handler =
          some (.replying [.attached 7 [97, 98, 99] 3, .sessionExited 7 0]))
      exitedRun ⟨7, "shell", 0, some 2, rfl⟩ (by decide)
  obtain ⟨t, hstep, hhandler⟩ := Option.map_eq_some_iff.mp hanswer
  exact ⟨s, t, hr, hrequest, hreplay, hstep, hhandler⟩

end Shelly.Daemon.Attach
