import Shelly.Daemon.AttachSteps

namespace Shelly.Daemon.Attach

open State

/-- An exit that the handler finds when it checks is found before anything was
written after the snapshot it has sent. -/
def upToDate (s : State) : Action → Bool
  | .checkExit =>
    match s.handler with
    | .checkingExit _ seq => s.session.exitCode.isNone || s.session.ring.endSeq == seq
    | _ => true
  | _ => true

theorem inv_initial (strict : Bool) (id : SessionId) (name : String) (createdAt : Nat)
    (lastSeenSeq : Option Nat) : (initial id name createdAt lastSeenSeq).Inv strict := by
  refine ⟨⟨PtyRingBuffer.new_mirrors _, fun _ => rfl, ?_, ?_, ?_, ?_, ?_, ?_⟩, ⟨?_, ?_⟩,
    .sending rfl rfl rfl rfl errors_nil⟩
  · exact fun _ _ h => by cases h
  · exact fun _ h => by cases h
  · exact fun h => by cases h
  · exact fun _ _ _ h => by cases h
  · exact fun _ h => by cases h
  · exact fun _ h => by cases h
  · exact fun _ h => by cases h
  · exact fun _ h => by cases h

theorem stream_step {a : Action} {s s' : State} (h : step a s = some s') :
    s.stream.length ≤ s'.stream.length := by
  have same {t : State} (ht : t.stream = s.stream) : s.stream.length ≤ t.stream.length :=
    Nat.le_of_eq (congrArg List.length ht).symm
  cases a with
  | record bytes =>
    simp only [step, Option.ite_none_right_eq_some, Option.some.injEq] at h
    obtain ⟨-, rfl⟩ := h
    change s.stream.length ≤ (s.stream ++ bytes).length
    rw [List.length_append]
    exact Nat.le_add_right _ _
  | lookUp =>
    simp only [step] at h
    split at h
    · obtain rfl := Option.some.inj h
      refine same ?_
      unfold lookUp
      dsimp only
      repeat' split
      all_goals rfl
    · cases h
  | subscribe failure =>
    simp only [step] at h
    split at h
    · obtain rfl := Option.some.inj h
      cases failure <;> exact same rfl
    · cases h
  | checkExit =>
    simp only [step] at h
    split at h
    · obtain rfl := Option.some.inj h
      refine same ?_
      unfold checkExit
      split <;> rfl
    · cases h
  | receive =>
    simp only [step] at h
    split at h
    · obtain ⟨⟨received, rx⟩, -, rfl⟩ := Option.map_eq_some_iff.mp h
      refine same ?_
      cases received with
      | message event => dsimp only; split <;> rfl
      | lagged skipped => rfl
    · cases h
  | read =>
    simp only [step] at h
    split at h
    · unfold State.read at h
      split at h
      · obtain rfl := Option.some.inj h; exact same rfl
      · obtain rfl := Option.some.inj h; exact same rfl
      · cases h
    · cases h
  | _ =>
    simp only [step] at h
    try split at h
    all_goals first
      | (obtain rfl := Option.some.inj h; exact same rfl)
      | cases h

theorem inv_step {strict : Bool} {a : Action} {s s' : State} (i : s.Inv strict)
    (hmax : s'.stream.length ≤ u64Max) (hstrict : strict = true → upToDate s a = true)
    (h : step a s = some s') : s'.Inv strict := by
  have hmax' : s.stream.length ≤ u64Max := Nat.le_trans (stream_step h) hmax
  cases a with
  | record bytes =>
    simp only [step, Option.ite_none_right_eq_some, Option.some.injEq] at h
    obtain ⟨hp, rfl⟩ := h
    exact inv_of_sessionStep i (sessionStep_record bytes hp) hmax
  | broadcastOutput =>
    simp only [step] at h
    split at h
    · rename_i seq bytes hp
      obtain rfl := Option.some.inj h
      exact inv_of_sessionStep i (sessionStep_broadcastOutput hp) hmax
    · cases h
  | markExited exitCode =>
    simp only [step, Option.ite_none_right_eq_some, Option.some.injEq] at h
    obtain ⟨hp, rfl⟩ := h
    exact inv_of_sessionStep i (sessionStep_markExited exitCode hp) hmax
  | broadcastExit =>
    simp only [step] at h
    split at h
    · rename_i exitCode hp
      obtain rfl := Option.some.inj h
      exact inv_of_sessionStep i (sessionStep_broadcastExit hp) hmax
    · cases h
  | setState state line =>
    obtain rfl := Option.some.inj h
    exact inv_of_sessionStep i (sessionStep_setState state line) hmax
  | capture =>
    simp only [step, Option.ite_none_right_eq_some, Option.some.injEq] at h
    obtain ⟨hex, rfl⟩ := h
    refine inv_of_sessionStep i (sessionStep_registry s.live _ fun r stored hstored => ?_) hmax
    obtain rfl := Option.some.inj hstored
    exact ⟨hex, storedSnapshot_end r⟩
  | unregister =>
    obtain rfl := Option.some.inj h
    exact inv_of_sessionStep i (sessionStep_registry false s.restored fun r => r.restored) hmax
  | forget =>
    obtain rfl := Option.some.inj h
    refine inv_of_sessionStep i (sessionStep_registry s.live none fun r stored hstored => ?_) hmax
    cases hstored
  | sendAttach size =>
    simp only [step, Option.ite_none_right_eq_some, Option.some.injEq] at h
    obtain ⟨hp, rfl⟩ := h
    exact inv_sendAttach size i hp
  | leave =>
    obtain rfl := Option.some.inj h
    exact inv_leave i
  | lookUp =>
    simp only [step] at h
    split at h
    · rename_i size lastSeenSeq hh hr
      obtain rfl := Option.some.inj h
      exact inv_lookUp i hmax' hh hr
    · cases h
  | subscribe failure =>
    simp only [step] at h
    split at h
    · rename_i lastSeenSeq hh hf
      obtain rfl := Option.some.inj h
      exact inv_subscribe failure i hh
    · cases h
  | attachBytes screen =>
    simp only [step] at h
    split at h
    · rename_i lastSeenSeq rx hh
      obtain rfl := Option.some.inj h
      exact inv_attachBytes screen i hmax' hh
    · cases h
  | writeAttached =>
    simp only [step] at h
    split at h
    · rename_i rx bytes seq hh
      obtain rfl := Option.some.inj h
      exact inv_writeAttached i hh
    · cases h
  | checkExit =>
    simp only [step] at h
    split at h
    · rename_i rx seq hh
      obtain rfl := Option.some.inj h
      refine inv_checkExit i hh fun hs hex => ?_
      have hup := hstrict hs
      simp only [upToDate, hh, Option.isNone_eq_false_iff.mpr hex, Bool.false_or, beq_iff_eq] at hup
      exact hup.symm.trans i.recorded.mirrors.nextSeq
    · cases h
  | writeReply =>
    simp only [step] at h
    split at h
    · rename_i m ms hh
      obtain rfl := Option.some.inj h
      exact inv_writeReply i hh
    · cases h
  | answer code message =>
    simp only [step, Option.ite_none_right_eq_some, Option.some.injEq] at h
    obtain ⟨-, rfl⟩ := h
    exact inv_answer code message i
  | receive =>
    simp only [step] at h
    split at h
    · rename_i rx a hf
      exact inv_receive i hf h
    · cases h
  | forward =>
    simp only [step] at h
    split at h
    · rename_i rx a event terminal hf
      obtain rfl := Option.some.inj h
      exact inv_forward i hf
    · cases h
  | stopForwarder =>
    obtain rfl := Option.some.inj h
    exact inv_stopForwarder i
  | read =>
    simp only [step] at h
    split at h
    · rename_i m rest hw
      exact inv_read i hw h
    · cases h

theorem inv_of_reachable {strict : Bool} {C : State → Action → Prop} {s : State}
    (hC : ∀ t a, C t a → strict = true → upToDate t a = true)
    (h : machine.ReachableWhen C s) (hmax : s.stream.length ≤ u64Max) : s.Inv strict := by
  refine h.invariant (I := fun s => s.stream.length ≤ u64Max → s.Inv strict) ?_ ?_ hmax
  · intro s hs _
    obtain ⟨id, name, createdAt, lastSeenSeq, rfl⟩ := hs
    exact inv_initial strict id name createdAt lastSeenSeq
  · intro t a u hi hc hstep hu
    exact inv_step (hi (Nat.le_trans (stream_step hstep) hu)) hu (hC t a hc) hstep

/-- What a replay and the forwarded output deliver, in one attach and over all the
attaches since the last rendered screen, is the stream from the requested number to
the number the client has cached. -/
theorem attach_and_resume_lossless {s : State} (h : machine.Reachable s)
    (hmax : s.stream.length ≤ u64Max) :
    (∀ t, s.client.attachment = some t → t.Contiguous s.stream s.client.lastSeenSeq) ∧
      ∀ t, s.client.resumed = some t → t.Contiguous s.stream s.client.lastSeenSeq := by
  have hi : s.Inv false := inv_of_reachable (fun _ _ _ hs => by cases hs) h hmax
  exact ⟨hi.delivered.attachment, hi.delivered.resumed⟩

/-- The attach of a client that has seen nothing yet, up to the sent reply. -/
def attachRun : List Action :=
  [.record [97], .broadcastOutput, .sendAttach ⟨80, 24⟩, .lookUp, .subscribe none,
    .attachBytes [], .writeAttached]

/-- Output between the subscription and the snapshot is delivered once. -/
theorem attach_and_resume_lossless_run :
    ∃ s : State, s.client.attachment = some ⟨0, [97, 98, 99]⟩ ∧
      (⟨0, [97, 98, 99]⟩ : Transcript).Contiguous s.stream s.client.lastSeenSeq := by
  obtain ⟨s, hr, hattachment, hmax⟩ := machine.exists_reachable_of_exec Machine.Any
    (fun s => s.client.attachment = some ⟨0, [97, 98, 99]⟩ ∧ s.stream.length ≤ u64Max)
    [.record [97], .broadcastOutput, .sendAttach ⟨80, 24⟩, .lookUp, .subscribe none,
      .record [98], .broadcastOutput, .attachBytes [], .writeAttached, .checkExit, .receive,
      .record [99], .broadcastOutput, .receive, .forward, .read, .read]
    ⟨7, "shell", 0, some 0, rfl⟩ (by decide)
  exact ⟨s, hattachment, (attach_and_resume_lossless hr hmax).1 _ hattachment⟩

/-- A client that attached by a replay and is told of the exit on that attach has
every byte from the requested number to the end. -/
def OutputBeforeExit (s : State) : Prop :=
  ∀ exitCode t, s.client.phase = .ended (.sessionExited exitCode) →
    s.client.attachment = some t → t.bytes = s.stream.drop t.start

theorem output_before_exit {s : State}
    (h : machine.ReachableWhen (fun t a => upToDate t a = true) s)
    (hmax : s.stream.length ≤ u64Max) : OutputBeforeExit s := by
  intro exitCode t hp ht
  have hi : s.Inv true := inv_of_reachable (fun _ _ hc _ => hc) h hmax
  obtain ⟨seq, hseq, -, -, hbytes⟩ := hi.delivered.attachment t ht
  cases hi.conversation with
  | sending hp' => cases hp.symm.trans hp'
  | asked hp' => cases hp.symm.trans hp'
  | answered hp' => cases hp.symm.trans hp'
  | streaming hp' => cases hp.symm.trans hp'
  | ended outcome hp' hfin =>
    have ho : outcome = .sessionExited exitCode := by
      cases hp.symm.trans hp'
      rfl
    obtain ⟨last, hlast, hfinal⟩ := hfin exitCode ho
    obtain rfl := Option.some.inj (hseq.symm.trans hlast)
    rw [hbytes, (hfinal rfl).2]
    exact extract_length_eq_drop

/-- The exit comes after the forwarder has started: it is announced in order. -/
theorem output_before_exit_run :
    ∃ s : State, s.client.phase = .ended (.sessionExited 0) ∧
      s.client.attachment = some ⟨0, [97, 98]⟩ ∧ s.stream = [97, 98] ∧ OutputBeforeExit s := by
  obtain ⟨s, hr, hphase, hattachment, hstream⟩ := machine.exists_reachable_of_exec
    (fun t a => upToDate t a = true)
    (fun s => s.client.phase = .ended (.sessionExited 0) ∧
      s.client.attachment = some ⟨0, [97, 98]⟩ ∧ s.stream = [97, 98])
    (List.flatten [attachRun,
      [.checkExit, .record [98], .broadcastOutput, .markExited 0, .broadcastExit,
      .receive, .forward, .receive, .forward, .read, .read, .read]])
    ⟨7, "shell", 0, some 0, rfl⟩ (by decide)
  have hmax : s.stream.length ≤ u64Max := by rw [hstream]; decide
  exact ⟨s, hphase, hattachment, hstream, output_before_exit hr hmax⟩

/-- The child writes once more and exits between the snapshot and the check: the
client is told of the exit and never given the last byte. -/
theorem output_after_snapshot_lost :
    ¬ ∀ s, machine.Reachable s → s.stream.length ≤ u64Max → OutputBeforeExit s := by
  intro hall
  obtain ⟨s, hr, hphase, hattachment, hstream⟩ := machine.exists_reachable_of_exec Machine.Any
    (fun s => s.client.phase = .ended (.sessionExited 0) ∧
      s.client.attachment = some ⟨0, [97]⟩ ∧ s.stream = [97, 98])
    (List.flatten [attachRun, [.record [98], .broadcastOutput, .markExited 0, .broadcastExit,
      .checkExit, .writeReply, .read, .read]])
    ⟨7, "shell", 0, some 0, rfl⟩ (by decide)
  have hbytes := hall s hr (by rw [hstream]; decide) 0 _ hphase hattachment
  rw [hstream] at hbytes
  exact absurd hbytes (by decide)

end Shelly.Daemon.Attach
