import Shelly.Daemon.LiveSession

namespace Shelly.Daemon

variable {T : Type*}

namespace LiveSession

variable (s : LiveSession T) (now : Nat) (state : AgentState) (line : Option String)
  (command : PushCommand)

/-- The part of a session that neither a new state nor a push touches. -/
def core : Session × Responder × TerminalProjection T × Option (Option StoredSession) × Live.IoPc ×
    List UInt8 × CommandKind :=
  ({ s.toSession with subscribers := .channel 0 }, s.responder, s.terminal, s.row, s.io, s.stream,
    s.commandKind)

theorem setState_core : (s.setState now state line).core = s.core := by
  unfold setState sendPush core
  split
  · rfl
  · dsimp only
    split_ifs <;> rfl

@[simp] theorem setState_io : (s.setState now state line).io = s.io :=
  congrArg (·.2.2.2.2.1) (setState_core s now state line)

@[simp] theorem setState_ring : (s.setState now state line).ring = s.ring :=
  congrArg (·.1.ring) (setState_core s now state line)

@[simp] theorem setState_exitCode : (s.setState now state line).exitCode = s.exitCode :=
  congrArg (·.1.exitCode) (setState_core s now state line)

@[simp] theorem setState_persistDirty :
    (s.setState now state line).persistDirty = s.persistDirty :=
  congrArg (·.1.persistDirty) (setState_core s now state line)

@[simp] theorem setState_killed : (s.setState now state line).killed = s.killed :=
  congrArg (·.1.killed) (setState_core s now state line)

@[simp] theorem setState_lastActivity :
    (s.setState now state line).lastActivity = s.lastActivity :=
  congrArg (·.1.lastActivity) (setState_core s now state line)

@[simp] theorem setState_id : (s.setState now state line).id = s.id :=
  congrArg (·.1.id) (setState_core s now state line)

@[simp] theorem setState_name : (s.setState now state line).name = s.name :=
  congrArg (·.1.name) (setState_core s now state line)

@[simp] theorem setState_responder : (s.setState now state line).responder = s.responder :=
  congrArg (·.2.1) (setState_core s now state line)

@[simp] theorem setState_terminal : (s.setState now state line).terminal = s.terminal :=
  congrArg (·.2.2.1) (setState_core s now state line)

@[simp] theorem setState_row : (s.setState now state line).row = s.row :=
  congrArg (·.2.2.2.1) (setState_core s now state line)

@[simp] theorem setState_stream : (s.setState now state line).stream = s.stream :=
  congrArg (·.2.2.2.2.2.1) (setState_core s now state line)

@[simp] theorem setState_commandKind : (s.setState now state line).commandKind = s.commandKind :=
  congrArg (·.2.2.2.2.2.2) (setState_core s now state line)

/-- A state that is set already is not announced again. -/
theorem setState_self (h : s.state = state) : s.setState now state line = s := if_pos h

theorem setState_state : (s.setState now state line).state = state := by
  unfold setState sendPush
  split
  · assumption
  · dsimp only
    split_ifs <;> rfl

theorem setState_sent : (s.setState now state line).subscribers.sent = s.subscribers.sent ∨
    (s.setState now state line).subscribers.sent =
      s.subscribers.sent ++ [.agentStateChanged s.id state line] := by
  unfold setState sendPush
  split
  · exact .inl rfl
  · dsimp only
    split_ifs <;> exact .inr rfl

end LiveSession

namespace Live

/-- The state a task is about to set. -/
def Task.target : Task → Option AgentState
  | .input .setting => some .working
  | .idle .setting => some .idle
  | .hook call .setting => some call.state
  | _ => none

/-- The scrollback a task is about to rebuild the projection from. -/
def Task.scrollback : Task → Option (Nat × List UInt8)
  | .resize _ (.rebuilding scrollback) => some scrollback
  | .attach _ (.rebuilding _ scrollback) => some scrollback
  | _ => none

/-- The snapshot a task is about to store. -/
def Task.storing : Task → Option StoredSession
  | .flush (.persisting (.saving stored)) => some stored
  | _ => none

/-- Everything a step of a task can do to the session. -/
inductive Effect (E : Emulator T) (s : LiveSession T) (x : Task) : LiveSession T → Prop
  | same : Effect E s x s
  | setState (now : Nat) (state : AgentState) (line : Option String) (hx : x.target = some state) :
      Effect E s x (s.setState now state line)
  | enqueue (bytes : List UInt8) (sender : PtyWriteSender)
      (hsend : s.responder.sender.trySend bytes = .ok sender) :
      Effect E s x { s with responder := { s.responder with sender } }
  | line (line : Option String) : Effect E s x { s with lastLine := line }
  | cache (line : String) :
      Effect E s x { s with terminal := s.terminal.cacheLastNonEmptyLine line 80 }
  | resize (size : ClientSize) : Effect E s x { s with terminal := (s.terminal.resize E size).2 }
  | rebuild (scrollback : Nat × List UInt8) (hx : x.scrollback = some scrollback) :
      Effect E s x (s.rebuildTerminalProjection E scrollback)
  | dirty (dirty : Bool) (hx : dirty = true ∨ (∃ pc, x = .flush pc)) :
      Effect E s x { s with toSession := { s.toSession with persistDirty := dirty } }
  | store (stored : StoredSession) (hx : x.storing = some stored) :
      Effect E s x { s with row := s.row.map fun _ => some stored }

variable {E : Emulator T} {c : Choice} {x x' : Task} {s s' : LiveSession T}

theorem saveStep_effect {pc pc' : SavePc} (h : saveStep c pc s = some (s', pc')) :
    Effect E s (.flush (.persisting pc)) s' := by
  cases pc with
  | checking | capturing | completing => cases h; exact .same
  | saving stored =>
    simp only [saveStep] at h
    split at h <;> cases h
    · exact .store stored rfl
    · exact .same
  | returned ok => cases h

theorem hookStep_effect {call : HookCall} {pc pc' : HookPc}
    (h : hookStep c call pc s = some (s', pc')) : Effect E s (.hook call pc) s' := by
  cases pc with
  | checking | reading => cases h; exact .same
  | lining =>
    simp only [hookStep] at h
    split at h <;> cases h
    · exact .line _
    · exact .same
  | caching line => cases h; exact .cache line
  | setting => cases h; exact .setState _ _ _ rfl
  | dirtying => cases h; exact .dirty true (.inl rfl)
  | returned result => cases h

theorem attachStep_effect {lastSeenSeq : Option Nat} {pc pc' : AttachPc}
    (h : attachStep E lastSeenSeq pc s = some (s', pc')) :
    Effect E s (.attach lastSeenSeq pc) s' := by
  cases pc with
  | rendering =>
    simp only [attachStep] at h
    split at h
    · cases h; exact .same
    · split at h
      · split at h <;> cases h <;> exact .same
      · cases h; exact .same
  | rebuilding endSeq scrollback => cases h; exact .rebuild scrollback rfl
  | rerendering endSeq scrollback => cases h; exact .same
  | returned result => cases h

theorem advance_effect (h : advance E c x s = some (s', x')) : Effect E s x s' := by
  cases x with
  | input pc =>
    obtain ⟨⟨t, pc'⟩, hs, hr⟩ := Option.map_eq_some_iff.mp h
    obtain ⟨rfl, -⟩ := Prod.mk.inj hr
    cases pc with
    | sending bytes =>
      simp only [inputStep] at hs
      split at hs <;> cases hs
      · exact .enqueue bytes _ ‹_›
      · exact .same
    | checking => cases hs; exact .same
    | setting => cases hs; exact .setState _ _ _ rfl
    | returned error => cases hs
  | idle pc =>
    obtain ⟨⟨t, pc'⟩, hs, hr⟩ := Option.map_eq_some_iff.mp h
    obtain ⟨rfl, -⟩ := Prod.mk.inj hr
    cases pc with
    | checking | measuring | comparing => cases hs; exact .same
    | setting => cases hs; exact .setState _ _ _ rfl
    | stopped => cases hs
  | hook call pc =>
    obtain ⟨⟨t, pc'⟩, hs, hr⟩ := Option.map_eq_some_iff.mp h
    obtain ⟨rfl, -⟩ := Prod.mk.inj hr
    exact hookStep_effect hs
  | resize size pc =>
    obtain ⟨⟨t, pc'⟩, hs, hr⟩ := Option.map_eq_some_iff.mp h
    obtain ⟨rfl, -⟩ := Prod.mk.inj hr
    cases pc with
    | asking | capturing => cases hs; exact .same
    | resizing => cases hs; exact .resize size
    | rebuilding scrollback => cases hs; exact .rebuild scrollback rfl
    | returned ok => cases hs
  | attach lastSeenSeq pc =>
    obtain ⟨⟨t, pc'⟩, hs, hr⟩ := Option.map_eq_some_iff.mp h
    obtain ⟨rfl, -⟩ := Prod.mk.inj hr
    exact attachStep_effect hs
  | flush pc =>
    obtain ⟨⟨t, pc'⟩, hs, hr⟩ := Option.map_eq_some_iff.mp h
    obtain ⟨rfl, -⟩ := Prod.mk.inj hr
    cases pc with
    | swapping => cases hs; exact .dirty false (.inr ⟨_, rfl⟩)
    | persisting pc =>
      cases pc with
      | returned ok => cases hs; exact .dirty _ (.inr ⟨_, rfl⟩)
      | checking | capturing | completing => cases hs; exact .same
      | saving stored =>
        obtain ⟨⟨t, pc'⟩, hsave, hr⟩ := Option.map_eq_some_iff.mp hs
        obtain ⟨rfl, -⟩ := Prod.mk.inj hr
        exact saveStep_effect hsave
    | returned => cases hs

/-- No task touches what the child wrote, the exit code or the I/O thread. -/
theorem Effect.kept (h : Effect E s x s') :
    s'.ring = s.ring ∧ s'.stream = s.stream ∧ s'.exitCode = s.exitCode ∧ s'.io = s.io := by
  cases h with
  | setState now state line hx => simp
  | same | enqueue | line | cache | resize | rebuild | dirty | store => exact ⟨rfl, rfl, rfl, rfl⟩

variable {infer : StateInfer}

/-- Only the reading of a chunk adds to what the child wrote. -/
theorem ioStep_kept (h : ioStep E infer c s = some s') :
    s'.ring = s.ring ∧ s'.stream = s.stream := by
  unfold ioStep at h
  cases hio : s.io with
  | reading | exited => rw [hio] at h; cases h
  | inspecting | exiting =>
    rw [hio] at h
    dsimp only at h
    split at h <;> cases h <;> exact ⟨rfl, rfl⟩
  | settingState bytes seq state line =>
    rw [hio] at h
    cases h
    split <;> simp
  | reporting exitCode =>
    rw [hio] at h
    cases h
    split <;> exact ⟨rfl, rfl⟩
  | persisting pc =>
    rw [hio] at h
    cases pc with
    | saving stored =>
      obtain ⟨⟨t, pc'⟩, hsave, rfl⟩ := Option.map_eq_some_iff.mp h
      simp only [saveStep] at hsave
      split at hsave <;> cases hsave <;> exact ⟨rfl, rfl⟩
    | checking | capturing | completing | returned => cases h; exact ⟨rfl, rfl⟩
  | _ => rw [hio] at h; cases h; exact ⟨rfl, rfl⟩

theorem lastNonEmptyLine_model (maxChars : Nat) (p : TerminalProjection T) :
    (p.lastNonEmptyLine E maxChars).2.model = p.model := by
  unfold TerminalProjection.lastNonEmptyLine
  split
  · rfl
  · split
    · rfl
    · split <;> rfl

/-- Inside `record_output` the projection is rebuilt, or left as it is. -/
theorem ioStep_model (h : ioStep E infer c s = some s') :
    (∃ bytes seq scrollback, s.io = .rebuilding bytes seq scrollback ∧
        s' = { s.rebuildTerminalProjection E scrollback with io := .noting bytes seq }) ∨
      s'.terminal.model = s.terminal.model ∧ s'.responder.answers = s.responder.answers ∧
        s'.responder.read = s.responder.read ∧
        ∀ bytes seq scrollback, s'.io = .rebuilding bytes seq scrollback →
          scrollback = s'.ring.snapshot := by
  unfold ioStep at h
  cases hio : s.io with
  | reading | exited => rw [hio] at h; cases h
  | rebuilding bytes seq scrollback =>
    rw [hio] at h
    cases h
    exact .inl ⟨bytes, seq, scrollback, rfl, rfl⟩
  | ingested bytes seq failure =>
    rw [hio] at h
    cases h
    refine .inr ⟨rfl, rfl, rfl, fun bytes' seq' scrollback hr => ?_⟩
    dsimp only at hr
    split at hr <;> cases hr
    rfl
  | inspecting bytes seq =>
    rw [hio] at h
    dsimp only at h
    split at h <;> cases h
    · exact .inr ⟨rfl, rfl, rfl, fun _ _ _ hr => nomatch hr⟩
    · refine .inr ⟨lastNonEmptyLine_model 80 s.terminal, rfl, rfl, fun _ _ _ hr => ?_⟩
      dsimp only at hr
      split at hr <;> cases hr
  | settingState bytes seq state line =>
    rw [hio] at h
    cases h
    right
    split <;> simp
  | exiting exitCode =>
    rw [hio] at h
    dsimp only at h
    split at h <;> cases h <;> exact .inr ⟨rfl, rfl, rfl, fun _ _ _ hr => nomatch hr⟩
  | reporting exitCode =>
    rw [hio] at h
    cases h
    right
    split <;> exact ⟨rfl, rfl, rfl, fun _ _ _ hr => nomatch hr⟩
  | persisting pc =>
    rw [hio] at h
    cases pc with
    | saving stored =>
      obtain ⟨⟨t, pc'⟩, hsave, rfl⟩ := Option.map_eq_some_iff.mp h
      simp only [saveStep] at hsave
      split at hsave <;> cases hsave <;> exact .inr ⟨rfl, rfl, rfl, fun _ _ _ hr => nomatch hr⟩
    | checking | capturing | completing | returned =>
      cases h
      exact .inr ⟨rfl, rfl, rfl, fun _ _ _ hr => nomatch hr⟩
  | _ => rw [hio] at h; cases h; exact .inr ⟨rfl, rfl, rfl, fun _ _ _ hr => nomatch hr⟩

end Live
end Shelly.Daemon
