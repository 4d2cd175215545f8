import Shelly.Daemon.Contract

namespace Shelly.Daemon

section Calls

variable {host : HostEnv} {c : DaemonChoice} {i : Nat} {s : DaemonState} {m : ClientToServerMsg}

theorem isError_of_invalidClientSize {size : ClientSize} {error : ServerToClientMsg}
    (h : invalidClientSize size = some error) : ∃ code message, error = .error code message := by
  unfold invalidClientSize at h
  split at h
  · cases h
  · cases h
    exact ⟨_, _, rfl⟩

theorem refuses_createStep {r r' : Registry} {rc : RegistryChoice} {clientKind : ClientKind}
    {call : CreateCall} {pc pc' : CreatePc}
    (hs : createStep host rc i clientKind call pc r = some (r', pc')) : pc'.Refuses := by
  rintro error rfl
  unfold createStep at hs
  split at hs
  · split at hs
    · cases hs
      exact isError_of_invalidClientSize ‹_›
    · split at hs
      · cases hs
        exact ⟨_, _, rfl⟩
      · cases hs
      · cases hs
  · split at hs
    · cases hs
      exact ⟨_, _, rfl⟩
    · cases hs
  · dsimp only at hs
    split at hs
    · cases hs
    · cases hs
  · dsimp only at hs
    split at hs
    · cases hs
    · split at hs
      · split at hs
        · cases hs
        · cases hs
      · cases hs
  · cases hs
    exact ⟨_, _, rfl⟩
  · cases hs
  · cases hs
  · cases hs
  · cases hs
  · cases hs

/-- A call that goes on has written nothing, and one that is over has answered its message. -/
theorem sessionCallStep_serves {attached : Option SessionId} {call : SessionCall}
    {r : DaemonState × Option SessionId × List Reply × Option SessionCall} (h : call.Serves m)
    (hs : sessionCallStep host c i attached s call = some r) :
    (∃ call', r.2.2.2 = some call' ∧ call'.Serves m ∧ r.2.2.1 = []) ∨
      r.2.2.2 = none ∧ Answers m r.2.2.1 := by
  unfold sessionCallStep at hs
  split at hs
  · cases hs
    obtain ⟨rfl, -⟩ := h
    exact .inr ⟨rfl, .createSession _ _⟩
  · cases hs
    obtain ⟨code, message, rfl⟩ := h.2 _ rfl
    exact .inr ⟨rfl, .refused m code message⟩
  · obtain ⟨⟨r', pc'⟩, hcreate, rfl⟩ := Option.map_eq_some_iff.mp hs
    exact .inl ⟨_, rfl, ⟨h.1, refuses_createStep hcreate⟩, rfl⟩
  · cases hs
    obtain rfl := h
    exact .inr ⟨rfl, .killSession _⟩
  · cases hs
    exact .inr ⟨rfl, .refused m _ _⟩
  · obtain ⟨x, -, rfl⟩ := Option.map_eq_some_iff.mp hs
    exact .inl ⟨_, rfl, h, rfl⟩
  -- An attachment.
  · split at hs
    · cases hs
      exact .inl ⟨_, rfl, h, rfl⟩
    · cases hs
      obtain rfl := h
      exact .inr ⟨rfl, .attachExited _ _ _ _ _ _⟩
    · cases hs
      exact .inr ⟨rfl, .refused m _ _⟩
  · obtain ⟨session, -, rfl⟩ := Option.map_eq_some_iff.mp hs
    obtain rfl := h
    dsimp only
    split
    · have hreplies (id : SessionId) (size : ClientSize) (lastSeenSeq : Option Nat) :
          Answers (.attachSession id size lastSeenSeq)
            (attachedReplies c id session lastSeenSeq) := by
        unfold attachedReplies
        cases session.exitCode with
        | none => exact .attachSession _ _ _ _ _
        | some exitCode => exact .attachExited _ _ _ _ _ _
      split
      · exact .inr ⟨rfl, hreplies _ _ _⟩
      · exact .inr ⟨rfl, hreplies _ _ _⟩
    · exact .inr ⟨rfl, .refused _ _ _⟩
  -- Input and a new size.
  · split at hs
    · cases hs
      exact .inr ⟨rfl, .refused m _ _⟩
    · split at hs
      · cases hs
        obtain rfl := h
        exact .inr ⟨rfl, .input _ _⟩
      · cases hs
        exact .inr ⟨rfl, .refused m _ _⟩
  · split at hs
    · cases hs
      exact .inr ⟨rfl, .refused m _ _⟩
    · cases hs
      obtain rfl := h
      exact .inr ⟨rfl, .resize _ _⟩

end Calls

/-- What has become of a message whose answers follow `rs`: it is answered in full, or being
served, or the connection ends over it. -/
inductive Handled (m : ClientToServerMsg) (rs : List Reply) : List Reply → IrohPc → Prop
  | answered {as : List Reply} : Answers m as → Handled m rs (rs ++ as) .serving
  | underway {as : List Reply} {pc : IrohPc} : pc.Serves m as → Handled m rs (rs ++ as) pc
  | broken {as : List Reply} : Interrupted m as → Handled m rs (rs ++ as) .closing

section Device

variable {host : HostEnv} {storageKey : String → String}
  {pairingSas : String → String → String → Except String String} {c : DaemonChoice} {i : Nat}
  {s s' : DaemonState} {conn conn' : IrohConnection} {pc pc' : IrohPc} {m : ClientToServerMsg}
  {ms : List ClientToServerMsg} {rs as : List Reply}

theorem Handled.talk (h : Handled m rs as pc) (hms : Conversation ms rs) :
    IrohTalk (ms ++ [m]) as pc := by
  cases h with
  | answered hanswers => exact hms.answer hanswers
  | underway hserves =>
    cases pc with
    | session | requesting | completing | unpairing | updating =>
      exact ⟨ms, m, rs, _, rfl, rfl, hms, hserves⟩
    | connecting | marking | rechecking | serving | closing | closed => exact hserves.elim
  | broken hbroken => exact .broken hms hbroken

/-- The message is refused. -/
theorem Handled.refused (conn : IrohConnection) (code : ErrorCode) (message : String) :
    Handled m conn.replies (conn.reply (.error code message)).replies .serving :=
  .answered (.refused m code message)

theorem Handled.start (h : pc.Serves m []) : Handled m conn.replies conn.replies pc := by
  have hstart : Handled m conn.replies (conn.replies ++ []) pc := .underway h
  rwa [List.append_nil] at hstart

theorem Handled.silent (h : Answers m []) : Handled m conn.replies conn.replies .serving := by
  have hsilent : Handled m conn.replies (conn.replies ++ []) .serving := .answered h
  rwa [List.append_nil] at hsilent

/-- A removal is one, wherever it stands. -/
theorem Handled.unpairing {rpc : RemovePc} (h : Handled m rs as (.unpairing rpc))
    (rpc' : RemovePc) :
    Handled m rs as (.unpairing rpc') := by
  cases h with
  | underway hserves => exact .underway hserves

theorem requirePaired_handled {answer : IrohConnection × IrohPc}
    (h : Handled m conn.replies answer.1.replies answer.2) :
    Handled m conn.replies (conn.requirePaired answer).1.replies (conn.requirePaired answer).2 := by
  unfold IrohConnection.requirePaired
  split
  · exact h
  · exact .refused conn _ _

/-- A size is refused, or the call is made. -/
theorem sized_handled {size : ClientSize} {call : SessionCall} (h : call.Serves m) :
    Handled m conn.replies
      (match sized size call with
        | .inl error => (conn.reply error, IrohPc.serving)
        | .inr call => (conn, .session call)).1.replies
      (match sized size call with
        | .inl error => (conn.reply error, IrohPc.serving)
        | .inr call => (conn, .session call)).2 := by
  unfold sized
  cases hsize : invalidClientSize size with
  | none => exact .start ⟨h, rfl⟩
  | some error =>
    obtain ⟨code, message, rfl⟩ := isError_of_invalidClientSize hsize
    exact .refused conn code message

theorem irohDispatch_handled (pairingSas : String → String → String → Except String String)
    (s : DaemonState) (conn : IrohConnection) (m : ClientToServerMsg) :
    Handled m conn.replies (irohDispatch pairingSas s conn m).1.replies
      (irohDispatch pairingSas s conn m).2 := by
  cases m with
  | hello clientKind protocolVersion => exact requirePaired_handled (.silent (.hello _ _))
  | listSessions => exact requirePaired_handled (.answered (.listSessions _))
  | subscribeSessions => exact requirePaired_handled (.answered (.subscribeSessions _))
  | createSession call => exact requirePaired_handled (sized_handled ⟨rfl, nofun⟩)
  | attachSession id size lastSeenSeq => exact requirePaired_handled (sized_handled rfl)
  | resize id size => exact requirePaired_handled (sized_handled rfl)
  | input id bytes => exact requirePaired_handled (.start ⟨rfl, rfl⟩)
  | killSession id => exact requirePaired_handled (.start ⟨rfl, rfl⟩)
  | registerPushToken platform token => exact requirePaired_handled (.start ⟨rfl, rfl⟩)
  | unregisterPushToken platform token => exact requirePaired_handled (.start ⟨rfl, rfl⟩)
  | ping seq => exact requirePaired_handled (.answered (.ping seq))
  | detachSession =>
    have hbroken : Handled .detachSession conn.replies (conn.replies ++ []) .closing :=
      .broken (.unanswered .detachSession)
    rw [List.append_nil] at hbroken
    exact requirePaired_handled hbroken
  | beginPairing | approvePairing | listDevices | removeDevice | agentStateEvent =>
    exact requirePaired_handled (.refused conn _ _)
  | pairWithCode code deviceName deviceNodeId =>
    simp only [irohDispatch]
    split
    · exact .refused conn _ _
    · split
      · rename_i error herror
        unfold pairingPeerIdentityError at herror
        split at herror
        · cases herror
        · cases herror
          exact .refused conn _ _
      · split
        · exact .refused conn _ _
        · exact .start ⟨⟨_, _, _, rfl⟩, rfl⟩
  | unpairSelf =>
    simp only [irohDispatch]
    split
    · exact .refused conn _ _
    · exact .start ⟨rfl, rfl⟩

/-- One more reply to the message that is being served. -/
theorem replies_reply {r : Reply} (h : conn.replies = rs ++ as) :
    (conn.reply r).replies = rs ++ (as ++ [r]) := by
  rw [← List.append_assoc, ← h]
  rfl

theorem updating_handled {change : DeviceUpdate} {result : UpdateResult}
    (hserves : IrohPc.Serves m as (.updating change)) (hreplies : conn.replies = rs ++ as) :
    Handled m rs
      (match result with
        | .updated => conn.reply (.pong 0)
        | .missing => conn.unauthorized
        | .failed => conn.reply (.error .internal c.message)).replies .serving := by
  have has : as = [] ∧ Answers m [.pong 0] := by
    cases change with
    | markSeen now => exact hserves.elim
    | setPush platform token now =>
      obtain ⟨rfl, has⟩ := hserves
      exact ⟨has, .registerPushToken platform token⟩
    | clearPush platform token now =>
      obtain ⟨rfl, has⟩ := hserves
      exact ⟨has, .unregisterPushToken platform token⟩
  obtain ⟨rfl, hpong⟩ := has
  cases result with
  | updated =>
    rw [replies_reply hreplies]
    exact .answered hpong
  | missing =>
    rw [IrohConnection.unauthorized, replies_reply hreplies]
    exact .answered (.refused m _ _)
  | failed =>
    rw [replies_reply hreplies]
    exact .answered (.refused m _ _)

/-- One step of the wait for an approval announces the pairing, or keeps what was announced. -/
theorem announced_approvalStep {pc : PairingChoice} {now : Nat} {call : ApprovalCall}
    {apc apc' : ApprovalPc} {pm pm' : PairingManager}
    (hs : approvalStep pc now call apc pm = some (pm', apc')) :
    apc'.announced = (apc.announced || match apc with | .holding _ => true | _ => false) := by
  cases apc with
  | taking =>
    simp only [approvalStep] at hs
    split at hs
    · cases hs
      rfl
    · cases hs
      rfl
  | checking pending =>
    simp only [approvalStep] at hs
    split at hs
    · cases hs
      rfl
    · cases hs
      rfl
  | opening pending remainingMs =>
    cases hs
    rfl
  | sending pending approval =>
    simp only [approvalStep] at hs
    split at hs
    · cases hs
      rfl
    · cases hs
      rfl
  | holding approval =>
    simp only [approvalStep, Option.some.injEq, Prod.mk.injEq] at hs
    obtain ⟨-, rfl⟩ := hs
    split
    · rfl
    · rfl
  | waiting approval deadline =>
    simp only [approvalStep] at hs
    split at hs
    · cases hs
      rfl
    · split at hs
      · cases hs
        rfl
      · split at hs
        · cases hs
          rfl
        · cases hs
  | dropping approval result =>
    cases hs
    cases result <;> rfl
  | returned result => cases hs

theorem irohStep_handled (hserves : pc.Serves m as) (hreplies : conn.replies = rs ++ as)
    (hs : irohStep host storageKey pairingSas c i conn pc s = some (s', conn', pc')) :
    Handled m rs conn'.replies pc' := by
  cases pc with
  | session call =>
    obtain ⟨hcall, rfl⟩ := hserves
    obtain ⟨r, hstep, heq⟩ := Option.map_eq_some_iff.mp hs
    cases heq
    rw [List.append_nil] at hreplies
    rcases sessionCallStep_serves hcall hstep with ⟨call', hnext, hcall', hnone⟩ | ⟨hnext, hanswers⟩
    · rw [hnext, hnone, hreplies]
      exact .underway ⟨hcall', rfl⟩
    · rw [hnext, hreplies]
      exact .answered hanswers
  | requesting call apc =>
    obtain ⟨⟨code, deviceName, deviceNodeId, rfl⟩, rfl⟩ := hserves
    have hwaiting (apc' : ApprovalPc) : Handled (.pairWithCode code deviceName deviceNodeId) rs
        (rs ++ if apc'.announced then [.pairingPending call.sas] else [])
        (.requesting call apc') :=
      .underway ⟨⟨code, deviceName, deviceNodeId, rfl⟩, rfl⟩
    cases apc with
    | returned result =>
      cases result with
      | waited approved =>
        cases approved with
        | true =>
          cases hs
          rw [hreplies]
          exact .underway ⟨⟨code, deviceName, deviceNodeId, rfl⟩, call.sas, rfl⟩
        | false =>
          cases hs
          rw [replies_reply hreplies]
          exact .answered (.denied _ _ _ _ _ _)
      | failed message =>
        cases hs
        rw [replies_reply hreplies]
        exact .answered (.refused _ _ _)
      | abandoned =>
        cases hs
        rw [hreplies]
        exact .broken (.pending _ _ _ _)
    | holding approval =>
      simp only [irohStep] at hs
      obtain ⟨⟨pm, apc'⟩, hstep, heq⟩ := Option.map_eq_some_iff.mp hs
      have hannounced : apc'.announced = true := announced_approvalStep hstep
      have hnext := hwaiting apc'
      cases heq
      rw [replies_reply hreplies]
      rw [hannounced] at hnext
      exact hnext
    | taking | checking | opening | sending | waiting | dropping =>
      simp only [irohStep] at hs
      obtain ⟨⟨pm, apc'⟩, hstep, heq⟩ := Option.map_eq_some_iff.mp hs
      have hannounced := announced_approvalStep hstep
      rw [Bool.or_false] at hannounced
      have hnext := hwaiting apc'
      cases heq
      rw [hannounced] at hnext
      rw [hreplies]
      exact hnext
  | completing device ppc =>
    obtain ⟨⟨code, deviceName, deviceNodeId, rfl⟩, sas, rfl⟩ := hserves
    cases ppc with
    | returned ok =>
      cases ok with
      | true =>
        cases hs
        change Handled _ rs (conn.reply _).replies _
        rw [replies_reply hreplies]
        exact .answered (.paired _ _ _ _ _)
      | false =>
        cases hs
        rw [hreplies]
        exact .broken (.pending _ _ _ _)
    | waiting | saving | inserting | watching =>
      simp only [irohStep] at hs
      obtain ⟨⟨d, ppc'⟩, -, heq⟩ := Option.map_eq_some_iff.mp hs
      cases heq
      rw [hreplies]
      exact .underway ⟨⟨code, deviceName, deviceNodeId, rfl⟩, sas, rfl⟩
  | unpairing rpc =>
    obtain ⟨rfl, rfl⟩ := hserves
    cases rpc with
    | returned id ok =>
      cases ok with
      | true =>
        cases hs
        change Handled _ rs (conn.reply _).replies _
        rw [replies_reply hreplies]
        exact .answered .unpairSelf
      | false =>
        cases hs
        rw [replies_reply hreplies]
        exact .answered (.refused _ _ _)
    | finding | checking | erasingRow | unmapping | revoking =>
      simp only [irohStep] at hs
      obtain ⟨⟨d, rpc'⟩, -, heq⟩ := Option.map_eq_some_iff.mp hs
      cases heq
      rw [hreplies]
      exact .underway ⟨rfl, rfl⟩
  | updating change =>
    cases hs
    exact updating_handled hserves hreplies
  | connecting | marking | rechecking | serving | closing | closed => exact hserves.elim

theorem irohTake_handled
    (hs : irohTake storageKey pairingSas c conn m s = some (s', conn', pc')) :
    Handled m conn.replies conn'.replies pc' := by
  unfold irohTake at hs
  dsimp only at hs
  split at hs
  · cases hs
    have hbroken : Handled m conn.replies (conn.replies ++ []) .closing :=
      .broken (.unanswered m)
    rwa [List.append_nil] at hbroken
  · have hhandled := irohDispatch_handled pairingSas s
      { conn with admitted := s.isDevicePaired conn.remoteNodeId } m
    split at hs
    · rename_i rpc hpc
      rw [hpc] at hhandled
      split at hs
      · cases hs
        exact hhandled
      · obtain ⟨⟨d, rpc'⟩, -, heq⟩ := Option.map_eq_some_iff.mp hs
        cases heq
        exact hhandled.unpairing rpc'
    · cases hs
      exact hhandled

/-- A connection of a device goes on with the message that it is at, or takes the next one. -/
theorem irohStep_talk {heard : List ClientToServerMsg} (h : IrohTalk heard conn.replies pc)
    (hs : irohStep host storageKey pairingSas c i conn pc s = some (s', conn', pc')) :
    IrohTalk (heard ++ pc.takes c) conn'.replies pc' := by
  cases pc with
  | connecting =>
    obtain ⟨rfl, hempty⟩ := h
    simp only [irohStep] at hs
    simp only [IrohPc.takes]
    split at hs
    · rename_i hnone
      cases hs
      rw [hnone, hempty]
      exact .silent
    · rename_i clientKind protocolVersion hhello
      rw [hhello]
      have hreply (r : Reply) : (conn.reply r).replies = [r] := by
        rw [IrohConnection.reply, hempty]
        rfl
      split at hs
      · split at hs
        · rename_i error herror
          cases hs
          rw [hreply]
          unfold irohClientKindError at herror
          split at herror
          · cases herror
          · cases herror
            exact .turnedAway _ _ _
        · cases hs
          have hwelcome := Conversation.welcome clientKind protocolVersion
          rw [← hreply .welcome] at hwelcome
          dsimp only
          split
          · exact hwelcome
          · exact hwelcome
      · cases hs
        rw [hreply]
        exact .turnedAway _ _ _
    · rename_i m hm hother
      cases hs
      rw [hother, IrohConnection.reply, hempty]
      exact .turnedAway _ _ _
  | marking =>
    cases hs
    simp only [IrohPc.takes, List.append_nil]
    exact h
  | rechecking =>
    cases hs
    simp only [IrohPc.takes, List.append_nil]
    split
    · exact h
    · exact .complete h
  | serving =>
    simp only [irohStep] at hs
    simp only [IrohPc.takes]
    split at hs
    · rename_i hnone
      cases hs
      rw [hnone, Option.toList_none, List.append_nil]
      exact .complete h
    · rename_i m hm
      rw [hm]
      exact (irohTake_handled hs).talk h
  | session | requesting | completing | unpairing | updating =>
    obtain ⟨ms, m, rs, as, rfl, hreplies, hms, hserves⟩ := h
    simp only [IrohPc.takes, List.append_nil]
    exact (irohStep_handled hserves hreplies hs).talk hms
  | closing =>
    cases hs
    simp only [IrohPc.takes, List.append_nil]
    exact h
  | closed => cases hs

end Device

/-- The same over the local socket, where a message that is being served has no answer yet. -/
inductive DesktopHandled (m : ClientToServerMsg) (rs : List Reply) : List Reply → LocalPc → Prop
  | answered {as : List Reply} : Answers m as → DesktopHandled m rs (rs ++ as) .serving
  | underway {pc : LocalPc} : pc.Serves m → DesktopHandled m rs rs pc
  | broken : DesktopHandled m rs rs .closing

section Desktop

variable {host : HostEnv} {storageKey : String → String} {c : DaemonChoice} {i : Nat}
  {s s' : DaemonState} {conn conn' : LocalConnection} {pc pc' : LocalPc} {m : ClientToServerMsg}
  {ms : List ClientToServerMsg} {rs as : List Reply}

theorem DesktopHandled.talk (h : DesktopHandled m rs as pc) (hms : Conversation ms rs) :
    LocalTalk (ms ++ [m]) as pc := by
  cases h with
  | answered hanswers => exact hms.answer hanswers
  | underway hserves =>
    cases pc with
    | session | beginning | approving | removing | hooking => exact ⟨ms, m, rfl, hms, hserves⟩
    | connecting | serving | closing | closed => exact hserves.elim
  | broken =>
    have hbroken := Transcript.broken hms (.unanswered m)
    rwa [List.append_nil] at hbroken

theorem DesktopHandled.refused (conn : LocalConnection) (code : ErrorCode) (message : String) :
    DesktopHandled m conn.replies (conn.reply (.error code message)).replies .serving :=
  .answered (.refused m code message)

theorem DesktopHandled.silent (h : Answers m []) :
    DesktopHandled m conn.replies conn.replies .serving := by
  have hsilent : DesktopHandled m conn.replies (conn.replies ++ []) .serving := .answered h
  rwa [List.append_nil] at hsilent

theorem sized_desktopHandled {size : ClientSize} {call : SessionCall} (h : call.Serves m) :
    DesktopHandled m conn.replies
      (match sized size call with
        | .inl error => (conn.reply error, LocalPc.serving)
        | .inr call => (conn, .session call)).1.replies
      (match sized size call with
        | .inl error => (conn.reply error, LocalPc.serving)
        | .inr call => (conn, .session call)).2 := by
  unfold sized
  cases hsize : invalidClientSize size with
  | none => exact .underway h
  | some error =>
    obtain ⟨code, message, rfl⟩ := isError_of_invalidClientSize hsize
    exact .refused conn code message

/-- An operation that only some clients may ask for. -/
theorem permitted_handled {p : Prop} [Decidable p] {answer : LocalConnection × LocalPc}
    {message : String} (h : DesktopHandled m conn.replies answer.1.replies answer.2) :
    DesktopHandled m conn.replies
      (if p then answer else (conn.reply (.error .forbidden message), .serving)).1.replies
      (if p then answer else (conn.reply (.error .forbidden message), .serving)).2 := by
  split
  · exact h
  · exact .refused conn _ _

theorem localDispatch_handled (s : DaemonState) (conn : LocalConnection) (m : ClientToServerMsg) :
    DesktopHandled m conn.replies (localDispatch s conn m).1.replies
      (localDispatch s conn m).2 := by
  cases m with
  | hello clientKind protocolVersion => exact .silent (.hello _ _)
  | listSessions => exact .answered (.listSessions _)
  | subscribeSessions => exact .answered (.subscribeSessions _)
  | createSession call => exact permitted_handled (sized_desktopHandled ⟨rfl, nofun⟩)
  | attachSession id size lastSeenSeq => exact sized_desktopHandled rfl
  | resize id size => exact sized_desktopHandled rfl
  | detachSession => exact .broken
  | killSession id => exact permitted_handled (.underway rfl)
  | input id bytes => exact .underway rfl
  | ping seq => exact .answered (.ping seq)
  | beginPairing => exact permitted_handled (.underway rfl)
  | approvePairing requestId approved => exact permitted_handled (.underway rfl)
  | listDevices => exact permitted_handled (.answered (.listDevices _))
  | removeDevice name => exact permitted_handled (.underway rfl)
  | agentStateEvent id source state lastLine => exact permitted_handled (.underway rfl)
  | pairWithCode | registerPushToken | unregisterPushToken | unpairSelf =>
    exact .refused conn _ _

theorem hook_handled (c : DaemonChoice) (conn : LocalConnection) (s : DaemonState) (id : SessionId)
    (source : AgentSource) (state : AgentState) (lastLine : Option String) :
    DesktopHandled (.agentStateEvent id source state lastLine) conn.replies
      (hook c conn s id source state lastLine).2.replies .serving := by
  unfold hook
  split
  · exact .refused conn _ _
  · dsimp only
    split
    · exact .refused conn _ _
    · split
      · exact .answered (.agentStateEvent _ _ _ _ _)
      · exact .refused conn _ _

theorem localStep_handled (hserves : pc.Serves m)
    (hs : localStep host storageKey c i conn pc s = some (s', conn', pc')) :
    DesktopHandled m conn.replies conn'.replies pc' := by
  cases pc with
  | session call =>
    obtain ⟨r, hstep, heq⟩ := Option.map_eq_some_iff.mp hs
    cases heq
    rcases sessionCallStep_serves hserves hstep with
      ⟨call', hnext, hcall', hnone⟩ | ⟨hnext, hanswers⟩
    · rw [hnext, hnone, List.append_nil]
      exact .underway hcall'
    · rw [hnext]
      exact .answered hanswers
  | beginning bpc =>
    obtain rfl := hserves
    cases bpc with
    | returned code expiresAt generation =>
      simp only [localStep] at hs
      split at hs
      · cases hs
        exact .answered (.beginPairing _ _ _)
      · split at hs
        · cases hs
          exact .underway rfl
        · cases hs
          exact .refused conn _ _
    | _ =>
      simp only [localStep] at hs
      split at hs
      · cases hs
        exact .underway rfl
      · cases hs
        exact .refused conn _ _
  | approving requestId approved apc =>
    obtain rfl := hserves
    cases apc with
    | returned ok =>
      cases ok with
      | true =>
        cases hs
        exact .silent (.approvePairing _ _)
      | false =>
        cases hs
        exact .refused conn _ _
    | removing | sending =>
      simp only [localStep] at hs
      obtain ⟨⟨pm, apc'⟩, -, heq⟩ := Option.map_eq_some_iff.mp hs
      cases heq
      exact .underway rfl
  | removing name found rpc =>
    obtain rfl := hserves
    cases rpc with
    | returned id ok =>
      simp only [localStep, Option.some.injEq, Prod.mk.injEq] at hs
      obtain ⟨-, rfl, rfl⟩ := hs
      split
      · split
        · exact .answered (.removeDevice _ _)
        · exact .refused conn _ _
      · exact .refused conn _ _
    | finding | checking | erasingRow | unmapping | revoking =>
      simp only [localStep] at hs
      obtain ⟨⟨d, rpc'⟩, -, heq⟩ := Option.map_eq_some_iff.mp hs
      cases heq
      exact .underway rfl
  | hooking id source state lastLine =>
    obtain rfl := hserves
    cases hs
    exact hook_handled c conn s id source state lastLine
  | connecting | serving | closing | closed => exact hserves.elim

/-- A connection over the local socket goes on with the message that it is at, or takes the next
one. -/
theorem localStep_talk {heard : List ClientToServerMsg} (h : LocalTalk heard conn.replies pc)
    (hs : localStep host storageKey c i conn pc s = some (s', conn', pc')) :
    LocalTalk (heard ++ pc.takes c) conn'.replies pc' := by
  cases pc with
  | connecting =>
    obtain ⟨rfl, hempty⟩ := h
    simp only [localStep] at hs
    simp only [LocalPc.takes]
    have hreply (r : Reply) : (conn.reply r).replies = [r] := by
      rw [LocalConnection.reply, hempty]
      rfl
    split at hs
    · rename_i hnone
      cases hs
      rw [hnone, hempty]
      exact .silent
    · rename_i clientKind protocolVersion hhello
      rw [hhello]
      split at hs
      · cases hs
        have hwelcome := Conversation.welcome clientKind protocolVersion
        rwa [← hreply .welcome] at hwelcome
      · cases hs
        rw [hreply]
        exact .turnedAway _ _ _
    · rename_i m hm hother
      cases hs
      rw [hother, hreply]
      exact .turnedAway _ _ _
  | serving =>
    simp only [localStep] at hs
    simp only [LocalPc.takes]
    split at hs
    · rename_i hnone
      cases hs
      rw [hnone, Option.toList_none, List.append_nil]
      exact .complete h
    · rename_i m hm
      have hdispatch : localDispatch s conn m = (conn', pc') :=
        congrArg Prod.snd (Option.some.inj hs)
      have hhandled := localDispatch_handled s conn m
      rw [hdispatch] at hhandled
      rw [hm]
      exact hhandled.talk h
  | session | beginning | approving | removing | hooking =>
    obtain ⟨ms, m, rfl, hms, hserves⟩ := h
    simp only [LocalPc.takes, List.append_nil]
    exact (localStep_handled hserves hs).talk hms
  | closing =>
    cases hs
    simp only [LocalPc.takes, List.append_nil]
    exact h
  | closed => cases hs

end Desktop

end Shelly.Daemon
