import Shelly.Daemon.Effects

namespace Shelly.Daemon

def Reply.completes : Reply → Bool
  | .pairingComplete _ => true
  | _ => false

/-- The connection has told its device that the pairing is complete. -/
def IrohConnection.completed (conn : IrohConnection) : Bool := conn.replies.any Reply.completes

namespace IrohConnection

variable {conn : IrohConnection}

theorem completed_append {replies : List Reply} (h : replies.any Reply.completes = false)
    (attached : Option SessionId) :
    { conn with attached := attached, replies := conn.replies ++ replies }.completed =
      conn.completed := by
  rw [completed, List.any_append, h, Bool.or_false]
  rfl

theorem completed_reply {r : Reply} (h : r.completes = false) :
    (conn.reply r).completed = conn.completed := by
  refine completed_append ?_ conn.attached
  rw [List.any_cons, h]
  rfl

theorem completed_requirePaired {answer : IrohConnection × IrohPc}
    (h : answer.1.completed = conn.completed) :
    (conn.requirePaired answer).1.completed = conn.completed := by
  unfold requirePaired
  split
  · exact h
  · exact completed_reply rfl

end IrohConnection

section Completed

variable {host : HostEnv} {storageKey : String → String}
  {pairingSas : String → String → String → Except String String}
variable {c : DaemonChoice} {i : Nat} {conn conn' : IrohConnection} {s s' : DaemonState}
  {pc pc' : IrohPc}

theorem attachedReplies_completes (id : SessionId) (session : Session) (lastSeenSeq : Option Nat) :
    (attachedReplies c id session lastSeenSeq).any Reply.completes = false := by
  simp only [attachedReplies]
  cases session.exitCode with
  | none => rfl
  | some exitCode => rfl

theorem sessionCallStep_completes {attached : Option SessionId} {call : SessionCall}
    {r : DaemonState × Option SessionId × List Reply × Option SessionCall}
    (hs : sessionCallStep host c i attached s call = some r) :
    r.2.2.1.any Reply.completes = false := by
  unfold sessionCallStep at hs
  split at hs
  · cases hs
    rfl
  · cases hs
    rfl
  · obtain ⟨x, -, rfl⟩ := Option.map_eq_some_iff.mp hs
    rfl
  · cases hs
    rfl
  · cases hs
    rfl
  · obtain ⟨x, -, rfl⟩ := Option.map_eq_some_iff.mp hs
    rfl
  -- An attachment.
  · split at hs
    all_goals
      cases hs
      rfl
  · next id size lastSeenSeq =>
    obtain ⟨session, -, rfl⟩ := Option.map_eq_some_iff.mp hs
    dsimp only
    split
    · split
      · exact attachedReplies_completes id session lastSeenSeq
      · exact attachedReplies_completes id session lastSeenSeq
    · rfl
  -- Input and a new size.
  · split at hs
    · cases hs
      rfl
    · split at hs
      all_goals
        cases hs
        rfl
  · split at hs
    all_goals
      cases hs
      rfl

theorem completed_sized {size : ClientSize} {call : SessionCall} :
    (match sized size call with
      | .inl error => (conn.reply error, IrohPc.serving)
      | .inr call => (conn, .session call)).1.completed = conn.completed := by
  unfold sized
  split
  · next error heq =>
    split at heq
    · cases heq
      exact IrohConnection.completed_reply rfl
    · cases heq
  · rfl

variable (pairingSas) in
theorem irohDispatch_completed (s : DaemonState) (conn : IrohConnection) (m : ClientToServerMsg) :
    (irohDispatch pairingSas s conn m).1.completed = conn.completed := by
  cases m with
  | hello => exact IrohConnection.completed_requirePaired rfl
  | input => exact IrohConnection.completed_requirePaired rfl
  | registerPushToken => exact IrohConnection.completed_requirePaired rfl
  | unregisterPushToken => exact IrohConnection.completed_requirePaired rfl
  | detachSession => exact IrohConnection.completed_requirePaired rfl
  | killSession => exact IrohConnection.completed_requirePaired rfl
  | listSessions | subscribeSessions | ping | beginPairing | approvePairing | listDevices
  | removeDevice | agentStateEvent =>
    exact IrohConnection.completed_requirePaired (IrohConnection.completed_reply rfl)
  | attachSession | resize | createSession =>
    exact IrohConnection.completed_requirePaired completed_sized
  | unpairSelf =>
    simp only [irohDispatch]
    split
    · exact IrohConnection.completed_reply rfl
    · rfl
  | pairWithCode code deviceName deviceNodeId =>
    simp only [irohDispatch]
    split
    · exact IrohConnection.completed_reply rfl
    · split
      · next error herror =>
        rw [pairingPeerIdentityError, Option.ite_none_left_eq_some] at herror
        obtain rfl := Option.some.inj herror.2
        exact IrohConnection.completed_reply rfl
      · split
        · exact IrohConnection.completed_reply rfl
        · rfl

theorem irohTake_completed {m : ClientToServerMsg}
    (hs : irohTake storageKey pairingSas c conn m s = some (s', conn', pc')) :
    conn'.completed = conn.completed := by
  simp only [irohTake] at hs
  split at hs
  · cases hs
    rfl
  · have hcompleted := irohDispatch_completed pairingSas s
      { conn with admitted := s.isDevicePaired conn.remoteNodeId } m
    split at hs
    · split at hs
      · cases hs
        exact hcompleted
      · obtain ⟨x, -, heq⟩ := Option.map_eq_some_iff.mp hs
        cases heq
        exact hcompleted
    · cases hs
      exact hcompleted

/-- A device is told that its pairing is complete when it has been saved, and only then. -/
theorem irohStep_completed (hpc : ∀ device, pc ≠ .completing device (.returned true))
    (hs : irohStep host storageKey pairingSas c i conn pc s = some (s', conn', pc')) :
    conn'.completed = conn.completed := by
  cases pc with
  | connecting =>
    simp only [irohStep] at hs
    split at hs
    · cases hs
      rfl
    · split at hs
      · split at hs
        · next error herror =>
          cases hs
          rw [irohClientKindError, Option.ite_none_left_eq_some] at herror
          obtain rfl := Option.some.inj herror.2
          exact IrohConnection.completed_reply rfl
        · cases hs
          have hgreeted : (conn.reply .welcome).completed = conn.completed :=
            IrohConnection.completed_reply rfl
          exact hgreeted
      · cases hs
        exact IrohConnection.completed_reply rfl
    · cases hs
      exact IrohConnection.completed_reply rfl
  | marking =>
    cases hs
    rfl
  | rechecking =>
    cases hs
    rfl
  | serving =>
    simp only [irohStep] at hs
    split at hs
    · cases hs
      rfl
    · exact irohTake_completed hs
  | session call =>
    obtain ⟨r, hr, heq⟩ := Option.map_eq_some_iff.mp hs
    cases heq
    exact IrohConnection.completed_append (sessionCallStep_completes hr) r.2.1
  | requesting call apc =>
    cases apc with
    | returned result =>
      cases result with
      | waited approved =>
        cases approved with
        | true =>
          cases hs
          rfl
        | false =>
          cases hs
          exact IrohConnection.completed_reply rfl
      | failed message =>
        cases hs
        exact IrohConnection.completed_reply rfl
      | abandoned =>
        cases hs
        rfl
    | holding approval =>
      simp only [irohStep, Option.map_eq_some_iff] at hs
      obtain ⟨r, -, heq⟩ := hs
      cases heq
      exact IrohConnection.completed_reply rfl
    | taking | checking | opening | sending | waiting | dropping =>
      simp only [irohStep, Option.map_eq_some_iff] at hs
      obtain ⟨r, -, heq⟩ := hs
      cases heq
      rfl
  | completing device ppc =>
    cases ppc with
    | returned ok =>
      cases ok with
      | true => exact absurd rfl (hpc device)
      | false =>
        cases hs
        rfl
    | waiting | saving | inserting | watching =>
      simp only [irohStep, Option.map_eq_some_iff] at hs
      obtain ⟨r, -, heq⟩ := hs
      cases heq
      rfl
  | unpairing rpc =>
    cases rpc with
    | returned id ok =>
      cases ok with
      | true =>
        cases hs
        have hanswered : (conn.reply (.pong 0)).completed = conn.completed :=
          IrohConnection.completed_reply rfl
        exact hanswered
      | false =>
        cases hs
        exact IrohConnection.completed_reply rfl
    | finding | checking | erasingRow | unmapping | revoking =>
      simp only [irohStep, Option.map_eq_some_iff] at hs
      obtain ⟨r, -, heq⟩ := hs
      cases heq
      rfl
  | updating change =>
    cases hs
    split
    all_goals exact IrohConnection.completed_reply rfl
  | closing =>
    cases hs
    rfl
  | closed => cases hs

theorem iroh_replies (h : IrohEffect host storageKey c i conn s pc s' conn' pc') :
    conn'.remoteNodeId = conn.remoteNodeId ∧ conn.replies <+: conn'.replies := by
  have hcontinued (hconn : conn.Continued conn') :
      conn'.remoteNodeId = conn.remoteNodeId ∧ conn.replies <+: conn'.replies := by
    obtain ⟨rs, hrs, -⟩ := hconn.replies
    exact ⟨hconn.remoteNodeId, rs, hrs.symm⟩
  cases h with
  | quiet hconn => exact hcontinued hconn
  | update _ _ hconn => exact hcontinued hconn
  | request _ hconn => exact hcontinued hconn
  | session => exact ⟨rfl, List.prefix_append _ _⟩
  | complete => exact ⟨rfl, List.prefix_rfl⟩
  | close => exact ⟨rfl, List.prefix_rfl⟩
  | remove hpc =>
    rcases hpc with ⟨-, rfl⟩ | ⟨-, -, rfl⟩
    · exact ⟨rfl, List.prefix_rfl⟩
    · exact ⟨rfl, List.prefix_rfl⟩

/-- A connection that completes a pairing has just been approved, or has taken a step of it. -/
theorem completing_of_step {device : StoredDevice} {ppc' : PairPc}
    (hs : irohStep host storageKey pairingSas c i conn pc s =
      some (s', conn', .completing device ppc')) :
    (ppc' = .waiting ∧ device.deviceNodeId = conn.remoteNodeId) ∨
      ∃ answer ppc, pc = .completing device ppc ∧
        pairStep storageKey answer device ppc s.devices = some (s'.devices, ppc') := by
  have heffect := iroh_effect hs
  generalize htarget : IrohPc.completing device ppc' = pc' at heffect
  cases heffect with
  | quiet _ _ _ _ hcomplete =>
    obtain ⟨call, rfl, hdevice⟩ := hcomplete device ppc' htarget.symm
    cases hs
    exact .inl ⟨rfl, hdevice⟩
  | complete answer hpair =>
    cases htarget
    exact .inr ⟨answer, _, rfl, hpair⟩
  | session hcall =>
    rename_i r
    cases hnext : r.2.2.2 with
    | none => cases hnext ▸ htarget
    | some call => cases hnext ▸ htarget
  | update _ _ _ _ hpc' => rcases hpc' with rfl | rfl <;> cases htarget
  | request | remove | close => cases htarget

/-- What a step of a pairing leaves behind. -/
theorem saved_of_pairStep {answer : DeviceChoice} {device : StoredDevice} {ppc ppc' : PairPc}
    {d d' : DeviceState} (h : pairStep storageKey answer device ppc d = some (d', ppc')) :
    (ppc' = .inserting → ppc = .saving ∧ ∀ rows, d'.persisted = some rows →
      rows.lookup (storageKey device.deviceNodeId) = some device) ∧
    (ppc' = .watching → ppc = .inserting ∧
      d'.devices.lookup device.deviceNodeId = some device) ∧
    (ppc' = .returned true → ppc = .watching) := by
  cases ppc with
  | waiting =>
    simp only [pairStep] at h
    split at h
    all_goals
      cases h
      exact ⟨nofun, nofun, nofun⟩
  | saving =>
    simp only [pairStep] at h
    split at h
    · cases h
      refine ⟨fun _ => ⟨rfl, fun rows hrows => ?_⟩, nofun, nofun⟩
      obtain ⟨old, -, rfl⟩ := Option.map_eq_some_iff.mp hrows
      exact Table.lookup_insert_self _ _ _
    · cases h
      exact ⟨nofun, nofun, nofun⟩
  | inserting =>
    cases h
    exact ⟨nofun, fun _ => ⟨rfl, Table.lookup_insert_self _ _ _⟩, nofun⟩
  | watching =>
    cases h
    exact ⟨nofun, nofun, fun _ => rfl⟩
  | returned ok => cases h

end Completed

end Shelly.Daemon
