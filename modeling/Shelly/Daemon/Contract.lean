import Shelly.Daemon.Dispatch

namespace Shelly.Daemon

/-- How a message is answered in full: by an error, or by what it asks for. Both transports keep
to this. -/
inductive Answers : ClientToServerMsg → List Reply → Prop
  | refused (m : ClientToServerMsg) (code : ErrorCode) (message : String) :
      Answers m [.error code message]
  | hello (clientKind : ClientKind) (protocolVersion : Nat) :
      Answers (.hello clientKind protocolVersion) []
  | listSessions (sessions : List SessionSummary) : Answers .listSessions [.sessionList sessions]
  | subscribeSessions (sessions : List SessionSummary) :
      Answers .subscribeSessions [.sessionList sessions]
  | createSession (call : CreateCall) (id : SessionId) :
      Answers (.createSession call) [.sessionCreated id]
  | attachSession (id : SessionId) (size : ClientSize) (lastSeenSeq : Option Nat)
      (bytes : List UInt8) (seq : Nat) :
      Answers (.attachSession id size lastSeenSeq) [.client (.attached id bytes seq)]
  | attachExited (id : SessionId) (size : ClientSize) (lastSeenSeq : Option Nat)
      (bytes : List UInt8) (seq : Nat) (exitCode : Int) :
      Answers (.attachSession id size lastSeenSeq)
        [.client (.attached id bytes seq), .client (.sessionExited id exitCode)]
  | killSession (id : SessionId) : Answers (.killSession id) [.client (.sessionKilled id)]
  | input (id : SessionId) (bytes : List UInt8) : Answers (.input id bytes) []
  | resize (id : SessionId) (size : ClientSize) : Answers (.resize id size) []
  | ping (seq : Nat) : Answers (.ping seq) [.pong seq]
  | beginPairing (code nodeId : String) (expiresAt : Nat) :
      Answers .beginPairing [.pairingStarted code nodeId expiresAt]
  | approvePairing (requestId : Nat) (approved : Bool) :
      Answers (.approvePairing requestId approved) []
  | paired (code deviceName deviceNodeId sas daemonNodeId : String) :
      Answers (.pairWithCode code deviceName deviceNodeId)
        [.pairingPending sas, .pairingComplete daemonNodeId]
  | denied (code deviceName deviceNodeId sas : String) (error : ErrorCode) (message : String) :
      Answers (.pairWithCode code deviceName deviceNodeId)
        [.pairingPending sas, .error error message]
  | listDevices (devices : List DeviceSummary) : Answers .listDevices [.deviceList devices]
  | removeDevice (name : String) (devices : List DeviceSummary) :
      Answers (.removeDevice name) [.deviceList devices]
  | registerPushToken (platform : PushPlatform) (token : String) :
      Answers (.registerPushToken platform token) [.pong 0]
  | unregisterPushToken (platform : PushPlatform) (token : String) :
      Answers (.unregisterPushToken platform token) [.pong 0]
  | unpairSelf : Answers .unpairSelf [.pong 0]
  | agentStateEvent (id : SessionId) (source : AgentSource) (state : AgentState)
      (lastLine shown : Option String) :
      Answers (.agentStateEvent id source state lastLine)
        [.client (.agentStateChanged id state shown)]

/-- The connection ends before the message is answered in full. -/
inductive Interrupted : ClientToServerMsg → List Reply → Prop
  | unanswered (m : ClientToServerMsg) : Interrupted m []
  | pending (code deviceName deviceNodeId sas : String) :
      Interrupted (.pairWithCode code deviceName deviceNodeId) [.pairingPending sas]

/-- A greeting, and then messages that are answered in full one after the other. -/
inductive Conversation : List ClientToServerMsg → List Reply → Prop
  | welcome (clientKind : ClientKind) (protocolVersion : Nat) :
      Conversation [.hello clientKind protocolVersion] [.welcome]
  | answer {ms : List ClientToServerMsg} {rs as : List Reply} {m : ClientToServerMsg} :
      Conversation ms rs → Answers m as → Conversation (ms ++ [m]) (rs ++ as)

/-- All of a conversation so far: it has not begun, is complete, or stands in its last message. -/
inductive Transcript : List ClientToServerMsg → List Reply → Prop
  | silent : Transcript [] []
  | turnedAway (m : ClientToServerMsg) (code : ErrorCode) (message : String) :
      Transcript [m] [.error code message]
  | complete {ms : List ClientToServerMsg} {rs : List Reply} : Conversation ms rs → Transcript ms rs
  | broken {ms : List ClientToServerMsg} {rs as : List Reply} {m : ClientToServerMsg} :
      Conversation ms rs → Interrupted m as → Transcript (ms ++ [m]) (rs ++ as)

/-- The answers to messages that are sent one after the other, read from the front: to the last one
there may be more to come. -/
inductive Told : List ClientToServerMsg → List Reply → Prop
  | nil : Told [] []
  | last {m : ClientToServerMsg} {as : List Reply} : Interrupted m as → Told [m] as
  | cons {m : ClientToServerMsg} {ms : List ClientToServerMsg} {as rs : List Reply} :
      Answers m as → Told ms rs → Told (m :: ms) (as ++ rs)

section Forward

variable {m : ClientToServerMsg} {ms more : List ClientToServerMsg} {rs as : List Reply}

theorem Conversation.told (h : Conversation ms rs) (hmore : Told more as) :
    ∃ k v ms' rs', ms = .hello k v :: ms' ∧ rs = .welcome :: rs' ∧
      Told (ms' ++ more) (rs' ++ as) := by
  induction h generalizing more as with
  | welcome k v => exact ⟨k, v, [], [], rfl, rfl, hmore⟩
  | @answer ms₁ rs₁ as₁ m₁ _ hm ih =>
    obtain ⟨k, v, ms', rs', rfl, rfl, htold⟩ := ih (.cons hm hmore)
    refine ⟨k, v, ms' ++ [m₁], rs' ++ as₁, rfl, rfl, ?_⟩
    rw [List.append_assoc, List.append_assoc]
    exact htold

/-- A client that has greeted the daemon is turned away, or welcomed and told the rest. -/
theorem Transcript.told (h : Transcript (m :: ms) rs) :
    (ms = [] ∧ ∃ code message, rs = [.error code message]) ∨
      ∃ rs', rs = .welcome :: rs' ∧ Told ms rs' := by
  generalize hsent : m :: ms = sent at h
  cases h with
  | silent => cases hsent
  | turnedAway m code message =>
    cases hsent
    exact .inl ⟨rfl, code, message, rfl⟩
  | complete hconv =>
    obtain ⟨k, v, ms', rs', rfl, rfl, htold⟩ := hconv.told .nil
    cases hsent
    rw [List.append_nil, List.append_nil] at htold
    exact .inr ⟨rs', rfl, htold⟩
  | broken hconv hbroken =>
    obtain ⟨k, v, ms', rs', rfl, rfl, htold⟩ := hconv.told (.last hbroken)
    cases hsent
    exact .inr ⟨_, rfl, htold⟩

end Forward

/-- What a client makes of what it reads: it has what it asked for, or the daemon's error, or a
reply that it has no use for. -/
inductive Reading (ε : Type)
  | done
  | failed (error : ε)
  | unexpected (shown : String)
  deriving DecidableEq

/-- A client that greets the daemon, makes its requests, and from then on sends what it may. -/
def ClientSent (requests : List ClientToServerMsg) (later : ClientToServerMsg → Bool)
    (sent : List ClientToServerMsg) : Prop :=
  ∃ k v, sent <+: .hello k v :: requests ∨
    ∃ more, sent = .hello k v :: (requests ++ more) ∧ more.all later = true

section Phases

variable (m : ClientToServerMsg)

/-- An error is all that a call for a new session fails with. -/
def CreatePc.Refuses (pc : CreatePc) : Prop :=
  ∀ error, pc = .returned (.failed error) → ∃ code message, error = .error code message

/-- The call is made for this message. -/
def SessionCall.Serves : SessionCall → Prop
  | .create _ call pc => m = .createSession call ∧ pc.Refuses
  | .kill id _ => m = .killSession id
  | .attach id size lastSeenSeq | .join id size lastSeenSeq =>
    m = .attachSession id size lastSeenSeq
  | .input id bytes => m = .input id bytes
  | .resize id size => m = .resize id size

/-- The device has been told what to compare. -/
def ApprovalPc.announced : ApprovalPc → Bool
  | .waiting _ _ => true
  | .dropping _ (.failed _) | .returned (.failed _) => false
  | .dropping _ _ | .returned _ => true
  | _ => false

/-- The connection of a device is at this message, and has answered it so far by these. -/
def IrohPc.Serves (as : List Reply) : IrohPc → Prop
  | .session call => call.Serves m ∧ as = []
  | .requesting call pc =>
    (∃ code deviceName deviceNodeId, m = .pairWithCode code deviceName deviceNodeId) ∧
      as = if pc.announced then [.pairingPending call.sas] else []
  | .completing _ _ =>
    (∃ code deviceName deviceNodeId, m = .pairWithCode code deviceName deviceNodeId) ∧
      ∃ sas, as = [.pairingPending sas]
  | .unpairing _ => m = .unpairSelf ∧ as = []
  | .updating (.setPush platform token _) => m = .registerPushToken platform token ∧ as = []
  | .updating (.clearPush platform token _) => m = .unregisterPushToken platform token ∧ as = []
  | _ => False

/-- The same over the local socket, where nothing is answered before the end. -/
def LocalPc.Serves : LocalPc → Prop
  | .session call => call.Serves m
  | .beginning _ => m = .beginPairing
  | .approving requestId approved _ => m = .approvePairing requestId approved
  | .removing name _ _ => m = .removeDevice name
  | .hooking id source state lastLine => m = .agentStateEvent id source state lastLine
  | _ => False

end Phases

/-- What the connection takes in its next step. -/
def IrohPc.takes (c : DaemonChoice) : IrohPc → List ClientToServerMsg
  | .connecting | .serving => c.fromPhone.toList
  | _ => []

def LocalPc.takes (c : DaemonChoice) : LocalPc → List ClientToServerMsg
  | .connecting | .serving => c.fromDesktop.toList
  | _ => []

/-- How far the connection of a device has come with the messages it has taken. -/
def IrohTalk (heard : List ClientToServerMsg) (replies : List Reply) : IrohPc → Prop
  | .connecting => heard = [] ∧ replies = []
  | .marking | .rechecking | .serving => Conversation heard replies
  | .closing | .closed => Transcript heard replies
  | pc => ∃ ms m rs as, heard = ms ++ [m] ∧ replies = rs ++ as ∧ Conversation ms rs ∧
      pc.Serves m as

def LocalTalk (heard : List ClientToServerMsg) (replies : List Reply) : LocalPc → Prop
  | .connecting => heard = [] ∧ replies = []
  | .serving => Conversation heard replies
  | .closing | .closed => Transcript heard replies
  | pc => ∃ ms m, heard = ms ++ [m] ∧ Conversation ms replies ∧ pc.Serves m

end Shelly.Daemon
