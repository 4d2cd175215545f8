import Shelly.Daemon.Creation
import Shelly.Daemon.Devices
import Shelly.Daemon.Pairing

namespace Shelly.Daemon

def contractVersion : Nat := 5

def minPairedContractVersion : Nat := 4

inductive AgentSource
  | claude | codex
  deriving DecidableEq

inductive ClientToServerMsg
  | hello (clientKind : ClientKind) (protocolVersion : Nat)
  | listSessions
  | createSession (call : CreateCall)
  | attachSession (sessionId : SessionId) (size : ClientSize) (lastSeenSeq : Option Nat)
  | detachSession
  | killSession (sessionId : SessionId)
  | input (sessionId : SessionId) (bytes : List UInt8)
  | resize (sessionId : SessionId) (size : ClientSize)
  | ping (seq : Nat)
  | beginPairing
  | approvePairing (requestId : Nat) (approved : Bool)
  | pairWithCode (code deviceName deviceNodeId : String)
  | listDevices
  | removeDevice (name : String)
  | registerPushToken (platform : PushPlatform) (token : String)
  | agentStateEvent (sessionId : SessionId) (source : AgentSource) (state : AgentState)
      (lastLine : Option String)
  | subscribeSessions
  | unregisterPushToken (platform : PushPlatform) (token : String)
  | unpairSelf
  deriving DecidableEq

structure DeviceSummary where
  name : String
  deviceNodeId : String
  pairedAt : Nat
  lastSeen : Option Nat
  pushPlatform : Option PushPlatform
  deriving DecidableEq

/-- What a connection writes back. `client` is for errors and for what an attached client gets. -/
inductive Reply
  | welcome
  | sessionList (sessions : List SessionSummary)
  | sessionCreated (sessionId : SessionId)
  | pairingStarted (code : String) (nodeId : String) (expiresAt : Nat)
  | pairingPending (sas : String)
  | pairingComplete (daemonNodeId : String)
  | deviceList (devices : List DeviceSummary)
  | pong (seq : Nat)
  | client (message : ServerToClientMsg)
  deriving DecidableEq

def Reply.error (code : ErrorCode) (message : String) : Reply := .client (.error code message)

/-- Where a message comes from: from a device, under the identity its connection has proved, or
over the local socket. -/
inductive Caller
  | iroh (nodeId : String)
  | localSocket (clientKind : ClientKind)
  deriving DecidableEq

/-- What a session has besides its registry entry: the state of its agent, the input that was
queued for it, and the sizes of the clients that are attached to it. -/
structure TerminalStatus where
  state : AgentState
  lastLine : Option String
  input : List UInt8
  attachedSizes : Table Nat ClientSize

def TerminalStatus.new : TerminalStatus := ⟨.idle, none, [], .empty⟩

/-- The shared state of the daemon. A session without an entry in `terminals` is as it was
made. `approvals` is history: who called `approve` since the daemon started, and how. -/
structure DaemonState where
  registry : Registry
  terminals : Table SessionId TerminalStatus
  devices : DeviceState
  pairing : PairingManager
  irohNodeId : Option String
  clock : Nat
  approvals : List (Caller × Nat × Bool)

/-- What the outside decides in one step: what a device or a desktop client sends, if it sends
anything, which device is found under a name, and what a screen looks like. -/
structure DaemonChoice extends RegistryChoice, PairingChoice where
  fromPhone : Option ClientToServerMsg
  fromDesktop : Option ClientToServerMsg
  found : Option String
  screen : List UInt8
  deriving DecidableEq

def DaemonChoice.device (c : DaemonChoice) : DeviceChoice := ⟨c.ok, c.found⟩

namespace DaemonState

variable (s : DaemonState)

/-- Looks a session up in the live map. -/
def get (id : SessionId) : Option Session := s.registry.app.get id

def terminal (id : SessionId) : TerminalStatus := (s.terminals.lookup id).getD .new

def setTerminal (id : SessionId) (t : TerminalStatus) : DaemonState :=
  { s with terminals := s.terminals.insert id t }

def isDevicePaired (id : String) : Bool := s.devices.devices.contains id

/-- In the order of their pairing. -/
def deviceSummaries : List DeviceSummary :=
  ((s.devices.devices.entries.map (·.2)).map fun d =>
    ⟨d.name, d.deviceNodeId, d.pairedAt, d.lastSeen, d.pushPlatform⟩).mergeSort
      fun a b => a.pairedAt ≤ b.pairedAt

/-- In the order of their creation. -/
def summaries : List SessionSummary :=
  s.registry.app.summaries.mergeSort fun a b => a.createdAt ≤ b.createdAt

def attachClient (client : Nat) (id : SessionId) (size : ClientSize) : DaemonState :=
  let t := s.terminal id
  s.setTerminal id { t with attachedSizes := t.attachedSizes.insert client size }

def updateClientSize (client : Nat) (id : SessionId) (size : ClientSize) : DaemonState :=
  let t := s.terminal id
  s.setTerminal id { t with attachedSizes := t.attachedSizes.modify client fun _ => size }

/-- What dropping an attachment does. -/
def detachClient (client : Nat) : Option SessionId → DaemonState
  | none => s
  | some id =>
    let t := s.terminal id
    s.setTerminal id { t with attachedSizes := t.attachedSizes.erase client }

/-- Queues the input; a session that still runs is working from then on. -/
def writeInput (id : SessionId) (session : Session) (bytes : List UInt8) : DaemonState :=
  let t := s.terminal id
  s.setTerminal id { t with
    input := t.input ++ bytes
    state := if session.exitCode.isNone then .working else t.state }

/-- Whether a hook of this source may speak for a session that runs such a command. -/
def sourceMatchesCommand (source : AgentSource) (kind : CommandKind) : Bool :=
  match source, kind with
  | .claude, .claude => true
  | .codex, .codex => true
  | _, kind => kind == .unknown

def applyAgentStateEvent (id : SessionId) (state : AgentState) (lastLine : Option String) :
    DaemonState :=
  let t := s.terminal id
  let lastLine := lastLine.map fun line => String.ofList (line.toList.take 80)
  { s.setTerminal id { t with state := state, lastLine := lastLine <|> t.lastLine } with
    registry := { s.registry with
      app := s.registry.app.update id fun o => { o with persistDirty := true } } }

end DaemonState

/-- What a client that attaches to a live session gets first. -/
def attachedReplies (c : DaemonChoice) (id : SessionId) (session : Session)
    (lastSeenSeq : Option Nat) : List Reply :=
  let (seq, bytes) := session.attachBytes lastSeenSeq c.screen
  .client (.attached id bytes seq) ::
    (session.exitCode.map fun exitCode => Reply.client (.sessionExited id exitCode)).toList

/-- What a client gets that attaches to a session of which only the stored end is left. -/
def restoredReplies (id : SessionId) (stored : StoredSession) : List Reply :=
  [.client (.attached id stored.scrollback
      (saturatingAdd stored.scrollbackStartSeq stored.scrollback.length)),
    .client (.sessionExited id (stored.exitCode.getD 0))]

end Shelly.Daemon
