import Shelly.Daemon.RingLimits
import Shelly.Daemon.SnapshotLength
import Shelly.Protocol.ReplySizes

namespace Shelly.Daemon

section Replies

/-- What the replies show besides what the state keeps: the identifiers as they are sent, what the
daemon says of itself, and of a session what is only known while it runs. -/
structure Presentation where
  uuid : SessionId → Wire.SessionId
  clientId : Wire.ClientId
  daemonVersion : String
  capabilities : Wire.Capabilities
  hostName : String
  command : SessionId → List String
  cwd : SessionId → String
  state : SessionId → AgentState
  lastLine : SessionId → Option String
  relayUrl : Option String
  addrs : List String

namespace Presentation

variable (P : Presentation) (s : DaemonState)

def summary (o : SessionSummary) : Wire.SessionSummary where
  id := P.uuid o.id
  name := o.name
  command := ((s.registry.processes.lookup o.id).map (·.command)).getD (P.command o.id)
  cwd := ((s.registry.processes.lookup o.id).map (·.cwd)).getD (P.cwd o.id)
  createdAt := .ofNat o.createdAt
  lastActivity := .ofNat o.lastActivity
  state := ((s.terminals.lookup o.id).map (·.state)).getD (P.state o.id)
  lastLine := ((s.terminals.lookup o.id).map (·.lastLine)).getD (P.lastLine o.id)
  model := none

/-- The summary of a session that was created. -/
def created (id : SessionId) : Wire.SessionSummary :=
  P.summary s (((s.registry.app.objects.lookup id).map (·.cachedSummary)).getD ⟨id, "", 0, 0⟩)

def device (d : DeviceSummary) : Wire.DeviceSummary :=
  ⟨d.name, d.deviceNodeId, .ofNat d.pairedAt, d.lastSeen.map .ofNat, d.pushPlatform⟩

def ticket (code nodeId : String) (expiresAt : Nat) : Wire.PairingTicket :=
  ⟨code, nodeId, P.relayUrl, P.addrs, .ofNat expiresAt⟩

def message : ServerToClientMsg → Wire.ServerToClientMsg
  | .sessionKilled id => .sessionKilled (P.uuid id)
  | .attached id bytes seq => .attached (P.uuid id) bytes (.ofNat seq)
  | .output id seq bytes => .output (P.uuid id) (.ofNat seq) bytes
  | .agentStateChanged id state lastLine => .agentStateChanged (P.uuid id) state lastLine
  | .sessionExited id exitCode => .sessionExited (P.uuid id) (.ofInt exitCode)
  | .lag id skippedBytes => .lag (P.uuid id) (.ofNat skippedBytes)
  | .error code message => .error code message

/-- A reply as it is sent. -/
def reply : Reply → Wire.ServerToClientMsg
  | .welcome => .welcome P.clientId P.daemonVersion P.capabilities P.hostName
  | .sessionList sessions => .sessionList (sessions.map (P.summary s))
  | .sessionCreated id => .sessionCreated (P.uuid id) (P.created s id)
  | .pairingStarted code nodeId expiresAt => .pairingStarted (P.ticket code nodeId expiresAt)
  | .pairingPending sas => .pairingPending sas
  | .pairingComplete daemonNodeId => .pairingComplete daemonNodeId
  | .deviceList devices => .deviceList (devices.map device)
  | .pong seq => .pong (.ofNat seq)
  | .client m => P.message m

end Presentation

/-- Replies that a frame has room for. The ones with texts count by them, and an attachment by the
screen if it does not replay what a buffer keeps. -/
inductive Reply.Limited (P : Presentation) (s : DaemonState) : Reply → Prop
  | welcome (h : P.daemonVersion.utf8ByteSize + P.hostName.utf8ByteSize ≤ 1000000) :
      Limited P s .welcome
  | sessionList {sessions : List SessionSummary}
      (h : 100 + (sessions.map fun o => 260 + (P.summary s o).texts).sum ≤ maxFrameLen) :
      Limited P s (.sessionList sessions)
  | sessionCreated {id : SessionId} (h : 400 + (P.created s id).texts ≤ maxFrameLen) :
      Limited P s (.sessionCreated id)
  | pairingStarted {code nodeId : String} {expiresAt : Nat}
      (h : 181 + (P.ticket code nodeId expiresAt).texts ≤ maxFrameLen) :
      Limited P s (.pairingStarted code nodeId expiresAt)
  | pairingPending {sas : String} (h : sas.utf8ByteSize ≤ 1000000) :
      Limited P s (.pairingPending sas)
  | pairingComplete {daemonNodeId : String} (h : daemonNodeId.utf8ByteSize ≤ 1000000) :
      Limited P s (.pairingComplete daemonNodeId)
  | deviceList {devices : List DeviceSummary}
      (h : 62 + (devices.map fun d =>
        180 + d.name.utf8ByteSize + d.deviceNodeId.utf8ByteSize).sum ≤ maxFrameLen) :
      Limited P s (.deviceList devices)
  | pong (seq : Nat) : Limited P s (.pong seq)
  | sessionKilled (id : SessionId) : Limited P s (.client (.sessionKilled id))
  | sessionExited (id : SessionId) (exitCode : Int) :
      Limited P s (.client (.sessionExited id exitCode))
  | lag (id : SessionId) (skippedBytes : Nat) : Limited P s (.client (.lag id skippedBytes))
  | output (id : SessionId) (seq : Nat) {bytes : List UInt8} (h : bytes.length ≤ 500000) :
      Limited P s (.client (.output id seq bytes))
  | agentStateChanged (id : SessionId) (state : AgentState) {lastLine : Option String}
      (h : ∀ line, lastLine = some line → line.toList.length ≤ 80) :
      Limited P s (.client (.agentStateChanged id state lastLine))
  | error (code : ErrorCode) {message : String} (h : message.utf8ByteSize ≤ 1000000) :
      Limited P s (.error code message)
  | replayed {id : SessionId} {o : Session} {lastSeenSeq : Option Nat} {screen : List UInt8}
      (ho : s.registry.app.objects.lookup id = some o) (h : o.replays lastSeenSeq = true) :
      Limited P s (.client (.attached id (o.attachBytes lastSeenSeq screen).2
        (o.attachBytes lastSeenSeq screen).1))
  | restored {id : SessionId} {stored : StoredSession} (seq : Nat)
      (h : s.registry.app.restored.lookup id = some stored) :
      Limited P s (.client (.attached id stored.scrollback seq))
  | rendered (id : SessionId) (isEmpty : Cell → Bool) {screen : Screen} {title : String} (seq : Nat)
      (h : screen.room title ≤ 500000) :
      Limited P s (.client (.attached id (renderSnapshot isEmpty screen title) seq))

variable {P : Presentation} {order : Serde.HashOrder} {s : DaemonState} {r : Reply}

theorem room_of_attached {id : SessionId} {bytes : List UInt8} {seq : Nat}
    (h : bytes.length ≤ 500000) :
    encodedRoom order (P.reply s (.client (.attached id bytes seq))) ≤ maxFrameLen := by
  have hroom := Wire.room_attached order (P.uuid id) bytes (.ofNat seq)
  change encodedRoom order (Wire.ServerToClientMsg.attached (P.uuid id) bytes (.ofNat seq)) ≤ _
  rw [hroom]
  unfold maxFrameLen
  omega

theorem room_of_limited (hs : s.registry.app.Bounded) (h : r.Limited P s) :
    encodedRoom order (P.reply s r) ≤ maxFrameLen := by
  have hring : ringCapacity ≤ 500000 := by decide
  have hmax : maxFrameLen = 1048576 := rfl
  cases h with
  | welcome h =>
    refine (Wire.room_welcome _ _ _ _ _).trans_le ?_
    omega
  | sessionList htexts =>
    refine (Wire.room_sessionList _ _).trans ?_
    rw [List.map_map]
    exact htexts
  | sessionCreated htexts => exact (Wire.room_sessionCreated _ _ _).trans htexts
  | pairingStarted htexts => exact (Wire.room_pairingStarted _ _).trans_le htexts
  | pairingPending h =>
    refine (Wire.room_pairingPending _ _).trans_le ?_
    omega
  | pairingComplete h =>
    refine (Wire.room_pairingComplete _ _).trans_le ?_
    omega
  | deviceList htexts =>
    refine (Wire.room_deviceList _ _).trans ?_
    rw [List.map_map]
    exact htexts
  | pong seq => exact (Wire.room_pong _ _).trans_le (by decide)
  | sessionKilled id => exact (Wire.room_sessionKilled _ _).trans_le (by decide)
  | sessionExited id exitCode => exact (Wire.room_sessionExited _ _ _).trans_le (by decide)
  | lag id skippedBytes => exact (Wire.room_lag _ _ _).trans_le (by decide)
  | output id seq h =>
    refine (Wire.room_output _ _ _ _).trans_le ?_
    omega
  | agentStateChanged id state hline =>
    refine (Wire.room_agentStateChanged _ _ _ _).trans ?_
    rename_i lastLine
    unfold Wire.roomOfText
    cases lastLine with
    | none => decide
    | some line =>
      have hlength := hline line rfl
      have hbytes := utf8ByteSize_le line
      dsimp only
      omega
  | error code hmessage =>
    refine (Wire.room_error _ _ _).trans ?_
    omega
  | replayed ho hreplays =>
    refine room_of_attached (le_trans ?_ hring)
    have ho := hs.objects _ _ ho
    unfold Session.replays at hreplays
    unfold Session.attachBytes
    obtain ⟨⟨start, replay⟩, hreplay⟩ := Option.isSome_iff_exists.mp hreplays
    obtain ⟨seq, -, hfrom⟩ := Option.bind_eq_some_iff.mp hreplay
    rw [hreplay]
    exact PtyRingBuffer.Bounded.replay ho hfrom
  | restored seq hstored => exact room_of_attached ((hs.restored _ _ hstored).trans hring)
  | rendered id isEmpty seq hscreen =>
    exact room_of_attached ((length_renderSnapshot_le isEmpty _ _).trans hscreen)

end Replies

section Traces

/-- A daemon whose identifiers are all zeros, under names that are short. -/
private def plain : Presentation where
  uuid := fun _ => Vector.replicate 16 0
  clientId := Vector.replicate 16 0
  daemonVersion := "0.1.0"
  capabilities := ⟨true⟩
  hostName := "home"
  command := fun _ => []
  cwd := fun _ => ""
  state := fun _ => .idle
  lastLine := fun _ => none
  relayUrl := none
  addrs := []

end Traces

end Shelly.Daemon
