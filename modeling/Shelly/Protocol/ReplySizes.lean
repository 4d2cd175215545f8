import Shelly.Protocol.FrameLimit

namespace Shelly.Wire

open Serde Serde.Derived

variable (order : HashOrder)

theorem modest_server (f : Format) : (shape ServerToClientMsg).modest f.bound = true := by
  cases f <;> decide

theorem modest_client (f : Format) : (shape ClientToServerMsg).modest f.bound = true := by
  cases f <;> decide

theorem room_pong (seq : UInt64) : encodedRoom order (ServerToClientMsg.pong seq) = 52 := rfl

theorem room_sessionKilled (id : SessionId) :
    encodedRoom order (ServerToClientMsg.sessionKilled id) = 84 := rfl

theorem room_sessionExited (id : SessionId) (exitCode : Int32) :
    encodedRoom order (ServerToClientMsg.sessionExited id exitCode) = 111 := rfl

theorem room_bytes (bytes : List UInt8) :
    (Shape.seq .u8).room order bytes = 9 + 2 * bytes.length := by
  have hbytes : (bytes.map fun _ => 2).sum = 2 * bytes.length := by
    induction bytes with
    | nil => rfl
    | cons b bytes ih =>
      rw [List.map_cons, List.sum_cons, ih, List.length_cons]
      omega
  change 9 + (bytes.map fun _ => 2).sum = _
  rw [hbytes]

theorem room_attached (id : SessionId) (bytes : List UInt8) (seq : UInt64) :
    encodedRoom order (ServerToClientMsg.attached id bytes seq) = 131 + 2 * bytes.length := by
  have hbytes := room_bytes order bytes
  change 88 + (25 + ((Shape.seq .u8).room order bytes + (9 + 0))) = _
  omega

theorem room_output (id : SessionId) (seq : UInt64) (bytes : List UInt8) :
    encodedRoom order (ServerToClientMsg.output id seq bytes) = 121 + 2 * bytes.length := by
  have hbytes := room_bytes order bytes
  change 78 + (25 + (9 + ((Shape.seq .u8).room order bytes + 0))) = _
  omega

theorem room_lag (id : SessionId) (skippedBytes : UInt64) :
    encodedRoom order (ServerToClientMsg.lag id skippedBytes) = 105 := rfl

theorem room_error (code : ErrorCode) (message : String) :
    encodedRoom order (ServerToClientMsg.error code message) ≤ 118 + message.utf8ByteSize := by
  have hcode : encodedRoom order code ≤ 43 := by
    cases code <;> exact Nat.le_of_ble_eq_true rfl
  change 61 + (encodedRoom order code + (9 + message.utf8ByteSize + 0)) ≤ _
  omega

theorem room_state (state : AgentState) : encodedRoom order state ≤ 40 := by
  cases state <;> exact Nat.le_of_ble_eq_true rfl

/-- What a text takes up that may be missing. -/
def roomOfText : Option String → Nat
  | none => 1
  | some text => 10 + text.utf8ByteSize

theorem room_optionText (text : Option String) :
    (Shape.option .str).room order text = roomOfText text := by
  cases text with
  | none => rfl
  | some text =>
    change 1 + (9 + text.utf8ByteSize) = 10 + text.utf8ByteSize
    omega

theorem room_agentStateChanged (id : SessionId) (state : AgentState) (lastLine : Option String) :
    encodedRoom order (ServerToClientMsg.agentStateChanged id state lastLine) ≤
      200 + roomOfText lastLine := by
  have hstate := room_state order state
  have hline := room_optionText order lastLine
  change 95 + (25 + (encodedRoom order state + ((Shape.option .str).room order lastLine + 0))) ≤ _
  omega

/-- What the texts of a session take up: its name, its command word by word, its directory, and
what is shown of its screen. -/
def SessionSummary.texts (s : SessionSummary) : Nat :=
  s.name.utf8ByteSize + (s.command.map fun word => 9 + word.utf8ByteSize).sum +
    s.cwd.utf8ByteSize + roomOfText s.lastLine + roomOfText s.model

theorem room_summary (s : SessionSummary) : encodedRoom order s ≤ 260 + s.texts := by
  have hstate := room_state order s.state
  have hline := room_optionText order s.lastLine
  have hmodel := room_optionText order s.model
  change 148 + (25 + (9 + s.name.utf8ByteSize +
    (9 + (s.command.map fun word => 9 + word.utf8ByteSize).sum + (9 + s.cwd.utf8ByteSize +
    (9 + (9 + (encodedRoom order s.state + ((Shape.option .str).room order s.lastLine +
      ((Shape.option .str).room order s.model + 0))))))))) ≤ _
  unfold SessionSummary.texts
  omega

theorem room_sessionCreated (id : SessionId) (s : SessionSummary) :
    encodedRoom order (ServerToClientMsg.sessionCreated id s) ≤ 400 + s.texts := by
  have hsummary := room_summary order s
  change 76 + (25 + (encodedRoom order s + 0)) ≤ _
  omega

theorem room_sessionList (sessions : List SessionSummary) :
    encodedRoom order (ServerToClientMsg.sessionList sessions) ≤
      100 + (sessions.map fun s => 260 + s.texts).sum := by
  have hsum : ((sessions.map toVal).map ((shape SessionSummary).room order)).sum ≤
      (sessions.map fun s => 260 + s.texts).sum := by
    rw [List.map_map]
    exact sum_map_le_sum_map (room_summary order)
  change 55 + (9 + ((sessions.map toVal).map ((shape SessionSummary).room order)).sum + 0) ≤ _
  omega

theorem room_welcome (clientId : ClientId) (daemonVersion : String) (capabilities : Capabilities)
    (hostName : String) :
    encodedRoom order (ServerToClientMsg.welcome clientId daemonVersion capabilities hostName) =
      194 + daemonVersion.utf8ByteSize + hostName.utf8ByteSize := by
  change 114 + (25 + (9 + daemonVersion.utf8ByteSize + (37 + (9 + hostName.utf8ByteSize + 0)))) = _
  omega

theorem room_pairingPending (sas : String) :
    encodedRoom order (ServerToClientMsg.pairingPending sas) = 62 + sas.utf8ByteSize := by
  change 53 + (9 + sas.utf8ByteSize + 0) = _
  omega

theorem room_pairingComplete (daemonNodeId : String) :
    encodedRoom order (ServerToClientMsg.pairingComplete daemonNodeId) =
      74 + daemonNodeId.utf8ByteSize := by
  change 65 + (9 + daemonNodeId.utf8ByteSize + 0) = _
  omega

/-- What the texts of a ticket take up. -/
def PairingTicket.texts (t : PairingTicket) : Nat :=
  t.code.utf8ByteSize + t.nodeId.utf8ByteSize + roomOfText t.relayUrl +
    (t.addrs.map fun addr => 9 + addr.utf8ByteSize).sum

theorem room_pairingStarted (t : PairingTicket) :
    encodedRoom order (ServerToClientMsg.pairingStarted t) = 181 + t.texts := by
  have hrelay := room_optionText order t.relayUrl
  change 56 + (89 + (9 + t.code.utf8ByteSize + (9 + t.nodeId.utf8ByteSize +
    ((Shape.option .str).room order t.relayUrl +
      (9 + (t.addrs.map fun addr => 9 + addr.utf8ByteSize).sum + (9 + 0))))) + 0) = _
  unfold PairingTicket.texts
  omega

theorem room_device (d : DeviceSummary) :
    encodedRoom order d ≤ 180 + d.name.utf8ByteSize + d.deviceNodeId.utf8ByteSize := by
  have hseen : (Shape.option .u64).room order d.lastSeen ≤ 10 := by
    cases d.lastSeen with
    | none => exact Nat.le_of_ble_eq_true rfl
    | some seen => exact Nat.le_refl 10
  have hplatform :
      (Shape.option (shape PushPlatform)).room order (d.pushPlatform.map toVal) ≤ 35 := by
    cases d.pushPlatform with
    | none => exact Nat.le_of_ble_eq_true rfl
    | some platform => cases platform <;> exact Nat.le_of_ble_eq_true rfl
  change 103 + (9 + d.name.utf8ByteSize + (9 + d.deviceNodeId.utf8ByteSize + (9 +
    ((Shape.option .u64).room order d.lastSeen +
      ((Shape.option (shape PushPlatform)).room order (d.pushPlatform.map toVal) + 0))))) ≤ _
  omega

theorem room_deviceList (devices : List DeviceSummary) :
    encodedRoom order (ServerToClientMsg.deviceList devices) ≤
      62 + (devices.map fun d => 180 + d.name.utf8ByteSize + d.deviceNodeId.utf8ByteSize).sum := by
  have hsum : ((devices.map toVal).map ((shape DeviceSummary).room order)).sum ≤
      (devices.map fun d => 180 + d.name.utf8ByteSize + d.deviceNodeId.utf8ByteSize).sum := by
    rw [List.map_map]
    exact sum_map_le_sum_map (room_device order)
  change 53 + (9 + ((devices.map toVal).map ((shape DeviceSummary).room order)).sum + 0) ≤ _
  omega

end Shelly.Wire
