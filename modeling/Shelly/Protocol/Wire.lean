import Mathlib.Data.Fin.VecNotation
import Shelly.Framework.Serde
import Shelly.Protocol.Messages

namespace Shelly.Wire

open Serde Serde.Derived

abbrev Uuid := Vector UInt8 16

abbrev SessionId := Uuid

abbrev ClientId := Uuid

inductive ClientKind
  | localCli | iosApp | androidApp
  deriving DecidableEq

inductive AgentSource
  | claude | codex
  deriving DecidableEq

structure ClientSize where
  cols : UInt16
  rows : UInt16
  deriving DecidableEq

/-- The path is one that is UTF-8. -/
structure SessionSummary where
  id : SessionId
  name : String
  command : List String
  cwd : String
  createdAt : UInt64
  lastActivity : UInt64
  state : AgentState
  lastLine : Option String
  model : Option String
  deriving DecidableEq

structure PairingTicket where
  code : String
  nodeId : String
  relayUrl : Option String
  addrs : List String
  expiresAt : UInt64
  deriving DecidableEq

structure DeviceSummary where
  name : String
  deviceNodeId : String
  pairedAt : UInt64
  lastSeen : Option UInt64
  pushPlatform : Option PushPlatform
  deriving DecidableEq

structure Capabilities where
  pushNotifications : Bool
  deriving DecidableEq

/-- Messages sent by CLI or mobile clients to the daemon. -/
inductive ClientToServerMsg
  | hello (clientKind : ClientKind) (clientVersion : String) (protocolVersion : UInt32)
  | listSessions
  | createSession (name : String) (command : List String) (cwd : String) (env : TextMap) (size :
    ClientSize)
  | attachSession (sessionId : SessionId) (size : ClientSize) (lastSeenSeq : Option UInt64)
  | detachSession
  | killSession (sessionId : SessionId)
  | input (sessionId : SessionId) (bytes : List UInt8)
  | resize (sessionId : SessionId) (size : ClientSize)
  | ping (seq : UInt64)
  | beginPairing (deviceName : Option String)
  | approvePairing (requestId : ClientId) (approved : Bool)
  | pairWithCode (code : String) (deviceName : String) (deviceNodeId : String)
  | listDevices
  | removeDevice (name : String)
  | registerPushToken (platform : PushPlatform) (token : String)
  | agentStateEvent (sessionId : SessionId) (source : AgentSource) (state : AgentState) (lastLine :
    Option String)
  | subscribeSessions
  | unregisterPushToken (platform : PushPlatform) (token : String)
  | unpairSelf
  deriving DecidableEq

/-- Messages sent by the daemon to CLI or mobile clients. -/
inductive ServerToClientMsg
  | welcome (clientId : ClientId) (daemonVersion : String) (capabilities : Capabilities) (hostName :
    String)
  | sessionList (sessions : List SessionSummary)
  | sessionCreated (sessionId : SessionId) (summary : SessionSummary)
  | sessionKilled (sessionId : SessionId)
  | attached (sessionId : SessionId) (initialBytes : List UInt8) (seq : UInt64)
  | output (sessionId : SessionId) (seq : UInt64) (bytes : List UInt8)
  | agentStateChanged (sessionId : SessionId) (state : AgentState) (lastLine : Option String)
  | sessionExited (sessionId : SessionId) (exitCode : Int32)
  | lag (sessionId : SessionId) (skippedBytes : UInt64)
  | pairingStarted (ticket : PairingTicket)
  | pairingApprovalRequested (requestId : ClientId) (deviceName : String) (deviceNodeId : String)
    (sas : String)
  | pairingComplete (daemonNodeId : String)
  | deviceList (devices : List DeviceSummary)
  | pong (seq : UInt64)
  | error (code : ErrorCode) (message : String)
  | pairingPending (sas : String)
  deriving DecidableEq

instance : Derived ClientKind where
  shape := .enum 3 !["LocalCli", "IosApp", "AndroidApp"] fun _ => .nil
  wellFormed := by decide
  toVal
    | .localCli => ⟨0, ()⟩
    | .iosApp => ⟨1, ()⟩
    | .androidApp => ⟨2, ()⟩
  ofVal
    | ⟨0, ()⟩ => .localCli
    | ⟨1, ()⟩ => .iosApp
    | ⟨2, ()⟩ => .androidApp
    | ⟨⟨_ + 3, hlt⟩, _⟩ => absurd hlt (by omega)
  ofVal_toVal a := by cases a <;> rfl

instance : Derived AgentSource where
  shape := .enum 2 !["Claude", "Codex"] fun _ => .nil
  wellFormed := by decide
  toVal
    | .claude => ⟨0, ()⟩
    | .codex => ⟨1, ()⟩
  ofVal
    | ⟨0, ()⟩ => .claude
    | ⟨1, ()⟩ => .codex
    | ⟨⟨_ + 2, hlt⟩, _⟩ => absurd hlt (by omega)
  ofVal_toVal a := by cases a <;> rfl

instance : Derived PushPlatform where
  shape := .enum 2 !["Apns", "Fcm"] fun _ => .nil
  wellFormed := by decide
  toVal
    | .apns => ⟨0, ()⟩
    | .fcm => ⟨1, ()⟩
  ofVal
    | ⟨0, ()⟩ => .apns
    | ⟨1, ()⟩ => .fcm
    | ⟨⟨_ + 2, hlt⟩, _⟩ => absurd hlt (by omega)
  ofVal_toVal a := by cases a <;> rfl

instance : Derived AgentState where
  shape := .enum 4 !["Idle", "Working", "AwaitingInput", "Crashed"] fun _ => .nil
  wellFormed := by decide
  toVal
    | .idle => ⟨0, ()⟩
    | .working => ⟨1, ()⟩
    | .awaitingInput => ⟨2, ()⟩
    | .crashed => ⟨3, ()⟩
  ofVal
    | ⟨0, ()⟩ => .idle
    | ⟨1, ()⟩ => .working
    | ⟨2, ()⟩ => .awaitingInput
    | ⟨3, ()⟩ => .crashed
    | ⟨⟨_ + 4, hlt⟩, _⟩ => absurd hlt (by omega)
  ofVal_toVal a := by cases a <;> rfl

instance : Derived ErrorCode where
  shape := .enum 6
    !["ProtocolMismatch", "Unauthorized", "Forbidden", "NotFound", "InvalidRequest", "Internal"]
    fun _ => .nil
  wellFormed := by decide
  toVal
    | .versionMismatch => ⟨0, ()⟩
    | .unauthorized => ⟨1, ()⟩
    | .forbidden => ⟨2, ()⟩
    | .notFound => ⟨3, ()⟩
    | .invalidRequest => ⟨4, ()⟩
    | .internal => ⟨5, ()⟩
  ofVal
    | ⟨0, ()⟩ => .versionMismatch
    | ⟨1, ()⟩ => .unauthorized
    | ⟨2, ()⟩ => .forbidden
    | ⟨3, ()⟩ => .notFound
    | ⟨4, ()⟩ => .invalidRequest
    | ⟨5, ()⟩ => .internal
    | ⟨⟨_ + 6, hlt⟩, _⟩ => absurd hlt (by omega)
  ofVal_toVal a := by cases a <;> rfl

instance : Derived ClientSize where
  shape := .struct (fields [("cols", .u16), ("rows", .u16)])
  wellFormed := by decide
  toVal a := (a.cols, a.rows, ())
  ofVal := fun (cols, rows, ()) => ⟨cols, rows⟩
  ofVal_toVal _ := rfl

instance : Derived SessionSummary where
  shape := .struct (fields [("id", .bytes 16), ("name", .str), ("command", .seq .str),
    ("cwd", .str), ("created_at", .u64), ("last_activity", .u64), ("state", shape AgentState),
    ("last_line", .option .str), ("model", .option .str)])
  wellFormed := by decide
  toVal a := (a.id, a.name, a.command, a.cwd, a.createdAt, a.lastActivity, toVal a.state,
    a.lastLine, a.model, ())
  ofVal := fun (id, name, command, cwd, createdAt, lastActivity, state, lastLine, model, ()) =>
    ⟨id, name, command, cwd, createdAt, lastActivity, ofVal state, lastLine, model⟩
  ofVal_toVal a := by simp

instance : Derived PairingTicket where
  shape := .struct (fields [("code", .str), ("node_id", .str), ("relay_url", .option .str),
    ("addrs", .seq .str), ("expires_at", .u64)])
  wellFormed := by decide
  toVal a := (a.code, a.nodeId, a.relayUrl, a.addrs, a.expiresAt, ())
  ofVal := fun (code, nodeId, relayUrl, addrs, expiresAt, ()) =>
    ⟨code, nodeId, relayUrl, addrs, expiresAt⟩
  ofVal_toVal _ := rfl

instance : Derived DeviceSummary where
  shape := .struct (fields [("name", .str), ("device_node_id", .str), ("paired_at", .u64),
    ("last_seen", .option .u64), ("push_platform", .option (shape PushPlatform))])
  wellFormed := by decide
  toVal a := (a.name, a.deviceNodeId, a.pairedAt, a.lastSeen, a.pushPlatform.map toVal, ())
  ofVal := fun (name, deviceNodeId, pairedAt, lastSeen, pushPlatform, ()) =>
    ⟨name, deviceNodeId, pairedAt, lastSeen, pushPlatform.map ofVal⟩
  ofVal_toVal a := by simp

instance : Derived Capabilities where
  shape := .struct (fields [("push_notifications", .bool)])
  wellFormed := by decide
  toVal a := (a.pushNotifications, ())
  ofVal := fun (pushNotifications, ()) => ⟨pushNotifications⟩
  ofVal_toVal _ := rfl

instance : Derived ClientToServerMsg where
  shape := .enum 19
    !["Hello", "ListSessions", "CreateSession", "AttachSession", "DetachSession", "KillSession",
      "Input", "Resize", "Ping", "BeginPairing", "ApprovePairing", "PairWithCode", "ListDevices",
      "RemoveDevice", "RegisterPushToken", "AgentStateEvent", "SubscribeSessions",
      "UnregisterPushToken", "UnpairSelf"]
    ![fields [("client_kind", shape ClientKind), ("client_version", .str),
        ("protocol_version", .u32)],
      .nil,
      fields [("name", .str), ("command", .seq .str), ("cwd", .str), ("env", .map),
        ("size", shape ClientSize)],
      fields [("session_id", .bytes 16), ("size", shape ClientSize),
        ("last_seen_seq", .option .u64)],
      .nil,
      fields [("session_id", .bytes 16)],
      fields [("session_id", .bytes 16), ("bytes", .seq .u8)],
      fields [("session_id", .bytes 16), ("size", shape ClientSize)],
      fields [("seq", .u64)],
      fields [("device_name", .option .str)],
      fields [("request_id", .bytes 16), ("approved", .bool)],
      fields [("code", .str), ("device_name", .str), ("device_node_id", .str)],
      .nil,
      fields [("name", .str)],
      fields [("platform", shape PushPlatform), ("token", .str)],
      fields [("session_id", .bytes 16), ("source", shape AgentSource), ("state", shape AgentState),
        ("last_line", .option .str)],
      .nil,
      fields [("platform", shape PushPlatform), ("token", .str)],
      .nil]
  wellFormed := by decide
  toVal
    | .hello clientKind clientVersion protocolVersion => ⟨0, toVal clientKind, clientVersion,
      protocolVersion, ()⟩
    | .listSessions => ⟨1, ()⟩
    | .createSession name command cwd env size => ⟨2, name, command, cwd, env, toVal size, ()⟩
    | .attachSession sessionId size lastSeenSeq => ⟨3, sessionId, toVal size, lastSeenSeq, ()⟩
    | .detachSession => ⟨4, ()⟩
    | .killSession sessionId => ⟨5, sessionId, ()⟩
    | .input sessionId bytes => ⟨6, sessionId, bytes, ()⟩
    | .resize sessionId size => ⟨7, sessionId, toVal size, ()⟩
    | .ping seq => ⟨8, seq, ()⟩
    | .beginPairing deviceName => ⟨9, deviceName, ()⟩
    | .approvePairing requestId approved => ⟨10, requestId, approved, ()⟩
    | .pairWithCode code deviceName deviceNodeId => ⟨11, code, deviceName, deviceNodeId, ()⟩
    | .listDevices => ⟨12, ()⟩
    | .removeDevice name => ⟨13, name, ()⟩
    | .registerPushToken platform token => ⟨14, toVal platform, token, ()⟩
    | .agentStateEvent sessionId source state lastLine => ⟨15, sessionId, toVal source, toVal state,
      lastLine, ()⟩
    | .subscribeSessions => ⟨16, ()⟩
    | .unregisterPushToken platform token => ⟨17, toVal platform, token, ()⟩
    | .unpairSelf => ⟨18, ()⟩
  ofVal
    | ⟨0, clientKind, clientVersion, protocolVersion, ()⟩ => .hello (ofVal clientKind) clientVersion
      protocolVersion
    | ⟨1, ()⟩ => .listSessions
    | ⟨2, name, command, cwd, env, size, ()⟩ => .createSession name command cwd env (ofVal size)
    | ⟨3, sessionId, size, lastSeenSeq, ()⟩ => .attachSession sessionId (ofVal size) lastSeenSeq
    | ⟨4, ()⟩ => .detachSession
    | ⟨5, sessionId, ()⟩ => .killSession sessionId
    | ⟨6, sessionId, bytes, ()⟩ => .input sessionId bytes
    | ⟨7, sessionId, size, ()⟩ => .resize sessionId (ofVal size)
    | ⟨8, seq, ()⟩ => .ping seq
    | ⟨9, deviceName, ()⟩ => .beginPairing deviceName
    | ⟨10, requestId, approved, ()⟩ => .approvePairing requestId approved
    | ⟨11, code, deviceName, deviceNodeId, ()⟩ => .pairWithCode code deviceName deviceNodeId
    | ⟨12, ()⟩ => .listDevices
    | ⟨13, name, ()⟩ => .removeDevice name
    | ⟨14, platform, token, ()⟩ => .registerPushToken (ofVal platform) token
    | ⟨15, sessionId, source, state, lastLine, ()⟩ => .agentStateEvent sessionId (ofVal source)
      (ofVal state) lastLine
    | ⟨16, ()⟩ => .subscribeSessions
    | ⟨17, platform, token, ()⟩ => .unregisterPushToken (ofVal platform) token
    | ⟨18, ()⟩ => .unpairSelf
    | ⟨⟨_ + 19, hlt⟩, _⟩ => absurd hlt (by omega)
  ofVal_toVal a := by cases a <;> simp

instance : Derived ServerToClientMsg where
  shape := .enum 16
    !["Welcome", "SessionList", "SessionCreated", "SessionKilled", "Attached", "Output",
      "AgentStateChanged", "SessionExited", "Lag", "PairingStarted", "PairingApprovalRequested",
      "PairingComplete", "DeviceList", "Pong", "Error", "PairingPending"]
    ![.field "client_id" false (.bytes 16) <| .field "daemon_version" false .str <| .field
        "capabilities" false (shape Capabilities) <| .field "host_name" true .str <| .nil,
      fields [("sessions", .seq (shape SessionSummary))],
      fields [("session_id", .bytes 16), ("summary", shape SessionSummary)],
      fields [("session_id", .bytes 16)],
      fields [("session_id", .bytes 16), ("initial_bytes", .seq .u8), ("seq", .u64)],
      fields [("session_id", .bytes 16), ("seq", .u64), ("bytes", .seq .u8)],
      fields [("session_id", .bytes 16), ("state", shape AgentState), ("last_line", .option .str)],
      fields [("session_id", .bytes 16), ("exit_code", .i32)],
      fields [("session_id", .bytes 16), ("skipped_bytes", .u64)],
      fields [("ticket", shape PairingTicket)],
      fields [("request_id", .bytes 16), ("device_name", .str), ("device_node_id", .str),
        ("sas", .str)],
      fields [("daemon_node_id", .str)],
      fields [("devices", .seq (shape DeviceSummary))],
      fields [("seq", .u64)],
      fields [("code", shape ErrorCode), ("message", .str)],
      fields [("sas", .str)]]
  wellFormed := by decide
  toVal
    | .welcome clientId daemonVersion capabilities hostName => ⟨0, clientId, daemonVersion, toVal
      capabilities, hostName, ()⟩
    | .sessionList sessions => ⟨1, sessions.map toVal, ()⟩
    | .sessionCreated sessionId summary => ⟨2, sessionId, toVal summary, ()⟩
    | .sessionKilled sessionId => ⟨3, sessionId, ()⟩
    | .attached sessionId initialBytes seq => ⟨4, sessionId, initialBytes, seq, ()⟩
    | .output sessionId seq bytes => ⟨5, sessionId, seq, bytes, ()⟩
    | .agentStateChanged sessionId state lastLine => ⟨6, sessionId, toVal state, lastLine, ()⟩
    | .sessionExited sessionId exitCode => ⟨7, sessionId, exitCode, ()⟩
    | .lag sessionId skippedBytes => ⟨8, sessionId, skippedBytes, ()⟩
    | .pairingStarted ticket => ⟨9, toVal ticket, ()⟩
    | .pairingApprovalRequested requestId deviceName deviceNodeId sas => ⟨10, requestId, deviceName,
      deviceNodeId, sas, ()⟩
    | .pairingComplete daemonNodeId => ⟨11, daemonNodeId, ()⟩
    | .deviceList devices => ⟨12, devices.map toVal, ()⟩
    | .pong seq => ⟨13, seq, ()⟩
    | .error code message => ⟨14, toVal code, message, ()⟩
    | .pairingPending sas => ⟨15, sas, ()⟩
  ofVal
    | ⟨0, clientId, daemonVersion, capabilities, hostName, ()⟩ => .welcome clientId daemonVersion
      (ofVal capabilities) hostName
    | ⟨1, sessions, ()⟩ => .sessionList (sessions.map ofVal)
    | ⟨2, sessionId, summary, ()⟩ => .sessionCreated sessionId (ofVal summary)
    | ⟨3, sessionId, ()⟩ => .sessionKilled sessionId
    | ⟨4, sessionId, initialBytes, seq, ()⟩ => .attached sessionId initialBytes seq
    | ⟨5, sessionId, seq, bytes, ()⟩ => .output sessionId seq bytes
    | ⟨6, sessionId, state, lastLine, ()⟩ => .agentStateChanged sessionId (ofVal state) lastLine
    | ⟨7, sessionId, exitCode, ()⟩ => .sessionExited sessionId exitCode
    | ⟨8, sessionId, skippedBytes, ()⟩ => .lag sessionId skippedBytes
    | ⟨9, ticket, ()⟩ => .pairingStarted (ofVal ticket)
    | ⟨10, requestId, deviceName, deviceNodeId, sas, ()⟩ => .pairingApprovalRequested requestId
      deviceName deviceNodeId sas
    | ⟨11, daemonNodeId, ()⟩ => .pairingComplete daemonNodeId
    | ⟨12, devices, ()⟩ => .deviceList (devices.map ofVal)
    | ⟨13, seq, ()⟩ => .pong seq
    | ⟨14, code, message, ()⟩ => .error (ofVal code) message
    | ⟨15, sas, ()⟩ => .pairingPending sas
    | ⟨⟨_ + 16, hlt⟩, _⟩ => absurd hlt (by omega)
  ofVal_toVal a := by cases a <;> simp

end Shelly.Wire
