import Shelly.Daemon.Server

namespace Shelly.Daemon

/-- One connection of a device. `remoteNodeId` is the identity that the transport has
authenticated. `admitted` is history: whether the device was paired when the connection took
the message it is at, and `replies` is what it has written. -/
structure IrohConnection where
  remoteNodeId : String
  clientKind : ClientKind
  protocolVersion : Nat
  paired : Bool
  attached : Option SessionId
  admitted : Bool
  replies : List Reply
  deriving DecidableEq

/-- One connection over the local socket. -/
structure LocalConnection where
  clientKind : ClientKind
  attached : Option SessionId
  replies : List Reply
  deriving DecidableEq

/-- The calls that connections of both kinds make. -/
inductive SessionCall
  | create (clientKind : ClientKind) (call : CreateCall) (pc : CreatePc)
  | kill (sessionId : SessionId) (pc : KillPc)
  | attach (sessionId : SessionId) (size : ClientSize) (lastSeenSeq : Option Nat)
  | join (sessionId : SessionId) (size : ClientSize) (lastSeenSeq : Option Nat)
  | input (sessionId : SessionId) (bytes : List UInt8)
  | resize (sessionId : SessionId) (size : ClientSize)
  deriving DecidableEq

/-- Where a connection of a device stands. -/
inductive IrohPc
  | connecting
  | marking
  | rechecking
  | serving
  | session (call : SessionCall)
  | requesting (call : ApprovalCall) (pc : ApprovalPc)
  | completing (device : StoredDevice) (pc : PairPc)
  | unpairing (pc : RemovePc)
  | updating (change : DeviceUpdate)
  | closing
  | closed
  deriving DecidableEq

/-- Where a connection over the local socket stands. -/
inductive LocalPc
  | connecting
  | serving
  | session (call : SessionCall)
  | beginning (pc : BeginPairingPc)
  | approving (requestId : Nat) (approved : Bool) (pc : ApprovePc)
  | removing (name : String) (found : Bool) (pc : RemovePc)
  | hooking (sessionId : SessionId) (source : AgentSource) (state : AgentState)
      (lastLine : Option String)
  | closing
  | closed
  deriving DecidableEq

namespace IrohConnection

def new (remoteNodeId : String) : IrohConnection :=
  ⟨remoteNodeId, .iosApp, contractVersion, false, none, false, []⟩

variable (conn : IrohConnection)

def reply (r : Reply) : IrohConnection := { conn with replies := conn.replies ++ [r] }

def unauthorized : IrohConnection :=
  conn.reply (.error .unauthorized "device is not paired")

def updateRequired (message : String) : IrohConnection :=
  conn.reply (.error .versionMismatch s!"{message}; update Shelly")

/-- Answers a message that only a paired connection may send. -/
def requirePaired (answer : IrohConnection × IrohPc) : IrohConnection × IrohPc :=
  if conn.paired then answer else (conn.unauthorized, .serving)

end IrohConnection

def LocalConnection.reply (conn : LocalConnection) (r : Reply) : LocalConnection :=
  { conn with replies := conn.replies ++ [r] }

def irohVersionIsAccepted (protocolVersion : Nat) (alreadyPaired : Bool) : Bool :=
  protocolVersion == contractVersion ||
    (alreadyPaired && protocolVersion == minPairedContractVersion)

def irohClientKindError (clientKind : ClientKind) : Option Reply :=
  if clientKind = .iosApp ∨ clientKind = .androidApp then none
  else some (.error .forbidden "iroh transport accepts mobile clients only")

def forbiddenIrohOperationMessage : ClientKind → String
  | .iosApp | .androidApp => "mobile clients cannot perform this operation"
  | .localCli => "iroh transport accepts mobile clients only"

def pairingPeerIdentityError (remoteNodeId claimedDeviceNodeId : String) : Option Reply :=
  if claimedDeviceNodeId = remoteNodeId then none
  else some (.error .unauthorized "device node id does not match iroh peer identity")

/-- A session request goes on unless the size is refused. -/
def sized (size : ClientSize) (call : SessionCall) : Reply ⊕ SessionCall :=
  match invalidClientSize size with
  | some error => .inl (.client error)
  | none => .inr call

section Connections

-- The environment of the daemon, the names of device rows, and the short string that two
-- endpoints derive from a pairing code and their keys, unless a key cannot be read.
variable (host : HostEnv) (storageKey : String → String)
  (pairingSas : String → String → String → Except String String)

def authenticatedPairingSas (s : DaemonState) (code remoteNodeId : String) :
    Except String String :=
  match s.irohNodeId with
  | none => .error "daemon iroh endpoint is not ready"
  | some daemonNodeId => pairingSas code daemonNodeId remoteNodeId

/-- One step of a call that connections of both kinds make, for the client that is task `i`:
the replies so far, the attachment, and the call if it goes on. -/
def sessionCallStep (c : DaemonChoice) (i : Nat) (attached : Option SessionId) (s : DaemonState) :
    SessionCall → Option (DaemonState × Option SessionId × List Reply × Option SessionCall)
  | .create _ _ (.returned (.created id)) => some (s, attached, [.sessionCreated id], none)
  | .create _ _ (.returned (.failed error)) => some (s, attached, [.client error], none)
  | .create clientKind call pc =>
    (createStep host c.toRegistryChoice i clientKind call pc s.registry).map fun r =>
      ({ s with registry := r.1 }, attached, [], some (.create clientKind call r.2))
  | .kill id (.returned true) => some (s, attached, [.client (.sessionKilled id)], none)
  | .kill _ (.returned false) => some (s, attached, [.error .internal c.message], none)
  | .kill id pc =>
    (killStep c.toSessionChoice id pc s.registry.app).map fun r =>
      ({ s with registry := { s.registry with app := r.1 } }, attached, [], some (.kill id r.2))
  | .attach id size lastSeenSeq =>
    match s.get id, s.registry.app.restored.lookup id with
    | some _, _ => some (s, attached, [], some (.join id size lastSeenSeq))
    | none, some stored => some (s, attached, restoredReplies id stored, none)
    | none, none => some (s, attached, [.client (sessionNotFound id)], none)
  | .join id size lastSeenSeq =>
    (s.registry.app.objects.lookup id).map fun session =>
      let s := (s.detachClient i attached).attachClient i id size
      if c.ok then
        let replies := attachedReplies c id session lastSeenSeq
        -- The attachment to a session that has exited is dropped at once.
        if session.exitCode.isSome then (s.detachClient i (some id), none, replies, none)
        else (s, some id, replies, none)
      else (s, none, [.error .internal c.message], none)
  | .input id bytes =>
    match s.get id with
    | none => some (s, attached, [.client (sessionNotFound id)], none)
    | some session =>
      if c.ok then some (s.writeInput id session bytes, attached, [], none)
      else some (s, attached, [.error .internal c.message], none)
  | .resize id size =>
    match s.get id with
    | none => some (s, attached, [.client (sessionNotFound id)], none)
    | some _ => some (s.updateClientSize i id size, attached, [], none)

/-- What a connection does with a message of its device. -/
def irohDispatch (s : DaemonState) (conn : IrohConnection) :
    ClientToServerMsg → IrohConnection × IrohPc
  | .hello _ _ => conn.requirePaired (conn, .serving)
  | .pairWithCode code deviceName deviceNodeId =>
    if conn.protocolVersion < contractVersion then
      (conn.updateRequired "new pairing requires protocol v5", .serving)
    else
      match pairingPeerIdentityError conn.remoteNodeId deviceNodeId with
      | some error => (conn.reply error, .serving)
      | none =>
        match authenticatedPairingSas pairingSas s (normalizeCode code) conn.remoteNodeId with
        | .error message => (conn.reply (.error .invalidRequest message), .serving)
        | .ok sas =>
          (conn, .requesting ⟨normalizeCode code, deviceName, conn.remoteNodeId, sas⟩ .taking)
  | .unpairSelf =>
    if conn.protocolVersion < contractVersion then
      (conn.updateRequired "UnpairSelf requires protocol v5", .serving)
    else (conn, .unpairing (.checking conn.remoteNodeId))
  | .listSessions => conn.requirePaired (conn.reply (.sessionList s.summaries), .serving)
  | .subscribeSessions =>
    conn.requirePaired (conn.reply (.sessionList s.registry.app.sessionList), .serving)
  | .attachSession id size lastSeenSeq => conn.requirePaired <|
      match sized size (.attach id size lastSeenSeq) with
      | .inl error => (conn.reply error, .serving)
      | .inr call => (conn, .session call)
  | .input id bytes => conn.requirePaired (conn, .session (.input id bytes))
  | .resize id size => conn.requirePaired <|
      match sized size (.resize id size) with
      | .inl error => (conn.reply error, .serving)
      | .inr call => (conn, .session call)
  | .registerPushToken platform token =>
    conn.requirePaired (conn, .updating (.setPush platform token s.clock))
  | .unregisterPushToken platform token =>
    conn.requirePaired (conn, .updating (.clearPush platform token s.clock))
  | .ping seq => conn.requirePaired (conn.reply (.pong seq), .serving)
  | .detachSession => conn.requirePaired (conn, .closing)
  | .createSession call => conn.requirePaired <|
      match sized call.size (.create conn.clientKind call .start) with
      | .inl error => (conn.reply error, .serving)
      | .inr call => (conn, .session call)
  | .killSession id => conn.requirePaired (conn, .session (.kill id .looking))
  | .beginPairing | .approvePairing _ _ | .listDevices | .removeDevice _
  | .agentStateEvent _ _ _ _ =>
    conn.requirePaired
      (conn.reply (.error .forbidden (forbiddenIrohOperationMessage conn.clientKind)), .serving)

/-- Takes a message, and looks up whether the device is paired if the connection is. A message
is taken by the step that looks for the first time, since the reading itself touches nothing
shared; so a removal asked for by a connection that is not paired looks in the same step. -/
def irohTake (c : DaemonChoice) (conn : IrohConnection) (m : ClientToServerMsg)
    (s : DaemonState) : Option (DaemonState × IrohConnection × IrohPc) :=
  let conn := { conn with admitted := s.isDevicePaired conn.remoteNodeId }
  if conn.paired && !conn.admitted then some (s, conn, .closing)
  else
    let r := irohDispatch pairingSas s conn m
    match r.2 with
    | .unpairing pc =>
      if conn.paired then some (s, r.1, .unpairing pc)
      else
        (removeStep storageKey c.device pc s.devices).map fun x =>
          ({ s with devices := x.1 }, r.1, .unpairing x.2)
    | pc => some (s, r.1, pc)

/-- One atomic step of a connection of a device, which is task `i`. -/
def irohStep (c : DaemonChoice) (i : Nat) (conn : IrohConnection) :
    IrohPc → DaemonState → Option (DaemonState × IrohConnection × IrohPc)
  | .connecting, s =>
    match c.fromPhone with
    | none => some (s, conn, .closed)
    | some (.hello clientKind protocolVersion) =>
      let initiallyPaired := s.isDevicePaired conn.remoteNodeId
      if irohVersionIsAccepted protocolVersion initiallyPaired then
        match irohClientKindError clientKind with
        | some error => some (s, conn.reply error, .closed)
        | none =>
          some (s, { conn.reply .welcome with
            clientKind := clientKind
            protocolVersion := protocolVersion
            paired := initiallyPaired
            admitted := initiallyPaired }, if initiallyPaired then .marking else .serving)
      else
        let required := s!"update required (daemon={contractVersion})"
        some (s, conn.reply (.error .versionMismatch
          s!"protocol version {protocolVersion} cannot start this connection; {required}"), .closed)
    | some _ =>
      some (s, conn.reply (.error .invalidRequest "first message must be Hello"), .closed)
  | .marking, s =>
    some ({ s with
      devices := (updateStep storageKey c.device conn.remoteNodeId (.markSeen s.clock) s.devices).1 },
      conn, .rechecking)
  | .rechecking, s =>
    some (s, conn, if s.isDevicePaired conn.remoteNodeId then .serving else .closed)
  | .serving, s =>
    match c.fromPhone with
    | none => some (s, conn, .closing)
    | some m => irohTake storageKey pairingSas c conn m s
  | .session call, s =>
    (sessionCallStep host c i conn.attached s call).map fun r =>
      (r.1, { conn with attached := r.2.1, replies := conn.replies ++ r.2.2.1 },
        r.2.2.2.elim .serving .session)
  | .requesting call (.returned (.waited true)), s =>
    some (s, conn, .completing (.new call.deviceName conn.remoteNodeId s.clock) .waiting)
  | .requesting _ (.returned (.waited false)), s =>
    some (s, conn.reply (.error .forbidden "pairing denied on laptop"), .serving)
  | .requesting _ (.returned (.failed message)), s =>
    some (s, conn.reply (.error .forbidden message), .serving)
  | .requesting _ (.returned .abandoned), s => some (s, conn, .closing)
  | .requesting call pc, s =>
    (approvalStep c.toPairingChoice s.clock call pc s.pairing).map fun r =>
      ({ s with pairing := r.1 },
        match pc with
        | .holding _ => conn.reply (.pairingPending call.sas)
        | _ => conn,
        .requesting call r.2)
  | .completing _ (.returned true), s =>
    some (s, { conn.reply (.pairingComplete (s.irohNodeId.getD "")) with paired := true },
      .serving)
  | .completing _ (.returned false), s => some (s, conn, .closing)
  -- The approval has been read already.
  | .completing device .waiting, s =>
    (pairStep storageKey ⟨true, none⟩ device .waiting s.devices).map fun r =>
      ({ s with devices := r.1 }, conn, .completing device r.2)
  | .completing device pc, s =>
    (pairStep storageKey c.device device pc s.devices).map fun r =>
      ({ s with devices := r.1 }, conn, .completing device r.2)
  | .unpairing (.returned _ true), s =>
    some (s, { conn.reply (.pong 0) with paired := false }, .serving)
  | .unpairing (.returned _ false), s =>
    some (s, conn.reply (.error .internal c.message), .serving)
  | .unpairing pc, s =>
    (removeStep storageKey c.device pc s.devices).map fun r =>
      ({ s with devices := r.1 }, conn, .unpairing r.2)
  | .updating change, s =>
    let r := updateStep storageKey c.device conn.remoteNodeId change s.devices
    some ({ s with devices := r.1 },
      match r.2 with
      | .updated => conn.reply (.pong 0)
      | .missing => conn.unauthorized
      | .failed => conn.reply (.error .internal c.message),
      .serving)
  | .closing, s => some (s.detachClient i conn.attached, { conn with attached := none }, .closed)
  | .closed, _ => none

/-- Answers a message that only the desktop's own client may send. -/
def LocalConnection.requireCli (conn : LocalConnection) (message : String)
    (answer : LocalConnection × LocalPc) : LocalConnection × LocalPc :=
  if conn.clientKind = .localCli then answer
  else (conn.reply (.error .forbidden message), .serving)

/-- What a connection does with a message over the local socket. -/
def localDispatch (s : DaemonState) (conn : LocalConnection) :
    ClientToServerMsg → LocalConnection × LocalPc
  | .hello _ _ => (conn, .serving)
  | .listSessions => (conn.reply (.sessionList s.summaries), .serving)
  | .subscribeSessions => (conn.reply (.sessionList s.registry.app.sessionList), .serving)
  | .createSession call =>
    if mayCreateOrKillSession conn.clientKind then
      match sized call.size (.create conn.clientKind call .start) with
      | .inl error => (conn.reply error, .serving)
      | .inr call => (conn, .session call)
    else (conn.reply (.error .forbidden "client cannot create sessions"), .serving)
  | .attachSession id size lastSeenSeq =>
    match sized size (.attach id size lastSeenSeq) with
    | .inl error => (conn.reply error, .serving)
    | .inr call => (conn, .session call)
  | .detachSession => (conn, .closing)
  | .killSession id =>
    if mayCreateOrKillSession conn.clientKind then (conn, .session (.kill id .looking))
    else (conn.reply (.error .forbidden "client cannot kill sessions"), .serving)
  | .input id bytes => (conn, .session (.input id bytes))
  | .resize id size =>
    match sized size (.resize id size) with
    | .inl error => (conn.reply error, .serving)
    | .inr call => (conn, .session call)
  | .ping seq => (conn.reply (.pong seq), .serving)
  | .beginPairing =>
    conn.requireCli "mobile clients cannot create pairing codes" (conn, .beginning .start)
  | .approvePairing requestId approved =>
    conn.requireCli "mobile clients cannot approve pairing"
      (conn, .approving requestId approved .removing)
  | .pairWithCode _ _ _ =>
    (conn.reply (.error .forbidden "new pairing is accepted over authenticated iroh only"),
      .serving)
  | .listDevices =>
    conn.requireCli "mobile clients cannot list devices"
      (conn.reply (.deviceList s.deviceSummaries), .serving)
  | .removeDevice name =>
    conn.requireCli "mobile clients cannot remove devices"
      (conn, .removing name false (.finding name))
  | .registerPushToken _ _ | .unregisterPushToken _ _ | .unpairSelf =>
    (conn.reply (.error .invalidRequest
      "push token updates are accepted from paired iroh devices only"), .serving)
  | .agentStateEvent id source state lastLine =>
    if mayEmitAgentStateEvent conn.clientKind then (conn, .hooking id source state lastLine)
    else (conn.reply (.error .forbidden "mobile clients cannot emit agent state events"), .serving)

/-- Applies what an agent's hook reports about its session. -/
def hook (c : DaemonChoice) (conn : LocalConnection) (s : DaemonState) (id : SessionId)
    (source : AgentSource) (state : AgentState) (lastLine : Option String) :
    DaemonState × LocalConnection :=
  match s.get id with
  | none => (s, conn.reply (.client (sessionNotFound id)))
  | some session =>
    let kind := ((s.registry.processes.lookup id).map (·.commandKind)).getD .unknown
    if session.exitCode.isSome then
      (s, conn.reply (.error .invalidRequest s!"session has exited: {id}"))
    else if DaemonState.sourceMatchesCommand source kind then
      let s := s.applyAgentStateEvent id state lastLine
      (s, conn.reply (.client (.agentStateChanged id state (s.terminal id).lastLine)))
    else (s, conn.reply (.error .invalidRequest c.message))

/-- One atomic step of a connection over the local socket, which is task `i`. -/
def localStep (c : DaemonChoice) (i : Nat) (conn : LocalConnection) :
    LocalPc → DaemonState → Option (DaemonState × LocalConnection × LocalPc)
  | .connecting, s =>
    match c.fromDesktop with
    | none => some (s, conn, .closed)
    | some (.hello clientKind protocolVersion) =>
      if protocolVersion = contractVersion then
        some (s, { conn.reply .welcome with clientKind := clientKind }, .serving)
      else
        some (s, conn.reply (.error .versionMismatch
          s!"protocol version mismatch: client={protocolVersion}, daemon={contractVersion}"),
          .closed)
    | some _ =>
      some (s, conn.reply (.error .invalidRequest "first message must be Hello"), .closed)
  | .serving, s =>
    match c.fromDesktop with
    | none => some (s, conn, .closing)
    | some m => some (s, localDispatch s conn m)
  | .session call, s =>
    (sessionCallStep host c i conn.attached s call).map fun r =>
      (r.1, { conn with attached := r.2.1, replies := conn.replies ++ r.2.2.1 },
        r.2.2.2.elim .serving .session)
  | .beginning (.returned code expiresAt generation), s =>
    -- The ticket waits for the endpoint, but not for ever.
    match s.irohNodeId with
    | some nodeId => some (s, conn.reply (.pairingStarted code nodeId expiresAt), .serving)
    | none =>
      if c.ok then some (s, conn, .beginning (.returned code expiresAt generation))
      else
        some (s, conn.reply (.error .internal "iroh endpoint is not ready yet"), .serving)
  | .beginning pc, s =>
    match beginPairingStep c.toPairingChoice s.clock pc s.pairing with
    | some r => some ({ s with pairing := r.1 }, conn, .beginning r.2)
    | none => some (s, conn.reply (.error .internal c.message), .serving)
  | .approving _ _ (.returned true), s => some (s, conn, .serving)
  | .approving _ _ (.returned false), s =>
    some (s, conn.reply (.error .notFound "pairing request not found or already answered"),
      .serving)
  | .approving requestId approved pc, s =>
    (approveStep requestId approved pc s.pairing).map fun r =>
      ({ s with
        pairing := r.1
        approvals := match pc with
          | .removing => (.localSocket conn.clientKind, requestId, approved) :: s.approvals
          | _ => s.approvals },
        conn, .approving requestId approved r.2)
  | .removing name found (.returned _ ok), s =>
    some (s, conn.reply
      (if ok then
        if found then .deviceList s.deviceSummaries
        else .error .notFound s!"device not found: {name}"
      else .error .internal c.message), .serving)
  | .removing name found pc, s =>
    (removeStep storageKey c.device pc s.devices).map fun r =>
      ({ s with devices := r.1 }, conn,
        .removing name (found || match pc with | .revoking _ _ => true | _ => false) r.2)
  | .hooking id source state lastLine, s =>
    let r := hook c conn s id source state lastLine
    some (r.1, r.2, .serving)
  | .closing, s => some (s.detachClient i conn.attached, { conn with attached := none }, .closed)
  | .closed, _ => none

/-- The tasks of the daemon: the connections, and for every session what watches for its exit
and what saves it. -/
inductive DaemonTask
  | iroh (conn : IrohConnection) (pc : IrohPc)
  | desktop (conn : LocalConnection) (pc : LocalPc)
  | background (task : SessionTask)
  deriving DecidableEq

def daemonAdvance (c : DaemonChoice) (i : Nat) :
    DaemonTask → DaemonState → Option (DaemonState × DaemonTask)
  | .iroh conn pc, s =>
    (irohStep host storageKey pairingSas c i conn pc s).map fun r => (r.1, .iroh r.2.1 r.2.2)
  | .desktop conn pc, s =>
    (localStep host storageKey c i conn pc s).map fun r => (r.1, .desktop r.2.1 r.2.2)
  | .background task, s =>
    (registryAdvance host c.toRegistryChoice i (.session task) s.registry).bind fun r =>
      match r.2 with
      | .session task => some ({ s with registry := r.1 }, .background task)
      | .create _ _ _ => none

/-- What happens to the daemon besides its tasks. The agent of a session changes its state by
what it prints. -/
inductive DaemonEvent
  | session (e : SessionEvent)
  | infer (id : SessionId) (state : AgentState) (lastLine : Option String)
  | irohReady (nodeId : String)
  | tick (ms : Nat)
  | restart (kept : List SessionId)
  deriving DecidableEq

def daemonEvent : DaemonEvent → DaemonState → Option (DaemonState × Bool)
  | .session (.restart _), _ => none
  | .session e, s => (registryEvent e s.registry).map fun r => ({ s with registry := r.1 }, r.2)
  | .infer id state lastLine, s =>
    let t := s.terminal id
    some (s.setTerminal id { t with state := state, lastLine := lastLine <|> t.lastLine }, true)
  | .irohReady nodeId, s => some ({ s with irohNodeId := some nodeId }, true)
  | .tick ms, s =>
    if s.clock + ms ≤ u64Max then some ({ s with clock := s.clock + ms }, true) else none
  | .restart kept, s =>
    (registryEvent (.restart kept) s.registry).bind fun r =>
      (deviceEvent .restart s.devices).map fun d =>
        ({ s with
          registry := r.1
          terminals := .empty
          devices := d.1
          pairing := .new
          irohNodeId := none
          approvals := [] }, false)

/-- A daemon that was just started. -/
structure DaemonOpened (s : DaemonState) : Prop where
  sessions : Opened s.registry.app
  devices : DevicesOpened storageKey s.devices
  pairing : s.pairing = .new
  approvals : s.approvals = []

def daemonTasking : Tasking DaemonState DaemonTask DaemonChoice DaemonEvent where
  init := DaemonOpened storageKey
  start
    | .iroh conn .connecting => conn == .new conn.remoteNodeId
    | .desktop conn .connecting => conn == ⟨conn.clientKind, none, []⟩
    | .background (.evict _ .observing) => true
    | .background (.persist _ _ .starting) => true
    | _ => false
  -- A connection runs to its end; what it waits for is among its steps.
  cancellable _ := false
  advance := daemonAdvance host storageKey pairingSas
  environment := daemonEvent

end Connections

end Shelly.Daemon
