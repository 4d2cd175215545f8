import Shelly.Daemon.Devices
import Shelly.Daemon.Session
import Shelly.Framework.Channel

namespace Shelly.Daemon.Streams

/-- What the forwarders of a connection write. -/
inductive StreamEvent
  | session (message : ServerToClientMsg)
  | list (sessions : List SessionSummary)
  deriving DecidableEq

/-- An event, with the devices that were cut off when it was sent. The latter is history. -/
structure Stamped where
  event : StreamEvent
  cut : Finset String
  deriving DecidableEq

/-- The devices, the channels of the sessions, the watch channel of the session list, and how often
the connections of each device were revoked. The rest is history: the devices that a removal has
taken out of the map and not yet signalled; the devices that are cut off, since a removal has
returned and they were not paired again; and what forwarders have written to which device. -/
structure StreamState where
  devices : DeviceState
  versions : Table String Nat
  channels : Table SessionId (Broadcast Stamped)
  list : Watch Stamped
  signalling : List String
  cut : Finset String
  written : List (String × Stamped)

namespace StreamState

def initial (devices : DeviceState) : StreamState :=
  ⟨devices, .empty, .empty, .channel ⟨.list [], ∅⟩, [], ∅, []⟩

variable (s : StreamState)

def isDevicePaired (id : String) : Bool := s.devices.devices.contains id

def version (id : String) : Nat := (s.versions.lookup id).getD 0

/-- A watcher that has seen so many revocations is told of another one. -/
def revoked (id : String) (seen : Nat) : Bool := decide (seen < s.version id)

/-- A watcher keeps the device's entry. Nobody notices that the last one drops it. -/
def subscribeRevocation (id : String) : StreamState :=
  { s with devices := { s.devices with
      revocations := if s.devices.revocations.contains id then s.devices.revocations
        else s.devices.revocations.insert id 0 } }

def revoke (id : String) : StreamState :=
  { s with versions := s.versions.insert id (s.version id + 1) }

/-- A removal has returned. -/
def cutOff (id : String) : StreamState :=
  { s with cut := if s.isDevicePaired id then s.cut else insert id s.cut }

def write (device : String) (e : Stamped) : StreamState :=
  { s with written := (device, e) :: s.written }

end StreamState

structure AttachForwarder where
  seen : Nat
  sessionId : SessionId
  rx : Nat
  attachedSeq : Nat
  writing : Option (Stamped × Bool)
  deriving DecidableEq

/-- Where the forwarder of the session list stands. It is woken by a list and reads the one that is
there then. -/
inductive ListPc
  | waiting
  | reading (woken : Nat)
  | writing (e : Stamped)
  deriving DecidableEq

structure ListForwarder where
  seen : Nat
  rx : Nat
  pc : ListPc
  deriving DecidableEq

/-- One connection of a device with its two forwarders. `seen` is its watcher of revocations. -/
structure Connection where
  device : String
  paired : Bool
  seen : Option Nat
  attach : Option AttachForwarder
  list : Option ListForwarder
  deriving DecidableEq

def Connection.new (device : String) : Connection := ⟨device, false, none, none, none⟩

/-- The messages of a device that its streams depend on. -/
inductive Request
  | subscribeSessions
  | attachSession (sessionId : SessionId)
  | pairWithCode (deviceName : String)
  | unpairSelf
  | update (change : DeviceUpdate)
  | detachSession
  | other
  deriving DecidableEq

/-- Where the main loop of a connection stands. -/
inductive MainPc
  | connecting
  | subscribing
  | marking
  | rechecking
  | serving
  | subscribingList
  | startingList (rx : Nat)
  | joining (sessionId : SessionId)
  | startingAttach (sessionId : SessionId) (rx attachedSeq : Nat)
  | pairing (device : StoredDevice) (pc : PairPc)
  | unpairing (pc : RemovePc)
  | closing
  | closed
  deriving DecidableEq

/-- A call of `remove_device` by the desktop, or a connection. -/
inductive StreamTask
  | remove (pc : RemovePc)
  | connection (conn : Connection) (pc : MainPc)
  deriving DecidableEq

/-- Which part of a connection takes the step. -/
inductive Turn
  | main | attach | list
  deriving DecidableEq

/-- What the outside decides in one step: who takes it, whether what it does succeeds, whether a
forwarder goes on with an event or stops, whether a session has exited, what the device sends, and
the time. -/
structure StreamChoice where
  turn : Turn
  ok : Bool
  goesOn : Bool
  exited : Bool
  found : Option String
  message : Option Request
  attachedSeq : Nat
  now : Nat
  deriving DecidableEq

def StreamChoice.device (c : StreamChoice) : DeviceChoice := ⟨c.ok, c.found⟩

section Steps

variable (storageKey : String → String)

/-- Notes when a removal has taken a device out of the map and when it signals that. -/
def noteSignal (signalling : List String) : RemovePc → RemovePc → List String
  | .revoking id _, _ => signalling.erase id
  | _, .revoking id _ => id :: signalling
  | _, _ => signalling

/-- One atomic step of `remove_device_by_node_id`. -/
def revokeStep (c : DeviceChoice) (pc : RemovePc) (s : StreamState) :
    Option (StreamState × RemovePc) :=
  (removeStep storageKey c pc s.devices).map fun r =>
    let s' := { s with devices := r.1, signalling := noteSignal s.signalling pc r.2 }
    (match pc with
      | .revoking id _ => s'.revoke id
      | _ => s', r.2)

def removeDeviceStep (c : DeviceChoice) (pc : RemovePc) (s : StreamState) :
    Option (StreamState × RemovePc) :=
  (revokeStep storageKey c pc s).map fun r =>
    (match r.2 with
      | .returned (some id) true => r.1.cutOff id
      | _ => r.1, r.2)

/-- A device that is put into the map is not cut off any more. -/
def savePairStep (c : DeviceChoice) (device : StoredDevice) (pc : PairPc) (s : StreamState) :
    Option (StreamState × PairPc) :=
  (pairStep storageKey c device pc s.devices).map fun r =>
    ({ s with
      devices := r.1
      cut := match pc with
        | .inserting => s.cut.erase device.deviceNodeId
        | _ => s.cut }, r.2)

/-- What a connection does with a message of its device. -/
def handle (c : StreamChoice) (conn : Connection) (s : StreamState) :
    Request → StreamState × MainPc
  | .subscribeSessions => (s, if conn.paired then .subscribingList else .serving)
  | .attachSession id => (s, if conn.paired then .joining id else .serving)
  | .pairWithCode deviceName => (s, .pairing (.new deviceName conn.device c.now) .waiting)
  | .unpairSelf => (s, .unpairing (.checking conn.device))
  | .update change =>
    (if conn.paired then
      { s with devices := (updateStep storageKey c.device conn.device change s.devices).1 }
    else s, .serving)
  | .detachSession => (s, if conn.paired then .closing else .serving)
  | .other => (s, .serving)

/-- One atomic step of the main loop of a connection. -/
def mainStep (c : StreamChoice) (conn : Connection) :
    MainPc → StreamState → Option (StreamState × Connection × MainPc)
  | .connecting, s =>
    if c.ok then
      let paired := s.isDevicePaired conn.device
      some (s, { conn with paired := paired }, if paired then .subscribing else .serving)
    else some (s, conn, .closed)
  | .subscribing, s =>
    some (s.subscribeRevocation conn.device,
      { conn with seen := some (s.version conn.device) }, .marking)
  | .marking, s =>
    some ({ s with
      devices := (updateStep storageKey c.device conn.device (.markSeen c.now) s.devices).1 },
      conn, .rechecking)
  | .rechecking, s =>
    some (s, conn, if s.isDevicePaired conn.device then .serving else .closed)
  | .serving, s =>
    match c.message with
    -- The stream has ended, or the loop has seen the revocation.
    | none => some (s, conn, .closing)
    | some m =>
      if conn.paired && !s.isDevicePaired conn.device then some (s, conn, .closing)
      else
        let r := handle storageKey c conn s m
        some (r.1, conn, r.2)
  -- The forwarder that was there has stopped or is aborted.
  | .subscribingList, s => some (s, { conn with list := none }, .startingList s.list.version)
  | .startingList rx, s =>
    if c.ok then
      conn.seen.map fun seen => (s, { conn with list := some ⟨seen, rx, .waiting⟩ }, .serving)
    else some (s, conn, .closing)
  | .joining id, s =>
    match s.channels.lookup id with
    | none => some (s, conn, .serving)
    | some channel =>
      some (s, { conn with attach := none }, .startingAttach id channel.subscribe c.attachedSeq)
  | .startingAttach id rx attachedSeq, s =>
    if c.ok then
      if c.exited then some (s, conn, .serving)
      else
        conn.seen.map fun seen =>
          (s, { conn with attach := some ⟨seen, id, rx, attachedSeq, none⟩ }, .serving)
    else some (s, conn, .closing)
  -- The desktop has denied the pairing, or it could not be saved.
  | .pairing _ (.returned false), s => some (s, conn, if c.ok then .serving else .closing)
  | .pairing _ (.returned true), s =>
    some (s, { conn with seen := some (s.version conn.device) }, .serving)
  | .pairing device .watching, s =>
    (savePairStep storageKey c.device device .watching s).map fun r =>
      (r.1, { conn with paired := true, seen := some (s.version conn.device) },
        .pairing device r.2)
  | .pairing device pc, s =>
    (savePairStep storageKey c.device device pc s).map fun r => (r.1, conn, .pairing device r.2)
  | .unpairing (.returned _ true), s =>
    some (s, { conn with paired := false, seen := none }, .serving)
  | .unpairing (.returned _ false), s => some (s, conn, .serving)
  | .unpairing pc, s =>
    (revokeStep storageKey c.device pc s).map fun r => (r.1, conn, .unpairing r.2)
  | .closing, s => some (s, { conn with attach := none, list := none }, .closed)
  | .closed, _ => none

/-- One step of `forward_attached_events`. A forwarder that does not go on has seen the revocation,
was told to stop, or is aborted. -/
def attachStep (c : StreamChoice) (device : String) (f : AttachForwarder) (s : StreamState) :
    Option (StreamState × Option AttachForwarder) :=
  if c.goesOn then
    match f.writing with
    | some (e, terminal) =>
      some (s.write device e, if terminal then none else some { f with writing := none })
    | none =>
      ((s.channels.lookup f.sessionId).bind fun channel => channel.recv f.rx).map fun
        | (.message e, rx) =>
          match e.event with
          | .session m =>
            if outputWasReplayed m f.attachedSeq then (s, some { f with rx := rx })
            else (s, some { f with rx := rx, writing := some (e, false) })
          | .list _ => (s, some { f with rx := rx })
        | (.lagged skipped, rx) =>
          (s, some { f with
            rx := rx
            writing := some (⟨.session (.lag f.sessionId skipped), ∅⟩, true) })
  else some (s, none)

/-- One step of `forward_session_list_updates`. -/
def listStep (c : StreamChoice) (device : String) (f : ListForwarder) (s : StreamState) :
    Option (StreamState × Option ListForwarder) :=
  if c.goesOn then
    match f.pc with
    | .waiting =>
      if s.list.changed f.rx then
        some (s, some { f with rx := s.list.version, pc := .reading s.list.version })
      else none
    | .reading _ =>
      some (s, some { f with rx := s.list.version, pc := .writing s.list.value })
    | .writing e => some (s.write device e, some { f with pc := .waiting })
  else some (s, none)

def streamAdvance (c : StreamChoice) :
    StreamTask → StreamState → Option (StreamState × StreamTask)
  | .remove pc, s => (removeDeviceStep storageKey c.device pc s).map fun r => (r.1, .remove r.2)
  | .connection conn pc, s =>
    match c.turn with
    | .main => (mainStep storageKey c conn pc s).map fun r => (r.1, .connection r.2.1 r.2.2)
    | .attach =>
      conn.attach.bind fun f =>
        (attachStep c conn.device f s).map fun r =>
          (r.1, .connection { conn with attach := r.2 } pc)
    | .list =>
      conn.list.bind fun f =>
        (listStep c conn.device f s).map fun r => (r.1, .connection { conn with list := r.2 } pc)

/-- What the sessions do: a new one has a channel, each sends events, and lists are published. -/
inductive BroadcastEvent
  | openSession (id : SessionId)
  | broadcast (id : SessionId) (message : ServerToClientMsg)
  | publish (sessions : List SessionSummary)
  deriving DecidableEq

def broadcastEvent : BroadcastEvent → StreamState → Option (StreamState × Bool)
  | .openSession id, s =>
    if s.channels.contains id then none
    else
      some ({ s with channels := s.channels.insert id (.channel subscriberCapacity) }, true)
  | .broadcast id message, s =>
    (s.channels.lookup id).map fun channel =>
      ({ s with channels := s.channels.insert id (channel.send ⟨.session message, s.cut⟩) }, true)
  | .publish sessions, s =>
    some ({ s with list := s.list.send ⟨.list sessions, s.cut⟩ }, true)

def streamTasking : Tasking StreamState StreamTask StreamChoice BroadcastEvent where
  init s := ∃ devices, DevicesOpened storageKey devices ∧ s = .initial devices
  start
    | .remove (.finding _) => true
    | .connection conn .connecting => conn == .new conn.device
    | _ => false
  cancellable _ := false
  advance c _ := streamAdvance storageKey c
  environment := broadcastEvent

end Steps

/-- Nothing was written to a device that was sent when the device was cut off. -/
def StreamState.Severed (s : StreamState) : Prop := ∀ w ∈ s.written, w.1 ∉ w.2.cut

/-- The device for which a removal returns with its next step, and the signals that are still to
come then. -/
def returning (s : StreamState) : RemovePc → Option (String × List String)
  | .checking id | .unmapping id => if s.isDevicePaired id then none else some (id, s.signalling)
  | .revoking id _ => some (id, s.signalling.erase id)
  | _ => none

/-- A forwarder does not go on with an event when the revocation of its device is signalled, and
one that was woken does not read a later list then. No removal returns while another one has taken
the device out of the map and not yet revoked its connections. -/
def StreamTask.heeds (c : StreamChoice) (s : StreamState) : StreamTask → Bool
  | .remove pc => (returning s pc).all fun r => s.isDevicePaired r.1 || !r.2.contains r.1
  | .connection conn _ =>
    match c.turn with
    | .main => true
    | .attach => conn.attach.all fun f =>
        f.writing.isSome || !c.goesOn || !s.revoked conn.device f.seen
    | .list => conn.list.all fun f =>
        match f.pc with
        | .waiting => !c.goesOn || !s.revoked conn.device f.seen
        | .reading woken => !s.revoked conn.device f.seen || s.list.version == woken
        | .writing _ => true

def Heedful (p : Pool StreamState StreamTask) :
    Move StreamTask StreamChoice BroadcastEvent → Prop
  | .advance i c => ∀ x ∈ p.task i, x.heeds c p.shared = true
  | _ => True

instance : ∀ p a, Decidable (Heedful p a)
  | p, .advance i c => inferInstanceAs (Decidable (∀ x ∈ p.task i, x.heeds c p.shared = true))
  | _, .spawn _ _ | _, .drop _ | _, .environment _ => isTrue trivial

end Shelly.Daemon.Streams
