import Mathlib.Data.Finset.Dedup
import Mathlib.Data.Finset.Erase
import Mathlib.Data.Finset.Insert
import Mathlib.Data.List.Sort
import Shelly.Framework.Pool
import Shelly.Framework.Word
import Shelly.Protocol.Messages

namespace Shelly.Daemon

structure StoredDevice where
  name : String
  deviceNodeId : String
  pairedAt : Nat
  lastSeen : Option Nat
  pushPlatform : Option PushPlatform
  pushToken : Option String
  deriving DecidableEq

namespace StoredDevice

def new (name deviceNodeId : String) (now : Nat) : StoredDevice :=
  ⟨name, deviceNodeId, now, none, none, none⟩

def markSeen (d : StoredDevice) (now : Nat) : StoredDevice := { d with lastSeen := some now }

def setPushToken (d : StoredDevice) (platform : PushPlatform) (token : String) (now : Nat) :
    StoredDevice :=
  markSeen { d with pushPlatform := some platform, pushToken := some token } now

def clearPushToken (d : StoredDevice) (now : Nat) : StoredDevice :=
  markSeen { d with pushPlatform := none, pushToken := none } now

end StoredDevice

/-- The three ways in which a paired device changes its own entry. -/
inductive DeviceUpdate
  | markSeen (now : Nat)
  | setPush (platform : PushPlatform) (token : String) (now : Nat)
  | clearPush (platform : PushPlatform) (token : String) (now : Nat)
  deriving DecidableEq

/-- The entry to store, if the update changes anything. -/
def DeviceUpdate.apply (d : StoredDevice) : DeviceUpdate → Option StoredDevice
  | .markSeen now => some (d.markSeen now)
  | .setPush platform token now => some (d.setPushToken platform token now)
  | .clearPush platform token now =>
    if d.pushPlatform = some platform ∧ d.pushToken = some token then
      some (d.clearPushToken now)
    else none

/-- Devices as the daemon has them in memory and on disk. `revocations` counts, for
each device somebody watches, how often its connections were revoked. The last two
fields are history: the devices whose removal has taken effect and for which no
pairing was approved since, and those for which one was. -/
structure DeviceState where
  devices : Table String StoredDevice
  persisted : Option (Table String StoredDevice)
  revocations : Table String Nat
  removed : Finset String
  approved : Finset String

/-- Where a removal stands. It starts with the name for a removal by the desktop and
with the identity for a device that unpairs itself. -/
inductive RemovePc
  | finding (name : String)
  | checking (id : String)
  | erasingRow (id : String)
  | unmapping (id : String)
  | revoking (id : String) (device : StoredDevice)
  | returned (id : Option String) (ok : Bool)
  deriving DecidableEq

/-- Where a pairing stands, from the wait for approval on the desktop. -/
inductive PairPc
  | waiting
  | saving
  | inserting
  | watching
  | returned (ok : Bool)
  deriving DecidableEq

inductive UpdateResult
  | missing
  | updated
  | failed
  deriving DecidableEq

inductive DeviceTask
  | remove (pc : RemovePc)
  | update (id : String) (change : DeviceUpdate) (result : Option UpdateResult)
  | pair (device : StoredDevice) (pc : PairPc)
  deriving DecidableEq

/-- What the outside answers: whether the store succeeds or the desktop approves,
and which device is found under a name. -/
structure DeviceChoice where
  ok : Bool
  found : Option String
  deriving DecidableEq

section Store

-- The name under which a device's row is stored is a digest of its identity.
variable (storageKey : String → String)

namespace DeviceState

/-- Replaces the row, also one that an older version stored under the identity. -/
def saveDevice (s : DeviceState) (d : StoredDevice) : DeviceState :=
  { s with
    persisted := s.persisted.map fun rows =>
      (rows.erase d.deviceNodeId).insert (storageKey d.deviceNodeId) d }

def removeDevice (s : DeviceState) (id : String) : DeviceState :=
  { s with persisted := s.persisted.map fun rows => (rows.erase (storageKey id)).erase id }

end DeviceState

/-- One atomic step of `remove_device` or `unpair_self`. -/
def removeStep (c : DeviceChoice) : RemovePc → DeviceState → Option (DeviceState × RemovePc)
  | .finding name, s =>
    match c.found with
    | some id =>
      match s.devices.lookup id with
      | some d =>
        if d.name = name ∨ d.deviceNodeId = name then some (s, .checking d.deviceNodeId) else none
      | none => none
    | none =>
      if s.devices.entries.all fun e => e.2.name ≠ name ∧ e.2.deviceNodeId ≠ name then
        some (s, .returned none true)
      else none
  | .checking id, s =>
    if s.devices.contains id then some (s, .erasingRow id)
    else
      some ({ s with removed := insert id s.removed, approved := s.approved.erase id },
        .returned (some id) true)
  | .erasingRow id, s =>
    if s.persisted.isNone || c.ok then some (s.removeDevice storageKey id, .unmapping id)
    else some (s, .returned (some id) false)
  | .unmapping id, s =>
    let s' := { s with
      devices := s.devices.erase id
      removed := insert id s.removed
      approved := s.approved.erase id }
    match s.devices.lookup id with
    | some d => some (s', .revoking id d)
    | none => some (s', .returned (some id) true)
  | .revoking id _, s =>
    some ({ s with revocations := s.revocations.modify id fun n => (n + 1) % 2 ^ 64 },
      .returned (some id) true)
  | .returned _ _, _ => none

/-- An update keeps the entry locked from the lookup to the end. -/
def updateStep (c : DeviceChoice) (id : String) (change : DeviceUpdate) (s : DeviceState) :
    DeviceState × UpdateResult :=
  match s.devices.lookup id with
  | none => (s, .missing)
  | some d =>
    match change.apply d with
    | none => (s, .updated)
    | some d' =>
      let s' := { s with devices := s.devices.insert id d' }
      if s.persisted.isNone || c.ok then (s'.saveDevice storageKey d', .updated)
      else (s', .failed)

/-- One atomic step of a pairing. -/
def pairStep (c : DeviceChoice) (d : StoredDevice) :
    PairPc → DeviceState → Option (DeviceState × PairPc)
  | .waiting, s =>
    if c.ok then
      some ({ s with
        removed := s.removed.erase d.deviceNodeId
        approved := insert d.deviceNodeId s.approved }, .saving)
    else some (s, .returned false)
  | .saving, s =>
    if s.persisted.isNone || c.ok then some (s.saveDevice storageKey d, .inserting)
    else some (s, .returned false)
  | .inserting, s =>
    some ({ s with devices := s.devices.insert d.deviceNodeId d }, .watching)
  | .watching, s =>
    some (if s.revocations.contains d.deviceNodeId then s
      else { s with revocations := s.revocations.insert d.deviceNodeId 0 }, .returned true)
  | .returned _, _ => none

/-- The devices a starting daemon reads from its rows. -/
def loadDevices (rows : List StoredDevice) : Table String StoredDevice :=
  (rows.mergeSort fun a b => a.pairedAt ≤ b.pairedAt).foldl
    (fun devices d => devices.insert d.deviceNodeId d) .empty

inductive DeviceEvent
  | restart
  deriving DecidableEq

def deviceEvent : DeviceEvent → DeviceState → Option (DeviceState × Bool)
  | .restart, s =>
    s.persisted.map fun rows =>
      ({ s with
        devices := loadDevices (rows.entries.map (·.2))
        revocations := .empty }, false)

def deviceAdvance (c : DeviceChoice) (_ : Nat) :
    DeviceTask → DeviceState → Option (DeviceState × DeviceTask)
  | .remove pc, s => (removeStep storageKey c pc s).map fun r => (r.1, .remove r.2)
  | .update id change none, s =>
    let r := updateStep storageKey c id change s
    some (r.1, .update id change (some r.2))
  | .update _ _ (some _), _ => none
  | .pair d pc, s => (pairStep storageKey c d pc s).map fun r => (r.1, .pair d r.2)

/-- A daemon that was just started: its rows are stored under the names of their
devices, and memory holds what was read from them. -/
structure DevicesOpened (s : DeviceState) : Prop where
  located : ∀ rows, s.persisted = some rows → ∀ key d, rows.lookup key = some d →
    key = storageKey d.deviceNodeId ∨ key = d.deviceNodeId
  devices : ∀ rows, s.persisted = some rows → s.devices = loadDevices (rows.entries.map (·.2))
  keyed : ∀ id d, s.devices.lookup id = some d → d.deviceNodeId = id
  removed : s.removed = ∅
  approved : s.approved = ∅

def deviceTasking : Tasking DeviceState DeviceTask DeviceChoice DeviceEvent where
  init := DevicesOpened storageKey
  start
    | .remove (.finding _) => true
    | .remove (.checking _) => true
    | .update _ _ none => true
    | .pair _ .waiting => true
    | _ => false
  -- A pairing waits for the desktop; its connection may be gone by then.
  cancellable
    | .pair _ .waiting => true
    | .pair _ .saving => true
    | _ => false
  advance := deviceAdvance storageKey
  environment := deviceEvent

end Store

end Shelly.Daemon
