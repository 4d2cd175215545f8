import Mathlib.Data.List.Basic
import Mathlib.Data.Option.Basic

namespace Shelly.Mobile

/-- The characters that Kotlin trims. -/
def isWhitespaceChar (c : Char) : Bool :=
  let n := c.toNat
  (9 ≤ n && n ≤ 13) || (0x1C ≤ n && n ≤ 0x20) || n = 0xA0 || n = 0x1680 ||
    (0x2000 ≤ n && n ≤ 0x200A) || n = 0x2028 || n = 0x2029 || n = 0x202F || n = 0x205F || n = 0x3000

def trimToken (s : String) : String :=
  String.ofList
    ((s.toList.dropWhile isWhitespaceChar).reverse.dropWhile isWhitespaceChar).reverse

def isBlank (s : String) : Bool := s.toList.all isWhitespaceChar

/-- Where a daemon is reached, and the device it knows. -/
structure DaemonCredentials where
  daemonNodeId : String
  relayUrl : Option String
  addrs : List String
  deviceNodeId : String
  deviceSecretKey : List UInt8
  deriving DecidableEq

structure PairedDaemonRecord extends DaemonCredentials where
  pairedAtMillis : Int
  daemonVersion : String
  hostName : String
  protocolVersion : Int
  deriving DecidableEq

structure PushTokenMetadata where
  platform : String
  token : String
  createdAtMillis : Int
  deriving DecidableEq

structure PushUnregisterTombstone extends DaemonCredentials where
  tokens : List PushTokenMetadata
  deriving DecidableEq

/-- A blank relay address is read back as none. -/
def DaemonCredentials.readBack (c : DaemonCredentials) : DaemonCredentials :=
  { c with relayUrl := c.relayUrl.filter (!isBlank ·) }

@[simp] theorem DaemonCredentials.readBack_readBack (c : DaemonCredentials) :
    c.readBack.readBack = c.readBack := by
  simp [readBack, Option.filter_filter]

def PairedDaemonRecord.readBack (r : PairedDaemonRecord) : PairedDaemonRecord :=
  { r with toDaemonCredentials := r.toDaemonCredentials.readBack }

def PushUnregisterTombstone.readBack (t : PushUnregisterTombstone) : PushUnregisterTombstone :=
  { t with toDaemonCredentials := t.toDaemonCredentials.readBack }

/-- The two records of the preferences, as they were saved. -/
structure PairingStore where
  daemon : Option PairedDaemonRecord
  pushUnregisterTombstone : Option PushUnregisterTombstone
  deriving DecidableEq

namespace PairingStore

variable (s : PairingStore)

def load : Option PairedDaemonRecord := s.daemon.map PairedDaemonRecord.readBack

theorem load_readBack : s.load.map PairedDaemonRecord.readBack = s.load := by
  unfold load
  rw [Option.map_map]
  congr 1
  funext record
  simp [PairedDaemonRecord.readBack]

def save (record : PairedDaemonRecord) : PairingStore := { s with daemon := some record }

/-- Keeps the tombstone, which must outlive the pairing. -/
def clear : PairingStore := { s with daemon := none }

def savePushUnregisterTombstone (tombstone : PushUnregisterTombstone) : PairingStore :=
  { s with pushUnregisterTombstone := some tombstone }

def loadPushUnregisterTombstone : Option PushUnregisterTombstone :=
  s.pushUnregisterTombstone.map PushUnregisterTombstone.readBack

def clearPushUnregisterTombstone : PairingStore := { s with pushUnregisterTombstone := none }

/-- The second half of an acknowledgement: `tombstone` was loaded by the first. -/
def acknowledgePushToken (tombstone : PushUnregisterTombstone) (token : String) : PairingStore :=
  let remaining := tombstone.tokens.filter (·.token ≠ token)
  if remaining.isEmpty then s.clearPushUnregisterTombstone
  else s.savePushUnregisterTombstone { tombstone with tokens := remaining }

end PairingStore

/-- A token that a daemon may still push to. -/
structure Obligation where
  token : String
  credentials : DaemonCredentials
  deriving DecidableEq

namespace PushUnregisterTombstone

variable (t : PushUnregisterTombstone)

def covers (o : Obligation) : Bool :=
  t.toDaemonCredentials.readBack = o.credentials && t.tokens.any (·.token = o.token)

def obligations : List Obligation :=
  t.tokens.map fun metadata => ⟨metadata.token, t.toDaemonCredentials.readBack⟩

@[simp] theorem covers_readBack (o : Obligation) : t.readBack.covers o = t.covers o := by
  change (t.toDaemonCredentials.readBack.readBack = o.credentials &&
    t.tokens.any (·.token = o.token)) = t.covers o
  rw [DaemonCredentials.readBack_readBack]
  rfl

theorem covers_of_mem_obligations {o : Obligation} (h : o ∈ t.obligations) : t.covers o = true := by
  obtain ⟨metadata, hmem, rfl⟩ := List.mem_map.mp h
  unfold covers
  rw [Bool.and_eq_true, decide_eq_true_eq, List.any_eq_true]
  exact ⟨rfl, metadata, hmem, decide_eq_true rfl⟩

end PushUnregisterTombstone

namespace PairingStore

variable (s : PairingStore)

/-- The tombstone carries the obligation. -/
def holds (o : Obligation) : Bool := s.pushUnregisterTombstone.any (·.covers o)

theorem holds_save (t : PushUnregisterTombstone) (o : Obligation) :
    (s.savePushUnregisterTombstone t).holds o = t.covers o := rfl

theorem covers_of_load {t : PushUnregisterTombstone} {o : Obligation}
    (hload : s.loadPushUnregisterTombstone = some t) (h : s.holds o = true) :
    t.covers o = true := by
  obtain ⟨saved, hsaved, rfl⟩ := Option.map_eq_some_iff.mp hload
  unfold holds at h
  rw [hsaved] at h
  rw [PushUnregisterTombstone.covers_readBack]
  exact h

/-- What is acknowledged is the only thing that the tombstone loses. -/
theorem holds_acknowledge {t : PushUnregisterTombstone} {token : String} {o : Obligation}
    (hother : o.token ≠ token) (h : t.covers o = true) :
    (s.acknowledgePushToken t token).holds o = true := by
  unfold PushUnregisterTombstone.covers at h
  rw [Bool.and_eq_true, List.any_eq_true] at h
  obtain ⟨hcredentials, metadata, hmem, htoken⟩ := h
  have hkept : metadata ∈ t.tokens.filter (·.token ≠ token) := by
    refine List.mem_filter.mpr ⟨hmem, decide_eq_true ?_⟩
    rw [of_decide_eq_true htoken]
    exact hother
  have hnonempty : ¬ (t.tokens.filter (·.token ≠ token)).isEmpty = true := by
    rw [List.isEmpty_iff]
    exact List.ne_nil_of_mem hkept
  unfold acknowledgePushToken
  rw [if_neg hnonempty, holds_save]
  unfold PushUnregisterTombstone.covers
  rw [Bool.and_eq_true, List.any_eq_true]
  exact ⟨hcredentials, metadata, hkept, htoken⟩

end PairingStore

end Shelly.Mobile
