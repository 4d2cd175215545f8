import Shelly.Framework.JsonRecord
import Shelly.Relay.Endpoints

namespace Shelly.Relay

open JsonText

def readPlatform : JsonText → Option PushPlatform := variant [("apns", .apns), ("fcm", .fcm)]

def PushEventType.read : JsonText → Option PushEventType :=
  variant [("awaiting_input", .awaitingInput), ("session_crashed", .sessionCrashed),
    ("build_finished", .buildFinished)]

def RegistrationProof.read (x : JsonText) : Option RegistrationProof := do
  let s ← x.slots ["audience", "nonce", "ts_ms", "signature"] true
  return ⟨← s.required text "audience", ← s.required text "nonce", ← s.required u64 "ts_ms",
    ← s.required text "signature"⟩

def RegisterDaemonRequest.read (x : JsonText) : Option RegisterDaemonRequest := do
  let s ← x.slots ["daemon_node_id", "public_key", "nonce", "ts_ms", "proof"] true
  return ⟨← s.required text "daemon_node_id", ← s.required text "public_key",
    ← s.defaulted text "nonce", ← s.defaulted u64 "ts_ms",
    ← s.defaulted RegistrationProof.read "proof"⟩

def RegisterTokenRequest.read (x : JsonText) : Option RegisterTokenRequest := do
  let s ← x.slots ["daemon_node_id", "platform", "push_token", "nonce", "ts_ms"] true
  return ⟨← s.required text "daemon_node_id", ← s.required readPlatform "platform",
    ← s.required text "push_token", ← s.required text "nonce", ← s.required u64 "ts_ms"⟩

def UnregisterTokenRequest.read (x : JsonText) : Option UnregisterTokenRequest := do
  let s ← x.slots ["daemon_node_id", "push_token", "nonce", "ts_ms"] true
  return ⟨← s.required text "daemon_node_id", ← s.required text "push_token",
    ← s.required text "nonce", ← s.required u64 "ts_ms"⟩

def PublishLegacyPairingCodeRequest.read (x : JsonText) :
    Option PublishLegacyPairingCodeRequest := do
  let s ← x.slots
    ["daemon_node_id", "code", "ticket_blob", "expires_at_ms", "nonce", "ts_ms"] true
  return ⟨← s.required text "daemon_node_id", ← s.required text "code",
    ← s.required text "ticket_blob", ← s.required u64 "expires_at_ms", ← s.required text "nonce",
    ← s.required u64 "ts_ms"⟩

/-- Other fields of a rendezvous are ignored. -/
def readRendezvousJson (x : JsonText) : Option PairingRendezvous := do
  let s ← x.slots ["node_id", "relay_url", "addrs", "expires_at"] false
  return ⟨← s.required text "node_id", ← s.optional text "relay_url",
    ← s.required (elements text) "addrs", ← s.required u64 "expires_at"⟩

def PublishPairingRendezvousRequest.read (x : JsonText) :
    Option PublishPairingRendezvousRequest := do
  let s ← x.slots ["daemon_node_id", "locator", "rendezvous", "nonce", "ts_ms"] true
  return ⟨← s.required text "daemon_node_id", ← s.required text "locator",
    ← s.required readRendezvousJson "rendezvous", ← s.required text "nonce",
    ← s.required u64 "ts_ms"⟩

/-- The first form that fits. -/
def PublishPairingRequest.read (x : JsonText) : Option PublishPairingRequest :=
  match PublishLegacyPairingCodeRequest.read x with
  | some request => some (.legacy request)
  | none => (PublishPairingRendezvousRequest.read x).map .reachability

def PushRequest.read (x : JsonText) : Option PushRequest := do
  let s ← x.slots ["daemon_node_id", "recipient_token", "platform", "session_id_hash", "event_type",
    "nonce", "ts_ms"] true
  return ⟨← s.required text "daemon_node_id", ← s.required text "recipient_token",
    ← s.required readPlatform "platform", ← s.required text "session_id_hash",
    ← s.required PushEventType.read "event_type", ← s.required text "nonce",
    ← s.required u64 "ts_ms"⟩

/-- The bodies of requests as JSON. -/
structure Externals.ReadsJsonText (ext : Externals) : Prop where
  registerDaemon : ∀ body, ext.registerDaemonJson body =
    (fromSlice body).bind RegisterDaemonRequest.read
  registerToken : ∀ body, ext.registerTokenJson body =
    (fromSlice body).bind RegisterTokenRequest.read
  unregisterToken : ∀ body, ext.unregisterTokenJson body =
    (fromSlice body).bind UnregisterTokenRequest.read
  push : ∀ body, ext.pushJson body = (fromSlice body).bind PushRequest.read
  publish : ∀ body, ext.publishJson body = (fromSlice body).bind PublishPairingRequest.read

end Shelly.Relay
