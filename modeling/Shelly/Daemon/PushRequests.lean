import Shelly.Framework.JsonRecord
import Shelly.Framework.RadixText
import Shelly.Protocol.Messages
import Shelly.Protocol.Signing
import Shelly.Protocol.Wire

namespace Shelly.Daemon

open Radix

inductive RelayPushEventType
  | awaitingInput | sessionCrashed | buildFinished
  deriving DecidableEq

/-- What the push worker asks of the relay, each attempt signed anew. -/
inductive RelayOperation
  | registerToken (platform : PushPlatform) (token : String)
  | unregisterToken (token : String)
  | publishPairingRendezvous (locator : String) (rendezvous : PairingRendezvous)
  | push (platform : PushPlatform) (recipientToken : String) (sessionId : Wire.SessionId)
    (eventType : RelayPushEventType)
  deriving DecidableEq

/-- A request to the relay: the path behind its URL, the body, and the signature. -/
structure RelayPost where
  path : String
  body : List UInt8
  signature : Option String
  deriving DecidableEq

section Bodies

open JsonText

def platformName : PushPlatform → String
  | .apns => "apns"
  | .fcm => "fcm"

def RelayPushEventType.name : RelayPushEventType → String
  | .awaitingInput => "awaiting_input"
  | .sessionCrashed => "session_crashed"
  | .buildFinished => "build_finished"

/-- The digits of a UUID, in groups. -/
def uuidText (id : Wire.Uuid) : String :=
  let digits := hexLower.encode id.toList
  String.ofList <| digits.take 8 ++ '-' :: ((digits.drop 8).take 4 ++ '-' ::
    ((digits.drop 12).take 4 ++ '-' :: ((digits.drop 16).take 4 ++ '-' :: digits.drop 20)))

def hashForPush (sha256 : List UInt8 → List UInt8) (value : String) : String :=
  String.ofList (hexLower.encode (sha256 (bytesOf value)))

def rendezvousJson (r : PairingRendezvous) : JsonText :=
  .object [
    ("node_id", .string r.nodeId),
    ("relay_url", r.relayUrl.elim .null .string),
    ("addrs", .array (r.addrs.map .string)),
    ("expires_at", ofNat r.expiresAt)]

def registerDaemonBody (daemonNodeId publicKey : String) : JsonText :=
  .object [("daemon_node_id", .string daemonNodeId), ("public_key", .string publicKey)]

def RelayOperation.path : RelayOperation → String
  | .registerToken _ _ => "/v1/push/register-token"
  | .unregisterToken _ => "/v1/push/unregister-token"
  | .publishPairingRendezvous _ _ => "/v1/pair/publish"
  | .push _ _ _ _ => "/v1/push"

def RelayOperation.body (sha256 : List UInt8 → List UInt8) (daemonNodeId nonce : String)
    (tsMs : Nat) : RelayOperation → JsonText
  | .registerToken platform token =>
    .object [
      ("daemon_node_id", .string daemonNodeId),
      ("platform", .string (platformName platform)),
      ("push_token", .string token),
      ("nonce", .string nonce),
      ("ts_ms", ofNat tsMs)]
  | .unregisterToken token =>
    .object [
      ("daemon_node_id", .string daemonNodeId),
      ("push_token", .string token),
      ("nonce", .string nonce),
      ("ts_ms", ofNat tsMs)]
  | .publishPairingRendezvous locator rendezvous =>
    .object [
      ("daemon_node_id", .string daemonNodeId),
      ("locator", .string locator),
      ("rendezvous", rendezvousJson rendezvous),
      ("nonce", .string nonce),
      ("ts_ms", ofNat tsMs)]
  | .push platform recipientToken sessionId eventType =>
    .object [
      ("daemon_node_id", .string daemonNodeId),
      ("recipient_token", .string recipientToken),
      ("platform", .string (platformName platform)),
      ("session_id_hash", .string (hashForPush sha256 (uuidText sessionId))),
      ("event_type", .string eventType.name),
      ("nonce", .string nonce),
      ("ts_ms", ofNat tsMs)]

end Bodies

/-- The relay that the worker posts to, and its signing key. -/
structure RelaySigner where
  relayUrl : String
  verifyingKey : List UInt8
  sign : List UInt8 → List UInt8

namespace RelaySigner

variable (sha256 : List UInt8 → List UInt8) (w : RelaySigner) (daemonNodeId : String)

def signatureFor (path : String) (body : List UInt8) (nonce : String) (tsMs : Nat) : String :=
  signatureHeader .v2 <| base64Encode <|
    w.sign (canonicalRequestV2 sha256 w.relayUrl "POST" path body nonce tsMs)

/-- The request of `ensure_daemon_registered`. -/
def registration : RelayPost :=
  ⟨"/v1/pair", (registerDaemonBody daemonNodeId (base64Encode w.verifyingKey)).toVec, none⟩

/-- One attempt of an operation, with fresh bytes for the nonce. -/
def attempt (op : RelayOperation) (nonce : List UInt8) (tsMs : Nat) : RelayPost :=
  let nonce := base64Encode nonce
  let body := (op.body sha256 daemonNodeId nonce tsMs).toVec
  ⟨op.path, body, some (w.signatureFor sha256 op.path body nonce tsMs)⟩

end RelaySigner

end Shelly.Daemon
