import Mathlib.Logic.Equiv.List
import Shelly.Protocol.Messages
import Shelly.Protocol.Signing

namespace Shelly.Relay

def legacyCodeLen : Nat := 5

def isValidLegacyCode (code : String) : Bool :=
  code.toList.length = legacyCodeLen && code.toList.all codeAlphabet.toList.contains

/-- Sixty-four lower-case hexadecimal digits. -/
def isValidPairingLocator (locator : String) : Bool :=
  locator.utf8ByteSize = 64 && locator.toList.all fun c =>
    ('0' ≤ c && c ≤ '9') || ('a' ≤ c && c ≤ 'f')

theorem not_locator_of_legacy {code : String} (h : isValidLegacyCode code = true) :
    isValidPairingLocator code = false := by
  have hlength : code.toList.length = 5 := of_decide_eq_true (Bool.and_eq_true_iff.mp h).1
  have hsize := utf8ByteSize_le code
  have hne : code.utf8ByteSize ≠ 64 := by omega
  simp only [isValidPairingLocator, hne, decide_false, Bool.false_and]

/-- The bytes of an Ed25519 public key. -/
structure VerifyingKey where
  bytes : List UInt8
  size : bytes.length = 32
  deriving DecidableEq

structure RegistrationProof where
  audience : String
  nonce : String
  tsMs : Nat
  signature : String
  deriving DecidableEq

structure RegisterDaemonRequest where
  daemonNodeId : String
  publicKey : String
  nonce : Option String
  tsMs : Option Nat
  proof : Option RegistrationProof
  deriving DecidableEq

structure RegisterTokenRequest where
  daemonNodeId : String
  platform : PushPlatform
  pushToken : String
  nonce : String
  tsMs : Nat
  deriving DecidableEq

structure UnregisterTokenRequest where
  daemonNodeId : String
  pushToken : String
  nonce : String
  tsMs : Nat
  deriving DecidableEq

structure PublishLegacyPairingCodeRequest where
  daemonNodeId : String
  code : String
  ticketBlob : String
  expiresAtMs : Nat
  nonce : String
  tsMs : Nat
  deriving DecidableEq

structure PublishPairingRendezvousRequest where
  daemonNodeId : String
  locator : String
  rendezvous : PairingRendezvous
  nonce : String
  tsMs : Nat
  deriving DecidableEq

inductive PublishPairingRequest
  | legacy (request : PublishLegacyPairingCodeRequest)
  | reachability (request : PublishPairingRendezvousRequest)
  deriving DecidableEq

inductive PushEventType
  | awaitingInput | sessionCrashed | buildFinished
  deriving DecidableEq

structure PushRequest where
  daemonNodeId : String
  recipientToken : String
  platform : PushPlatform
  sessionIdHash : String
  eventType : PushEventType
  nonce : String
  tsMs : Nat
  deriving DecidableEq

section Validate

/-- The rule for the identity of a daemon and for nonces. -/
def isIdentifier (s : String) : Bool := isAscii s && lengthWithin 16 128 s

def isTimestamp (tsMs : Nat) : Bool := decide (1 ≤ tsMs)

def isPushToken (s : String) : Bool := lengthWithin 16 4096 s

def RegistrationProof.validate (p : RegistrationProof) : Bool :=
  (isAscii p.audience && lengthWithin 8 512 p.audience) && isIdentifier p.nonce &&
    isTimestamp p.tsMs && (isAscii p.signature && lengthWithin 80 128 p.signature)

def RegisterDaemonRequest.validate (r : RegisterDaemonRequest) : Bool :=
  isIdentifier r.daemonNodeId && (isAscii r.publicKey && lengthWithin 40 128 r.publicKey) &&
    r.nonce.all isIdentifier && r.tsMs.all isTimestamp && r.proof.all RegistrationProof.validate

def RegisterTokenRequest.validate (r : RegisterTokenRequest) : Bool :=
  isIdentifier r.daemonNodeId && isPushToken r.pushToken && isIdentifier r.nonce &&
    isTimestamp r.tsMs

def UnregisterTokenRequest.validate (r : UnregisterTokenRequest) : Bool :=
  isIdentifier r.daemonNodeId && isPushToken r.pushToken && isIdentifier r.nonce &&
    isTimestamp r.tsMs

def PublishPairingRequest.validate : PublishPairingRequest → Bool
  | .legacy r =>
    isIdentifier r.daemonNodeId && (isAscii r.code && lengthWithin 4 8 r.code) &&
      lengthWithin 16 1024 r.ticketBlob && isTimestamp r.expiresAtMs && isIdentifier r.nonce &&
      isTimestamp r.tsMs
  | .reachability r =>
    isIdentifier r.daemonNodeId && isValidPairingLocator r.locator && isIdentifier r.nonce &&
      isTimestamp r.tsMs

def PushRequest.validate (r : PushRequest) : Bool :=
  isIdentifier r.daemonNodeId && isPushToken r.recipientToken &&
    isValidPairingLocator r.sessionIdHash && isIdentifier r.nonce && isTimestamp r.tsMs

end Validate

/-- What the relay takes from libraries: base64, SHA-256, Ed25519, node identities and
their signatures, and JSON. -/
structure Externals where
  base64Decode : String → Option (List UInt8)
  base64Encode : List UInt8 → String
  sha256 : List UInt8 → List UInt8
  fromUtf8Lossy : List UInt8 → String
  isVerifyingKey : List UInt8 → Bool
  isSignature : List UInt8 → Bool
  verify : VerifyingKey → List UInt8 → List UInt8 → Bool
  nodeKey : String → Option (List UInt8)
  isNodeSignature : List UInt8 → Bool
  verifyNode : List UInt8 → List UInt8 → List UInt8 → Bool
  registerDaemonJson : List UInt8 → Option RegisterDaemonRequest
  registerTokenJson : List UInt8 → Option RegisterTokenRequest
  unregisterTokenJson : List UInt8 → Option UnregisterTokenRequest
  pushJson : List UInt8 → Option PushRequest
  publishJson : List UInt8 → Option PublishPairingRequest
  rendezvousToJson : PairingRendezvous → Option String
  rendezvousFromJson : String → Option PairingRendezvous

/-- A key of the right length that is a point of the curve. -/
def Externals.keyFromBytes (ext : Externals) (bytes : List UInt8) : Option VerifyingKey :=
  if h : bytes.length = 32 then if ext.isVerifyingKey bytes then some ⟨bytes, h⟩ else none
  else none

/-- What is encoded is decoded again. -/
def Externals.DecodesRendezvous (ext : Externals) : Prop :=
  ∀ r, ∃ text, ext.rendezvousToJson r = some text ∧ ext.rendezvousFromJson text = some r

section Playing

-- Libraries for playing fixed requests: a body holds the number of a request, a text
-- decodes to its first bytes, and a signature is the text of its key.

/-- The requests that a played trace sends, by the endpoint they go to. -/
structure Script where
  registerDaemons : List RegisterDaemonRequest
  registerTokens : List RegisterTokenRequest
  unregisterTokens : List UnregisterTokenRequest
  pushes : List PushRequest
  publishes : List PublishPairingRequest

def Script.json {α : Type} (requests : List α) (body : List UInt8) : Option α :=
  requests[(body.headD 0).toNat]?

def Externals.playing (script : Script) : Externals where
  base64Decode s := some ((bytesOf s).take 32)
  base64Encode _ := ""
  sha256 body := body
  fromUtf8Lossy _ := ""
  isVerifyingKey _ := true
  isSignature _ := true
  verify key _ signature := signature = key.bytes
  nodeKey s := some (bytesOf s)
  isNodeSignature _ := true
  verifyNode _ _ _ := true
  registerDaemonJson := Script.json script.registerDaemons
  registerTokenJson := Script.json script.registerTokens
  unregisterTokenJson := Script.json script.unregisterTokens
  pushJson := Script.json script.pushes
  publishJson := Script.json script.publishes
  rendezvousToJson r := some r.nodeId
  rendezvousFromJson _ := none

/-- A number for every text. -/
def textCodes (s : String) : List Nat := s.toList.map Char.toNat

def textOfCodes (codes : List Nat) : String := String.ofList (codes.map Char.ofNat)

theorem textOfCodes_textCodes (s : String) : textOfCodes (textCodes s) = s := by
  have hchars : (Char.ofNat ∘ Char.toNat) = id := funext Char.ofNat_toNat
  rw [textOfCodes, textCodes, List.map_map, hchars, List.map_id, String.ofList_toList]

/-- A text for every rendezvous: its number, in strokes. -/
def rendezvousText (r : PairingRendezvous) : String :=
  String.ofList (List.replicate (Encodable.encode
    (textCodes r.nodeId, r.relayUrl.map textCodes, r.addrs.map textCodes, r.expiresAt)) '|')

def readRendezvous (text : String) : Option PairingRendezvous :=
  (Encodable.decode text.toList.length).map
    fun r : List Nat × Option (List Nat) × List (List Nat) × Nat =>
      ⟨textOfCodes r.1, r.2.1.map textOfCodes, r.2.2.1.map textOfCodes, r.2.2.2⟩

theorem readRendezvous_text (r : PairingRendezvous) : readRendezvous (rendezvousText r) = some r := by
  have hcodes : (textOfCodes ∘ textCodes) = id := funext textOfCodes_textCodes
  simp only [readRendezvous, rendezvousText, String.toList_ofList, List.length_replicate,
    Encodable.encodek, Option.map_some, textOfCodes_textCodes, Option.map_map, List.map_map,
    hcodes, Option.map_id, List.map_id, id_eq]

/-- The same with rendezvous that can be read back. -/
def Externals.playingRendezvous (script : Script) : Externals :=
  { Externals.playing script with
    rendezvousToJson := fun r => some (rendezvousText r)
    rendezvousFromJson := readRendezvous }

theorem decodesRendezvous_playing (script : Script) :
    (Externals.playingRendezvous script).DecodesRendezvous := by
  intro r
  refine ⟨rendezvousText r, ?_, ?_⟩
  · simp only [Externals.playingRendezvous]
  · simp only [Externals.playingRendezvous]
    exact readRendezvous_text r

/-- The text of a key. -/
def keyText (c : Char) : String := String.ofList (List.replicate 44 c)

def signedBy (c : Char) : Option String := some ("v1=" ++ keyText c)

end Playing

end Shelly.Relay
