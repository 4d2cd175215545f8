import Shelly.Protocol.Text

namespace Shelly

inductive SignatureVersion
  | v1 | v2
  deriving DecidableEq

def v1SignaturePrefix : String := "v1="

def v2SignaturePrefix : String := "v2="

def v2Domain : String := "shelly-relay-request-v2"

/-- The value of the header for an encoded signature. -/
def signatureHeader (version : SignatureVersion) (encodedSignature : String) : String :=
  (match version with
    | .v1 => v1SignaturePrefix
    | .v2 => v2SignaturePrefix) ++ encodedSignature

def isVersionMarker (value : String) : Bool :=
  match stripPrefix "v" value with
  | some digits => !digits.toList.isEmpty && digits.toList.all Char.isDigit
  | none => false

/-- The version and the encoded signature of a header. A bare value is the first
version; a marker of a version that does not exist is refused. -/
def splitSignatureHeader (value : String) : Option (SignatureVersion × String) :=
  match stripPrefix v1SignaturePrefix value with
  | some signature => some (.v1, signature)
  | none =>
    match stripPrefix v2SignaturePrefix value with
    | some signature => some (.v2, signature)
    | none =>
      let version := value.toList.takeWhile (· ≠ '=')
      if '=' ∈ value.toList ∧ isVersionMarker (String.ofList version) then none
      else some (.v1, value)

/-- The text that released daemons sign. `fromUtf8Lossy` decodes the body. -/
def canonicalRequest (fromUtf8Lossy : List UInt8 → String) (method path : String)
    (body : List UInt8) (nonce : String) (tsMs : Nat) : String :=
  method ++ "\n" ++ path ++ "\n" ++ fromUtf8Lossy body ++ "\n" ++ nonce ++ "\n" ++ toString tsMs

/-- Eight bytes, the most significant first. -/
def u64ToBeBytes (n : Nat) : List UInt8 :=
  (List.range 8).reverse.map fun i => UInt8.ofNat (n / 256 ^ i % 256)

def lengthPrefixed (field : List UInt8) : List UInt8 := u64ToBeBytes field.length ++ field

/-- The bytes that current daemons sign: every field behind its length. -/
def canonicalRequestV2 (sha256 : List UInt8 → List UInt8) (relayAudience method path : String)
    (body : List UInt8) (nonce : String) (tsMs : Nat) : List UInt8 :=
  [bytesOf v2Domain, bytesOf relayAudience, bytesOf method, bytesOf path, sha256 body,
    bytesOf nonce, u64ToBeBytes tsMs].flatMap lengthPrefixed

end Shelly
