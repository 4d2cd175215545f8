import Mathlib.Data.Nat.Notation

namespace Shelly

abbrev SessionId := Nat

inductive AgentState
  | idle | working | awaitingInput | crashed
  deriving DecidableEq

inductive ErrorCode
  | versionMismatch | unauthorized | forbidden | notFound | invalidRequest | internal
  deriving DecidableEq

inductive PushPlatform
  | apns | fcm
  deriving DecidableEq

structure ClientSize where
  cols : Nat
  rows : Nat
  deriving DecidableEq

/-- Where a daemon can be reached, without its pairing code. -/
structure PairingRendezvous where
  nodeId : String
  relayUrl : Option String
  addrs : List String
  expiresAt : Nat
  deriving DecidableEq

/-- Messages from the daemon to one attached client. -/
inductive ServerToClientMsg
  | sessionKilled (sessionId : SessionId)
  | attached (sessionId : SessionId) (initialBytes : List UInt8) (seq : Nat)
  | output (sessionId : SessionId) (seq : Nat) (bytes : List UInt8)
  | agentStateChanged (sessionId : SessionId) (state : AgentState) (lastLine : Option String)
  | sessionExited (sessionId : SessionId) (exitCode : Int)
  | lag (sessionId : SessionId) (skippedBytes : Nat)
  | error (code : ErrorCode) (message : String)
  deriving DecidableEq

end Shelly
