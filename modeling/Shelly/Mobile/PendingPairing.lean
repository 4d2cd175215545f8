import Shelly.Daemon.Dispatch
import Shelly.Mobile.PairingStore
import Shelly.Protocol.Wire

namespace Shelly.Mobile.Pending

open Daemon

/-- How a call of the mobile core fails. -/
inductive ShellyError
  | invalidConfig (message : String)
  | transport (message : String)
  | protocol (message : String)
  | versionMismatch (message : String)
  | unauthorized (message : String)
  | forbidden (message : String)
  | notFound (message : String)
  | internal (message : String)
  deriving DecidableEq

def errorFromServer : ErrorCode → String → ShellyError
  | .versionMismatch => .versionMismatch
  | .invalidRequest => .protocol
  | .unauthorized => .unauthorized
  | .forbidden => .forbidden
  | .notFound => .notFound
  | .internal => .internal

structure DaemonTarget where
  nodeId : String
  relayUrl : Option String
  addrs : List String
  deriving DecidableEq

def DaemonTarget.fromTicket (ticket : Wire.PairingTicket) : DaemonTarget :=
  ⟨ticket.nodeId, ticket.relayUrl, ticket.addrs⟩

structure WelcomeInfo where
  daemonVersion : String
  hostName : String
  deriving DecidableEq

structure DaemonInfo extends DaemonCredentials where
  daemonVersion : String
  protocolVersion : Nat
  hostName : String
  deriving DecidableEq

structure PendingPairingGate where
  localConfirmed : Bool
  daemonCompleted : Bool
  cancelled : Bool
  persisted : Bool
  deriving DecidableEq

namespace PendingPairingGate

def new : PendingPairingGate := ⟨false, false, false, false⟩

variable (g : PendingPairingGate)

def confirmLocal : Except ShellyError PendingPairingGate :=
  if g.cancelled then .error (.invalidConfig "pairing attempt was already cancelled")
  else if g.persisted then .error (.invalidConfig "pairing attempt was already completed")
  else .ok { g with localConfirmed := true }

def recordDaemonCompleted : Except ShellyError PendingPairingGate :=
  if g.cancelled then .error (.invalidConfig "cancelled pairing attempt cannot complete")
  else .ok { g with daemonCompleted := true }

def readyToPersist : Bool := g.localConfirmed && g.daemonCompleted && !g.cancelled

def markPersisted : Except ShellyError PendingPairingGate :=
  if g.readyToPersist then .ok { g with persisted := true }
  else .error (.internal "pairing cannot be persisted before both confirmations")

def cancel : Except ShellyError PendingPairingGate :=
  if g.persisted then .error (.invalidConfig "completed pairing attempt cannot be cancelled")
  else .ok { g with cancelled := true }

end PendingPairingGate

/-- Who has the other end of a stream: nobody yet, a connection of the daemon, or nobody any
more. -/
inductive Peer
  | waiting
  | serving (i : Nat)
  | gone
  deriving DecidableEq

/-- A stream to the host that has proved an identity: what the host has written on it, and how many
of these messages the phone has read. -/
structure BiStream where
  nodeId : String
  peer : Peer
  sent : List Daemon.Reply
  read : Nat
  deriving DecidableEq

/-- An attempt with the stream it was made on. Both ends of the stream are taken out together;
`held` says whether the attempt still has them. -/
structure PendingPairing where
  sas : String
  target : DaemonTarget
  welcome : WelcomeInfo
  deviceNodeId : String
  stream : Nat
  held : Bool
  gate : PendingPairingGate
  deriving DecidableEq

/-- `setBy` is history: the attempts that have set the stored target, the last one first. -/
structure ShellyClient where
  daemon : Option DaemonTarget
  streams : Table Nat BiStream
  opened : Nat
  pairings : Table Nat PendingPairing
  made : Nat
  setBy : List Nat

namespace ShellyClient

def new (daemon : Option DaemonTarget) : ShellyClient := ⟨daemon, .empty, 0, .empty, 0, []⟩

variable (s : ShellyClient)

def openStream (nodeId : String) : ShellyClient :=
  { s with
    streams := s.streams.insert s.opened ⟨nodeId, .waiting, [], 0⟩
    opened := s.opened + 1 }

/-- The next message on a stream, if one is there. -/
def readMsg (k : Nat) : Option (ShellyClient × Daemon.Reply) :=
  (s.streams.lookup k).bind fun stream =>
    stream.sent[stream.read]?.map fun r =>
      ({ s with streams := s.streams.insert k { stream with read := stream.read + 1 } }, r)

def addPairing (pairing : PendingPairing) : ShellyClient :=
  { s with pairings := s.pairings.insert s.made pairing, made := s.made + 1 }

def setPairing (n : Nat) (pairing : PendingPairing) : ShellyClient :=
  { s with pairings := s.pairings.insert n pairing }

def setDaemon (n : Nat) (target : DaemonTarget) : ShellyClient :=
  { s with daemon := some target, setBy := n :: s.setBy }

/-- A host writes on a stream. -/
def deliver (k : Nat) (stream : BiStream) (r : Daemon.Reply) : ShellyClient :=
  { s with streams := s.streams.insert k { stream with sent := stream.sent ++ [r] } }

end ShellyClient

def isValidCode (code : String) : Bool :=
  code.toList.length = codeLen && code.toList.all codeAlphabet.toList.contains

/-- What the outside decides in one step: whether the connection fails or a wait for it times out,
what a host says about itself, and how an unexpected message is shown. -/
structure PhoneChoice where
  lost : Option ShellyError
  welcome : WelcomeInfo
  shown : String
  deriving DecidableEq

/-- Where `pair_with_ticket` stands. -/
inductive PairPc
  | called (ticket : Wire.PairingTicket)
  | opening (code : String) (target : DaemonTarget)
  | greeting (code : String) (target : DaemonTarget) (k : Nat)
  | requesting (code : String) (target : DaemonTarget) (welcome : WelcomeInfo) (k : Nat)
  | returned (result : Except ShellyError Nat)
  deriving DecidableEq

/-- Where `confirm` stands. It takes the stream from the attempt. -/
inductive ConfirmPc
  | called
  | reading (k : Nat)
  | recording (daemonNodeId : String)
  | storing (daemonNodeId : String)
  | returned (result : Except ShellyError DaemonInfo)
  deriving DecidableEq

/-- Where `cancel` stands. -/
inductive CancelPc
  | called
  | returned (result : Except ShellyError Unit)
  deriving DecidableEq

inductive PhoneTask
  | pair (pc : PairPc)
  | confirm (n : Nat) (pc : ConfirmPc)
  | cancel (n : Nat) (pc : CancelPc)
  deriving DecidableEq

/-- Waits for the next message on a stream, unless the connection fails. -/
def awaitMsg {α : Type} (c : PhoneChoice) (s : ShellyClient) (k : Nat) (failed : ShellyError → α)
    (received : ShellyClient → Daemon.Reply → ShellyClient × α) : Option (ShellyClient × α) :=
  match c.lost with
  | some error => some (s, failed error)
  | none => (s.readMsg k).map fun r => received r.1 r.2

section Phone

-- The phone's identity, its secret key, and the short string that two endpoints derive from a
-- pairing code and their keys, unless a key cannot be read.
variable (phoneNodeId : String) (secretKey : List UInt8)
  (pairingSas : String → String → String → Except String String)

def pairStep (c : PhoneChoice) (s : ShellyClient) : PairPc → Option (ShellyClient × PairPc)
  | .called ticket =>
    let code := normalizeCode ticket.code
    if isValidCode code then some (s, .opening code (.fromTicket ticket))
    else
      some (s, .returned (.error (.invalidConfig
        s!"pairing code must be {codeLen} Crockford-base32 characters")))
  | .opening code target =>
    match c.lost with
    | some error => some (s, .returned (.error error))
    | none => some (s.openStream target.nodeId, .greeting code target s.opened)
  | .greeting code target k =>
    awaitMsg c s k (fun error => .returned (.error error)) fun s r => (s, match r with
      | .welcome => .requesting code target c.welcome k
      | .client (.error code message) => .returned (.error (errorFromServer code message))
      | _ => .returned (.error (.protocol
          s!"unexpected daemon response during handshake: {c.shown}")))
  | .requesting code target welcome k =>
    awaitMsg c s k (fun error => .returned (.error error)) fun s r => match r with
      | .pairingPending sas =>
        match pairingSas code target.nodeId phoneNodeId with
        | .error message =>
          (s, .returned (.error (.protocol s!"pairing daemon node id is invalid: {message}")))
        | .ok expectedSas =>
          if sas = expectedSas then
            (s.addPairing ⟨sas, target, welcome, phoneNodeId, k, true, .new⟩,
              .returned (.ok s.made))
          else
            (s, .returned (.error (.protocol
              "daemon pairing SAS did not match the locally computed transcript")))
      | .client (.error code message) => (s, .returned (.error (errorFromServer code message)))
      | _ => (s, .returned (.error (.protocol
          s!"unexpected daemon response during pairing: {c.shown}")))
  | .returned _ => none

/-- The two things that `confirm` records when the daemon has completed the pairing. -/
def PendingPairingGate.complete (g : PendingPairingGate) :
    PendingPairingGate × Except ShellyError Unit :=
  match g.recordDaemonCompleted with
  | .error error => (g, .error error)
  | .ok g =>
    match g.markPersisted with
    | .error error => (g, .error error)
    | .ok g => (g, .ok ())

def confirmStep (c : PhoneChoice) (n : Nat) (s : ShellyClient) (pairing : PendingPairing) :
    ConfirmPc → Option (ShellyClient × ConfirmPc)
  | .called =>
    match pairing.gate.confirmLocal with
    | .error error => some (s, .returned (.error error))
    | .ok gate =>
      some (s.setPairing n { pairing with held := false, gate := gate },
        if pairing.held then .reading pairing.stream
        else .returned (.error (.invalidConfig "pairing confirmation is already in progress")))
  | .reading k =>
    awaitMsg c s k (fun error => .returned (.error error)) fun s r => (s, match r with
      | .pairingComplete daemonNodeId =>
        if daemonNodeId = pairing.target.nodeId then .recording daemonNodeId
        else .returned (.error (.protocol
          "pairing completion daemon identity did not match the authenticated target"))
      | .client (.error code message) => .returned (.error (errorFromServer code message))
      | _ => .returned (.error (.protocol
          s!"unexpected daemon response during pairing confirmation: {c.shown}")))
  | .recording daemonNodeId =>
    let r := pairing.gate.complete
    some (s.setPairing n { pairing with gate := r.1 }, match r.2 with
      | .error error => .returned (.error error)
      | .ok () => .storing daemonNodeId)
  | .storing daemonNodeId =>
    some (s.setDaemon n pairing.target, .returned (.ok {
      daemonNodeId := daemonNodeId
      relayUrl := pairing.target.relayUrl
      addrs := pairing.target.addrs
      deviceNodeId := pairing.deviceNodeId
      deviceSecretKey := secretKey
      daemonVersion := pairing.welcome.daemonVersion
      protocolVersion := contractVersion
      hostName := pairing.welcome.hostName }))
  | .returned _ => none

def cancelStep (n : Nat) (s : ShellyClient) (pairing : PendingPairing) :
    CancelPc → Option (ShellyClient × CancelPc)
  | .called =>
    match pairing.gate.cancel with
    | .error error => some (s, .returned (.error error))
    | .ok gate =>
      some (s.setPairing n { pairing with held := false, gate := gate }, .returned (.ok ()))
  | .returned _ => none

/-- One atomic step of a call; those of an attempt need that it was made. -/
def phoneAdvance (c : PhoneChoice) (_ : Nat) :
    PhoneTask → ShellyClient → Option (ShellyClient × PhoneTask)
  | .pair pc, s => (pairStep phoneNodeId pairingSas c s pc).map fun r => (r.1, .pair r.2)
  | .confirm n pc, s =>
    (s.pairings.lookup n).bind fun pairing =>
      (confirmStep secretKey c n s pairing pc).map fun r => (r.1, .confirm n r.2)
  | .cancel n pc, s =>
    (s.pairings.lookup n).bind fun pairing =>
      (cancelStep n s pairing pc).map fun r => (r.1, .cancel n r.2)

def PhoneTask.returned : PhoneTask → Bool
  | .pair (.returned _) | .confirm _ (.returned _) | .cancel _ (.returned _) => true
  | _ => false

/-- What happens to the phone besides these calls: a host writes on a stream, and the phone gives
up the pairing it has. -/
inductive PhoneEvent
  | deliver (k : Nat) (r : Daemon.Reply)
  | unpairSelf
  deriving DecidableEq

-- The identities under which the daemon is known. Any other host writes what it likes.
variable (isDaemon : String → Bool)

def phoneEvent : PhoneEvent → ShellyClient → Option (ShellyClient × Bool)
  | .deliver k r, s =>
    (s.streams.lookup k).bind fun stream =>
      if isDaemon stream.nodeId then none else some (s.deliver k stream r, true)
  | .unpairSelf, s => some ({ s with daemon := none }, true)

/-- The calls of the mobile core that pair. One that has not returned can be dropped where it
waits. -/
def phoneTasking : Tasking ShellyClient PhoneTask PhoneChoice PhoneEvent where
  init s := ∃ daemon, s = .new daemon
  start
    | .pair (.called _) | .confirm _ .called | .cancel _ .called => true
    | _ => false
  cancellable x := !x.returned
  advance := phoneAdvance phoneNodeId secretKey pairingSas
  environment := phoneEvent isDaemon

end Phone

end Shelly.Mobile.Pending
