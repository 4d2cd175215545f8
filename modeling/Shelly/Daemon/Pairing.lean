import Shelly.Framework.Pool
import Shelly.Framework.Word
import Shelly.Protocol.Text

namespace Shelly.Daemon

def pairTokenTtlMs : Nat := 5 * 60 * 1000

/-- Wrong attempts after which an active code is invalidated. -/
def maxCodeAttempts : Nat := 5

def codeLen : Nat := 7

/-- What the desktop is asked. -/
structure PairingApprovalEvent where
  requestId : Nat
  deviceName : String
  deviceNodeId : String
  sas : String
  deriving DecidableEq

/-- `generation` is the channel to the desktop that asked for the code. -/
structure PendingPairCode where
  expiresAt : Nat
  attempts : Nat
  generation : Nat
  deriving DecidableEq

/-- What has happened, for stating properties of whole runs. -/
inductive PairingEvent
  | began (generation expiresAt : Nat)
  | missed
  | taken (generation now : Nat)
  | opened (requestId channel : Nat)
  | requested (generation : Nat) (event : PairingApprovalEvent)
  | answered (requestId : Nat) (approved : Bool)
  | waited (requestId : Nat) (approved : Bool)
  deriving DecidableEq

/-- `approvals` holds the sending half of a channel for every request that waits for its
answer, and `answers` what was sent. Requests, channels and codes are numbered as they are
made. -/
structure PairingManager where
  codes : Table String PendingPairCode
  approvals : Table Nat Nat
  answers : Table Nat Bool
  requests : Nat
  channels : Nat
  generations : Nat
  history : List PairingEvent

def PairingManager.new : PairingManager := ⟨.empty, .empty, .empty, 0, 0, 0, []⟩

/-- `remainingMs` is how long `wait` waits. -/
structure PendingPairingApproval where
  requestId : Nat
  channel : Nat
  remainingMs : Nat
  deriving DecidableEq

/-- What the outside decides in one step: the random bytes of a code, whether the desktop
still listens, and whether a request is abandoned by the connection that made it. -/
structure PairingChoice where
  random : List UInt8
  listening : Bool
  abandoned : Bool
  deriving DecidableEq

/-- One character for the low five bits of each byte. -/
def generateCode (random : List UInt8) : Option String :=
  if random.length = codeLen then
    some (String.ofList (random.map fun b => codeAlphabet.toList.getD (b &&& 0x1f).toNat '0'))
  else none

namespace PairingManager

variable (m : PairingManager)

def note (e : PairingEvent) : PairingManager := { m with history := e :: m.history }

def pruneExpired (now : Nat) : PairingManager :=
  { m with codes := m.codes.retain fun _ pending => decide (now < pending.expiresAt) }

/-- The new code replaces all others. -/
def setCode (code : String) (expiresAt : Nat) : PairingManager :=
  { m.note (.began m.generations expiresAt) with
    codes := Table.empty.insert code ⟨expiresAt, 0, m.generations⟩
    generations := m.generations + 1 }

def takeCode (code : String) (pending : PendingPairCode) (now : Nat) : PairingManager :=
  { m.note (.taken pending.generation now) with codes := m.codes.erase code }

/-- A wrong code is charged to every active one, and those that have no attempts left are
invalidated. -/
def chargeMiss (now : Nat) : PairingManager :=
  { m.note .missed with
    codes := (m.codes.mapVal fun pending =>
        { pending with attempts := min (pending.attempts + 1) 255 }).retain fun _ pending =>
      decide (now < pending.expiresAt) && decide (pending.attempts < maxCodeAttempts) }

def openApproval : PairingManager :=
  { m.note (.opened m.requests m.channels) with
    approvals := m.approvals.insert m.requests m.channels
    requests := m.requests + 1
    channels := m.channels + 1 }

def closeApproval (requestId : Nat) : PairingManager :=
  { m with approvals := m.approvals.erase requestId }

def answer (channel : Nat) (approved : Bool) : PairingManager :=
  { m with answers := m.answers.insert channel approved }

end PairingManager

/-- Where `begin_pairing` stands. -/
inductive BeginPairingPc
  | start
  | pruning (now : Nat)
  | generating
  | inserting (code : String) (expiresAt : Nat)
  | returned (code : String) (expiresAt generation : Nat)
  deriving DecidableEq

def beginPairingStep (c : PairingChoice) (now : Nat) :
    BeginPairingPc → PairingManager → Option (PairingManager × BeginPairingPc)
  | .start, m => some (m, .pruning now)
  | .pruning now, m => some (m.pruneExpired now, .generating)
  | .generating, m =>
    (generateCode c.random).map fun code =>
      (m, .inserting code (saturatingAdd now pairTokenTtlMs))
  | .inserting code expiresAt, m =>
    some (m.setCode code expiresAt, .returned code expiresAt m.generations)
  | .returned _ _ _, _ => none

structure ApprovalCall where
  code : String
  deviceName : String
  deviceNodeId : String
  sas : String
  deriving DecidableEq

/-- How a request ends: with an error, with what `wait` returns, or given up. -/
inductive ApprovalResult
  | failed (message : String)
  | waited (approved : Bool)
  | abandoned
  deriving DecidableEq

/-- Where a request stands: in `begin_approval`, with the pending approval that it returned, in
its `wait`, or in its drop. -/
inductive ApprovalPc
  | taking
  | checking (pending : PendingPairCode)
  | opening (pending : PendingPairCode) (remainingMs : Nat)
  | sending (pending : PendingPairCode) (approval : PendingPairingApproval)
  | holding (approval : PendingPairingApproval)
  | waiting (approval : PendingPairingApproval) (deadline : Nat)
  | dropping (approval : PendingPairingApproval) (result : ApprovalResult)
  | returned (result : ApprovalResult)
  deriving DecidableEq

def approvalStep (c : PairingChoice) (now : Nat) (call : ApprovalCall) :
    ApprovalPc → PairingManager → Option (PairingManager × ApprovalPc)
  | .taking, m =>
    match m.codes.lookup call.code with
    | some pending => some (m.takeCode call.code pending now, .checking pending)
    | none =>
      some (m.chargeMiss now, .returned (.failed "pairing code is invalid or already used"))
  | .checking pending, m =>
    if pending.expiresAt - now = 0 then some (m, .returned (.failed "pairing code expired"))
    else some (m, .opening pending (pending.expiresAt - now))
  | .opening pending remainingMs, m =>
    some (m.openApproval, .sending pending ⟨m.requests, m.channels, remainingMs⟩)
  | .sending pending approval, m =>
    if c.listening then
      some (m.note (.requested pending.generation
        ⟨approval.requestId, call.deviceName, call.deviceNodeId, call.sas⟩), .holding approval)
    else
      some (m, .dropping approval
        (.failed "desktop pairing approval prompt is no longer active"))
  | .holding approval, m =>
    some (m, if c.abandoned then .dropping approval .abandoned
      else .waiting approval (now + approval.remainingMs))
  | .waiting approval deadline, m =>
    if c.abandoned then some (m, .dropping approval .abandoned)
    else
      match m.answers.lookup approval.channel with
      | some approved =>
        some (m.note (.waited approval.requestId approved), .dropping approval (.waited approved))
      | none =>
        if deadline ≤ now then
          some (m.note (.waited approval.requestId false), .dropping approval (.waited false))
        else none
  | .dropping approval result, m => some (m.closeApproval approval.requestId, .returned result)
  | .returned _, _ => none

/-- Where `approve` stands. -/
inductive ApprovePc
  | removing
  | sending (channel : Nat)
  | returned (ok : Bool)
  deriving DecidableEq

def approveStep (requestId : Nat) (approved : Bool) :
    ApprovePc → PairingManager → Option (PairingManager × ApprovePc)
  | .removing, m =>
    match m.approvals.lookup requestId with
    | some channel =>
      some ((m.closeApproval requestId).note (.answered requestId approved), .sending channel)
    | none => some (m, .returned false)
  | .sending channel, m => some (m.answer channel approved, .returned true)
  | .returned _, _ => none

structure PairingState where
  manager : PairingManager
  clock : Nat

inductive PairingTask
  | beginPairing (pc : BeginPairingPc)
  | beginApproval (call : ApprovalCall) (pc : ApprovalPc)
  | approve (requestId : Nat) (approved : Bool) (pc : ApprovePc)
  deriving DecidableEq

def pairingAdvance (c : PairingChoice) (_ : Nat) :
    PairingTask → PairingState → Option (PairingState × PairingTask)
  | .beginPairing pc, s =>
    (beginPairingStep c s.clock pc s.manager).map fun r =>
      ({ s with manager := r.1 }, .beginPairing r.2)
  | .beginApproval call pc, s =>
    (approvalStep c s.clock call pc s.manager).map fun r =>
      ({ s with manager := r.1 }, .beginApproval call r.2)
  | .approve requestId approved pc, s =>
    (approveStep requestId approved pc s.manager).map fun r =>
      ({ s with manager := r.1 }, .approve requestId approved r.2)

/-- Time passes. -/
inductive PairingTick
  | tick (ms : Nat)
  deriving DecidableEq

def pairingTick : PairingTick → PairingState → Option (PairingState × Bool)
  | .tick ms, s =>
    if s.clock + ms ≤ u64Max then some ({ s with clock := s.clock + ms }, true) else none

def pairingTasking : Tasking PairingState PairingTask PairingChoice PairingTick where
  init s := s.manager = .new
  start
    | .beginPairing .start => true
    | .beginApproval _ .taking => true
    | .approve _ _ .removing => true
    | _ => false
  -- A request that is given up runs its drop as a step of its own.
  cancellable _ := false
  advance := pairingAdvance
  environment := pairingTick

end Shelly.Daemon
