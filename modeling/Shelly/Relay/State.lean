import Shelly.Framework.Table
import Shelly.Framework.Word
import Shelly.Relay.Requests

namespace Shelly.Relay

def clockSkewMs : Nat := 5 * 60 * 1000

def pushTokenTtlMs : Nat := 90 * 24 * 60 * 60 * 1000

def pruneIntervalMs : Nat := 60 * 1000

def maxDaemons : Nat := 1000000

def maxTokensPerDaemon : Nat := 16

structure ApiError where
  status : Nat
  code : String
  message : String
  deriving DecidableEq

namespace ApiError

def badRequest (message : String) : ApiError := ⟨400, "bad_request", message⟩
def unauthorized (message : String) : ApiError := ⟨401, "unauthorized", message⟩
def forbidden (message : String) : ApiError := ⟨403, "forbidden", message⟩
def replay : ApiError := ⟨409, "replay_detected", "nonce was already used"⟩
def registrationConflict : ApiError :=
  ⟨409, "registration_conflict", "daemon registration changed; retry"⟩
def clockSkew : ApiError := ⟨401, "clock_skew", "timestamp is outside the accepted skew window"⟩
def rateLimited : ApiError := ⟨429, "rate_limited", "per-daemon push rate limit exceeded"⟩
def resolveRateLimited : ApiError :=
  ⟨429, "rate_limited", "per-client pairing-code resolve rate limit exceeded"⟩
def registerRateLimited : ApiError :=
  ⟨429, "rate_limited", "per-client daemon registration rate limit exceeded"⟩
def tokenRegisterRateLimited : ApiError :=
  ⟨429, "rate_limited", "per-daemon push token registration rate limit exceeded"⟩
def daemonCapacity : ApiError := ⟨503, "capacity_exhausted", "daemon registry is at capacity"⟩
def notFound (message : String) : ApiError := ⟨404, "not_found", message⟩
def internal : ApiError := ⟨500, "internal", "internal server error"⟩
def providerError (message : String) : ApiError := ⟨502, "provider_error", message⟩

end ApiError

structure DaemonRegistration where
  publicKey : VerifyingKey
  updatedAtMs : Nat
  deriving DecidableEq

structure TokenOwner where
  daemonNodeId : String
  platform : PushPlatform
  updatedAtMs : Nat
  deriving DecidableEq

inductive PairingRecord
  | legacyTicket (ticketBlob : String)
  | reachability (rendezvous : PairingRendezvous)
  deriving DecidableEq

/-- `publication` is history: the number of the publication that made the entry. -/
structure PairingCodeEntry where
  daemonNodeId : String
  record : PairingRecord
  expiresAtMs : Nat
  publication : Nat
  deriving DecidableEq

/-- What the relay keeps in memory, behind one lock. -/
structure RelayInner where
  daemons : Table String DaemonRegistration
  tokens : Table String TokenOwner
  seenNonces : Table (String × String) Nat
  pairingCodes : Table String PairingCodeEntry
  prunedAtMs : Nat

def RelayInner.empty : RelayInner := ⟨.empty, .empty, .empty, .empty, 0⟩

structure DaemonRow where
  publicKey : List UInt8
  updatedAtMs : Int
  deriving DecidableEq

structure TokenRow where
  daemonNodeId : String
  platform : String
  updatedAtMs : Int
  deriving DecidableEq

/-- `publication` is history, as for the entries in memory. -/
structure PairingCodeRow where
  daemonNodeId : String
  ticketBlob : String
  expiresAtMs : Int
  publication : Nat
  deriving DecidableEq

/-- The four tables of the database. Its integers are signed. -/
structure RelayStore where
  daemons : Table String DaemonRow
  pushTokens : Table String TokenRow
  seenNonces : Table (String × String) Int
  pairingCodes : Table String PairingCodeRow

def RelayStore.empty : RelayStore := ⟨.empty, .empty, .empty, .empty⟩

structure RelayConfig where
  pruneStaleDaemons : Bool
  daemonRetentionMs : Nat
  registrationAudience : String
  deriving DecidableEq

/-- A request whose signature is to be checked. -/
structure SignedRequestContext where
  method : String
  path : String
  body : List UInt8
  signatureHeader : Option String
  daemonNodeId : String
  nonce : String
  tsMs : Nat
  deriving DecidableEq

/-- What happened so far, for stating properties of whole runs: the signed requests
that were accepted, how many publications were accepted, the publications that were
returned to a client, for each consumed publication the ones that consuming it
deleted, and the last publication of each daemon that was answered. -/
structure RelayHistory where
  accepted : List SignedRequestContext
  publications : Nat
  resolved : List Nat
  consumed : List (Nat × Nat)
  lastPublished : Table String Nat

def RelayHistory.empty : RelayHistory := ⟨[], 0, [], [], .empty⟩

structure RelayState where
  inner : RelayInner
  store : Option RelayStore
  config : RelayConfig
  clock : Nat
  history : RelayHistory

def platformAsStr : PushPlatform → String
  | .apns => "apns"
  | .fcm => "fcm"

def platformFromDb : String → Option PushPlatform
  | "apns" => some .apns
  | "fcm" => some .fcm
  | _ => none

def pushTokenIsStale (updatedAtMs nowMs : Nat) : Bool := decide (nowMs - updatedAtMs > pushTokenTtlMs)

namespace RelayInner

/-- The daemons that a prune keeps. -/
def activeDaemons (config : RelayConfig) (now : Nat) (inner : RelayInner) :
    Table String DaemonRegistration :=
  inner.daemons.retain fun _ r => decide (now - config.daemonRetentionMs ≤ r.updatedAtMs)

/-- Everything a daemon owns goes with it, when stale daemons are pruned at all. -/
def keepsOwner (config : RelayConfig) (now : Nat) (inner : RelayInner) (owner : String) : Bool :=
  !config.pruneStaleDaemons || (inner.activeDaemons config now).contains owner

def pruneExpired (config : RelayConfig) (now : Nat) (inner : RelayInner) : RelayInner :=
  { inner with
    daemons := if config.pruneStaleDaemons then inner.activeDaemons config now else inner.daemons
    tokens := inner.tokens.retain fun _ o =>
      !pushTokenIsStale o.updatedAtMs now && inner.keepsOwner config now o.daemonNodeId
    seenNonces := inner.seenNonces.retain fun k tsMs =>
      decide (now - clockSkewMs ≤ tsMs) && inner.keepsOwner config now k.1
    pairingCodes := inner.pairingCodes.retain fun _ e =>
      decide (now < e.expiresAtMs) && inner.keepsOwner config now e.daemonNodeId }

theorem pruneExpired_seenNonces (config : RelayConfig) (now : Nat) (inner : RelayInner) :
    (inner.pruneExpired config now).seenNonces = inner.seenNonces.retain fun k tsMs =>
      decide (now - clockSkewMs ≤ tsMs) && inner.keepsOwner config now k.1 := by
  rw [pruneExpired]

end RelayInner

namespace RelayStore

variable (st : RelayStore)

def saveDaemon (daemonNodeId : String) (r : DaemonRegistration) : RelayStore :=
  { st with
    daemons := st.daemons.insert daemonNodeId ⟨r.publicKey.bytes, asI64 r.updatedAtMs⟩ }

def saveToken (pushToken : String) (o : TokenOwner) : RelayStore :=
  { st with
    pushTokens := st.pushTokens.insert pushToken
      ⟨o.daemonNodeId, platformAsStr o.platform, asI64 o.updatedAtMs⟩ }

def touchToken (pushToken : String) (updatedAtMs : Nat) : RelayStore :=
  { st with
    pushTokens := st.pushTokens.modify pushToken fun row =>
      { row with updatedAtMs := asI64 updatedAtMs } }

def removeToken (pushToken : String) : RelayStore :=
  { st with pushTokens := st.pushTokens.erase pushToken }

/-- A row that is there already stays as it is; the answer says whether it was new. -/
def insertNonce (daemonNodeId nonce : String) (tsMs : Nat) : RelayStore × Bool :=
  if st.seenNonces.contains (daemonNodeId, nonce) then (st, false)
  else ({ st with seenNonces := st.seenNonces.insert (daemonNodeId, nonce) (asI64 tsMs) }, true)

def recordAuthenticatedActivity (daemonNodeId nonce : String) (signedAtMs activityAtMs : Nat) :
    RelayStore × Bool :=
  match st.insertNonce daemonNodeId nonce signedAtMs with
  | (st', true) =>
    ({ st' with
      daemons := st'.daemons.modify daemonNodeId fun row =>
        { row with updatedAtMs := asI64 activityAtMs } }, true)
  | (st', false) => (st', false)

def savePairingCode (code : String) (row : PairingCodeRow) : RelayStore :=
  { st with pairingCodes := st.pairingCodes.insert code row }

def deletePairingCode (code : String) : RelayStore :=
  { st with pairingCodes := st.pairingCodes.erase code }

/-- The owner's own row is older than the retention. -/
def staleOwner (config : RelayConfig) (now : Nat) (owner : String) : Bool :=
  config.pruneStaleDaemons && (st.daemons.lookup owner).any fun row =>
    decide (row.updatedAtMs < asI64 (now - config.daemonRetentionMs))

def pruneExpiredRows (config : RelayConfig) (now : Nat) : RelayStore where
  daemons := st.daemons.retain fun id _ => !st.staleOwner config now id
  pushTokens := st.pushTokens.retain fun _ row =>
    !decide (row.updatedAtMs < asI64 (now - pushTokenTtlMs)) &&
      !st.staleOwner config now row.daemonNodeId
  seenNonces := st.seenNonces.retain fun k tsMs =>
    !decide (tsMs < asI64 (now - clockSkewMs)) && !st.staleOwner config now k.1
  pairingCodes := st.pairingCodes.retain fun _ row =>
    !decide (row.expiresAtMs ≤ asI64 now) && !st.staleOwner config now row.daemonNodeId

theorem pruneExpiredRows_daemons (config : RelayConfig) (now : Nat) :
    (st.pruneExpiredRows config now).daemons =
      st.daemons.retain fun id _ => !st.staleOwner config now id := by
  rw [pruneExpiredRows]

theorem pruneExpiredRows_pushTokens (config : RelayConfig) (now : Nat) :
    (st.pruneExpiredRows config now).pushTokens = st.pushTokens.retain fun _ row =>
      !decide (row.updatedAtMs < asI64 (now - pushTokenTtlMs)) &&
        !st.staleOwner config now row.daemonNodeId := by
  rw [pruneExpiredRows]

theorem pruneExpiredRows_seenNonces (config : RelayConfig) (now : Nat) :
    (st.pruneExpiredRows config now).seenNonces = st.seenNonces.retain fun k tsMs =>
      !decide (tsMs < asI64 (now - clockSkewMs)) && !st.staleOwner config now k.1 := by
  rw [pruneExpiredRows]

theorem pruneExpiredRows_pairingCodes (config : RelayConfig) (now : Nat) :
    (st.pruneExpiredRows config now).pairingCodes = st.pairingCodes.retain fun _ row =>
      !decide (row.expiresAtMs ≤ asI64 now) && !st.staleOwner config now row.daemonNodeId := by
  rw [pruneExpiredRows]

/-- A stored timestamp must not be negative. -/
def toU64 (n : Int) : Option Nat := if 0 ≤ n then some n.toNat else none

def loadDaemon (ext : Externals) (row : DaemonRow) : Option DaemonRegistration := do
  let publicKey ← ext.keyFromBytes row.publicKey
  let updatedAtMs ← toU64 row.updatedAtMs
  return ⟨publicKey, updatedAtMs⟩

def loadToken (row : TokenRow) : Option TokenOwner := do
  let platform ← platformFromDb row.platform
  let updatedAtMs ← toU64 row.updatedAtMs
  return ⟨row.daemonNodeId, platform, updatedAtMs⟩

/-- The kind of a record shows in the form of its code. -/
def loadPairingCode (ext : Externals) (code : String) (row : PairingCodeRow) :
    Option PairingCodeEntry := do
  let record ←
    if isValidPairingLocator code then (ext.rendezvousFromJson row.ticketBlob).map .reachability
    else some (.legacyTicket row.ticketBlob)
  let expiresAtMs ← toU64 row.expiresAtMs
  return ⟨row.daemonNodeId, record, expiresAtMs, row.publication⟩

/-- Prunes the rows and reads them all. One row that cannot be read fails the start. -/
def loadState (ext : Externals) (config : RelayConfig) (now : Nat) :
    Option (RelayInner × RelayStore) := do
  let st := st.pruneExpiredRows config now
  let daemons ← st.daemons.traverse fun _ => loadDaemon ext
  let tokens ← st.pushTokens.traverse fun _ => loadToken
  let seenNonces ← st.seenNonces.traverse fun _ => toU64
  let pairingCodes ← st.pairingCodes.traverse (loadPairingCode ext)
  return (⟨daemons, tokens, seenNonces, pairingCodes, 0⟩, st)

theorem loadState_eq_some {st st' : RelayStore} {ext : Externals} {config : RelayConfig} {now : Nat}
    {inner : RelayInner} : st.loadState ext config now = some (inner, st') ↔
      st' = st.pruneExpiredRows config now ∧ inner.prunedAtMs = 0 ∧
      (st'.daemons.traverse fun _ => loadDaemon ext) = some inner.daemons ∧
      (st'.pushTokens.traverse fun _ => loadToken) = some inner.tokens ∧
      (st'.seenNonces.traverse fun _ => toU64) = some inner.seenNonces ∧
      st'.pairingCodes.traverse (loadPairingCode ext) = some inner.pairingCodes := by
  simp only [loadState, Option.bind_eq_bind, Option.bind_eq_some_iff]
  constructor
  · rintro ⟨daemons, hd, tokens, ht, seenNonces, hn, pairingCodes, hc, h⟩
    cases h
    exact ⟨rfl, rfl, hd, ht, hn, hc⟩
  · rintro ⟨rfl, hpruned, hd, ht, hn, hc⟩
    refine ⟨_, hd, _, ht, _, hn, _, hc, ?_⟩
    rw [← hpruned]
    rfl

end RelayStore

end Shelly.Relay
