import Shelly.Relay.State

namespace Shelly.Relay

/-- What a push provider answers. -/
inductive Delivery
  | delivered
  | invalidToken (provider : String)
  | failed (provider : String)
  deriving DecidableEq

/-- What the outside decides in one step: whether a call of the database succeeds, whether
a rate limit is exceeded, and the answer of the provider. A failed call changes nothing. -/
structure RelayChoice where
  storeOk : Bool
  limited : Bool
  delivery : Delivery
  deriving DecidableEq

/-- How a function that takes several steps goes on. -/
inductive Progress (π ρ : Type)
  | running (pc : π)
  | done (result : ρ)
  | failed (error : ApiError)

namespace RelayState

def pruneMemory (now : Nat) (s : RelayState) : RelayState :=
  { s with inner := s.inner.pruneExpired s.config now }

def pruneStore (now : Nat) (s : RelayState) : RelayState :=
  { s with store := s.store.map fun st => st.pruneExpiredRows s.config now }

def setPrunedAt (now : Nat) (s : RelayState) : RelayState :=
  { s with inner := { s.inner with prunedAtMs := now } }

def markNonce (daemonNodeId nonce : String) (tsMs : Nat) (s : RelayState) : RelayState :=
  { s with
    inner := { s.inner with seenNonces := s.inner.seenNonces.insert (daemonNodeId, nonce) tsMs } }

def setStore (st : RelayStore) (s : RelayState) : RelayState := { s with store := some st }

/-- The registered key of a daemon. -/
def registeredKey (s : RelayState) (daemonNodeId : String) : Option VerifyingKey :=
  (s.inner.daemons.lookup daemonNodeId).map (·.publicKey)

end RelayState

inductive PrunePc
  | gate | memory | store
  deriving DecidableEq

/-- `maybe_prune_expired_relay_state`, one critical section or database call at a time. -/
def pruneStep (c : RelayChoice) (now : Nat) : PrunePc → RelayState → RelayState × Option PrunePc
  | .gate, s =>
    if now - s.inner.prunedAtMs < pruneIntervalMs then (s, none)
    else (s.setPrunedAt now, some .memory)
  | .memory, s => (s.pruneMemory now, some .store)
  -- A failed prune is logged and otherwise ignored.
  | .store, s => (if c.storeOk then s.pruneStore now else s, none)

def absDiff (a b : Nat) : Nat := (a - b) + (b - a)

section Signature

variable (ext : Externals)

namespace SignedRequestContext

def decodeSignature (r : SignedRequestContext) : Except ApiError (SignatureVersion × List UInt8) :=
  match r.signatureHeader with
  | none => .error (.unauthorized "missing shelly signature")
  | some header =>
    match splitSignatureHeader header with
    | none => .error (.unauthorized "unsupported shelly signature version")
    | some (version, encoded) =>
      match ext.base64Decode encoded with
      | none => .error (.unauthorized "signature must be base64")
      | some signature =>
        if ext.isSignature signature then .ok (version, signature)
        else .error (.unauthorized "signature must be an Ed25519 signature")

def canonical (r : SignedRequestContext) (audience : String) : SignatureVersion → List UInt8
  | .v1 => bytesOf (canonicalRequest ext.fromUtf8Lossy r.method r.path r.body r.nonce r.tsMs)
  | .v2 => canonicalRequestV2 ext.sha256 audience r.method r.path r.body r.nonce r.tsMs

/-- The signature is the key's over this request. -/
def authentic (r : SignedRequestContext) (audience : String) (key : VerifyingKey)
    (signature : SignatureVersion × List UInt8) : Bool :=
  ext.verify key (r.canonical ext audience signature.1) signature.2

end SignedRequestContext

end Signature

/-- Where `verify_signed_request` stands. `now` is the one reading of the clock it makes. -/
inductive VerifyPc
  | start
  | pruning (now : Nat) (pc : PrunePc)
  | readKey (now : Nat)
  | markNonce (now : Nat) (key : VerifyingKey)
  | recordActivity (now : Nat) (key : VerifyingKey)
  | refresh (now : Nat) (key : VerifyingKey)
  deriving DecidableEq

/-- One step of `verify_signed_request`. `limit` says whether the caller checks its rate
limit before the nonce. A request that is accepted is answered with the key that
verified it. -/
def verifyStep (ext : Externals) (c : RelayChoice) (r : SignedRequestContext) (limit : Bool) :
    VerifyPc → RelayState → RelayState × Progress VerifyPc VerifyingKey
  | .start, s =>
    if absDiff s.clock r.tsMs > clockSkewMs then (s, .failed .clockSkew)
    else (s, .running (.pruning s.clock .gate))
  | .pruning now pc, s =>
    match pruneStep c now pc s with
    | (s', some pc') => (s', .running (.pruning now pc'))
    | (s', none) => (s', .running (.readKey now))
  | .readKey now, s =>
    match r.decodeSignature ext with
    | .error e => (s, .failed e)
    | .ok signature =>
      match s.registeredKey r.daemonNodeId with
      | none => (s, .failed (.unauthorized "unknown daemon"))
      | some key =>
        if r.authentic ext s.config.registrationAudience key signature then
          (s, .running (.markNonce now key))
        else (s, .failed (.unauthorized "invalid shelly signature"))
  | .markNonce now key, s =>
    if s.registeredKey r.daemonNodeId ≠ some key then
      (s, .failed (.unauthorized "daemon key changed; retry"))
    else if limit && c.limited then (s, .failed .tokenRegisterRateLimited)
    else
      -- The entry is replaced also when the nonce had been used.
      (s.markNonce r.daemonNodeId r.nonce r.tsMs,
        if s.inner.seenNonces.contains (r.daemonNodeId, r.nonce) then .failed .replay
        else .running (.recordActivity now key))
  | .recordActivity now key, s =>
    match s.store with
    | none => (s, .running (.refresh now key))
    | some st =>
      if c.storeOk then
        match st.recordAuthenticatedActivity r.daemonNodeId r.nonce r.tsMs now with
        | (st', true) => (s.setStore st', .running (.refresh now key))
        | (st', false) => (s.setStore st', .failed .replay)
      else (s, .failed .internal)
  | .refresh now key, s =>
    ({ s with
      inner := { s.inner with
        daemons := s.inner.daemons.modify r.daemonNodeId fun registration =>
          if registration.publicKey = key then { registration with updatedAtMs := now }
          else registration }
      history := { s.history with accepted := r :: s.history.accepted } }, .done key)

section Registration

variable (ext : Externals)

def decodePublicKey (value : String) : Except ApiError VerifyingKey :=
  match ext.base64Decode value with
  | none => .error (.badRequest "public_key must be base64")
  | some bytes =>
    if bytes.length = 32 then
      match ext.keyFromBytes bytes with
      | some key => .ok key
      | none => .error (.badRequest "public_key is not a valid Ed25519 key")
    else .error (.badRequest "public_key must decode to 32 bytes")

def registrationProofBinding (daemonNodeId : String) (relaySigningKey : VerifyingKey)
    (audience nonce : String) (tsMs : Nat) : String :=
  "shelly-registration-proof-v1\x00" ++ daemonNodeId ++ "\x00" ++
    ext.base64Encode relaySigningKey.bytes ++ "\x00" ++ audience ++ "\x00" ++ nonce ++ "\x00" ++
    toString tsMs

/-- The checks of a registration proof that read nothing but the configuration. -/
def checkProof (audience daemonNodeId : String) (key : VerifyingKey) (proof : RegistrationProof) :
    Except ApiError Unit :=
  if proof.audience ≠ audience then
    .error (.unauthorized "registration proof audience does not match this relay")
  else
    match ext.nodeKey daemonNodeId with
    | none => .error (.unauthorized "daemon_node_id is not a valid iroh public key")
    | some daemonKey =>
      match ext.base64Decode proof.signature with
      | none => .error (.unauthorized "registration proof signature must be base64")
      | some signature =>
        if !ext.isNodeSignature signature then
          .error (.unauthorized "registration proof signature must be an Ed25519 signature")
        else if ext.verifyNode daemonKey
            (bytesOf (registrationProofBinding ext daemonNodeId key proof.audience proof.nonce
              proof.tsMs)) signature then .ok ()
        else .error (.unauthorized "invalid registration proof")

/-- Where `verify_registration_proof` stands. -/
inductive ProofPc
  | start
  | pruning (now : Nat) (pc : PrunePc)
  | markNonce
  | recordNonce
  deriving DecidableEq

def proofStep (c : RelayChoice) (daemonNodeId : String) (key : VerifyingKey)
    (proof : RegistrationProof) : ProofPc → RelayState → RelayState × Progress ProofPc Unit
  | .start, s =>
    if absDiff s.clock proof.tsMs > clockSkewMs then (s, .failed .clockSkew)
    else (s, .running (.pruning s.clock .gate))
  | .pruning now pc, s =>
    match pruneStep c now pc s with
    | (s', some pc') => (s', .running (.pruning now pc'))
    | (s', none) => (s', .running .markNonce)
  | .markNonce, s =>
    match checkProof ext s.config.registrationAudience daemonNodeId key proof with
    | .error e => (s, .failed e)
    | .ok () =>
      (s.markNonce daemonNodeId proof.nonce proof.tsMs,
        if s.inner.seenNonces.contains (daemonNodeId, proof.nonce) then .failed .replay
        else .running .recordNonce)
  | .recordNonce, s =>
    match s.store with
    | none => (s, .done ())
    | some st =>
      if c.storeOk then
        match st.insertNonce daemonNodeId proof.nonce proof.tsMs with
        | (st', true) => (s.setStore st', .done ())
        | (st', false) => (s.setStore st', .failed .replay)
      else (s, .failed .internal)

end Registration

end Shelly.Relay
