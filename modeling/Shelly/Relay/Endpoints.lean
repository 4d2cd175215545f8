import Shelly.Framework.Pool
import Shelly.Relay.Verify

namespace Shelly.Relay

/-- What a client is told. -/
inductive Reply
  | ok
  | resolved (record : PairingRecord)
  | failed (error : ApiError)
  deriving DecidableEq

/-- The two steps of `remove_push_token_binding`. -/
inductive RemovalPc
  | row | memory
  deriving DecidableEq

structure RegisterDaemonCall where
  request : RegisterDaemonRequest
  body : List UInt8
  signatureHeader : Option String
  deriving DecidableEq

/-- Where `register_daemon` stands, outside the two functions it calls. `signer` is the
key that verified the request, if one did. -/
inductive RegisterDaemonPc
  | start
  | observing (key : VerifyingKey)
  | stamping (key : VerifyingKey) (existing : Option DaemonRegistration)
      (signer : Option VerifyingKey)
  | inserting (existing : Option DaemonRegistration) (registration : DaemonRegistration)
      (signer : Option VerifyingKey)
  | saving (existing : Option DaemonRegistration) (registration : DaemonRegistration)
  | rollingBack (existing : Option DaemonRegistration) (registration : DaemonRegistration)
  deriving DecidableEq

inductive RegisterTokenPc
  | checkingCap
  | evicting (pushToken : String) (pc : RemovalPc)
  | stamping
  | saving (owner : TokenOwner)
  | inserting (owner : TokenOwner)
  deriving DecidableEq

/-- Why a push takes a binding out. -/
inductive RemovalCause
  | stale
  | invalidToken (provider : String)
  deriving DecidableEq

inductive PushPc
  | checking
  | removing (cause : RemovalCause) (pc : RemovalPc)
  | delivering
  | touchingRow (now : Nat)
  | touchingMemory (now : Nat)
  deriving DecidableEq

inductive PublishPc
  | checking
  | evicting (key : String) (record : PairingRecord) (expiresAtMs : Nat)
  | deletingRows (superseded : List String) (key payload : String) (entry : PairingCodeEntry)
  | saving (key payload : String) (entry : PairingCodeEntry)
  | inserting (key : String) (entry : PairingCodeEntry)
  deriving DecidableEq

inductive ResolvePc
  | start
  | looking (key : String)
  | forgettingMemory (key : String) (record : PairingRecord) (publication : Nat)
  | forgettingRow (key : String) (record : PairingRecord) (publication : Nat)
  | deletingExpired (key : String)
  deriving DecidableEq

/-- The endpoints. The four signed ones stand after their `verify_signed_request`. -/
inductive Handler
  | registerDaemon (call : RegisterDaemonCall) (pc : RegisterDaemonPc)
  | registerToken (request : RegisterTokenRequest) (pc : RegisterTokenPc)
  | unregisterToken (request : UnregisterTokenRequest) (pc : RemovalPc)
  | push (request : PushRequest) (pc : PushPc)
  | publish (request : PublishPairingRequest) (pc : PublishPc)
  | resolve (code : String) (pc : ResolvePc)
  deriving DecidableEq

/-- A request. It is inside one of the two verifications, with the rest of the endpoint
still to come, or in its endpoint, or answered. -/
inductive RelayTask
  | verify (r : SignedRequestContext) (limit : Bool) (pc : VerifyPc) (rest : Handler)
  | prove (daemonNodeId : String) (key : VerifyingKey) (proof : RegistrationProof) (pc : ProofPc)
      (rest : Handler)
  | handle (h : Handler)
  | returned (reply : Reply)
  deriving DecidableEq

abbrev RelayTask.fail (e : ApiError) : RelayTask := .returned (.failed e)

def RelayTask.answered : RelayTask → Bool
  | .returned _ => true
  | _ => false

/-- A verified re-registration remembers the key that verified it. -/
def Handler.signedBy (key : VerifyingKey) : Handler → Handler
  | .registerDaemon call (.stamping requested existing _) =>
    .registerDaemon call (.stamping requested existing (some key))
  | h => h

namespace RelayInner

/-- Another daemon would exceed the bound; one that is known may always register. -/
def daemonCapacityExceeded (inner : RelayInner) (daemonNodeId : String) (maxDaemons : Nat) : Bool :=
  decide (maxDaemons ≤ inner.daemons.size) && !inner.daemons.contains daemonNodeId

/-- The bindings of a daemon with their age. -/
def ownedTokens (inner : RelayInner) (daemonNodeId : String) : List (String × Nat) :=
  (inner.tokens.entries.filter fun e => e.2.daemonNodeId = daemonNodeId).map fun e =>
    (e.1, e.2.updatedAtMs)

/-- The oldest binding first, and of two equally old ones the smaller token. -/
def olderThan (a b : String × Nat) : Bool := a.2 < b.2 || (a.2 = b.2 && a.1 < b.1)

def oldest : List (String × Nat) → Option (String × Nat)
  | [] => none
  | b :: bs => some (bs.foldl (fun best b => if olderThan b best then b else best) b)

/-- The binding to evict before the daemon registers the token. -/
def tokenEvictedByCap (inner : RelayInner) (daemonNodeId pushToken : String) : Option String :=
  if inner.tokens.contains pushToken then none
  else
    let owned := inner.ownedTokens daemonNodeId
    if owned.length < maxTokensPerDaemon then none else (oldest owned).map (·.1)

/-- The codes of a daemon, except the one to keep. -/
def supersededCodes (inner : RelayInner) (daemonNodeId keep : String) : List String :=
  (inner.pairingCodes.entries.filter fun e =>
    e.2.daemonNodeId = daemonNodeId ∧ e.1 ≠ keep).map (·.1)

def evictCodesForDaemon (inner : RelayInner) (daemonNodeId keep : String) : RelayInner :=
  { inner with
    pairingCodes := inner.pairingCodes.retain fun code e =>
      !decide (e.daemonNodeId = daemonNodeId ∧ code ≠ keep) }

end RelayInner

namespace RelayState

def setDaemon (id : String) (r : DaemonRegistration) (s : RelayState) : RelayState :=
  { s with inner := { s.inner with daemons := s.inner.daemons.insert id r } }

def removeDaemon (id : String) (s : RelayState) : RelayState :=
  { s with inner := { s.inner with daemons := s.inner.daemons.erase id } }

def setToken (pushToken : String) (o : TokenOwner) (s : RelayState) : RelayState :=
  { s with inner := { s.inner with tokens := s.inner.tokens.insert pushToken o } }

def removeToken (pushToken : String) (s : RelayState) : RelayState :=
  { s with inner := { s.inner with tokens := s.inner.tokens.erase pushToken } }

def touchToken (pushToken : String) (now : Nat) (s : RelayState) : RelayState :=
  { s with
    inner := { s.inner with
      tokens := s.inner.tokens.modify pushToken fun o => { o with updatedAtMs := now } } }

def setPairingCode (key : String) (e : PairingCodeEntry) (s : RelayState) : RelayState :=
  { s with inner := { s.inner with pairingCodes := s.inner.pairingCodes.insert key e } }

def removePairingCode (key : String) (s : RelayState) : RelayState :=
  { s with inner := { s.inner with pairingCodes := s.inner.pairingCodes.erase key } }

/-- A call of the database, if there is one. -/
def updateStore (f : RelayStore → RelayStore) (s : RelayState) : RelayState :=
  { s with store := s.store.map f }

/-- The call goes through: there is no database, or it answers. -/
def stores (c : RelayChoice) (s : RelayState) : Bool := s.store.isNone || c.storeOk

/-- The publication found by a resolve is deleted, or the one that has taken its place. -/
def noteConsumed (publication : Nat) (deleted : Option Nat) (s : RelayState) : RelayState :=
  { s with
    history := { s.history with
      consumed := (deleted.map fun d => (publication, d)).toList ++ s.history.consumed } }

def noteResolved (publication : Nat) (s : RelayState) : RelayState :=
  { s with history := { s.history with resolved := publication :: s.history.resolved } }

def notePublished (daemonNodeId : String) (publication : Nat) (s : RelayState) : RelayState :=
  { s with
    history := { s.history with
      lastPublished := s.history.lastPublished.insert daemonNodeId publication } }

def nextPublication (s : RelayState) : RelayState :=
  { s with history := { s.history with publications := s.history.publications + 1 } }

end RelayState

def registrationKeyChanged (observedKey currentKey : Option VerifyingKey)
    (requestedKey : VerifyingKey) : Bool :=
  match observedKey, currentKey with
  | none, none => false
  | none, some current => current ≠ requestedKey
  | some observed, some current => current ≠ observed
  | some _, none => true

def rollbackDaemonRegistration (id : String) (previous : Option DaemonRegistration)
    (attempted : DaemonRegistration) (s : RelayState) : RelayState :=
  if s.inner.daemons.lookup id ≠ some attempted then s
  else
    match previous with
    | some r => s.setDaemon id r
    | none => s.removeDaemon id

section Steps

variable (ext : Externals)

def pairContext (call : RegisterDaemonCall) (nonce : String) (tsMs : Nat) : SignedRequestContext :=
  ⟨"POST", "/v1/pair", call.body, call.signatureHeader, call.request.daemonNodeId, nonce, tsMs⟩

def registerDaemonStep (c : RelayChoice) (call : RegisterDaemonCall) (s : RelayState) :
    RegisterDaemonPc → RelayState × RelayTask
  | .start =>
    if c.limited then (s, .fail .registerRateLimited)
    else
      match decodePublicKey ext call.request.publicKey with
      | .error e => (s, .fail e)
      | .ok key =>
        let rest := Handler.registerDaemon call (.observing key)
        match call.request.proof with
        | some proof => (s, .prove call.request.daemonNodeId key proof .start rest)
        | none => (s, .handle rest)
  | .observing key =>
    if s.inner.daemonCapacityExceeded call.request.daemonNodeId maxDaemons then
      (s, .fail .daemonCapacity)
    else
      let existing := s.inner.daemons.lookup call.request.daemonNodeId
      let rest := Handler.registerDaemon call (.stamping key existing none)
      if existing.any fun r => r.publicKey ≠ key then
        match call.request.nonce, call.request.tsMs with
        | some nonce, some tsMs => (s, .verify (pairContext call nonce tsMs) false .start rest)
        | _, _ =>
          (s, .fail (.forbidden "daemon node id is already registered with a different key"))
      else (s, .handle rest)
  | .stamping key existing signer =>
    (s, .handle (.registerDaemon call (.inserting existing ⟨key, s.clock⟩ signer)))
  | .inserting existing registration _ =>
    let id := call.request.daemonNodeId
    if s.inner.daemonCapacityExceeded id maxDaemons then (s, .fail .daemonCapacity)
    else if registrationKeyChanged (existing.map (·.publicKey)) (s.registeredKey id)
        registration.publicKey then
      (s, .fail .registrationConflict)
    else
      (s.setDaemon id registration, .handle (.registerDaemon call (.saving existing registration)))
  | .saving existing registration =>
    if s.stores c then
      (s.updateStore fun st => st.saveDaemon call.request.daemonNodeId registration, .returned .ok)
    else (s, .handle (.registerDaemon call (.rollingBack existing registration)))
  | .rollingBack existing registration =>
    (rollbackDaemonRegistration call.request.daemonNodeId existing registration s, .fail .internal)

def removalStep (c : RelayChoice) (pushToken : String) (s : RelayState) :
    RemovalPc → RelayState × Progress RemovalPc Unit
  | .row =>
    if s.stores c then (s.updateStore fun st => st.removeToken pushToken, .running .memory)
    else (s, .failed .internal)
  | .memory => (s.removeToken pushToken, .done ())

def registerTokenStep (c : RelayChoice) (request : RegisterTokenRequest) (s : RelayState) :
    RegisterTokenPc → RelayState × RelayTask
  | .checkingCap =>
    match s.inner.tokenEvictedByCap request.daemonNodeId request.pushToken with
    | some evicted => (s, .handle (.registerToken request (.evicting evicted .row)))
    | none => (s, .handle (.registerToken request .stamping))
  | .evicting evicted pc =>
    match removalStep c evicted s pc with
    | (s', .running pc') => (s', .handle (.registerToken request (.evicting evicted pc')))
    | (s', .done ()) => (s', .handle (.registerToken request .stamping))
    | (s', .failed e) => (s', .fail e)
  | .stamping =>
    let owner : TokenOwner := ⟨request.daemonNodeId, request.platform, s.clock⟩
    (s, .handle (.registerToken request (.saving owner)))
  | .saving owner =>
    if s.stores c then
      (s.updateStore fun st => st.saveToken request.pushToken owner,
        .handle (.registerToken request (.inserting owner)))
    else (s, .fail .internal)
  | .inserting owner => (s.setToken request.pushToken owner, .returned .ok)

def unregisterTokenStep (c : RelayChoice) (request : UnregisterTokenRequest) (s : RelayState)
    (pc : RemovalPc) : RelayState × RelayTask :=
  match removalStep c request.pushToken s pc with
  | (s', .running pc') => (s', .handle (.unregisterToken request pc'))
  | (s', .done ()) => (s', .returned .ok)
  | (s', .failed e) => (s', .fail e)

/-- What the sender of a push is told after the binding was removed. -/
def RemovalCause.error : RemovalCause → ApiError
  | .stale => .forbidden "push token is not registered"
  | .invalidToken provider => .providerError (provider ++ " rejected stale push token")

def pushStep (c : RelayChoice) (request : PushRequest) (s : RelayState) :
    PushPc → RelayState × RelayTask
  | .checking =>
    match s.inner.tokens.lookup request.recipientToken with
    | none => (s, .fail (.forbidden "push token is not registered"))
    | some owner =>
      if pushTokenIsStale owner.updatedAtMs s.clock then
        (s, .handle (.push request (.removing .stale .row)))
      else if owner.daemonNodeId ≠ request.daemonNodeId ∨ owner.platform ≠ request.platform then
        (s, .fail (.forbidden "push token is not owned by the signing daemon"))
      else (s, .handle (.push request .delivering))
  | .removing cause pc =>
    match removalStep c request.recipientToken s pc with
    | (s', .running pc') => (s', .handle (.push request (.removing cause pc')))
    | (s', .done ()) => (s', .fail cause.error)
    | (s', .failed e) => (s', .fail e)
  | .delivering =>
    if c.limited then (s, .fail .rateLimited)
    else
      match c.delivery with
      | .delivered => (s, .handle (.push request (.touchingRow s.clock)))
      | .invalidToken provider =>
        (s, .handle (.push request (.removing (.invalidToken provider) .row)))
      | .failed provider => (s, .fail (.providerError (provider ++ " delivery failed")))
  | .touchingRow now =>
    if s.stores c then
      (s.updateStore fun st => st.touchToken request.recipientToken now,
        .handle (.push request (.touchingMemory now)))
    else (s, .fail .internal)
  | .touchingMemory now => (s.touchToken request.recipientToken now, .returned .ok)

def PublishPairingRequest.daemonNodeId : PublishPairingRequest → String
  | .legacy r => r.daemonNodeId
  | .reachability r => r.daemonNodeId

def PublishPairingRequest.nonce : PublishPairingRequest → String
  | .legacy r => r.nonce
  | .reachability r => r.nonce

def PublishPairingRequest.tsMs : PublishPairingRequest → Nat
  | .legacy r => r.tsMs
  | .reachability r => r.tsMs

def validateRendezvous (daemonNodeId : String) (r : PairingRendezvous) : Except ApiError Unit :=
  if r.nodeId ≠ daemonNodeId then
    .error (.badRequest "rendezvous node id does not match publishing daemon")
  else if !isIdentifier r.nodeId then .error (.badRequest "rendezvous node id is invalid")
  else if r.relayUrl.any fun url => !lengthWithin 1 2048 url then
    .error (.badRequest "rendezvous relay URL is invalid")
  else if decide (r.addrs.length > 32) ||
      r.addrs.any fun addr => !isAscii addr || !lengthWithin 1 256 addr then
    .error (.badRequest "rendezvous direct addresses are invalid")
  else .ok ()

/-- The key, the record and the expiry of a publication. -/
def PublishPairingRequest.parts : PublishPairingRequest →
    Except ApiError (String × PairingRecord × Nat)
  | .legacy r =>
    let code := normalizeCode r.code
    if isValidLegacyCode code then .ok (code, .legacyTicket r.ticketBlob, r.expiresAtMs)
    else .error (.badRequest "legacy pairing code format is invalid")
  | .reachability r =>
    match validateRendezvous r.daemonNodeId r.rendezvous with
    | .error e => .error e
    | .ok () => .ok (r.locator, .reachability r.rendezvous, r.rendezvous.expiresAt)

def storedPayload : PairingRecord → Option String
  | .legacyTicket ticketBlob => some ticketBlob
  | .reachability rendezvous => ext.rendezvousToJson rendezvous

def PairingCodeEntry.row (e : PairingCodeEntry) (payload : String) : PairingCodeRow :=
  ⟨e.daemonNodeId, payload, asI64 e.expiresAtMs, e.publication⟩

theorem PairingCodeEntry.row_expiresAtMs (e : PairingCodeEntry) (payload : String) :
    (e.row payload).expiresAtMs = asI64 e.expiresAtMs := by rw [PairingCodeEntry.row]

def publishStep (c : RelayChoice) (request : PublishPairingRequest) (s : RelayState) :
    PublishPc → RelayState × RelayTask
  | .checking =>
    match request.parts with
    | .error e => (s, .fail e)
    | .ok (key, record, expiresAtMs) =>
      if expiresAtMs ≤ s.clock then
        (s, .fail (.badRequest "pairing rendezvous is already expired at publish time"))
      else (s, .handle (.publish request (.evicting key record expiresAtMs)))
  | .evicting key record expiresAtMs =>
    let superseded := s.inner.supersededCodes request.daemonNodeId key
    let entry : PairingCodeEntry :=
      ⟨request.daemonNodeId, record, expiresAtMs, s.history.publications⟩
    let s' := { s.nextPublication with
      inner := s.inner.evictCodesForDaemon request.daemonNodeId key }
    match storedPayload ext record with
    | some payload => (s', .handle (.publish request (.deletingRows superseded key payload entry)))
    | none => (s', .fail .internal)
  | .deletingRows [] key payload entry => (s, .handle (.publish request (.saving key payload entry)))
  | .deletingRows (stale :: superseded) key payload entry =>
    -- A failed deletion is logged and otherwise ignored.
    (if c.storeOk then s.updateStore fun st => st.deletePairingCode stale else s,
      .handle (.publish request (.deletingRows superseded key payload entry)))
  | .saving key payload entry =>
    if s.stores c then
      (s.updateStore fun st => st.savePairingCode key (entry.row payload),
        .handle (.publish request (.inserting key entry)))
    else (s, .fail .internal)
  | .inserting key entry =>
    ((s.setPairingCode key entry).notePublished entry.daemonNodeId entry.publication, .returned .ok)

/-- The row that a deletion finds. -/
def storedPublication (s : RelayState) (key : String) : Option Nat :=
  s.store.bind fun st => (st.pairingCodes.lookup key).map (·.publication)

def resolveStep (c : RelayChoice) (code : String) (s : RelayState) :
    ResolvePc → RelayState × RelayTask
  | .start =>
    if c.limited then (s, .fail .resolveRateLimited)
    else if isValidPairingLocator code then (s, .handle (.resolve code (.looking code)))
    else if isValidLegacyCode (normalizeCode code) then
      (s, .handle (.resolve code (.looking (normalizeCode code))))
    else (s, .fail (.notFound "pairing code not found"))
  | .looking key =>
    match s.inner.pairingCodes.lookup key with
    | none => (s, .fail (.notFound "pairing code not found"))
    | some entry =>
      if entry.expiresAtMs ≤ s.clock then
        (s.removePairingCode key, .handle (.resolve code (.deletingExpired key)))
      else
        (s, .handle (.resolve code (.forgettingMemory key entry.record entry.publication)))
  | .forgettingMemory key record publication =>
    ((s.removePairingCode key).noteConsumed publication
      ((s.inner.pairingCodes.lookup key).map (·.publication)),
      .handle (.resolve code (.forgettingRow key record publication)))
  | .forgettingRow key record publication =>
    -- A failed deletion is logged and otherwise ignored.
    let s' := if c.storeOk then
        (s.updateStore fun st => st.deletePairingCode key).noteConsumed publication
          (storedPublication s key)
      else s
    (s'.noteResolved publication, .returned (.resolved record))
  | .deletingExpired key =>
    (if c.storeOk then s.updateStore fun st => st.deletePairingCode key else s,
      .fail (.notFound "pairing code not found"))

def handlerStep (c : RelayChoice) (s : RelayState) : Handler → RelayState × RelayTask
  | .registerDaemon call pc => registerDaemonStep ext c call s pc
  | .registerToken request pc => registerTokenStep c request s pc
  | .unregisterToken request pc => unregisterTokenStep c request s pc
  | .push request pc => pushStep c request s pc
  | .publish request pc => publishStep ext c request s pc
  | .resolve code pc => resolveStep c code s pc

def relayAdvance (c : RelayChoice) (_ : Nat) : RelayTask → RelayState → Option (RelayState × RelayTask)
  | .verify r limit pc rest, s =>
    some <| match verifyStep ext c r limit pc s with
      | (s', .running pc') => (s', .verify r limit pc' rest)
      | (s', .done key) => (s', .handle (rest.signedBy key))
      | (s', .failed e) => (s', .fail e)
  | .prove daemonNodeId key proof pc rest, s =>
    some <| match proofStep ext c daemonNodeId key proof pc s with
      | (s', .running pc') => (s', .prove daemonNodeId key proof pc' rest)
      | (s', .done ()) => (s', .handle rest)
      | (s', .failed e) => (s', .fail e)
  | .handle h, s => some (handlerStep ext c s h)
  | .returned _, _ => none

def parseValidated {α : Type} (json : List UInt8 → Option α) (validate : α → Bool)
    (body : List UInt8) : Option α := (json body).filter validate

/-- The router of the `POST` endpoints. A body that does not parse or does not validate is
answered at once and touches nothing. -/
def route (path : String) (body : List UInt8) (signatureHeader : Option String) :
    Option RelayTask :=
  let signed (daemonNodeId nonce : String) (tsMs : Nat) : SignedRequestContext :=
    ⟨"POST", path, body, signatureHeader, daemonNodeId, nonce, tsMs⟩
  match path with
  | "/v1/pair" =>
    (parseValidated ext.registerDaemonJson RegisterDaemonRequest.validate body).map fun r =>
      .handle (.registerDaemon ⟨r, body, signatureHeader⟩ .start)
  | "/v1/push/register-token" =>
    (parseValidated ext.registerTokenJson RegisterTokenRequest.validate body).map fun r =>
      .verify (signed r.daemonNodeId r.nonce r.tsMs) true .start (.registerToken r .checkingCap)
  | "/v1/push/unregister-token" =>
    (parseValidated ext.unregisterTokenJson UnregisterTokenRequest.validate body).map fun r =>
      .verify (signed r.daemonNodeId r.nonce r.tsMs) false .start (.unregisterToken r .row)
  | "/v1/push" =>
    (parseValidated ext.pushJson PushRequest.validate body).map fun r =>
      .verify (signed r.daemonNodeId r.nonce r.tsMs) false .start (.push r .checking)
  | "/v1/pair/publish" =>
    (parseValidated ext.publishJson PublishPairingRequest.validate body).map fun r =>
      .verify (signed r.daemonNodeId r.nonce r.tsMs) false .start (.publish r .checking)
  | _ => none

/-- The requests as they arrive. -/
def RelayTask.arrives : RelayTask → Bool
  | .verify r limit .start rest =>
    decide (route ext r.path r.body r.signatureHeader = some (.verify r limit .start rest))
  | .handle (.registerDaemon call .start) =>
    decide (route ext "/v1/pair" call.body call.signatureHeader =
      some (.handle (.registerDaemon call .start)))
  | .handle (.resolve _ .start) => true
  | _ => false

inductive RelayEvent
  | tick (ms : Nat)
  | restart
  deriving DecidableEq

/-- Time passes, or the relay starts again from its database. -/
def relayEvent : RelayEvent → RelayState → Option (RelayState × Bool)
  | .tick ms, s => if s.clock + ms ≤ u64Max then some ({ s with clock := s.clock + ms }, true) else none
  | .restart, s =>
    s.store.bind fun st =>
      (st.loadState ext s.config s.clock).map fun r =>
        ({ s with inner := r.1, store := some r.2 }, false)

/-- A relay without any data, with or without a database. -/
structure RelayOpened (s : RelayState) : Prop where
  inner : s.inner = .empty
  store : s.store = none ∨ s.store = some .empty
  history : s.history = .empty

/-- A request can be abandoned where it waits for the database or for a push provider, and
where it goes on after such a wait. -/
def RelayTask.waits : RelayTask → Bool
  | .verify _ _ pc _ =>
    match pc with
    | .pruning _ .store | .readKey _ | .recordActivity _ _ | .refresh _ _ => true
    | _ => false
  | .prove _ _ _ pc _ =>
    match pc with
    | .pruning _ .store | .markNonce | .recordNonce => true
    | _ => false
  | .handle (.registerDaemon _ pc) =>
    match pc with
    | .observing _ | .saving _ _ | .rollingBack _ _ => true
    | _ => false
  | .handle (.registerToken _ pc) =>
    match pc with
    | .evicting _ _ | .saving _ | .inserting _ => true
    | _ => false
  | .handle (.unregisterToken _ _) => true
  | .handle (.push _ pc) => pc ≠ .checking
  | .handle (.publish _ pc) =>
    match pc with
    | .deletingRows _ _ _ _ | .saving _ _ _ | .inserting _ _ => true
    | _ => false
  | .handle (.resolve _ pc) =>
    match pc with
    | .forgettingRow _ _ _ | .deletingExpired _ => true
    | _ => false
  | .returned _ => false

def relayTasking : Tasking RelayState RelayTask RelayChoice RelayEvent where
  init := RelayOpened
  start := RelayTask.arrives ext
  -- The client is gone, or the request has taken too long.
  cancellable := RelayTask.waits
  advance := relayAdvance ext
  environment := relayEvent ext

end Steps

section Playing

/-- The database answers, no limit is reached and pushes are delivered. -/
def RelayChoice.fine : RelayChoice := ⟨true, false, .delivered⟩

/-- A relay without any data. -/
def RelayState.new (store : Option RelayStore) (clock : Nat) : RelayState :=
  ⟨.empty, store, ⟨false, 365 * 24 * 60 * 60 * 1000, "https://relay.shelly.sh"⟩, clock, .empty⟩

theorem RelayState.opened_new {store : Option RelayStore} (clock : Nat)
    (h : store = none ∨ store = some .empty) : RelayOpened (.new store clock) := ⟨rfl, h, rfl⟩

/-- A request to a signed endpoint, as the router makes it. -/
def arriving (ext : Externals) (i : Nat) (path : String) (body : List UInt8)
    (header : Option String) : Move RelayTask RelayChoice RelayEvent :=
  .spawn i ((route ext path body header).getD (.returned .ok))

end Playing

end Shelly.Relay
