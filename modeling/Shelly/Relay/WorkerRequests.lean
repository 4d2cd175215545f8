import Shelly.Daemon.PushRequests
import Shelly.Protocol.SignatureHeader
import Shelly.Relay.RequestJson

namespace Shelly.Relay

open JsonText Radix
open Daemon (RelayOperation RelaySigner)

section Bodies

theorem readPlatform_name (platform : PushPlatform) :
    readPlatform (.string (Daemon.platformName platform)) = some platform := by
  cases platform <;> rfl

/-- The event as the relay knows it. -/
def eventOf : Daemon.RelayPushEventType → PushEventType
  | .awaitingInput => .awaitingInput
  | .sessionCrashed => .sessionCrashed
  | .buildFinished => .buildFinished

theorem readEvent_name (eventType : Daemon.RelayPushEventType) :
    PushEventType.read (.string eventType.name) = some (eventOf eventType) := by
  cases eventType <;> rfl

theorem readRelayUrl (relayUrl : Option String) :
    nullable text (relayUrl.elim .null .string) = some relayUrl := by
  cases relayUrl <;> rfl

theorem readRendezvousJson_rendezvousJson {r : PairingRendezvous} (h : r.expiresAt ≤ u64Max) :
    readRendezvousJson (Daemon.rendezvousJson r) = some r := by
  obtain ⟨nodeId, relayUrl, addrs, expiresAt⟩ := r
  rw [readRendezvousJson, Daemon.rendezvousJson, slots_object]
  · change ((nullable text (relayUrl.elim .null .string)).bind fun _ =>
      (elements text (.array (addrs.map .string))).bind fun _ =>
        (u64 (ofNat expiresAt)).bind fun _ => some _) = _
    rw [readRelayUrl, elements_map_string, u64_ofNat h]
    rfl
  · rfl
  · decide

theorem read_registration (daemonNodeId publicKey : String) :
    RegisterDaemonRequest.read (Daemon.registerDaemonBody daemonNodeId publicKey) =
      some ⟨daemonNodeId, publicKey, none, none, none⟩ := by
  rfl

variable (sha256 : List UInt8 → List UInt8) (daemonNodeId nonce : String) {tsMs : Nat}

theorem read_registerToken (platform : PushPlatform) (token : String) (h : tsMs ≤ u64Max) :
    RegisterTokenRequest.read
      (RelayOperation.body sha256 daemonNodeId nonce tsMs (.registerToken platform token)) =
      some ⟨daemonNodeId, platform, token, nonce, tsMs⟩ := by
  rw [RegisterTokenRequest.read, RelayOperation.body, slots_object]
  · change ((readPlatform (.string (Daemon.platformName platform))).bind fun _ =>
      (u64 (ofNat tsMs)).bind fun _ => some _) = _
    rw [readPlatform_name, u64_ofNat h]
    rfl
  · rfl
  · decide

theorem read_unregisterToken (token : String) (h : tsMs ≤ u64Max) :
    UnregisterTokenRequest.read
      (RelayOperation.body sha256 daemonNodeId nonce tsMs (.unregisterToken token)) =
      some ⟨daemonNodeId, token, nonce, tsMs⟩ := by
  rw [UnregisterTokenRequest.read, RelayOperation.body, slots_object]
  · change ((u64 (ofNat tsMs)).bind fun _ => some _) = _
    rw [u64_ofNat h]
    rfl
  · rfl
  · decide

theorem read_push (platform : PushPlatform) (token : String) (sessionId : Wire.SessionId)
    (eventType : Daemon.RelayPushEventType) (h : tsMs ≤ u64Max) :
    PushRequest.read (RelayOperation.body sha256 daemonNodeId nonce tsMs
      (.push platform token sessionId eventType)) =
      some ⟨daemonNodeId, token, platform,
        Daemon.hashForPush sha256 (Daemon.uuidText sessionId), eventOf eventType, nonce, tsMs⟩ := by
  rw [PushRequest.read, RelayOperation.body, slots_object]
  · change ((readPlatform (.string (Daemon.platformName platform))).bind fun _ =>
      (PushEventType.read (.string eventType.name)).bind fun _ =>
        (u64 (ofNat tsMs)).bind fun _ => some _) = _
    rw [readPlatform_name, readEvent_name, u64_ofNat h]
    rfl
  · rfl
  · decide

/-- A publication is not taken for one of a code, which has other fields. -/
theorem read_publish (locator : String) {rendezvous : PairingRendezvous} (h : tsMs ≤ u64Max)
    (hexpires : rendezvous.expiresAt ≤ u64Max) :
    PublishPairingRequest.read (RelayOperation.body sha256 daemonNodeId nonce tsMs
      (.publishPairingRendezvous locator rendezvous)) =
      some (.reachability ⟨daemonNodeId, locator, rendezvous, nonce, tsMs⟩) := by
  have hlegacy : PublishLegacyPairingCodeRequest.read (RelayOperation.body sha256 daemonNodeId nonce
      tsMs (.publishPairingRendezvous locator rendezvous)) = none := by
    simp [PublishLegacyPairingCodeRequest.read, RelayOperation.body, slots]
  have hreachability : PublishPairingRendezvousRequest.read (RelayOperation.body sha256 daemonNodeId
      nonce tsMs (.publishPairingRendezvous locator rendezvous)) =
      some ⟨daemonNodeId, locator, rendezvous, nonce, tsMs⟩ := by
    rw [PublishPairingRendezvousRequest.read, RelayOperation.body, slots_object]
    · change ((readRendezvousJson (Daemon.rendezvousJson rendezvous)).bind fun _ =>
        (u64 (ofNat tsMs)).bind fun _ => some _) = _
      rw [readRendezvousJson_rendezvousJson hexpires, u64_ofNat h]
      rfl
    · rfl
    · decide
  rw [PublishPairingRequest.read, hlegacy, hreachability]
  rfl

theorem depthElements_map_string (texts : List String) :
    depthElements (texts.map JsonText.string) = 0 := by
  induction texts with
  | nil => rfl
  | cons t texts ih => rw [List.map_cons, depthElements, ih, depth, Nat.max_self]

theorem depth_body (op : RelayOperation) (tsMs : Nat) :
    (op.body sha256 daemonNodeId nonce tsMs).depth ≤ 3 := by
  cases op with
  | registerToken platform token => exact Nat.le_add_left 1 2
  | unregisterToken token => exact Nat.le_add_left 1 2
  | publishPairingRendezvous locator rendezvous =>
    have haddrs := depthElements_map_string rendezvous.addrs
    have hurl : (rendezvous.relayUrl.elim null string).depth = 0 := by
      cases rendezvous.relayUrl <;> rfl
    simp [RelayOperation.body, Daemon.rendezvousJson, depth, depthMembers, haddrs, hurl, ofNat]
  | push platform recipientToken sessionId eventType => exact Nat.le_add_left 1 2

end Bodies

section Texts

variable {bytes : List UInt8}

theorem utf8ByteSize_of_ascii {cs : List Char} (h : ∀ c ∈ cs, c.toNat < 128) :
    (String.ofList cs).utf8ByteSize = cs.length := by
  rw [← String.utf8Len_toList, String.toList_ofList]
  induction cs with
  | nil => rfl
  | cons c cs ih =>
    have hc := h c List.mem_cons_self
    have hsize : c.utf8Size = 1 := by
      rw [Char.utf8Size_eq_one_iff, UInt32.le_iff_toNat_le]
      exact Nat.le_of_lt_succ hc
    have hrest := ih fun c hc => h c (List.mem_cons_of_mem _ hc)
    rw [String.utf8Len_cons, hsize, hrest, List.length_cons]

theorem isAscii_ofList {cs : List Char} (h : ∀ c ∈ cs, c.toNat < 128) :
    isAscii (String.ofList cs) = true := by
  rw [isAscii, String.toList_ofList]
  exact List.all_eq_true.mpr fun c hc => decide_eq_true (h c hc)

theorem length_encode (a : Alphabet) (bytes : List UInt8) :
    (a.encode bytes).length = (8 * bytes.length + (a.width - 1)) / a.width := by
  rw [Alphabet.encode, encodeDigits, List.length_map, List.length_map, length_chunks]

/-- The characters of base64, the padding included. -/
theorem ascii_base64Encode (bytes : List UInt8) :
    ∀ c ∈ base64.encode bytes ++ padding (base64.encode bytes).length, c.toNat < 128 := by
  have hsymbols : base64.symbols.all (fun c => decide (c.toNat < 128)) = true := by decide
  intro c hc
  rcases List.mem_append.mp hc with hc | hc
  · have hmem := Alphabet.mem_symbols_of_mem_encode hc
    exact of_decide_eq_true (List.all_eq_true.mp hsymbols c hmem)
  · obtain rfl := List.eq_of_mem_replicate hc
    decide

theorem utf8ByteSize_base64Encode (bytes : List UInt8) :
    (base64Encode bytes).utf8ByteSize = 4 * ((bytes.length + 2) / 3) := by
  have hlength := length_encode base64 bytes
  rw [show base64.width = 6 from rfl] at hlength
  rw [base64Encode, utf8ByteSize_of_ascii (ascii_base64Encode bytes), List.length_append, padding,
    List.length_replicate]
  omega

theorem isAscii_base64Encode (bytes : List UInt8) : isAscii (base64Encode bytes) = true :=
  isAscii_ofList (ascii_base64Encode bytes)

/-- The digits of a hash are what the relay asks of one. -/
theorem isValidPairingLocator_hex (h : bytes.length = 32) :
    isValidPairingLocator (String.ofList (hexLower.encode bytes)) = true := by
  have hsymbols : hexLower.symbols.all (fun c => decide (c.toNat < 128) &&
      (('0' ≤ c && c ≤ '9') || ('a' ≤ c && c ≤ 'f'))) = true := by decide
  have hdigit : ∀ c ∈ hexLower.encode bytes, (decide (c.toNat < 128) &&
      (('0' ≤ c && c ≤ '9') || ('a' ≤ c && c ≤ 'f'))) = true := fun c hc =>
    List.all_eq_true.mp hsymbols c (Alphabet.mem_symbols_of_mem_encode hc)
  have hascii : ∀ c ∈ hexLower.encode bytes, c.toNat < 128 := fun c hc =>
    of_decide_eq_true (Bool.and_eq_true_iff.mp (hdigit c hc)).1
  have hlength : (hexLower.encode bytes).length = 64 := by
    rw [length_encode, h]
    rfl
  rw [isValidPairingLocator, utf8ByteSize_of_ascii hascii, hlength, String.toList_ofList]
  exact List.all_eq_true.mpr fun c hc => (Bool.and_eq_true_iff.mp (hdigit c hc)).2

end Texts

/-- Libraries with JSON and base64 as they are, and digests of 32 bytes. What the worker signs
verifies under the key. -/
structure Externals.Trusts (ext : Externals) (w : RelaySigner) (key : VerifyingKey) : Prop
    extends ext.ReadsJsonText where
  base64Decode : ∀ s, ext.base64Decode s = Radix.base64Decode s
  digest : ∀ bytes, (ext.sha256 bytes).length = 32
  bytes : key.bytes = w.verifyingKey
  isVerifyingKey : ext.isVerifyingKey w.verifyingKey = true
  isSignature : ∀ m, ext.isSignature (w.sign m) = true
  verify : ∀ m, ext.verify key m (w.sign m) = true

section Routing

def maxRequestBodyBytes : Nat := 16 * 1024

/-- The router, behind the limit on bodies. -/
def receive (ext : Externals) (post : Daemon.RelayPost) : Option RelayTask :=
  if post.body.length ≤ maxRequestBodyBytes then route ext post.path post.body post.signature
  else none

/-- The worker passes on the tokens and the locators it is given. -/
def wellSized : RelayOperation → Bool
  | .registerToken _ token | .unregisterToken token | .push _ token _ _ => isPushToken token
  | .publishPairingRendezvous locator _ => isValidPairingLocator locator

/-- The numbers in an operation have 64 bits. -/
def inRange : RelayOperation → Prop
  | .publishPairingRendezvous _ rendezvous => rendezvous.expiresAt ≤ u64Max
  | _ => True

/-- What the relay is to do once it has verified the request. -/
def handlerOf (sha256 : List UInt8 → List UInt8) (daemonNodeId nonce : String) (tsMs : Nat) :
    RelayOperation → Handler
  | .registerToken platform token =>
    .registerToken ⟨daemonNodeId, platform, token, nonce, tsMs⟩ .checkingCap
  | .unregisterToken token => .unregisterToken ⟨daemonNodeId, token, nonce, tsMs⟩ .row
  | .publishPairingRendezvous locator rendezvous =>
    .publish (.reachability ⟨daemonNodeId, locator, rendezvous, nonce, tsMs⟩) .checking
  | .push platform recipientToken sessionId eventType =>
    .push ⟨daemonNodeId, recipientToken, platform,
      Daemon.hashForPush sha256 (Daemon.uuidText sessionId), eventOf eventType, nonce, tsMs⟩
      .checking

/-- The relay counts the registrations of tokens before it marks the nonce. -/
def countsTokens : RelayOperation → Bool
  | .registerToken _ _ => true
  | _ => false

variable {ext : Externals} {w : RelaySigner} {key : VerifyingKey}

theorem isIdentifier_nonce {nonce : List UInt8} (h : nonce.length = 16) :
    isIdentifier (base64Encode nonce) = true := by
  rw [isIdentifier, isAscii_base64Encode, lengthWithin, utf8ByteSize_base64Encode, h]
  rfl

theorem parseValidated_toVec {α : Type} {json : List UInt8 → Option α} {read : JsonText → Option α}
    (hjson : ∀ body, json body = (fromSlice body).bind read) (validate : α → Bool) {x : JsonText}
    {a : α} (hdepth : x.depth ≤ 3) (hread : read x = some a) :
    parseValidated json validate x.toVec = if validate a = true then some a else none := by
  have hslice := fromSlice_toVec x (hdepth.trans (by decide))
  rw [parseValidated, hjson, hslice, Option.bind_some, hread]
  rfl

/-- The request that is verified for an attempt. -/
def attemptContext (sha256 : List UInt8 → List UInt8) (w : RelaySigner) (daemonNodeId : String)
    (op : RelayOperation) (nonce : List UInt8) (tsMs : Nat) : SignedRequestContext :=
  let post := w.attempt sha256 daemonNodeId op nonce tsMs
  ⟨"POST", post.path, post.body, post.signature, daemonNodeId, base64Encode nonce, tsMs⟩

/-- The relay reads every attempt, and refuses it at once only for the identity of the daemon, for
its token or locator, or for a clock that stands at zero. -/
theorem route_attempt (htrusts : ext.Trusts w key) (daemonNodeId : String) {op : RelayOperation}
    (hrange : inRange op) {nonce : List UInt8} (hnonce : nonce.length = 16) {tsMs : Nat}
    (hts : tsMs ≤ u64Max) :
    let post := w.attempt ext.sha256 daemonNodeId op nonce tsMs
    route ext post.path post.body post.signature =
      if isIdentifier daemonNodeId && wellSized op && isTimestamp tsMs then
        some (.verify (attemptContext ext.sha256 w daemonNodeId op nonce tsMs) (countsTokens op)
          .start (handlerOf ext.sha256 daemonNodeId (base64Encode nonce) tsMs op))
      else none := by
  have hidentifier := isIdentifier_nonce hnonce
  have hmap {α : Type} (f : α → RelayTask) (a : α) (b : Bool) :
      (if b = true then some a else none).map f = if b = true then some (f a) else none := by
    cases b <;> rfl
  cases op with
  | registerToken platform token =>
    have hread := read_registerToken ext.sha256 daemonNodeId (base64Encode nonce) platform token hts
    have hparse := parseValidated_toVec htrusts.registerToken RegisterTokenRequest.validate
      (depth_body _ _ _ _ _) hread
    change (parseValidated ext.registerTokenJson _ _).map _ = _
    rw [RelaySigner.attempt, hparse, hmap]
    simp only [RegisterTokenRequest.validate, hidentifier, Bool.and_true]
    rfl
  | unregisterToken token =>
    have hread := read_unregisterToken ext.sha256 daemonNodeId (base64Encode nonce) token hts
    have hparse := parseValidated_toVec htrusts.unregisterToken UnregisterTokenRequest.validate
      (depth_body _ _ _ _ _) hread
    change (parseValidated ext.unregisterTokenJson _ _).map _ = _
    rw [RelaySigner.attempt, hparse, hmap]
    simp only [UnregisterTokenRequest.validate, hidentifier, Bool.and_true]
    rfl
  | publishPairingRendezvous locator rendezvous =>
    have hread := read_publish ext.sha256 daemonNodeId (base64Encode nonce) locator hts hrange
    have hparse := parseValidated_toVec htrusts.publish PublishPairingRequest.validate
      (depth_body _ _ _ _ _) hread
    change (parseValidated ext.publishJson _ _).map _ = _
    rw [RelaySigner.attempt, hparse, hmap]
    simp only [PublishPairingRequest.validate, hidentifier, Bool.and_true]
    rfl
  | push platform recipientToken sessionId eventType =>
    have hread := read_push ext.sha256 daemonNodeId (base64Encode nonce) platform recipientToken
      sessionId eventType hts
    have hhash : isValidPairingLocator
        (Daemon.hashForPush ext.sha256 (Daemon.uuidText sessionId)) = true :=
      isValidPairingLocator_hex (htrusts.digest _)
    have hparse := parseValidated_toVec htrusts.push PushRequest.validate
      (depth_body _ _ _ _ _) hread
    change (parseValidated ext.pushJson _ _).map _ = _
    rw [RelaySigner.attempt, hparse, hmap]
    simp only [PushRequest.validate, hidentifier, hhash, Bool.and_true]
    rfl

def registrationCall (w : RelaySigner) (daemonNodeId : String) : RegisterDaemonCall :=
  ⟨⟨daemonNodeId, base64Encode w.verifyingKey, none, none, none⟩,
    (w.registration daemonNodeId).body, none⟩

theorem route_registration (htrusts : ext.Trusts w key) (daemonNodeId : String) :
    let post := w.registration daemonNodeId
    route ext post.path post.body post.signature =
      if isIdentifier daemonNodeId = true then
        some (.handle (.registerDaemon (registrationCall w daemonNodeId) .start))
      else none := by
  have hkey : (isAscii (base64Encode w.verifyingKey) &&
      lengthWithin 40 128 (base64Encode w.verifyingKey)) = true := by
    rw [isAscii_base64Encode, lengthWithin, utf8ByteSize_base64Encode, ← htrusts.bytes, key.size]
    rfl
  have hread := read_registration daemonNodeId (base64Encode w.verifyingKey)
  have hdepth : (Daemon.registerDaemonBody daemonNodeId (base64Encode w.verifyingKey)).depth ≤ 3 :=
    Nat.le_add_left 1 2
  have hparse := parseValidated_toVec htrusts.registerDaemon RegisterDaemonRequest.validate
    hdepth hread
  change (parseValidated ext.registerDaemonJson _ _).map _ = _
  rw [RelaySigner.registration, hparse]
  simp only [RegisterDaemonRequest.validate, hkey, Option.all_none, Bool.and_true]
  split <;> rfl

theorem decodePublicKey_registration (htrusts : ext.Trusts w key) :
    decodePublicKey ext (base64Encode w.verifyingKey) = .ok key := by
  have hsize : w.verifyingKey.length = 32 := htrusts.bytes ▸ key.size
  have hkey : ext.keyFromBytes w.verifyingKey = some key := by
    rw [Externals.keyFromBytes, dif_pos hsize, if_pos htrusts.isVerifyingKey]
    obtain ⟨bytes, size⟩ := key
    obtain rfl : bytes = w.verifyingKey := htrusts.bytes
    rfl
  simp only [decodePublicKey, htrusts.base64Decode, base64Decode_base64Encode, hsize, if_true, hkey]

theorem receive_of_route {post : Daemon.RelayPost} {b : Bool} {x : RelayTask}
    (h : route ext post.path post.body post.signature = if b = true then some x else none) :
    receive ext post =
      if post.body.length ≤ maxRequestBodyBytes ∧ b = true then some x else none := by
  by_cases hfits : post.body.length ≤ maxRequestBodyBytes
  · simp only [receive, h, hfits, if_true, true_and]
  · simp only [receive, hfits, false_and, if_false]

end Routing

section Verification

variable {ext : Externals} {w : RelaySigner} {key : VerifyingKey} {daemonNodeId : String}
  {op : RelayOperation} {nonce : List UInt8} {tsMs : Nat}

theorem decodeSignature_attempt (htrusts : ext.Trusts w key) :
    (attemptContext ext.sha256 w daemonNodeId op nonce tsMs).decodeSignature ext =
      .ok (.v2, w.sign ((attemptContext ext.sha256 w daemonNodeId op nonce tsMs).canonical ext
        w.relayUrl .v2)) := by
  simp only [SignedRequestContext.decodeSignature, attemptContext, RelaySigner.attempt,
    RelaySigner.signatureFor, splitSignatureHeader_signatureHeader, htrusts.base64Decode,
    base64Decode_base64Encode, htrusts.isSignature, if_true]
  rfl

theorem authentic_attempt (htrusts : ext.Trusts w key) (r : SignedRequestContext) :
    r.authentic ext w.relayUrl key (.v2, w.sign (r.canonical ext w.relayUrl .v2)) = true :=
  htrusts.verify _

/-- Why a request that was signed with the key can be refused where its verification stands. -/
inductive Excuse (c : RelayChoice) (r : SignedRequestContext) (limit : Bool) (key : VerifyingKey)
    (s : RelayState) : VerifyPc → ApiError → Prop
  | clockSkew (h : clockSkewMs < absDiff s.clock r.tsMs) : Excuse c r limit key s .start .clockSkew
  | unregistered (now : Nat) (h : s.registeredKey r.daemonNodeId = none) :
    Excuse c r limit key s (.readKey now) (.unauthorized "unknown daemon")
  | otherKey (now : Nat) (other : VerifyingKey) (h : s.registeredKey r.daemonNodeId = some other)
      (hother : other ≠ key) :
    Excuse c r limit key s (.readKey now) (.unauthorized "invalid shelly signature")
  | rekeyed (now : Nat) (before : VerifyingKey)
      (h : s.registeredKey r.daemonNodeId ≠ some before) :
    Excuse c r limit key s (.markNonce now before) (.unauthorized "daemon key changed; retry")
  | limited (now : Nat) (before : VerifyingKey) (h : (limit && c.limited) = true) :
    Excuse c r limit key s (.markNonce now before) .tokenRegisterRateLimited
  | seen (now : Nat) (before : VerifyingKey)
      (h : s.inner.seenNonces.contains (r.daemonNodeId, r.nonce) = true) :
    Excuse c r limit key s (.markNonce now before) .replay
  | stored (now : Nat) (before : VerifyingKey) (st : RelayStore) (hst : s.store = some st)
      (h : st.seenNonces.contains (r.daemonNodeId, r.nonce) = true) :
    Excuse c r limit key s (.recordActivity now before) .replay
  | storeFailed (now : Nat) (before : VerifyingKey) (h : c.storeOk = false) :
    Excuse c r limit key s (.recordActivity now before) .internal

/-- How many steps are left of a verification. -/
def VerifyPc.left : VerifyPc → Nat
  | .start => 8
  | .pruning _ .gate => 7
  | .pruning _ .memory => 6
  | .pruning _ .store => 5
  | .readKey _ => 4
  | .markNonce _ _ => 3
  | .recordActivity _ _ => 2
  | .refresh _ _ => 1

theorem markNonce_excuse {c : RelayChoice} {r : SignedRequestContext} {limit : Bool}
    {s s' : RelayState} {now : Nat} {before : VerifyingKey} {e : ApiError}
    (h : verifyStep ext c r limit (.markNonce now before) s = (s', .failed e)) :
    Excuse c r limit key s (.markNonce now before) e := by
  rw [verifyStep] at h
  split_ifs at h with hkey hlimit hseen
  · cases h
    exact .rekeyed now before hkey
  · cases h
    exact .limited now before hlimit
  · cases h
    exact .seen now before hseen
  · cases h

theorem recordActivity_excuse {c : RelayChoice} {r : SignedRequestContext} {limit : Bool}
    {s s' : RelayState} {now : Nat} {before : VerifyingKey} {e : ApiError}
    (h : verifyStep ext c r limit (.recordActivity now before) s = (s', .failed e)) :
    Excuse c r limit key s (.recordActivity now before) e := by
  simp only [verifyStep] at h
  cases hst : s.store with
  | none =>
    rw [hst] at h
    cases h
  | some st =>
    rw [hst] at h
    by_cases hok : c.storeOk = true
    · by_cases hseen : st.seenNonces.contains (r.daemonNodeId, r.nonce) = true
      · simp only [if_pos hok, RelayStore.recordAuthenticatedActivity, RelayStore.insertNonce,
          if_pos hseen] at h
        cases h
        exact .stored now before st hst hseen
      · simp only [if_pos hok, RelayStore.recordAuthenticatedActivity, RelayStore.insertNonce,
          if_neg hseen] at h
        cases h
    · simp only [if_neg hok] at h
      cases h
      exact .storeFailed now before (Bool.eq_false_of_not_eq_true hok)

/-- No step of the verification refuses the request without an excuse. -/
theorem verifyStep_excuse (htrusts : ext.Trusts w key) {c : RelayChoice} {limit : Bool}
    {pc : VerifyPc} {s s' : RelayState} {e : ApiError}
    (haudience : s.config.registrationAudience = w.relayUrl)
    (h : verifyStep ext c (attemptContext ext.sha256 w daemonNodeId op nonce tsMs) limit pc s =
      (s', .failed e)) :
    Excuse c (attemptContext ext.sha256 w daemonNodeId op nonce tsMs) limit key s pc e := by
  cases pc with
  | start =>
    rw [verifyStep] at h
    split_ifs at h with hskew
    · cases h
      exact .clockSkew hskew
    · cases h
  | pruning now pc =>
    rw [verifyStep] at h
    split at h
    · cases h
    · cases h
  | readKey now =>
    simp only [verifyStep, decodeSignature_attempt htrusts, haudience] at h
    cases hregistered : s.registeredKey
        (attemptContext ext.sha256 w daemonNodeId op nonce tsMs).daemonNodeId with
    | none =>
      rw [hregistered] at h
      cases h
      exact .unregistered now hregistered
    | some other =>
      simp only [hregistered] at h
      split_ifs at h with hauthentic
      · cases h
      · cases h
        refine .otherKey now other hregistered ?_
        rintro rfl
        exact hauthentic (authentic_attempt htrusts _)
  | markNonce now before => exact markNonce_excuse h
  | recordActivity now before => exact recordActivity_excuse h
  | refresh now before => cases h

/-- The verification comes to an end. -/
theorem verifyStep_left {c : RelayChoice} {r : SignedRequestContext} {limit : Bool}
    {pc pc' : VerifyPc} {s s' : RelayState}
    (h : verifyStep ext c r limit pc s = (s', .running pc')) : pc'.left < pc.left := by
  cases pc with
  | start =>
    rw [verifyStep] at h
    split_ifs at h
    · cases h
    · cases h
      simp [VerifyPc.left]
  | pruning now pc =>
    cases pc with
    | gate =>
      simp only [verifyStep, pruneStep] at h
      split_ifs at h
      · cases h
        simp [VerifyPc.left]
      · cases h
        simp [VerifyPc.left]
    | memory =>
      cases h
      simp [VerifyPc.left]
    | store =>
      cases h
      simp [VerifyPc.left]
  | readKey now =>
    simp only [verifyStep] at h
    split at h
    · cases h
    · split at h
      · cases h
      · split_ifs at h
        · cases h
          simp [VerifyPc.left]
        · cases h
  | markNonce now before =>
    rw [verifyStep] at h
    split_ifs at h
    · cases h
    · cases h
    · cases h
    · cases h
      simp [VerifyPc.left]
  | recordActivity now before =>
    simp only [verifyStep] at h
    split at h
    · cases h
      simp [VerifyPc.left]
    · split_ifs at h
      · split at h
        · cases h
          simp [VerifyPc.left]
        · cases h
      · cases h
  | refresh now before => cases h

end Verification

section Witness

private def workerKey : VerifyingKey := ⟨List.replicate 32 (UInt8.ofNat 3), rfl⟩

private def workerSigner : RelaySigner :=
  ⟨"https://relay.shelly.sh", workerKey.bytes, fun m => workerKey.bytes ++ m⟩

/-- Libraries that read JSON, with signatures that hold the key and the message. -/
private def trusting : Externals :=
  { Externals.playing ⟨[], [], [], [], []⟩ with
    base64Decode := Radix.base64Decode
    sha256 := fun _ => List.replicate 32 0
    verify := fun key m signature => signature = key.bytes ++ m
    registerDaemonJson := fun body => (fromSlice body).bind RegisterDaemonRequest.read
    registerTokenJson := fun body => (fromSlice body).bind RegisterTokenRequest.read
    unregisterTokenJson := fun body => (fromSlice body).bind UnregisterTokenRequest.read
    pushJson := fun body => (fromSlice body).bind PushRequest.read
    publishJson := fun body => (fromSlice body).bind PublishPairingRequest.read }

private theorem trusting_trusts : trusting.Trusts workerSigner workerKey where
  registerDaemon _ := rfl
  registerToken _ := rfl
  unregisterToken _ := rfl
  push _ := rfl
  publish _ := rfl
  base64Decode _ := rfl
  digest _ := rfl
  bytes := rfl
  isVerifyingKey := rfl
  isSignature _ := rfl
  verify _ := decide_eq_true rfl

end Witness

end Shelly.Relay
