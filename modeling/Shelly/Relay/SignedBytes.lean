import Shelly.Framework.LossyText
import Shelly.Protocol.Canonical
import Shelly.Protocol.SignatureHeader
import Shelly.Relay.Replay

namespace Shelly.Relay

open Radix

/-- What the JSON library does with bodies: only text is read, and what follows a value
that is complete does not change it. -/
structure ReadsJson {α : Type} (json : List UInt8 → Option α) : Prop where
  text : ∀ {body value}, json body = some value → ∃ t, body = bytesOf t
  complete : ∀ {body rest value value'}, json body = some value →
    json (body ++ rest) = some value' → value' = value

structure Externals.ReadsBodies (ext : Externals) : Prop where
  registerDaemon : ReadsJson ext.registerDaemonJson
  registerToken : ReadsJson ext.registerTokenJson
  unregisterToken : ReadsJson ext.unregisterTokenJson
  push : ReadsJson ext.pushJson
  publish : ReadsJson ext.publishJson

/-- The nonce and the time in a registration; an unsigned one has none. -/
def RegisterDaemonRequest.signedFields (r : RegisterDaemonRequest) : Option (String × Nat) :=
  r.nonce.bind fun nonce => r.tsMs.map fun tsMs => (nonce, tsMs)

section Fields

variable (ext : Externals)

/-- The nonce and the time that the body of a signed endpoint carries. -/
def signedFields (path : String) (body : List UInt8) : Option (String × Nat) :=
  match path with
  | "/v1/pair" =>
    (parseValidated ext.registerDaemonJson RegisterDaemonRequest.validate body).bind
      RegisterDaemonRequest.signedFields
  | "/v1/push/register-token" =>
    (parseValidated ext.registerTokenJson RegisterTokenRequest.validate body).bind fun r =>
      some (r.nonce, r.tsMs)
  | "/v1/push/unregister-token" =>
    (parseValidated ext.unregisterTokenJson UnregisterTokenRequest.validate body).bind fun r =>
      some (r.nonce, r.tsMs)
  | "/v1/push" =>
    (parseValidated ext.pushJson PushRequest.validate body).bind fun r => some (r.nonce, r.tsMs)
  | "/v1/pair/publish" =>
    (parseValidated ext.publishJson PublishPairingRequest.validate body).bind fun r =>
      some (r.nonce, r.tsMs)
  | _ => none

/-- A request as the relay verifies it: its path is one that is signed, and the nonce and
the time signed with the body are the body's own. -/
structure Presented (r : SignedRequestContext) : Prop where
  method : r.method = "POST"
  fields : signedFields ext r.path r.body = some (r.nonce, r.tsMs)

end Fields

section Bodies

variable {ext : Externals} {α β : Type} {json : List UInt8 → Option α} {validate : α → Bool}
  {f : α → Option β} {body rest : List UInt8} {b b' : β} {path : String} {v v' : String × Nat}

theorem ReadsJson.bind_text (h : ReadsJson json)
    (hb : (parseValidated json validate body).bind f = some b) : ∃ t, body = bytesOf t := by
  obtain ⟨value, hvalue, -⟩ := Option.bind_eq_some_iff.mp hb
  exact h.text (Option.filter_eq_some_iff.mp hvalue).1

theorem ReadsJson.bind_complete (h : ReadsJson json)
    (hb : (parseValidated json validate body).bind f = some b)
    (hb' : (parseValidated json validate (body ++ rest)).bind f = some b') : b' = b := by
  obtain ⟨value, hvalue, hread⟩ := Option.bind_eq_some_iff.mp hb
  obtain ⟨value', hvalue', hread'⟩ := Option.bind_eq_some_iff.mp hb'
  obtain rfl := h.complete (Option.filter_eq_some_iff.mp hvalue).1
    (Option.filter_eq_some_iff.mp hvalue').1
  exact Option.some.inj (hread'.symm.trans hread)

theorem signedFields_text (hjson : ext.ReadsBodies) (h : signedFields ext path body = some v) :
    ∃ t, body = bytesOf t := by
  unfold signedFields at h
  split at h
  · exact hjson.registerDaemon.bind_text h
  · exact hjson.registerToken.bind_text h
  · exact hjson.unregisterToken.bind_text h
  · exact hjson.push.bind_text h
  · exact hjson.publish.bind_text h
  · cases h

theorem signedFields_complete (hjson : ext.ReadsBodies) (h : signedFields ext path body = some v)
    (h' : signedFields ext path (body ++ rest) = some v') : v' = v := by
  unfold signedFields at h
  split at h
  · exact hjson.registerDaemon.bind_complete h h'
  · exact hjson.registerToken.bind_complete h h'
  · exact hjson.unregisterToken.bind_complete h h'
  · exact hjson.push.bind_complete h h'
  · exact hjson.publish.bind_complete h h'
  · cases h

theorem signedFields_path (h : signedFields ext path body = some v) : '\n' ∉ path.toList := by
  unfold signedFields at h
  split at h
  · decide
  · decide
  · decide
  · decide
  · decide
  · cases h

end Bodies

section Accepted

variable {ext : Externals} {r r' : SignedRequestContext} {s s' : RelayState} {x x' : RelayTask}
  {c : RelayChoice}

/-- A registration on its way is the one that its body holds. -/
def Handler.Genuine (ext : Externals) : Handler → Prop
  | .registerDaemon call _ =>
    parseValidated ext.registerDaemonJson RegisterDaemonRequest.validate call.body =
      some call.request
  | _ => True

/-- What is being verified was presented. -/
def RelayTask.Genuine (ext : Externals) : RelayTask → Prop
  | .verify r _ _ rest => Presented ext r ∧ rest.Genuine ext
  | .prove _ _ _ _ rest => rest.Genuine ext
  | .handle h => h.Genuine ext
  | .returned _ => True

theorem genuine_of_route {path : String} {body : List UInt8} {header : Option String}
    (h : route ext path body header = some x) : x.Genuine ext := by
  unfold route at h
  split at h
  · obtain ⟨request, hparse, rfl⟩ := Option.map_eq_some_iff.mp h
    exact hparse
  · obtain ⟨request, hparse, rfl⟩ := Option.map_eq_some_iff.mp h
    exact ⟨⟨rfl, Option.bind_eq_some_iff.mpr ⟨request, hparse, rfl⟩⟩, trivial⟩
  · obtain ⟨request, hparse, rfl⟩ := Option.map_eq_some_iff.mp h
    exact ⟨⟨rfl, Option.bind_eq_some_iff.mpr ⟨request, hparse, rfl⟩⟩, trivial⟩
  · obtain ⟨request, hparse, rfl⟩ := Option.map_eq_some_iff.mp h
    exact ⟨⟨rfl, Option.bind_eq_some_iff.mpr ⟨request, hparse, rfl⟩⟩, trivial⟩
  · obtain ⟨request, hparse, rfl⟩ := Option.map_eq_some_iff.mp h
    exact ⟨⟨rfl, Option.bind_eq_some_iff.mpr ⟨request, hparse, rfl⟩⟩, trivial⟩
  · cases h

theorem genuine_of_arrives (h : x.arrives ext = true) : x.Genuine ext := by
  unfold RelayTask.arrives at h
  split at h
  · exact genuine_of_route (of_decide_eq_true h)
  · exact genuine_of_route (of_decide_eq_true h)
  · trivial
  · cases h

theorem signedBy_genuine {key : VerifyingKey} {h : Handler} (hh : h.Genuine ext) :
    (h.signedBy key).Genuine ext := by
  unfold Handler.signedBy
  split
  · exact hh
  · exact hh

/-- A registration is verified with the nonce and the time of its request. -/
theorem registerDaemonStep_fields {call : RegisterDaemonCall} {pc : RegisterDaemonPc}
    {nonce : String} {tsMs : Nat} {limit : Bool} {pc' : VerifyPc} {rest : Handler}
    (h : registerDaemonStep ext c call s pc =
      (s', .verify (pairContext call nonce tsMs) limit pc' rest)) :
    call.request.signedFields = some (nonce, tsMs) := by
  cases pc with
  | observing key =>
    simp only [registerDaemonStep] at h
    repeat' split at h
    all_goals cases h
    rename_i hnonce hts
    rw [RegisterDaemonRequest.signedFields, hnonce, hts]
    rfl
  | start | inserting | saving =>
    simp only [registerDaemonStep] at h
    repeat' split at h
    all_goals cases h
  | stamping | rollingBack => cases h

theorem handlerStep_genuine {h : Handler} (hh : h.Genuine ext)
    (hs : handlerStep ext c s h = (s', x')) : x'.Genuine ext := by
  cases h with
  | registerDaemon call pc =>
    rcases registerDaemonStep_onward hs with ⟨pc', rfl⟩ | ⟨key, proof, rfl⟩ |
      ⟨nonce, tsMs, key, existing, rfl⟩ | ⟨reply, rfl⟩
    · exact hh
    · exact hh
    · have hfields := registerDaemonStep_fields hs
      exact ⟨⟨rfl, Option.bind_eq_some_iff.mpr ⟨call.request, hh, hfields⟩⟩, hh⟩
    · trivial
  | registerToken request pc =>
    rcases registerTokenStep_onward hs with ⟨pc', rfl⟩ | ⟨reply, rfl⟩ <;> trivial
  | unregisterToken request pc =>
    rcases unregisterTokenStep_onward hs with ⟨pc', rfl⟩ | ⟨reply, rfl⟩ <;> trivial
  | push request pc =>
    rcases pushStep_onward hs with ⟨pc', rfl⟩ | ⟨reply, rfl⟩ <;> trivial
  | publish request pc =>
    rcases publishStep_onward hs with ⟨pc', rfl⟩ | ⟨reply, rfl⟩ <;> trivial
  | resolve code pc =>
    rcases resolveStep_onward hs with ⟨pc', rfl⟩ | ⟨reply, rfl⟩ <;> trivial

theorem genuine_step {i : Nat} (hx : x.Genuine ext)
    (hs : relayAdvance ext c i x s = some (s', x')) : x'.Genuine ext := by
  cases x with
  | verify r limit pc rest =>
    rcases verify_advance hs with ⟨pc', -, rfl⟩ | ⟨key, -, rfl⟩ | ⟨e, -, rfl⟩
    · exact hx
    · exact signedBy_genuine hx.2
    · trivial
  | prove daemonNodeId key proof pc rest =>
    rcases prove_advance hs with ⟨pc', -, rfl⟩ | ⟨-, rfl⟩ | ⟨e, -, rfl⟩
    · exact hx
    · exact hx
    · trivial
  | handle h => exact handlerStep_genuine hx (handle_advance hs)
  | returned => cases hs

theorem presented_of_claims (hx : x.Genuine ext) (h : x.claims = some r) : Presented ext r := by
  unfold RelayTask.claims at h
  split at h
  · cases h
  · obtain rfl := Option.some.inj h
    exact hx.1
  · cases h

/-- Requests that were accepted had been presented. -/
def AcceptedPresented (ext : Externals) (s : RelayState) : Prop :=
  ∀ r ∈ s.history.accepted, Presented ext r

theorem accepted_step {i : Nat} (hs' : AcceptedPresented ext s) (hx : x.Genuine ext)
    (hs : relayAdvance ext c i x s = some (s', x')) : AcceptedPresented ext s' := by
  rcases (nonces_step hs).accepted_cases with hsame | ⟨r, -, hclaims, -, -, hmore⟩
  · intro r' hr'
    exact hs' r' (hsame ▸ hr')
  · intro r' hr'
    rw [show s'.history.accepted = r :: s.history.accepted from hmore] at hr'
    rcases List.mem_cons.mp hr' with rfl | hr'
    · exact presented_of_claims hx hclaims
    · exact hs' r' hr'

theorem genuine_noninterference (ext : Externals) : (relayTasking ext).Noninterference
    Machine.Any (AcceptedPresented ext) (fun _ _ x => x.Genuine ext) where
  init s h := by
    intro r hr
    rw [h.history] at hr
    cases hr
  fresh _ _ _ _ _ hx := genuine_of_arrives hx
  own _ i _ _ _ _ _ hG _ hL hs := ⟨accepted_step (i := i) hG hL hs, genuine_step (i := i) hL hs⟩
  others _ _ _ _ _ _ _ _ _ _ _ _ _ _ _ hy := hy
  environment p e s' keep _ hG hs := by
    cases e with
    | tick ms =>
      obtain ⟨-, hr⟩ := Option.ite_none_right_eq_some.mp hs
      cases hr
      exact ⟨hG, fun _ _ _ _ hy => hy⟩
    | restart =>
      obtain ⟨st, -, hr⟩ := Option.bind_eq_some_iff.mp hs
      obtain ⟨loaded, -, hr⟩ := Option.map_eq_some_iff.mp hr
      cases hr
      exact ⟨hG, fun _ _ _ _ hy => hy⟩

/-- In every run the relay accepts only requests that were presented. -/
theorem presented_of_accepted {p : Pool RelayState RelayTask}
    (h : (relayTasking ext).machine.Reachable p) (hr : r ∈ p.shared.history.accepted) :
    Presented ext r :=
  ((genuine_noninterference ext).invariant h).1 r hr

end Accepted

/-- The text that is signed in the first version. -/
theorem toList_canonicalRequest (lossy : List UInt8 → String) (method path : String)
    (body : List UInt8) (nonce : String) (tsMs : Nat) :
    (canonicalRequest lossy method path body nonce tsMs).toList =
      method.toList ++ '\n' :: (path.toList ++ '\n' ::
        (((lossy body).toList ++ '\n' :: nonce.toList) ++ '\n' :: (toString tsMs).toList)) := by
  simp [canonicalRequest, String.toList_append]

theorem newline_not_mem_toString (n : Nat) : '\n' ∉ (toString n).toList := fun h => by
  cases isDigit_of_mem_toString h

section Canonical

variable {ext : Externals} {r r' : SignedRequestContext}

theorem fromUtf8Lossy_bytesOf (s : String) : fromUtf8Lossy (bytesOf s) = s :=
  fromUtf8Lossy_utf8Bytes s

/-- A body that another begins with has the nonce of the other. -/
theorem nonce_of_extends {text text' : String} {x : List Char} (hjson : ext.ReadsBodies)
    (h : Presented ext r) (h' : Presented ext r') (hpath : r.path = r'.path)
    (hbody : r.body = bytesOf text) (hbody' : r'.body = bytesOf text')
    (hx : text'.toList = text.toList ++ x) : r.nonce = r'.nonce := by
  have htext : text' = text ++ String.ofList x := by
    apply String.toList_inj.mp
    rw [hx, String.toList_append, String.toList_ofList]
  have hread' := h'.fields
  rw [← hpath, hbody', htext, bytesOf_append, ← hbody] at hread'
  exact (congrArg Prod.fst (signedFields_complete hjson h.fields hread')).symm

/-- Requests that are presented are signed with different texts, although other requests
could share one. -/
theorem canonicalRequest_injective (hjson : ext.ReadsBodies) :
    (∀ r r', Presented ext r → Presented ext r' →
      canonicalRequest fromUtf8Lossy r.method r.path r.body r.nonce r.tsMs =
        canonicalRequest fromUtf8Lossy r'.method r'.path r'.body r'.nonce r'.tsMs →
      r.path = r'.path ∧ r.body = r'.body ∧ r.nonce = r'.nonce ∧ r.tsMs = r'.tsMs) ∧
    ∃ method path body body' nonce nonce' tsMs, body ≠ body' ∧ nonce ≠ nonce' ∧
      canonicalRequest fromUtf8Lossy method path body nonce tsMs =
        canonicalRequest fromUtf8Lossy method path body' nonce' tsMs := by
  constructor
  · intro r r' h h' heq
    have hchars := congrArg String.toList heq
    rw [toList_canonicalRequest, toList_canonicalRequest, h.method, h'.method] at hchars
    obtain ⟨-, hchars⟩ := eq_of_append_cons (by decide) (by decide) hchars
    obtain ⟨hpath, hchars⟩ :=
      eq_of_append_cons (signedFields_path h.fields) (signedFields_path h'.fields) hchars
    obtain ⟨hchars, hts⟩ := eq_of_append_cons_last (newline_not_mem_toString r.tsMs)
      (newline_not_mem_toString r'.tsMs) hchars
    have hpath := String.toList_inj.mp hpath
    obtain ⟨text, hbody⟩ := signedFields_text hjson h.fields
    obtain ⟨text', hbody'⟩ := signedFields_text hjson h'.fields
    rw [hbody, hbody', fromUtf8Lossy_bytesOf, fromUtf8Lossy_bytesOf] at hchars
    -- The longer body would hold the other one's nonce, and so be no longer.
    obtain ⟨htext, hnonce⟩ := eq_of_append_cons_of_extends
      (fun x hx => congrArg String.toList (nonce_of_extends hjson h h' hpath hbody hbody' hx))
      (fun x hx => congrArg String.toList
        (nonce_of_extends hjson h' h hpath.symm hbody' hbody hx)) hchars
    refine ⟨hpath, ?_, String.toList_inj.mp hnonce, toString_nat_inj hts⟩
    rw [hbody, hbody', String.toList_inj.mp htext]
  · exact ⟨"POST", "/v1/push", bytesOf "a\nb", bytesOf "a", "c", "b\nc", 42, by decide, by decide,
      by decide⟩

end Canonical

section Witness

private def registeringId : String := "d75a980182b10ab7d54bfed3c964073a0ee172f3daa62325af021a68f707511a"

private def sessionHash : String :=
  "e3b0c44298fc1c149afbf4c8996fb92427ae41e4649b934ca495991b7852b855"

private def pushSent : PushRequest :=
  ⟨registeringId, "token-000000000000", .apns, sessionHash, .awaitingInput, "nonce-0000000000", 42⟩

private def pushBody : String :=
  "\x7b\"daemon_node_id\":\"" ++ registeringId ++
    "\",\"recipient_token\":\"token-000000000000\",\"platform\":\"apns\",\"session_id_hash\":\"" ++
    sessionHash ++
    "\",\"event_type\":\"awaiting_input\",\"nonce\":\"nonce-0000000000\",\"ts_ms\":42\x7d"

private def readPush (body : List UInt8) : Option PushRequest :=
  if body = bytesOf pushBody then some pushSent else none

/-- Libraries that know one body. -/
private def readingOne : Externals :=
  { Externals.playing ⟨[], [], [], [], []⟩ with pushJson := readPush }

private theorem readsJson_nothing {α : Type} : ReadsJson (Script.json ([] : List α)) where
  text h := by cases h
  complete h := by cases h

private theorem readingOne_reads : readingOne.ReadsBodies where
  registerDaemon := readsJson_nothing
  registerToken := readsJson_nothing
  unregisterToken := readsJson_nothing
  push := {
    text := fun h => ⟨pushBody, (Option.ite_none_right_eq_some.mp h).1⟩
    complete := fun h h' => Option.some.inj
      ((Option.ite_none_right_eq_some.mp h').2.symm.trans (Option.ite_none_right_eq_some.mp h).2) }
  publish := readsJson_nothing

private def pushPresented : SignedRequestContext :=
  ⟨"POST", "/v1/push", bytesOf pushBody, none, registeringId, "nonce-0000000000", 42⟩

private theorem push_presented : Presented readingOne pushPresented where
  method := rfl
  fields := by
    have hvalid : pushSent.validate = true := by decide
    have hbody : readPush (bytesOf pushBody) = some pushSent := if_pos rfl
    have hread : parseValidated readPush PushRequest.validate (bytesOf pushBody) =
        some pushSent := by
      rw [parseValidated, hbody, Option.filter_some, if_pos hvalid]
    simp only [signedFields, pushPresented, readingOne, hread, Option.bind_some]
    rfl

theorem canonicalRequest_injective_push :
    Presented readingOne pushPresented ∧ pushPresented.path = pushPresented.path ∧
      pushPresented.body = pushPresented.body ∧ pushPresented.nonce = pushPresented.nonce ∧
      pushPresented.tsMs = pushPresented.tsMs :=
  ⟨push_presented, (canonicalRequest_injective readingOne_reads).1 _ _ push_presented
    push_presented rfl⟩

end Witness

/-- A proof as far as its check depends on the fields that are signed. -/
structure PassesChecks (ext : Externals) (audience daemonNodeId : String)
    (proof : RegistrationProof) : Prop where
  validate : proof.validate = true
  audience : proof.audience = audience
  nodeKey : ∃ key, ext.nodeKey daemonNodeId = some key

section Binding

variable {ext : Externals} {audience daemonNodeId daemonNodeId' : String} {key key' : VerifyingKey}
  {proof proof' : RegistrationProof}

theorem passesChecks_of_checkProof (hvalid : proof.validate = true)
    (h : checkProof ext audience daemonNodeId key proof = .ok ()) :
    PassesChecks ext audience daemonNodeId proof := by
  unfold checkProof at h
  split at h
  · cases h
  · rename_i haudience
    split at h
    · cases h
    · rename_i daemonKey hkey
      exact ⟨hvalid, Decidable.not_not.mp haudience, daemonKey, hkey⟩

/-- The text of a node id that is a key, and base64 as it is defined. -/
structure Externals.ReadsKeys (ext : Externals) : Prop where
  nodeKey : ∀ {s key}, ext.nodeKey s = some key → ∀ c ∈ s.toList, c.isAlphanum = true
  base64Encode : ∀ bytes, ext.base64Encode bytes = Radix.base64Encode bytes

theorem base64Encode_inj {bytes bytes' : List UInt8}
    (h : base64Encode bytes = base64Encode bytes') : bytes = bytes' := by
  have hread := base64Decode_base64Encode bytes
  rw [h, base64Decode_base64Encode] at hread
  exact (Option.some.inj hread).symm

theorem nul_not_mem_base64Encode (bytes : List UInt8) : '\x00' ∉ (base64Encode bytes).toList := by
  have hsymbols : base64.symbols.all (· != '\x00') = true := by decide
  intro h
  rw [base64Encode, String.toList_ofList] at h
  rcases List.mem_append.mp h with h | h
  · exact bne_iff_ne.mp (List.all_eq_true.mp hsymbols _ (Alphabet.mem_symbols_of_mem_encode h)) rfl
  · cases List.eq_of_mem_replicate h

theorem nul_not_mem_toString (n : Nat) : '\x00' ∉ (toString n).toList := fun h => by
  cases isDigit_of_mem_toString h

/-- The text that a daemon signs to prove its registration. -/
theorem toList_registrationProofBinding (nonce : String) (tsMs : Nat) :
    (registrationProofBinding ext daemonNodeId key audience nonce tsMs).toList =
      "shelly-registration-proof-v1".toList ++ '\x00' :: (daemonNodeId.toList ++ '\x00' ::
        ((ext.base64Encode key.bytes).toList ++ '\x00' :: (audience.toList ++ '\x00' ::
          (nonce.toList ++ '\x00' :: (toString tsMs).toList)))) := by
  have hdomain : "shelly-registration-proof-v1\x00".toList =
      "shelly-registration-proof-v1".toList ++ ['\x00'] := by decide
  have hnul : "\x00".toList = ['\x00'] := rfl
  unfold registrationProofBinding
  simp only [String.toList_append]
  generalize "shelly-registration-proof-v1\x00".toList = domain at *
  generalize "shelly-registration-proof-v1".toList = tag at *
  simp only [hdomain, hnul, List.append_assoc, List.cons_append, List.nil_append]

/-- Equal texts are signed by equal proofs only, even where the nonce holds separators. -/
theorem registrationProofBinding_injective (hkeys : ext.ReadsKeys)
    (h : PassesChecks ext audience daemonNodeId proof)
    (h' : PassesChecks ext audience daemonNodeId' proof')
    (heq : registrationProofBinding ext daemonNodeId key proof.audience proof.nonce proof.tsMs =
      registrationProofBinding ext daemonNodeId' key' proof'.audience proof'.nonce proof'.tsMs) :
    daemonNodeId = daemonNodeId' ∧ key = key' ∧ proof.audience = proof'.audience ∧
      proof.nonce = proof'.nonce ∧ proof.tsMs = proof'.tsMs := by
  have hid : ∀ {s key}, ext.nodeKey s = some key → '\x00' ∉ s.toList := fun hkey hmem =>
    absurd (hkeys.nodeKey hkey _ hmem) (by decide)
  obtain ⟨nodeKey, hkey⟩ := h.nodeKey
  obtain ⟨nodeKey', hkey'⟩ := h'.nodeKey
  have hchars := congrArg String.toList heq
  rw [toList_registrationProofBinding, toList_registrationProofBinding, hkeys.base64Encode,
    hkeys.base64Encode, h.audience, h'.audience] at hchars
  obtain ⟨-, hchars⟩ := List.cons.inj (List.append_cancel_left hchars)
  obtain ⟨hdaemon, hchars⟩ := eq_of_append_cons (hid hkey) (hid hkey') hchars
  obtain ⟨hbytes, hchars⟩ :=
    eq_of_append_cons (nul_not_mem_base64Encode _) (nul_not_mem_base64Encode _) hchars
  -- The audience is the relay's own, so its separators cannot move either.
  obtain ⟨-, hchars⟩ := List.cons.inj (List.append_cancel_left hchars)
  obtain ⟨hnonce, hts⟩ :=
    eq_of_append_cons_last (nul_not_mem_toString _) (nul_not_mem_toString _) hchars
  have hbytes := base64Encode_inj (String.toList_inj.mp hbytes)
  refine ⟨String.toList_inj.mp hdaemon, ?_, h.audience.trans h'.audience.symm,
    String.toList_inj.mp hnonce, toString_nat_inj hts⟩
  cases key
  cases key'
  cases hbytes
  rfl

end Binding

/-- A use that a daemon makes of a signature. -/
inductive Purpose
  | requestV1 | requestV2 | registrationProof
  deriving DecidableEq

namespace Purpose

/-- The bytes that are signed for a purpose. -/
def Signs (ext : Externals) : Purpose → List UInt8 → Prop
  | .requestV1, m => ∃ path body nonce tsMs,
    m = bytesOf (canonicalRequest fromUtf8Lossy "POST" path body nonce tsMs)
  | .requestV2, m => ∃ audience method path body nonce tsMs,
    m = canonicalRequestV2 ext.sha256 audience method path body nonce tsMs
  | .registrationProof, m => ∃ daemonNodeId key audience nonce tsMs,
    m = bytesOf (registrationProofBinding ext daemonNodeId key audience nonce tsMs)

/-- The byte that the bytes for a purpose begin with. -/
def firstByte : Purpose → UInt8
  | .requestV1 => 0x50
  | .requestV2 => 0x00
  | .registrationProof => 0x73

variable {ext : Externals} {p q : Purpose} {m m' : List UInt8}

theorem firstByte_inj (h : p.firstByte = q.firstByte) : p = q := by
  cases p <;> cases q <;> first | rfl | cases h

theorem head_of_signs (h : p.Signs ext m) : m.head? = some p.firstByte := by
  have hfirst : ∀ (s t : String) (byte : UInt8), (bytesOf s).head? = some byte →
      (bytesOf (s ++ t)).head? = some byte := by
    intro s t byte hs
    rw [bytesOf_append, List.head?_append, hs]
    rfl
  cases p with
  | requestV1 =>
    obtain ⟨path, body, nonce, tsMs, rfl⟩ := h
    have hmethod : (bytesOf "POST").head? = some 0x50 := by decide
    simp only [canonicalRequest, String.append_assoc]
    exact hfirst _ _ _ hmethod
  | requestV2 =>
    obtain ⟨audience, method, path, body, nonce, tsMs, rfl⟩ := h
    rw [canonicalRequestV2, List.flatMap_cons, List.head?_append]
    rfl
  | registrationProof =>
    obtain ⟨daemonNodeId, key, audience, nonce, tsMs, rfl⟩ := h
    have hdomain : (bytesOf "shelly-registration-proof-v1\x00").head? = some 0x73 := by
      decide
    unfold registrationProofBinding
    simp only [String.append_assoc]
    exact hfirst _ _ _ hdomain

/-- No bytes are signed for two purposes. -/
theorem signs_unique (hp : p.Signs ext m) (hq : q.Signs ext m) : p = q :=
  firstByte_inj (Option.some.inj ((head_of_signs hp).symm.trans (head_of_signs hq)))

end Purpose

/-- base64 as it is defined, and signatures that verify for nothing but what they were made
for. `sign` is what the owner of a key makes of a message. -/
structure Externals.Signing (ext : Externals) (sign : List UInt8 → List UInt8 → List UInt8) :
    Prop where
  base64Encode : ∀ bytes, ext.base64Encode bytes = Radix.base64Encode bytes
  base64Decode : ∀ s, ext.base64Decode s = Radix.base64Decode s
  isSignature : ∀ {bytes}, ext.isSignature bytes = true → bytes.length = 64
  verify : ∀ {key m m'}, ext.verify key m' (sign key.bytes m) = true → m' = m
  verifyNode : ∀ {key m m'}, ext.verifyNode key m' (sign key m) = true → m' = m

section Versions

variable {ext : Externals} {sign : List UInt8 → List UInt8 → List UInt8}
  {r : SignedRequestContext} {n rest : String} {c : RelayChoice} {s : RelayState}

theorem verifyStep_unsupported (hheader : r.signatureHeader = some ("v" ++ n ++ "=" ++ rest))
    (h : IsVersionNumber n) (h₁ : n ≠ "1") (h₂ : n ≠ "2") (limit : Bool) (now : Nat) :
    verifyStep ext c r limit (.readKey now) s =
      (s, .failed (.unauthorized "unsupported shelly signature version")) := by
  have hread : r.decodeSignature ext =
      .error (.unauthorized "unsupported shelly signature version") := by
    rw [SignedRequestContext.decodeSignature, hheader]
    simp only [splitSignatureHeader_unsupported h h₁ h₂]
  simp only [verifyStep, hread]

/-- A value that only looks like a marker is the bare text of its signature. -/
theorem bare_of_decodeSignature (hext : ext.Signing sign)
    (hheader : r.signatureHeader = some ("v" ++ n ++ "=" ++ rest)) (hpad : '=' ∉ n.toList)
    (h₁ : n ≠ "1") (h₂ : n ≠ "2") {version : SignatureVersion} {signature : List UInt8}
    (h : r.decodeSignature ext = .ok (version, signature)) :
    version = .v1 ∧ signature.length = 64 ∧
      "v" ++ n ++ "=" ++ rest = ext.base64Encode signature := by
  rw [SignedRequestContext.decodeSignature, hheader] at h
  simp only [splitSignatureHeader_unknown hpad h₁ h₂, hext.base64Decode] at h
  split at h
  · cases h
  · rename_i version' encoded hsplit
    obtain ⟨-, hsplit⟩ := Option.ite_none_left_eq_some.mp hsplit
    obtain ⟨rfl, rfl⟩ := Prod.mk.inj (Option.some.inj hsplit)
    split at h
    · cases h
    · rename_i signature' hdecode
      split at h
      · rename_i hsignature
        cases h
        rw [hext.base64Encode]
        exact ⟨rfl, hext.isSignature hsignature, (base64Encode_of_base64Decode hdecode).symm⟩
      · cases h

end Versions

section Witness

private def parseDaemonId (s : String) : Option (List UInt8) :=
  if s = registeringId then some (bytesOf s) else none

/-- Libraries with base64 and a scheme whose signatures hold the key and the message. -/
private def signing : Externals :=
  { Externals.playing ⟨[], [], [], [], []⟩ with
    base64Encode := base64Encode
    base64Decode := base64Decode
    isSignature := fun bytes => bytes.length = 64
    verify := fun key m signature => signature = key.bytes ++ m
    nodeKey := parseDaemonId
    verifyNode := fun key m signature => signature = key ++ m }

private theorem signing_signing : signing.Signing (· ++ ·) where
  base64Encode _ := rfl
  base64Decode _ := rfl
  isSignature h := of_decide_eq_true h
  verify h := (List.append_cancel_left (of_decide_eq_true h)).symm
  verifyNode h := (List.append_cancel_left (of_decide_eq_true h)).symm

private theorem signing_readsKeys : signing.ReadsKeys where
  nodeKey h := by
    obtain ⟨rfl, -⟩ := Option.ite_none_right_eq_some.mp h
    have hall : registeringId.toList.all Char.isAlphanum = true := by decide
    exact List.all_eq_true.mp hall
  base64Encode _ := rfl

private def relayKey : VerifyingKey := ⟨List.replicate 32 3, rfl⟩

/-- A proof whose nonce holds a separator. -/
private def registered : RegistrationProof :=
  ⟨"https://relay.shelly.sh", "nonce-00000000\x000", 42, base64Encode (List.replicate 64 0)⟩

private theorem registered_passes :
    PassesChecks signing "https://relay.shelly.sh" registeringId registered where
  validate := by decide
  audience := rfl
  nodeKey := by
    have hparse : parseDaemonId registeringId = some (bytesOf registeringId) := if_pos rfl
    exact ⟨bytesOf registeringId, hparse⟩

theorem registrationProofBinding_injective_nul :
    PassesChecks signing "https://relay.shelly.sh" registeringId registered ∧ registeringId = registeringId ∧
      relayKey = relayKey ∧ registered.audience = registered.audience ∧
      registered.nonce = registered.nonce ∧ registered.tsMs = registered.tsMs :=
  ⟨registered_passes,
    registrationProofBinding_injective signing_readsKeys registered_passes registered_passes rfl⟩

end Witness

end Shelly.Relay
