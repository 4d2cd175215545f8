import Shelly.Relay.Pruning

namespace Shelly.Relay

section Guard

/-- The nonce of the proof that a registration came with. -/
def RegisterDaemonCall.proven (call : RegisterDaemonCall) : Option (String × String) :=
  call.request.proof.map fun proof => (call.request.daemonNodeId, proof.nonce)

/-- The nonce that a registration in flight has used for its proof. -/
def RelayTask.proven : RelayTask → Option (String × String)
  | .prove daemonNodeId _ proof .recordNonce _ => some (daemonNodeId, proof.nonce)
  | .handle (.registerDaemon _ .start) => none
  | .handle (.registerDaemon call _) => call.proven
  | _ => none

/-- A registration that has used a proof does not fail at this step and leave its daemon
unregistered. -/
def RelayTask.keepsProof (c : RelayChoice) (s : RelayState) : RelayTask → Bool
  | .prove daemonNodeId _ proof .recordNonce _ =>
    s.inner.daemons.contains daemonNodeId || s.store.all fun st =>
      c.storeOk && !st.seenNonces.contains (daemonNodeId, proof.nonce)
  | .handle (.registerDaemon call (.observing _)) =>
    call.proven.isNone || !s.inner.daemonCapacityExceeded call.request.daemonNodeId maxDaemons
  | .handle (.registerDaemon call (.rollingBack existing _)) =>
    call.proven.isNone || existing.isSome
  | _ => true

/-- Every row belongs to a daemon that has a row. -/
def RelayStore.rowsOwned (st : RelayStore) : Bool :=
  (st.pushTokens.entries.all fun e => st.daemons.contains e.2.daemonNodeId) &&
    (st.seenNonces.entries.all fun e => st.daemons.contains e.1.1) &&
    st.pairingCodes.entries.all fun e => st.daemons.contains e.2.daemonNodeId

/-- A request goes on when all others have been answered. -/
def sequential (p : Pool RelayState RelayTask) : Move RelayTask RelayChoice RelayEvent → Bool
  | .advance i _ => decide (p.Lacks fun j x => decide (j ≠ i) && !x.answered)
  | _ => true

/-- What keeps everything in the hands of registered daemons: a registration that has used a
proof neither fails nor is abandoned with its daemon unregistered, and a restart finds no row
of a daemon without one. -/
def proofsKept (p : Pool RelayState RelayTask) (a : Move RelayTask RelayChoice RelayEvent) :
    Bool :=
  sequential p a &&
    match a with
    | .advance i c => (p.task i).all fun x => x.keepsProof c p.shared
    | .drop i =>
      (p.task i).all fun x => x.proven.all fun k => p.shared.inner.daemons.contains k.1
    | .environment .restart => p.shared.store.all RelayStore.rowsOwned
    | _ => true

end Guard

section Owned

/-- The bindings and the pairing records belong to registered daemons. -/
structure EntriesOwned (inner : RelayInner) : Prop where
  tokens : ∀ t o, inner.tokens.lookup t = some o → inner.daemons.contains o.daemonNodeId = true
  pairingCodes : ∀ k e, inner.pairingCodes.lookup k = some e →
    inner.daemons.contains e.daemonNodeId = true

/-- So do the nonces, but for one. -/
def NoncesOwned (inner : RelayInner) (proven : Option (String × String)) : Prop :=
  ∀ k, inner.seenNonces.contains k = true → inner.daemons.contains k.1 = true ∨ proven = some k

/-- Nothing belongs to the daemon but the nonce of a proof. -/
structure OwnsOnly (inner : RelayInner) (id : String) (proven : Option (String × String)) :
    Prop where
  tokens : ∀ t o, inner.tokens.lookup t = some o → o.daemonNodeId ≠ id
  pairingCodes : ∀ k e, inner.pairingCodes.lookup k = some e → e.daemonNodeId ≠ id
  seenNonces : ∀ k, inner.seenNonces.contains k = true → k.1 = id → proven = some k

/-- What a registration has observed still holds. -/
def Observed (inner : RelayInner) (call : RegisterDaemonCall) :
    Option DaemonRegistration → Prop
  | some _ => inner.daemons.contains call.request.daemonNodeId = true
  | none => inner.daemonCapacityExceeded call.request.daemonNodeId maxDaemons = false ∧
      OwnsOnly inner call.request.daemonNodeId call.proven

/-- The record that a publication is going to store. -/
def PublishPc.entry : PublishPc → Option PairingCodeEntry
  | .deletingRows _ _ _ entry | .saving _ _ entry | .inserting _ entry => some entry
  | _ => none

/-- What an endpoint can rely on. -/
inductive Handler.Knows (inner : RelayInner) : Handler → Prop
  | starting (call : RegisterDaemonCall) : Knows inner (.registerDaemon call .start)
  | observing (call : RegisterDaemonCall) (key : VerifyingKey) :
      Knows inner (.registerDaemon call (.observing key))
  | stamping (call : RegisterDaemonCall) (key : VerifyingKey)
      (existing : Option DaemonRegistration) (signer : Option VerifyingKey) :
      Observed inner call existing →
      Knows inner (.registerDaemon call (.stamping key existing signer))
  | inserting (call : RegisterDaemonCall) (existing : Option DaemonRegistration)
      (registration : DaemonRegistration) (signer : Option VerifyingKey) :
      Observed inner call existing →
      Knows inner (.registerDaemon call (.inserting existing registration signer))
  | saving (call : RegisterDaemonCall) (existing : Option DaemonRegistration)
      (registration : DaemonRegistration) :
      inner.daemons.contains call.request.daemonNodeId = true →
      (existing = none → OwnsOnly inner call.request.daemonNodeId call.proven) →
      Knows inner (.registerDaemon call (.saving existing registration))
  | rollingBack (call : RegisterDaemonCall) (existing : Option DaemonRegistration)
      (registration : DaemonRegistration) :
      inner.daemons.contains call.request.daemonNodeId = true →
      (existing = none → OwnsOnly inner call.request.daemonNodeId call.proven) →
      Knows inner (.registerDaemon call (.rollingBack existing registration))
  | registerToken (request : RegisterTokenRequest) (pc : RegisterTokenPc) :
      inner.daemons.contains request.daemonNodeId = true →
      (∀ owner, pc = .saving owner ∨ pc = .inserting owner →
        owner.daemonNodeId = request.daemonNodeId) →
      Knows inner (.registerToken request pc)
  | unregisterToken (request : UnregisterTokenRequest) (pc : RemovalPc) :
      Knows inner (.unregisterToken request pc)
  | push (request : PushRequest) (pc : PushPc) : Knows inner (.push request pc)
  | publish (request : PublishPairingRequest) (pc : PublishPc) :
      inner.daemons.contains request.daemonNodeId = true →
      (∀ entry, pc.entry = some entry → entry.daemonNodeId = request.daemonNodeId) →
      Knows inner (.publish request pc)
  | resolve (code : String) (pc : ResolvePc) : Knows inner (.resolve code pc)

/-- The endpoint that a signature is verified for, as it will go on. -/
inductive Signs (r : SignedRequestContext) : Handler → Prop
  | registerDaemon (call : RegisterDaemonCall) (key : VerifyingKey)
      (existing : DaemonRegistration) : r.daemonNodeId = call.request.daemonNodeId →
      Signs r (.registerDaemon call (.stamping key (some existing) none))
  | registerToken (request : RegisterTokenRequest) : r.daemonNodeId = request.daemonNodeId →
      Signs r (.registerToken request .checkingCap)
  | unregisterToken (request : UnregisterTokenRequest) (pc : RemovalPc) :
      Signs r (.unregisterToken request pc)
  | push (request : PushRequest) (pc : PushPc) : Signs r (.push request pc)
  | publish (request : PublishPairingRequest) : r.daemonNodeId = request.daemonNodeId →
      Signs r (.publish request .checking)

inductive RelayTask.Knows (inner : RelayInner) : RelayTask → Prop
  | verify (r : SignedRequestContext) (limit : Bool) (pc : VerifyPc) (rest : Handler) :
      Signs r rest → (pc.key.isSome = true → inner.daemons.contains r.daemonNodeId = true) →
      Knows inner (.verify r limit pc rest)
  | prove (call : RegisterDaemonCall) (key : VerifyingKey) (proof : RegistrationProof)
      (pc : ProofPc) : call.request.proof = some proof →
      Knows inner (.prove call.request.daemonNodeId key proof pc
        (.registerDaemon call (.observing key)))
  | handle (h : Handler) : h.Knows inner → Knows inner (.handle h)
  | returned (reply : Reply) : Knows inner (.returned reply)

/-- The state beside the one request that is in flight. -/
structure Alone (s : RelayState) (x : RelayTask) : Prop where
  entries : EntriesOwned s.inner
  nonces : NoncesOwned s.inner x.proven
  knows : x.Knows s.inner

end Owned

section Steps

variable {ext : Externals} {c : RelayChoice} {s s' : RelayState} {x x' : RelayTask}
  {inner inner' : RelayInner} {proven : Option (String × String)} {id : String}

theorem EntriesOwned.mono (h : EntriesOwned inner)
    (hdaemons : ∀ id, inner.daemons.contains id = true → inner'.daemons.contains id = true)
    (htokens : inner.tokens.Includes inner'.tokens)
    (hcodes : inner.pairingCodes.Includes inner'.pairingCodes) : EntriesOwned inner' where
  tokens t o ho := hdaemons _ (h.tokens t o (htokens t o ho))
  pairingCodes k e he := hdaemons _ (h.pairingCodes k e (hcodes k e he))

/-- What is not registered owns nothing. -/
theorem ownsOnly_of_unregistered (he : EntriesOwned inner) (hn : NoncesOwned inner proven)
    (hid : inner.daemons.contains id = false) : OwnsOnly inner id proven where
  tokens t o ho := by
    rintro rfl
    cases hid.symm.trans (he.tokens t o ho)
  pairingCodes k e hk := by
    rintro rfl
    cases hid.symm.trans (he.pairingCodes k e hk)
  seenNonces k hk := by
    rintro rfl
    refine (hn k hk).resolve_left fun h => ?_
    cases hid.symm.trans h

theorem contains_insert (t : Table String DaemonRegistration) (id id' : String)
    (r : DaemonRegistration) (h : t.contains id' = true) : (t.insert id r).contains id' = true := by
  rw [Table.contains, Table.lookup_insert]
  split
  · rfl
  · exact h

theorem contains_modify (t : Table String DaemonRegistration) (id id' : String)
    (f : DaemonRegistration → DaemonRegistration) :
    (t.modify id f).contains id' = t.contains id' := by
  rw [Table.contains, Table.lookup_modify]
  split
  · rw [Option.isSome_map, Table.contains]
  · rfl

theorem contains_pruned {config : RelayConfig} {now : Nat}
    (h : inner.daemons.contains id = true) (hkeeps : inner.keepsOwner config now id = true) :
    (inner.pruneExpired config now).daemons.contains id = true := by
  obtain ⟨r, hr⟩ := Table.contains_eq_true.mp h
  rw [Table.contains_eq_true]
  exact ⟨r, by rw [pruneExpired_daemons_lookup, Table.lookup_retain]; exact ⟨hr, hkeeps⟩⟩

/-- A prune drops a daemon with all that is its own. -/
theorem owned_pruneExpired (config : RelayConfig) (now : Nat) (he : EntriesOwned inner)
    (hn : NoncesOwned inner none) : EntriesOwned (inner.pruneExpired config now) ∧
      NoncesOwned (inner.pruneExpired config now) none := by
  refine ⟨⟨fun t o ho => ?_, fun k e hk => ?_⟩, fun k hk => .inl ?_⟩
  · rw [RelayInner.pruneExpired] at ho
    obtain ⟨ho, hkept⟩ := Table.lookup_retain.mp ho
    exact contains_pruned (he.tokens t o ho) (Bool.and_eq_true_iff.mp hkept).2
  · rw [RelayInner.pruneExpired] at hk
    obtain ⟨hk, hkept⟩ := Table.lookup_retain.mp hk
    exact contains_pruned (he.pairingCodes k e hk) (Bool.and_eq_true_iff.mp hkept).2
  · obtain ⟨tsMs, hts⟩ := Table.contains_eq_true.mp hk
    rw [RelayInner.pruneExpired_seenNonces] at hts
    obtain ⟨hts, hkept⟩ := Table.lookup_retain.mp hts
    have howner := (hn k (Table.contains_eq_true.mpr ⟨tsMs, hts⟩)).resolve_right fun h => by cases h
    exact contains_pruned howner (Bool.and_eq_true_iff.mp hkept).2

theorem owned_pruneStep {now : Nat} {pc : PrunePc} (he : EntriesOwned s.inner)
    (hn : NoncesOwned s.inner none) : EntriesOwned (pruneStep c now pc s).1.inner ∧
      NoncesOwned (pruneStep c now pc s).1.inner none := by
  cases pc with
  | gate =>
    simp only [pruneStep]
    split
    · exact ⟨he, hn⟩
    · exact ⟨⟨he.tokens, he.pairingCodes⟩, hn⟩
  | memory => exact owned_pruneExpired s.config now he hn
  | store =>
    simp only [pruneStep]
    split <;> exact ⟨he, hn⟩

/-- A nonce of a registered daemon, or the one of the request's own proof. -/
theorem noncesOwned_mark {daemonNodeId nonce : String} {tsMs : Nat} {t : RelayState}
    (hn : NoncesOwned s.inner proven) (ht : t = s.markNonce daemonNodeId nonce tsMs)
    (hkept : ∀ k, proven = some k → s.inner.daemons.contains k.1 = true ∨ x.proven = some k)
    (howner : s.inner.daemons.contains daemonNodeId = true ∨
      x.proven = some (daemonNodeId, nonce)) : NoncesOwned t.inner x.proven := by
  subst ht
  intro k hk
  by_cases hkey : k = (daemonNodeId, nonce)
  · rw [hkey]
    exact howner
  · have hseen : s.inner.seenNonces.contains k = true := by
      rw [Table.contains, RelayState.markNonce, Table.lookup_insert, if_neg hkey] at hk
      exact hk
    exact (hn k hseen).elim .inl (hkept k)

theorem knows_signedBy {r : SignedRequestContext} {rest : Handler} (key : VerifyingKey)
    (hsigns : Signs r rest) (hid : inner.daemons.contains r.daemonNodeId = true) :
    (rest.signedBy key).Knows inner := by
  cases hsigns with
  | registerDaemon call requested existing heq =>
    rw [heq] at hid
    exact .stamping call requested (some existing) (some key) hid
  | registerToken request heq =>
    rw [heq] at hid
    exact .registerToken request .checkingCap hid fun owner h => by rcases h with h | h <;> cases h
  | unregisterToken request pc => exact .unregisterToken request pc
  | push request pc => exact .push request pc
  | publish request heq =>
    rw [heq] at hid
    exact .publish request .checking hid fun entry h => by cases h

/-- Only a prune unregisters a daemon while a request is being verified. -/
theorem verifyStep_contains {r : SignedRequestContext} {limit : Bool} {pc : VerifyPc}
    {pr : Progress VerifyPc VerifyingKey} (hs : verifyStep ext c r limit pc s = (s', pr))
    (hpc : ∀ now pc', pc ≠ .pruning now pc') (id : String) :
    s'.inner.daemons.contains id = s.inner.daemons.contains id := by
  obtain rfl : (verifyStep ext c r limit pc s).1 = s' := by rw [hs]
  clear hs
  cases pc with
  | pruning now pc => exact absurd rfl (hpc now pc)
  | refresh now key => exact contains_modify _ _ _ _
  | start | readKey | markNonce | recordActivity =>
    simp only [verifyStep]
    repeat' split
    all_goals rfl

theorem verifyStep_owned {r : SignedRequestContext} {limit : Bool} {pc : VerifyPc}
    {pr : Progress VerifyPc VerifyingKey} (hs : verifyStep ext c r limit pc s = (s', pr))
    (he : EntriesOwned s.inner) (hn : NoncesOwned s.inner none)
    (hkey : pc.key.isSome = true → s.inner.daemons.contains r.daemonNodeId = true) :
    EntriesOwned s'.inner ∧ NoncesOwned s'.inner none := by
  cases pc with
  | pruning now pc =>
    have hpruned : EntriesOwned (pruneStep c now pc s).1.inner ∧
        NoncesOwned (pruneStep c now pc s).1.inner none := owned_pruneStep he hn
    simp only [verifyStep] at hs
    split at hs <;> rename_i heq <;> rw [heq] at hpruned <;> cases hs <;> exact hpruned
  | start | readKey | recordActivity =>
    simp only [verifyStep] at hs
    repeat' split at hs
    all_goals cases hs
    all_goals exact ⟨he, hn⟩
  | markNonce now key =>
    simp only [verifyStep] at hs
    split at hs
    · cases hs
      exact ⟨he, hn⟩
    · split at hs
      · cases hs
        exact ⟨he, hn⟩
      · cases hs
        exact ⟨⟨he.tokens, he.pairingCodes⟩, noncesOwned_mark (x := .returned .ok) hn rfl
          (fun k h => by cases h) (.inl (hkey rfl))⟩
  | refresh now key =>
    have hsame := verifyStep_contains hs (by simp)
    cases hs
    refine ⟨he.mono (fun id h => (hsame id).trans h) (fun _ _ h => h) fun _ _ h => h, ?_⟩
    exact fun k hk => (hn k hk).imp_left fun h => (hsame k.1).trans h

theorem alone_verify {i : Nat} {r : SignedRequestContext} {limit : Bool} {pc : VerifyPc}
    {rest : Handler} (h : Alone s (.verify r limit pc rest))
    (hs : relayAdvance ext c i (.verify r limit pc rest) s = some (s', x')) : Alone s' x' := by
  obtain ⟨he, hn, hk⟩ := h
  obtain ⟨hsigns, hkey⟩ : Signs r rest ∧
      (pc.key.isSome = true → s.inner.daemons.contains r.daemonNodeId = true) := by
    cases hk with
    | verify _ _ _ _ hsigns hkey => exact ⟨hsigns, hkey⟩
  rcases verify_advance hs with ⟨pc', hstep, rfl⟩ | ⟨key, hstep, rfl⟩ | ⟨e, hstep, rfl⟩ <;>
    obtain ⟨he', hn'⟩ := verifyStep_owned hstep he hn hkey
  · refine ⟨he', hn', .verify r limit pc' rest hsigns fun hpc' => ?_⟩
    obtain ⟨key, hkey'⟩ := Option.isSome_iff_exists.mp hpc'
    rcases verifyStep_key hstep hkey' with hpc | ⟨now, signature, rfl, hread, -⟩
    · have hid := hkey (Option.isSome_iff_exists.mpr ⟨key, hpc⟩)
      refine (verifyStep_contains hstep ?_ _).trans hid
      rintro now pc'' rfl
      cases hpc
    · obtain ⟨registration, hlookup, -⟩ := Option.map_eq_some_iff.mp hread
      exact (verifyStep_contains hstep (by simp) _).trans
        (Table.contains_eq_true.mpr ⟨registration, hlookup⟩)
  · obtain ⟨now, rfl⟩ := verifyStep_done hstep
    have hid := (verifyStep_contains hstep (by simp) r.daemonNodeId).trans (hkey rfl)
    refine ⟨he', fun k hk => .inl ((hn' k hk).resolve_right fun h => by cases h), ?_⟩
    exact .handle _ (knows_signedBy key hsigns hid)
  · exact ⟨he', hn', .returned _⟩

theorem alone_prove {i : Nat} {id : String} {key : VerifyingKey} {proof : RegistrationProof}
    {pc : ProofPc} {rest : Handler} (h : Alone s (.prove id key proof pc rest))
    (hkeeps : (RelayTask.prove id key proof pc rest).keepsProof c s = true)
    (hs : relayAdvance ext c i (.prove id key proof pc rest) s = some (s', x')) :
    Alone s' x' := by
  obtain ⟨he, hn, hk⟩ := h
  obtain ⟨call, rfl, rfl, hproof⟩ : ∃ call : RegisterDaemonCall,
      id = call.request.daemonNodeId ∧ rest = .registerDaemon call (.observing key) ∧
      call.request.proof = some proof := by
    cases hk with
    | prove call _ _ _ hproof => exact ⟨call, rfl, rfl, hproof⟩
  have goes {t : RelayState} (pc' : ProofPc) (he : EntriesOwned t.inner)
      (hn : NoncesOwned t.inner (RelayTask.prove call.request.daemonNodeId key proof pc'
        (.registerDaemon call (.observing key))).proven) :
      Alone t (.prove call.request.daemonNodeId key proof pc'
        (.registerDaemon call (.observing key))) := ⟨he, hn, .prove call key proof pc' hproof⟩
  have fails {t : RelayState} (e : ApiError) (he : EntriesOwned t.inner)
      (hn : NoncesOwned t.inner none) : Alone t (.fail e) := ⟨he, hn, .returned _⟩
  cases pc with
  | start =>
    rcases prove_advance hs with ⟨pc', hstep, rfl⟩ | ⟨hstep, rfl⟩ | ⟨e, hstep, rfl⟩ <;>
      simp only [proofStep] at hstep <;> split at hstep <;> cases hstep
    · exact goes _ he hn
    · exact fails _ he hn
  | pruning now pc =>
    have hpruned : EntriesOwned (pruneStep c now pc s).1.inner ∧
        NoncesOwned (pruneStep c now pc s).1.inner none := owned_pruneStep he hn
    rcases prove_advance hs with ⟨pc', hstep, rfl⟩ | ⟨hstep, rfl⟩ | ⟨e, hstep, rfl⟩ <;>
      simp only [proofStep] at hstep <;> split at hstep <;> rename_i heq <;>
      rw [heq] at hpruned <;> cases hstep
    · exact goes _ hpruned.1 hpruned.2
    · exact goes _ hpruned.1 hpruned.2
  | markNonce =>
    rcases prove_advance hs with ⟨pc', hstep, rfl⟩ | ⟨hstep, rfl⟩ | ⟨e, hstep, rfl⟩ <;>
      simp only [proofStep] at hstep <;> split at hstep
    · cases hstep
    · obtain ⟨rfl, hpr⟩ := Prod.mk.inj hstep
      split at hpr <;> cases hpr
      refine goes _ ⟨he.tokens, he.pairingCodes⟩ ?_
      exact noncesOwned_mark hn rfl (fun k h => by cases h) (.inr rfl)
    · cases hstep
    · obtain ⟨-, hpr⟩ := Prod.mk.inj hstep
      split at hpr <;> cases hpr
    · cases hstep
      exact fails _ he hn
    · obtain ⟨rfl, hpr⟩ := Prod.mk.inj hstep
      -- The nonce had been used, so its daemon is registered.
      split at hpr
      · rename_i hseen
        cases hpr
        have hid := (hn _ hseen).resolve_right fun h => by cases h
        refine fails _ ⟨he.tokens, he.pairingCodes⟩ ?_
        exact noncesOwned_mark (x := .returned .ok) hn rfl (fun k h => by cases h) (.inl hid)
      · cases hpr
  | recordNonce =>
    have hproven : call.proven = some (call.request.daemonNodeId, proof.nonce) := by
      rw [RegisterDaemonCall.proven, hproof, Option.map_some]
    have hinner {pr : Progress ProofPc Unit}
        (hstep : proofStep ext c call.request.daemonNodeId key proof .recordNonce s = (s', pr)) :
        s'.inner = s.inner := by
      simp only [proofStep] at hstep
      repeat' split at hstep
      all_goals cases hstep; rfl
    rcases prove_advance hs with ⟨pc', hstep, rfl⟩ | ⟨hstep, rfl⟩ | ⟨e, hstep, rfl⟩
    · simp only [proofStep] at hstep
      repeat' split at hstep
      all_goals cases hstep
    · have hsame := hinner hstep
      refine ⟨hsame ▸ he, ?_, .handle _ (.observing call key)⟩
      rw [hsame]
      exact fun k hk => (hn k hk).imp_right fun h => hproven.trans h
    · have hid : s.inner.daemons.contains call.request.daemonNodeId = true := by
        simp only [RelayTask.keepsProof, Bool.or_eq_true] at hkeeps
        refine hkeeps.resolve_right fun hstores => ?_
        simp only [proofStep] at hstep
        split at hstep
        · cases hstep
        · rename_i st hst
          simp only [hst, Option.all_some, Bool.and_eq_true, Bool.not_eq_true'] at hstores
          rw [if_pos hstores.1, RelayStore.insertNonce, hstores.2] at hstep
          cases hstep
      refine fails e (hinner hstep ▸ he) ?_
      rw [hinner hstep]
      intro k hk
      refine (hn k hk).elim .inl fun h => .inl ?_
      rw [← Option.some.inj h]
      exact hid

/-- What a registration goes on to know, while the daemons stay registered and nothing new
belongs to its daemon. -/
theorem observed_existing {call : RegisterDaemonCall} (he : EntriesOwned inner)
    (hn : NoncesOwned inner call.proven)
    (hcapacity : inner.daemonCapacityExceeded call.request.daemonNodeId maxDaemons = false) :
    Observed inner call (inner.daemons.lookup call.request.daemonNodeId) := by
  cases hlookup : inner.daemons.lookup call.request.daemonNodeId with
  | none =>
    exact ⟨hcapacity, ownsOnly_of_unregistered he hn (Table.contains_eq_false.mpr hlookup)⟩
  | some r => exact Table.contains_eq_true.mpr ⟨r, hlookup⟩

theorem alone_registerDaemon {call : RegisterDaemonCall} {pc : RegisterDaemonPc}
    (h : Alone s (.handle (.registerDaemon call pc)))
    (hkeeps : (RelayTask.handle (.registerDaemon call pc)).keepsProof c s = true)
    (hs : registerDaemonStep ext c call s pc = (s', x')) : Alone s' x' := by
  obtain ⟨he, hn, hk⟩ := h
  have hknows : (Handler.registerDaemon call pc).Knows s.inner := by
    cases hk with
    | handle _ hknows => exact hknows
  have fails {t : RelayState} (e : ApiError) (he : EntriesOwned t.inner)
      (hn : NoncesOwned t.inner none) : Alone t (.fail e) := ⟨he, hn, .returned _⟩
  have registered (hid : s.inner.daemons.contains call.request.daemonNodeId = true)
      (hn : NoncesOwned s.inner call.proven) : NoncesOwned s.inner none := by
    intro k hk
    refine (hn k hk).elim .inl fun h => .inl ?_
    obtain ⟨proof, -, rfl⟩ := Option.map_eq_some_iff.mp h
    exact hid
  cases pc with
  | start =>
    simp only [registerDaemonStep] at hs
    repeat' split at hs
    all_goals cases hs
    · exact fails _ he hn
    · exact fails _ he hn
    · exact ⟨he, hn, .prove call _ _ .start ‹_›⟩
    · exact ⟨he, fun k hk => .inl ((hn k hk).resolve_right fun h => by cases h),
        .handle _ (.observing call _)⟩
  | observing key =>
    simp only [registerDaemonStep] at hs
    split at hs
    · rename_i hexceeded
      cases hs
      simp only [RelayTask.keepsProof, hexceeded, Bool.not_true, Bool.or_false,
        Option.isNone_iff_eq_none] at hkeeps
      exact fails _ he (hkeeps ▸ hn)
    · rename_i hcapacity
      have hobserved := observed_existing he hn (Bool.eq_false_iff.mpr hcapacity)
      split at hs
      · rename_i hother
        obtain ⟨r, hr, -⟩ := (Option.any_eq_true _ _).mp hother
        rw [hr] at hobserved hs
        split at hs <;> cases hs
        · exact ⟨he, registered hobserved hn, .verify _ _ _ _ (.registerDaemon call key r rfl)
            fun h => by cases h⟩
        · exact fails _ he (registered hobserved hn)
      · cases hs
        exact ⟨he, hn, .handle _ (.stamping call key _ none hobserved)⟩
  | stamping key existing signer =>
    cases hs
    cases hknows with
    | stamping _ _ _ _ hobserved =>
      exact ⟨he, hn, .handle _ (.inserting call existing _ signer hobserved)⟩
  | inserting existing registration signer =>
    have hobserved : Observed s.inner call existing := by
      cases hknows with
      | inserting _ _ _ _ hobserved => exact hobserved
    simp only [registerDaemonStep] at hs
    split at hs
    · rename_i hexceeded
      cases existing with
      | none => cases hexceeded.symm.trans hobserved.1
      | some r =>
        rw [RelayInner.daemonCapacityExceeded, hobserved, Bool.not_true, Bool.and_false] at hexceeded
        cases hexceeded
    · split at hs
      · rename_i hchanged
        have hid : s.inner.daemons.contains call.request.daemonNodeId = true := by
          cases existing with
          | some r => exact hobserved
          | none =>
            cases hlookup : s.inner.daemons.lookup call.request.daemonNodeId with
            | some r => exact Table.contains_eq_true.mpr ⟨r, hlookup⟩
            | none =>
              rw [RelayState.registeredKey, hlookup] at hchanged
              cases hchanged
        cases hs
        exact fails _ he (registered hid hn)
      · cases hs
        have hgrows (id : String) (h : s.inner.daemons.contains id = true) :=
          contains_insert s.inner.daemons call.request.daemonNodeId id registration h
        refine ⟨he.mono hgrows (fun _ _ h => h) fun _ _ h => h,
          fun k hk => (hn k hk).imp_left (hgrows k.1), .handle _ (.saving call existing _ ?_ ?_)⟩
        · exact Table.contains_eq_true.mpr ⟨registration, Table.lookup_insert_self _ _ _⟩
        · rintro rfl
          obtain ⟨-, htokens, hcodes, hnonces⟩ := hobserved
          exact ⟨htokens, hcodes, hnonces⟩
  | saving existing registration =>
    obtain ⟨hid, howns⟩ : s.inner.daemons.contains call.request.daemonNodeId = true ∧
        (existing = none → OwnsOnly s.inner call.request.daemonNodeId call.proven) := by
      cases hknows with
      | saving _ _ _ hid howns => exact ⟨hid, howns⟩
    simp only [registerDaemonStep] at hs
    split at hs <;> cases hs
    · exact ⟨he, registered hid hn, .returned _⟩
    · exact ⟨he, hn, .handle _ (.rollingBack call existing registration hid howns)⟩
  | rollingBack existing registration =>
    obtain ⟨hid, howns⟩ : s.inner.daemons.contains call.request.daemonNodeId = true ∧
        (existing = none → OwnsOnly s.inner call.request.daemonNodeId call.proven) := by
      cases hknows with
      | rollingBack _ _ _ hid howns => exact ⟨hid, howns⟩
    cases hs
    unfold rollbackDaemonRegistration
    split
    · exact fails _ he (registered hid hn)
    · cases existing with
      | some r =>
        have hgrows (id : String) (h : s.inner.daemons.contains id = true) :=
          contains_insert s.inner.daemons call.request.daemonNodeId id r h
        exact fails _ (he.mono hgrows (fun _ _ h => h) fun _ _ h => h)
          fun k hk => (registered hid hn k hk).imp_left (hgrows k.1)
      | none =>
        obtain ⟨htokens, hcodes, hnonces⟩ := howns rfl
        have hproof : call.proven = none := by
          simpa only [RelayTask.keepsProof, Option.isSome_none, Bool.or_false,
            Option.isNone_iff_eq_none] using hkeeps
        have hstays {owner : String} (howner : s.inner.daemons.contains owner = true)
            (hne : owner ≠ call.request.daemonNodeId) :
            (s.inner.daemons.erase call.request.daemonNodeId).contains owner = true := by
          rw [Table.contains, Table.lookup_erase_ne _ hne]
          exact howner
        refine fails _ ⟨fun t o ho => hstays (he.tokens t o ho) (htokens t o ho),
          fun k e hk => hstays (he.pairingCodes k e hk) (hcodes k e hk)⟩ fun k hk => .inl ?_
        refine hstays ((registered hid hn k hk).resolve_right fun h => by cases h) fun hkid => ?_
        cases hproof.symm.trans (hnonces k hk hkid)

theorem TouchesTokens.daemons_eq (h : TouchesTokens s s') : s'.inner.daemons = s.inner.daemons := by
  cases h <;> rfl

theorem TouchesCodes.daemons_eq (h : TouchesCodes s s') : s'.inner.daemons = s.inner.daemons := by
  cases h <;> rfl

/-- A step that writes bindings alone, each for a registered daemon. -/
theorem alone_tokens {h : Handler} (halone : Alone s (.handle h))
    (hproven : (RelayTask.handle h).proven = none) (ht : TouchesTokens s s')
    (htokens : ∀ t o, s'.inner.tokens.lookup t = some o →
      s.inner.daemons.contains o.daemonNodeId = true)
    (hproven' : x'.proven = none) (hknows : x'.Knows s'.inner) : Alone s' x' := by
  obtain ⟨he, hn, -⟩ := halone
  rw [hproven] at hn
  have hsame := ht.daemons_eq
  refine ⟨⟨fun t o ho => hsame ▸ htokens t o ho, ?_⟩, ?_, hknows⟩
  · cases ht <;> exact he.pairingCodes
  · cases ht <;> exact hproven' ▸ hn

/-- A step that writes pairing records alone, each for a registered daemon. -/
theorem alone_codes {h : Handler} (halone : Alone s (.handle h))
    (hproven : (RelayTask.handle h).proven = none) (ht : TouchesCodes s s')
    (hcodes : ∀ k e, s'.inner.pairingCodes.lookup k = some e →
      s.inner.daemons.contains e.daemonNodeId = true)
    (hproven' : x'.proven = none) (hknows : x'.Knows s'.inner) : Alone s' x' := by
  obtain ⟨he, hn, -⟩ := halone
  rw [hproven] at hn
  have hsame := ht.daemons_eq
  refine ⟨⟨?_, fun k e hk => hsame ▸ hcodes k e hk⟩, ?_, hknows⟩
  · cases ht <;> exact he.tokens
  · cases ht <;> exact hproven' ▸ hn

theorem removalStep_includes {t : String} {pc : RemovalPc} :
    s.inner.tokens.Includes (removalStep c t s pc).1.inner.tokens := by
  cases pc with
  | row =>
    simp only [removalStep]
    split <;> exact fun _ _ h => h
  | memory => exact Table.includes_erase _ _

theorem alone_registerToken {request : RegisterTokenRequest} {pc : RegisterTokenPc}
    (h : Alone s (.handle (.registerToken request pc)))
    (hs : registerTokenStep c request s pc = (s', x')) : Alone s' x' := by
  have ht : TouchesTokens s (registerTokenStep c request s pc).1 := registerTokenStep_touches
  rw [hs] at ht
  obtain ⟨hid, hown⟩ : s.inner.daemons.contains request.daemonNodeId = true ∧
      ∀ owner, pc = .saving owner ∨ pc = .inserting owner →
        owner.daemonNodeId = request.daemonNodeId := by
    cases h.knows with
    | handle _ hknows => cases hknows with
      | registerToken _ _ hid hown => exact ⟨hid, hown⟩
  have hid' : s'.inner.daemons.contains request.daemonNodeId = true := ht.daemons_eq ▸ hid
  have htokens : ∀ t o, s'.inner.tokens.lookup t = some o →
      s.inner.daemons.contains o.daemonNodeId = true := by
    cases pc with
    | checkingCap =>
      simp only [registerTokenStep] at hs
      split at hs <;> cases hs <;> exact h.entries.tokens
    | evicting evicted pc =>
      have hsub : s.inner.tokens.Includes (removalStep c evicted s pc).1.inner.tokens :=
        removalStep_includes
      simp only [registerTokenStep] at hs
      split at hs <;> rename_i heq <;> cases hs <;> rw [heq] at hsub <;>
        exact fun t o ho => h.entries.tokens t o (hsub t o ho)
    | stamping => cases hs; exact h.entries.tokens
    | saving owner =>
      simp only [registerTokenStep] at hs
      split at hs <;> cases hs <;> exact h.entries.tokens
    | inserting owner =>
      cases hs
      intro t o ho
      rw [RelayState.setToken, Table.lookup_insert] at ho
      split at ho
      · rw [← Option.some.inj ho, hown owner (.inr rfl)]
        exact hid
      · exact h.entries.tokens t o ho
  have hnext : (∃ pc', x' = .handle (.registerToken request pc') ∧
      ∀ owner, pc' = .saving owner ∨ pc' = .inserting owner →
        owner.daemonNodeId = request.daemonNodeId) ∨ ∃ reply, x' = .returned reply := by
    cases pc with
    | checkingCap | evicting =>
      simp only [registerTokenStep] at hs
      split at hs <;> cases hs
      all_goals first
        | exact .inr ⟨_, rfl⟩
        | exact .inl ⟨_, rfl, fun owner h => by rcases h with h | h <;> cases h⟩
    | stamping =>
      cases hs
      exact .inl ⟨_, rfl, fun owner h => by rcases h with h | h <;> cases h; rfl⟩
    | saving owner =>
      simp only [registerTokenStep] at hs
      split at hs <;> cases hs
      · refine .inl ⟨_, rfl, fun owner' h => ?_⟩
        rcases h with h | h <;> cases h
        exact hown owner (.inl rfl)
      · exact .inr ⟨_, rfl⟩
    | inserting => cases hs; exact .inr ⟨_, rfl⟩
  rcases hnext with ⟨pc', rfl, hown'⟩ | ⟨reply, rfl⟩
  · exact alone_tokens h rfl ht htokens rfl (.handle _ (.registerToken request pc' hid' hown'))
  · exact alone_tokens h rfl ht htokens rfl (.returned reply)

theorem alone_unregisterToken {request : UnregisterTokenRequest} {pc : RemovalPc}
    (h : Alone s (.handle (.unregisterToken request pc)))
    (hs : unregisterTokenStep c request s pc = (s', x')) : Alone s' x' := by
  have ht : TouchesTokens s (unregisterTokenStep c request s pc).1 := unregisterTokenStep_touches
  rw [hs] at ht
  have htokens : ∀ t o, s'.inner.tokens.lookup t = some o →
      s.inner.daemons.contains o.daemonNodeId = true := by
    have hsub : s.inner.tokens.Includes (removalStep c request.pushToken s pc).1.inner.tokens :=
      removalStep_includes
    simp only [unregisterTokenStep] at hs
    split at hs <;> rename_i heq <;> cases hs <;> rw [heq] at hsub <;>
      exact fun t o ho => h.entries.tokens t o (hsub t o ho)
  rcases unregisterTokenStep_onward hs with ⟨pc', rfl⟩ | ⟨reply, rfl⟩
  · exact alone_tokens h rfl ht htokens rfl (.handle _ (.unregisterToken request pc'))
  · exact alone_tokens h rfl ht htokens rfl (.returned reply)

theorem alone_push {request : PushRequest} {pc : PushPc}
    (h : Alone s (.handle (.push request pc))) (hs : pushStep c request s pc = (s', x')) :
    Alone s' x' := by
  have ht : TouchesTokens s (pushStep c request s pc).1 := pushStep_touches
  rw [hs] at ht
  have htokens : ∀ t o, s'.inner.tokens.lookup t = some o →
      s.inner.daemons.contains o.daemonNodeId = true := by
    cases pc with
    | checking | delivering | touchingRow =>
      simp only [pushStep] at hs
      repeat' split at hs
      all_goals cases hs
      all_goals exact h.entries.tokens
    | removing cause pc =>
      have hsub : s.inner.tokens.Includes
          (removalStep c request.recipientToken s pc).1.inner.tokens := removalStep_includes
      simp only [pushStep] at hs
      split at hs <;> rename_i heq <;> cases hs <;> rw [heq] at hsub <;>
        exact fun t o ho => h.entries.tokens t o (hsub t o ho)
    | touchingMemory now =>
      cases hs
      intro t o ho
      rw [RelayState.touchToken, Table.lookup_modify] at ho
      split at ho
      · obtain ⟨o', ho', rfl⟩ := Option.map_eq_some_iff.mp ho
        exact h.entries.tokens t o' ho'
      · exact h.entries.tokens t o ho
  rcases pushStep_onward hs with ⟨pc', rfl⟩ | ⟨reply, rfl⟩
  · exact alone_tokens h rfl ht htokens rfl (.handle _ (.push request pc'))
  · exact alone_tokens h rfl ht htokens rfl (.returned reply)

theorem alone_publish {request : PublishPairingRequest} {pc : PublishPc}
    (h : Alone s (.handle (.publish request pc)))
    (hs : publishStep ext c request s pc = (s', x')) : Alone s' x' := by
  have ht : TouchesCodes s (publishStep ext c request s pc).1 := publishStep_touches
  rw [hs] at ht
  obtain ⟨hid, hown⟩ : s.inner.daemons.contains request.daemonNodeId = true ∧
      ∀ entry, pc.entry = some entry → entry.daemonNodeId = request.daemonNodeId := by
    cases h.knows with
    | handle _ hknows => cases hknows with
      | publish _ _ hid hown => exact ⟨hid, hown⟩
  have hid' : s'.inner.daemons.contains request.daemonNodeId = true := ht.daemons_eq ▸ hid
  have hcodes : ∀ k e, s'.inner.pairingCodes.lookup k = some e →
      s.inner.daemons.contains e.daemonNodeId = true := by
    cases pc with
    | checking | saving =>
      simp only [publishStep] at hs
      repeat' split at hs
      all_goals cases hs
      all_goals exact h.entries.pairingCodes
    | evicting key record expiresAtMs =>
      have hsub : s.inner.pairingCodes.Includes s'.inner.pairingCodes := by
        simp only [publishStep] at hs
        split at hs <;> cases hs <;> exact Table.includes_retain _ _
      exact fun k e hk => h.entries.pairingCodes k e (hsub k e hk)
    | deletingRows superseded key payload entry =>
      cases superseded with
      | nil => cases hs; exact h.entries.pairingCodes
      | cons stale superseded =>
        simp only [publishStep] at hs
        split at hs <;> cases hs <;> exact h.entries.pairingCodes
    | inserting key entry =>
      cases hs
      intro k e hk
      rw [RelayState.notePublished, RelayState.setPairingCode, Table.lookup_insert] at hk
      split at hk
      · rw [← Option.some.inj hk, hown entry rfl]
        exact hid
      · exact h.entries.pairingCodes k e hk
  have hnext : (∃ pc', x' = .handle (.publish request pc') ∧
      ∀ entry, pc'.entry = some entry → entry.daemonNodeId = request.daemonNodeId) ∨
      ∃ reply, x' = .returned reply := by
    cases pc with
    | checking =>
      simp only [publishStep] at hs
      repeat' split at hs
      all_goals cases hs
      all_goals first
        | exact .inr ⟨_, rfl⟩
        | exact .inl ⟨_, rfl, fun entry h => by cases h⟩
    | evicting key record expiresAtMs =>
      simp only [publishStep] at hs
      split at hs <;> cases hs
      · refine .inl ⟨_, rfl, fun entry h => ?_⟩
        rw [← Option.some.inj h]
      · exact .inr ⟨_, rfl⟩
    | deletingRows superseded key payload entry =>
      cases superseded <;> cases hs <;> exact .inl ⟨_, rfl, hown⟩
    | saving key payload entry =>
      simp only [publishStep] at hs
      split at hs <;> cases hs
      · exact .inl ⟨_, rfl, hown⟩
      · exact .inr ⟨_, rfl⟩
    | inserting => cases hs; exact .inr ⟨_, rfl⟩
  rcases hnext with ⟨pc', rfl, hown'⟩ | ⟨reply, rfl⟩
  · exact alone_codes h rfl ht hcodes rfl (.handle _ (.publish request pc' hid' hown'))
  · exact alone_codes h rfl ht hcodes rfl (.returned reply)

theorem alone_resolve {code : String} {pc : ResolvePc} (h : Alone s (.handle (.resolve code pc)))
    (hs : resolveStep c code s pc = (s', x')) : Alone s' x' := by
  have ht : TouchesCodes s (resolveStep c code s pc).1 := resolveStep_touches
  rw [hs] at ht
  have hsub : s.inner.pairingCodes.Includes s'.inner.pairingCodes := by
    cases pc with
    | start | looking =>
      simp only [resolveStep] at hs
      repeat' split at hs
      all_goals cases hs
      all_goals first
        | exact fun _ _ h => h
        | exact Table.includes_erase _ _
    | forgettingMemory => cases hs; exact Table.includes_erase _ _
    | forgettingRow | deletingExpired =>
      simp only [resolveStep] at hs
      split at hs <;> cases hs <;> exact fun _ _ h => h
  have hcodes : ∀ k e, s'.inner.pairingCodes.lookup k = some e →
      s.inner.daemons.contains e.daemonNodeId = true :=
    fun k e hk => h.entries.pairingCodes k e (hsub k e hk)
  rcases resolveStep_onward hs with ⟨pc', rfl⟩ | ⟨reply, rfl⟩
  · exact alone_codes h rfl ht hcodes rfl (.handle _ (.resolve code pc'))
  · exact alone_codes h rfl ht hcodes rfl (.returned reply)

/-- One step of the only request that is in flight. -/
theorem alone_step {i : Nat} (h : Alone s x) (hkeeps : x.keepsProof c s = true)
    (hs : relayAdvance ext c i x s = some (s', x')) : Alone s' x' := by
  cases x with
  | verify r limit pc rest => exact alone_verify h hs
  | prove id key proof pc rest => exact alone_prove h hkeeps hs
  | handle hd =>
    have hstep := handle_advance hs
    cases hd with
    | registerDaemon call pc => exact alone_registerDaemon h hkeeps hstep
    | registerToken request pc => exact alone_registerToken h hstep
    | unregisterToken request pc => exact alone_unregisterToken h hstep
    | push request pc => exact alone_push h hstep
    | publish request pc => exact alone_publish h hstep
    | resolve code pc => exact alone_resolve h hstep
  | returned => cases hs

end Steps

section Runs

variable {ext : Externals} {p q : Pool RelayState RelayTask}
  {a : Move RelayTask RelayChoice RelayEvent}

/-- A nonce whose daemon is not registered is that of a proof in flight. -/
def ProofsOnly (p : Pool RelayState RelayTask) : Prop :=
  ∀ k, p.Covered
    (fun s => s.inner.seenNonces.contains k = true → s.inner.daemons.contains k.1 = true)
    fun s x => s.inner.daemons.contains k.1 = false ∧ x.proven = some k

theorem others_answered {i : Nat} {c : RelayChoice} (hc : proofsKept p (.advance i c) = true)
    {j : Nat} {y : RelayTask} (hj : j ≠ i) (hy : p.task j = some y) : ∃ reply, y = .returned reply := by
  have hlacks := of_decide_eq_true (Bool.and_eq_true_iff.mp hc).1
  have hanswered : y.answered = true := by simpa [hj] using hlacks j y hy
  cases y with
  | returned reply => exact ⟨reply, rfl⟩
  | verify | prove | handle => cases hanswered

theorem keepsProof_of_kept {i : Nat} {c : RelayChoice} {x : RelayTask}
    (hc : proofsKept p (.advance i c) = true) (ht : p.task i = some x) :
    x.keepsProof c p.shared = true := by
  have hkeeps : (p.task i).all (fun x => x.keepsProof c p.shared) = true :=
    (Bool.and_eq_true_iff.mp hc).2
  rwa [ht, Option.all_some] at hkeeps

theorem registered_of_drop {i : Nat} {x : RelayTask} {k : String × String}
    (hc : proofsKept p (.drop i) = true) (ht : p.task i = some x) (hproven : x.proven = some k) :
    p.shared.inner.daemons.contains k.1 = true := by
  have hdrop : (p.task i).all (fun x => x.proven.all fun k =>
      p.shared.inner.daemons.contains k.1) = true := (Bool.and_eq_true_iff.mp hc).2
  rwa [ht, Option.all_some, hproven, Option.all_some] at hdrop

theorem noncesOwned_of_proofsOnly {i : Nat} {c : RelayChoice} {x : RelayTask} (hp : ProofsOnly p)
    (hc : proofsKept p (.advance i c) = true) (ht : p.task i = some x) :
    NoncesOwned p.shared.inner x.proven := by
  intro k hk
  rcases hp k with hA | ⟨j, y, hy, -, hproven⟩
  · exact .inl (hA hk)
  · by_cases hj : j = i
    · subst hj
      obtain rfl := Option.some.inj (ht.symm.trans hy)
      exact .inr hproven
    · obtain ⟨reply, rfl⟩ := others_answered hc hj hy
      cases hproven

/-- A load drops a daemon with all that is its own. -/
theorem owned_of_load {st st' : RelayStore} {config : RelayConfig} {now : Nat}
    {inner : RelayInner} (hrows : st.rowsOwned = true)
    (h : st.loadState ext config now = some (inner, st')) :
    EntriesOwned inner ∧ NoncesOwned inner none := by
  have hrebuilt := rebuilt_of_load h
  obtain ⟨rfl, -⟩ := RelayStore.loadState_eq_some.mp h
  simp only [RelayStore.rowsOwned, Bool.and_eq_true, List.all_eq_true] at hrows
  obtain ⟨⟨htokens, hnonces⟩, hcodes⟩ := hrows
  have hloaded {owner : String} (howner : st.daemons.contains owner = true)
      (hkept : (!st.staleOwner config now owner) = true) :
      inner.daemons.contains owner = true := by
    obtain ⟨row, hrow⟩ := Table.contains_eq_true.mp howner
    obtain ⟨r, hr, -⟩ := hrebuilt.daemons.lookup_row (k := owner) (v := row) (by
      rw [RelayStore.pruneExpiredRows_daemons]
      exact Table.lookup_retain.mpr ⟨hrow, hkept⟩)
    exact Table.contains_eq_true.mpr ⟨r, hr⟩
  refine ⟨⟨fun t o ho => ?_, fun k e hk => ?_⟩, fun k hk => .inl ?_⟩
  · obtain ⟨row, hrow, hload⟩ := hrebuilt.tokens.lookup ho
    rw [RelayStore.pruneExpiredRows_pushTokens] at hrow
    obtain ⟨hrow, hkept⟩ := Table.lookup_retain.mp hrow
    rw [← (loadToken_fields hload).1]
    exact hloaded (htokens ⟨t, row⟩ (Table.mem_entries.mpr hrow)) (Bool.and_eq_true_iff.mp hkept).2
  · obtain ⟨row, hrow, hload⟩ := hrebuilt.pairingCodes.lookup hk
    rw [RelayStore.pruneExpiredRows_pairingCodes] at hrow
    obtain ⟨hrow, hkept⟩ := Table.lookup_retain.mp hrow
    rw [← (loadPairingCode_fields hload).1]
    exact hloaded (hcodes ⟨k, row⟩ (Table.mem_entries.mpr hrow)) (Bool.and_eq_true_iff.mp hkept).2
  · obtain ⟨tsMs, hts⟩ := Table.contains_eq_true.mp hk
    obtain ⟨n, hn, -⟩ := hrebuilt.seenNonces.lookup hts
    rw [RelayStore.pruneExpiredRows_seenNonces] at hn
    obtain ⟨hn, hkept⟩ := Table.lookup_retain.mp hn
    exact hloaded (hnonces ⟨k, n⟩ (Table.mem_entries.mpr hn)) (Bool.and_eq_true_iff.mp hkept).2

theorem signs_arrival {x : RelayTask} (h : Arrival x) (inner : RelayInner) : x.Knows inner := by
  cases h with
  | registerDaemon call => exact .handle _ (.starting call)
  | registerToken r request hid =>
    exact .verify _ _ _ _ (.registerToken request hid) fun h => by cases h
  | unregisterToken r request hid =>
    exact .verify _ _ _ _ (.unregisterToken request .row) fun h => by cases h
  | push r request hid => exact .verify _ _ _ _ (.push request .checking) fun h => by cases h
  | publish r request hid => exact .verify _ _ _ _ (.publish request hid) fun h => by cases h
  | resolve code => exact .handle _ (.resolve code .start)

theorem restart_cases {s s' : RelayState} {keep : Bool}
    (h : relayEvent ext .restart s = some (s', keep)) : keep = false ∧
      ∃ st inner st', s.store = some st ∧ st.loadState ext s.config s.clock = some (inner, st') ∧
        s' = { s with inner := inner, store := some st' } := by
  obtain ⟨st, hst, hr⟩ := Option.bind_eq_some_iff.mp h
  obtain ⟨⟨inner, st'⟩, hload, hr⟩ := Option.map_eq_some_iff.mp hr
  cases hr
  exact ⟨rfl, st, inner, st', hst, hload, rfl⟩

theorem owned_restart {s s' : RelayState} {keep : Bool} (hc : s.store.all RelayStore.rowsOwned = true)
    (h : relayEvent ext .restart s = some (s', keep)) :
    EntriesOwned s'.inner ∧ NoncesOwned s'.inner none := by
  obtain ⟨-, st, inner, st', hst, hload, rfl⟩ := restart_cases h
  rw [hst, Option.all_some] at hc
  exact owned_of_load hc hload

theorem entries_noninterference (ext : Externals) : (relayTasking ext).Noninterference
    (fun p a => proofsKept p a = true ∧ ProofsOnly p) (fun s => EntriesOwned s.inner)
    (fun s _ x => x.Knows s.inner) where
  init s hs := by
    have hinner : s.inner = .empty := hs.inner
    rw [hinner]
    exact ⟨fun t o ho => (by cases (Table.lookup_empty t).symm.trans ho),
      fun k e hk => (by cases (Table.lookup_empty k).symm.trans hk)⟩
  fresh p i x _ _ hx := signs_arrival (arrival_of_arrives hx) _
  own p i c x s' x' hc hG ht hL hs := by
    have halone := alone_step (i := i) ⟨hG, noncesOwned_of_proofsOnly hc.2 hc.1 ht, hL⟩
      (keepsProof_of_kept hc.1 ht) hs
    exact ⟨halone.entries, halone.knows⟩
  others p i c x s' x' hc _ _ _ _ j y hj hy _ := by
    obtain ⟨reply, rfl⟩ := others_answered hc.1 hj hy
    exact .returned reply
  environment p e s' keep hc hG hs := by
    cases e with
    | tick ms =>
      obtain ⟨-, hr⟩ := Option.ite_none_right_eq_some.mp hs
      cases hr
      exact ⟨hG, fun _ _ _ _ hL => hL⟩
    | restart =>
      obtain ⟨hkeep, -⟩ := restart_cases hs
      refine ⟨(owned_restart (Bool.and_eq_true_iff.mp hc.1).2 hs).1, fun h => ?_⟩
      cases hkeep.symm.trans h

theorem proofsOnly_step (hsafe : Tasking.Safe (fun s => EntriesOwned s.inner)
      (fun s _ x => RelayTask.Knows s.inner x) p) (hp : ProofsOnly p) (hc : proofsKept p a = true)
    (hs : (relayTasking ext).machine.step a p = some q) : ProofsOnly q := by
  intro k
  refine Tasking.covered_step (hp k) hs ?_ ?_ ?_ ?_
  · rintro i c x s' x' rfl ht hr -
    have halone := alone_step (i := i)
      ⟨hsafe.1, noncesOwned_of_proofsOnly hp hc ht, hsafe.2 i x ht⟩ (keepsProof_of_kept hc ht) hr
    by_cases hid : s'.inner.daemons.contains k.1 = true
    · exact .inl fun _ => hid
    · by_cases hproven : x'.proven = some k
      · exact .inr (.inl ⟨Bool.eq_false_iff.mpr hid, hproven⟩)
      · exact .inl fun hk => (halone.nonces k hk).resolve_right hproven
  · rintro i x rfl ht ⟨hid, hproven⟩
    cases hid.symm.trans (registered_of_drop hc ht hproven)
  · rintro e s' rfl hr
    cases e with
    | tick ms =>
      obtain ⟨-, hr⟩ := Option.ite_none_right_eq_some.mp hr
      cases hr
      exact ⟨id, fun _ h => h⟩
    | restart => cases (restart_cases hr).1
  · rintro e s' rfl hr
    cases e with
    | tick ms =>
      obtain ⟨-, hr⟩ := Option.ite_none_right_eq_some.mp hr
      cases hr
    | restart =>
      have hnonces := (owned_restart (Bool.and_eq_true_iff.mp hc).2 hr).2
      exact fun hk => (hnonces k hk).resolve_right fun h => by cases h

theorem proofsOnly_init (h : (relayTasking ext).machine.init p) : ProofsOnly p := by
  refine fun k => .inl fun hk => ?_
  have hinner : p.shared.inner = .empty := h.1.inner
  rw [hinner] at hk
  cases hk

/-- Between two requests everything belongs to registered daemons. -/
theorem ownersRegistered_of_reachable
    (h : (relayTasking ext).machine.ReachableWhen (fun p a => proofsKept p a = true) p)
    (hquiet : p.Lacks fun _ x => !x.answered) (now : Nat) :
    OwnersRegistered now p.shared.inner := by
  obtain ⟨hsafe, hproofs⟩ := (entries_noninterference ext).invariant_with
    (fun _ => proofsOnly_init) (fun _ _ _ hsafe hp hc hs => proofsOnly_step hsafe hp hc hs) h
  refine ⟨fun t o ho _ => hsafe.1.tokens t o ho, fun k tsMs hk _ => ?_,
    fun k e hk _ => hsafe.1.pairingCodes k e hk⟩
  rcases hproofs k with hA | ⟨i, x, hx, -, hproven⟩
  · exact hA (Table.contains_eq_true.mpr ⟨tsMs, hk⟩)
  · have hanswered := hquiet i x hx
    cases x with
    | returned => cases hproven
    | verify | prove | handle => cases hanswered

/-- The two prunes leave the same, in every state between two requests of such a run in which
the memory is what would be loaded. -/
theorem prunes_agree {st : RelayStore}
    (h : (relayTasking ext).machine.ReachableWhen (fun p a => proofsKept p a = true) p)
    (hquiet : p.Lacks fun _ x => !x.answered) (hrebuilt : Rebuilt ext st p.shared.inner)
    (config : RelayConfig) {now : Nat} (hnow : now < 2 ^ 63) :
    Rebuilt ext (st.pruneExpiredRows config now) (p.shared.inner.pruneExpired config now) :=
  (prunes_agree_iff hrebuilt hnow).mpr fun _ => ownersRegistered_of_reachable h hquiet now

end Runs

section Traces

private def prover : String := "daemon-with-a-proof"

private def proverToken : String := "push-token-of-prover"

/-- A registration with a proof, and a token. -/
private def proverScript : Externals :=
  .playing ⟨[⟨prover, keyText 'A', none, none, some ⟨"https://relay.shelly.sh",
      "nonce-of-the-proof", 1000, String.ofList (List.replicate 88 's')⟩⟩],
    [⟨prover, .apns, proverToken, "nonce-of-the-token", 1000⟩], [], [], []⟩

private def pruning : RelayConfig := ⟨true, 24 * 60 * 60 * 1000, "https://relay.shelly.sh"⟩

/-- A daemon registers with a proof and binds a token. Some minutes later both prunes drop
the nonces and keep the rest. -/
theorem prunes_agree_run :
    ∃ (p : Pool RelayState RelayTask) (st : RelayStore),
      p.shared.inner.seenNonces.contains (prover, "nonce-of-the-proof") = true ∧
      p.shared.inner.tokens.contains proverToken = true ∧
      Rebuilt proverScript (st.pruneExpiredRows pruning 400000)
        (p.shared.inner.pruneExpired pruning 400000) := by
  obtain ⟨p, hr, hquiet, hnonce, htoken, hrows⟩ :=
    (relayTasking proverScript).machine.exists_reachable_of_exec
      (fun p a => proofsKept p a = true)
      (fun p => (p.Lacks fun _ x => !x.answered) ∧
        p.shared.inner.seenNonces.contains (prover, "nonce-of-the-proof") = true ∧
        p.shared.inner.tokens.contains proverToken = true ∧
        (p.shared.store.any fun st => decide (Rebuilt proverScript st p.shared.inner)) = true)
      (List.flatten [[arriving proverScript 0 "/v1/pair" [0] none], Move.repeated 9 0 .fine,
        [arriving proverScript 1 "/v1/push/register-token" [0] (signedBy 'A')],
        Move.repeated 10 1 .fine])
      (Tasking.init_empty (RelayState.opened_new 1000 (.inr rfl))) (by decide +kernel)
  obtain ⟨st, -, hrebuilt⟩ := (Option.any_eq_true _ _).mp hrows
  exact ⟨p, st, hnonce, htoken,
    prunes_agree hr hquiet (of_decide_eq_true hrebuilt) pruning (by decide)⟩

/-- The database fails to save a registration that came with a proof. The registration is
rolled back and its nonce stays, in memory and in the database. -/
theorem prunes_disagree :
    ¬ ∀ (ext : Externals) (p : Pool RelayState RelayTask) (st : RelayStore) (config : RelayConfig)
      (now : Nat),
      (relayTasking ext).machine.ReachableWhen (fun p a => sequential p a = true) p →
      (p.Lacks fun _ x => !x.answered) → p.shared.store = some st →
      Rebuilt ext st p.shared.inner →
      Rebuilt ext (st.pruneExpiredRows config now) (p.shared.inner.pruneExpired config now) := by
  intro hall
  obtain ⟨p, hr, hquiet, hrows⟩ :=
    (relayTasking proverScript).machine.exists_reachable_of_exec
      (fun p a => sequential p a = true)
      (fun p => (p.Lacks fun _ x => !x.answered) ∧
        (p.shared.store.any fun st => decide (Rebuilt proverScript st p.shared.inner ∧
          ¬ Rebuilt proverScript (st.pruneExpiredRows pruning 1500)
            (p.shared.inner.pruneExpired pruning 1500))) = true)
      ([arriving proverScript 0 "/v1/pair" [0] none] ++ Move.repeated 8 0 .fine ++
        Move.repeated 2 0 { RelayChoice.fine with storeOk := false })
      (Tasking.init_empty (RelayState.opened_new 1000 (.inr rfl))) (by decide)
  obtain ⟨st, hst, hdiffers⟩ := (Option.any_eq_true _ _).mp hrows
  obtain ⟨hrebuilt, hdiffers⟩ := of_decide_eq_true hdiffers
  exact hdiffers (hall proverScript p st pruning 1500 hr hquiet hst hrebuilt)

end Traces

end Shelly.Relay
