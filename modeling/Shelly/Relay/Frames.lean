import Shelly.Relay.Endpoints

namespace Shelly.Relay

variable {ext : Externals} {c : RelayChoice} {s s' : RelayState}

/-- The rest of the endpoint, for a request that is being verified. -/
def RelayTask.rest : RelayTask → Option Handler
  | .verify _ _ _ rest => some rest
  | .prove _ _ _ _ rest => some rest
  | _ => none

/-- The prune a request is in, with its reading of the clock. -/
def RelayTask.pruning : RelayTask → Option (Nat × PrunePc)
  | .verify _ _ (.pruning now pc) _ => some (now, pc)
  | .prove _ _ _ (.pruning now pc) _ => some (now, pc)
  | _ => none

/-- Everything a verification does to the relay. -/
inductive Upkeep (s : RelayState) (x : RelayTask) : RelayState → Prop
  | same : Upkeep s x s
  | gated (now : Nat) : x.pruning = some (now, .gate) → s.inner.prunedAtMs ≤ now →
      Upkeep s x (s.setPrunedAt now)
  | prunedMemory (now : Nat) : x.pruning = some (now, .memory) → Upkeep s x (s.pruneMemory now)
  | prunedStore (now : Nat) : x.pruning = some (now, .store) → Upkeep s x (s.pruneStore now)
  | marked (daemonNodeId nonce : String) (tsMs : Nat) :
      Upkeep s x (s.markNonce daemonNodeId nonce tsMs)
  | recorded (seenNonces : Table (String × String) Int) (daemons : Table String DaemonRow)
      (st : RelayStore) : s.store = some st →
      Upkeep s x (s.setStore { st with seenNonces, daemons })
  | refreshed (id : String) (f : DaemonRegistration → DaemonRegistration)
      (accepted : List SignedRequestContext) : (∀ r, (f r).publicKey = r.publicKey) →
      Upkeep s x { s with
        inner := { s.inner with daemons := s.inner.daemons.modify id f }
        history := { s.history with accepted } }

/-- Where a verification leads: on, to the rest of the endpoint, or to an error. -/
inductive Onward (rest : Handler) : RelayTask → Prop
  | running (x : RelayTask) : x.rest = some rest → Onward rest x
  | passed : Onward rest (.handle rest)
  | signed (key : VerifyingKey) : Onward rest (.handle (rest.signedBy key))
  | failed (e : ApiError) : Onward rest (.fail e)

theorem upkeep_pruneStep {now : Nat} {pc : PrunePc} {x : RelayTask}
    (hx : x.pruning = some (now, pc)) : Upkeep s x (pruneStep c now pc s).1 := by
  cases pc with
  | gate =>
    simp only [pruneStep]
    split
    · exact .same
    · exact .gated now hx (by simp only [pruneIntervalMs] at *; omega)
  | memory => exact .prunedMemory now hx
  | store =>
    simp only [pruneStep]
    split
    · exact .prunedStore now hx
    · exact .same

theorem upkeep_verifyStep {r : SignedRequestContext} {limit : Bool} {pc : VerifyPc}
    {rest : Handler} : Upkeep s (.verify r limit pc rest) (verifyStep ext c r limit pc s).1 := by
  cases pc with
  | start =>
    simp only [verifyStep]
    split <;> exact .same
  | pruning now pc =>
    have h : Upkeep s (.verify r limit (.pruning now pc) rest) (pruneStep c now pc s).1 :=
      upkeep_pruneStep rfl
    simp only [verifyStep]
    split <;> rename_i heq <;> rw [heq] at h <;> exact h
  | readKey now =>
    simp only [verifyStep]
    split
    · exact .same
    · split
      · exact .same
      · split <;> exact .same
  | markNonce now key =>
    simp only [verifyStep]
    split
    · exact .same
    · split
      · exact .same
      · exact .marked _ _ _
  | recordActivity now key =>
    simp only [verifyStep]
    split
    · exact .same
    · rename_i st hst
      split
      · simp only [RelayStore.recordAuthenticatedActivity, RelayStore.insertNonce]
        split <;> rename_i heq <;> split at heq <;> rename_i heq' <;> split at heq' <;>
          cases heq <;> cases heq' <;> exact .recorded _ _ st hst
      · exact .same
  | refresh now key =>
    refine .refreshed r.daemonNodeId _ _ fun registration => ?_
    split <;> rfl

theorem upkeep_proofStep {daemonNodeId : String} {key : VerifyingKey} {proof : RegistrationProof}
    {pc : ProofPc} {rest : Handler} : Upkeep s (.prove daemonNodeId key proof pc rest)
      (proofStep ext c daemonNodeId key proof pc s).1 := by
  cases pc with
  | start =>
    simp only [proofStep]
    split <;> exact .same
  | pruning now pc =>
    have h : Upkeep s (.prove daemonNodeId key proof (.pruning now pc) rest)
        (pruneStep c now pc s).1 := upkeep_pruneStep rfl
    simp only [proofStep]
    split <;> rename_i heq <;> rw [heq] at h <;> exact h
  | markNonce =>
    simp only [proofStep]
    split
    · exact .same
    · exact .marked _ _ _
  | recordNonce =>
    simp only [proofStep]
    split
    · exact .same
    · rename_i st hst
      split
      · simp only [RelayStore.insertNonce]
        split <;> rename_i heq <;> split at heq <;> cases heq <;> exact .recorded _ _ st hst
      · exact .same

/-- A request in `verify_signed_request` stays there, passes, or is refused. -/
theorem verify_advance {i : Nat} {r : SignedRequestContext} {limit : Bool} {pc : VerifyPc}
    {rest : Handler} {x' : RelayTask}
    (h : relayAdvance ext c i (.verify r limit pc rest) s = some (s', x')) :
    (∃ pc', verifyStep ext c r limit pc s = (s', .running pc') ∧ x' = .verify r limit pc' rest) ∨
      (∃ key, verifyStep ext c r limit pc s = (s', .done key) ∧ x' = .handle (rest.signedBy key)) ∨
      ∃ e, verifyStep ext c r limit pc s = (s', .failed e) ∧ x' = .fail e := by
  obtain ⟨t, pr, hstep⟩ : ∃ t pr, verifyStep ext c r limit pc s = (t, pr) := ⟨_, _, rfl⟩
  simp only [relayAdvance, hstep, Option.some.injEq] at h
  cases pr with
  | running pc' => cases h; exact .inl ⟨pc', hstep, rfl⟩
  | done key => cases h; exact .inr (.inl ⟨key, hstep, rfl⟩)
  | failed e => cases h; exact .inr (.inr ⟨e, hstep, rfl⟩)

theorem prove_advance {i : Nat} {daemonNodeId : String} {key : VerifyingKey}
    {proof : RegistrationProof} {pc : ProofPc} {rest : Handler} {x' : RelayTask}
    (h : relayAdvance ext c i (.prove daemonNodeId key proof pc rest) s = some (s', x')) :
    (∃ pc', proofStep ext c daemonNodeId key proof pc s = (s', .running pc') ∧
        x' = .prove daemonNodeId key proof pc' rest) ∨
      (proofStep ext c daemonNodeId key proof pc s = (s', .done ()) ∧ x' = .handle rest) ∨
      ∃ e, proofStep ext c daemonNodeId key proof pc s = (s', .failed e) ∧ x' = .fail e := by
  obtain ⟨t, pr, hstep⟩ : ∃ t pr, proofStep ext c daemonNodeId key proof pc s = (t, pr) :=
    ⟨_, _, rfl⟩
  simp only [relayAdvance, hstep, Option.some.injEq] at h
  cases pr with
  | running pc' => cases h; exact .inl ⟨pc', hstep, rfl⟩
  | done => cases h; exact .inr (.inl ⟨hstep, rfl⟩)
  | failed e => cases h; exact .inr (.inr ⟨e, hstep, rfl⟩)

/-- One step of a request that is being verified. -/
theorem verification_step {i : Nat} {x x' : RelayTask} {rest : Handler} (hx : x.rest = some rest)
    (h : relayAdvance ext c i x s = some (s', x')) : Upkeep s x s' ∧ Onward rest x' := by
  cases x with
  | verify r limit pc rest' =>
    obtain rfl : rest' = rest := Option.some.inj hx
    have hup : Upkeep s (.verify r limit pc rest') (verifyStep ext c r limit pc s).1 :=
      upkeep_verifyStep
    rcases verify_advance h with ⟨pc', hs, rfl⟩ | ⟨key, hs, rfl⟩ | ⟨e, hs, rfl⟩ <;> rw [hs] at hup
    · exact ⟨hup, .running _ rfl⟩
    · exact ⟨hup, .signed key⟩
    · exact ⟨hup, .failed e⟩
  | prove daemonNodeId key proof pc rest' =>
    obtain rfl : rest' = rest := Option.some.inj hx
    have hup : Upkeep s (.prove daemonNodeId key proof pc rest')
        (proofStep ext c daemonNodeId key proof pc s).1 := upkeep_proofStep
    rcases prove_advance h with ⟨pc', hs, rfl⟩ | ⟨hs, rfl⟩ | ⟨e, hs, rfl⟩ <;> rw [hs] at hup
    · exact ⟨hup, .running _ rfl⟩
    · exact ⟨hup, .passed⟩
    · exact ⟨hup, .failed e⟩
  | handle h | returned reply => cases hx

/-- The key a verification has read. -/
def VerifyPc.key : VerifyPc → Option VerifyingKey
  | .markNonce _ key => some key
  | .recordActivity _ key => some key
  | .refresh _ key => some key
  | _ => none

/-- The key is the registered one at the step that reads it, and the signature is its. -/
theorem verifyStep_key {r : SignedRequestContext} {limit : Bool} {pc pc' : VerifyPc}
    {key : VerifyingKey} (h : verifyStep ext c r limit pc s = (s', .running pc'))
    (hk : pc'.key = some key) : pc.key = some key ∨
      ∃ now signature, pc = .readKey now ∧ s.registeredKey r.daemonNodeId = some key ∧
        r.decodeSignature ext = .ok signature ∧
        r.authentic ext s.config.registrationAudience key signature = true := by
  cases pc with
  | start =>
    simp only [verifyStep] at h
    split at h <;> cases h
    cases hk
  | pruning now pc =>
    simp only [verifyStep] at h
    split at h <;> cases h <;> cases hk
  | readKey now =>
    simp only [verifyStep] at h
    split at h
    · cases h
    · rename_i signature hsignature
      split at h
      · cases h
      · rename_i key' hkey
        split at h
        · rename_i hauthentic
          cases h
          obtain rfl := Option.some.inj hk
          exact .inr ⟨now, signature, rfl, hkey, hsignature, hauthentic⟩
        · cases h
  | markNonce now key' =>
    simp only [verifyStep] at h
    split at h
    · cases h
    · split at h
      · cases h
      · obtain ⟨-, h⟩ := Prod.mk.inj h
        split at h <;> cases h
        exact .inl hk
  | recordActivity now key' =>
    simp only [verifyStep] at h
    repeat' split at h
    all_goals cases h
    all_goals exact .inl hk
  | refresh now key' => cases h

theorem verifyStep_done {r : SignedRequestContext} {limit : Bool} {pc : VerifyPc}
    {key : VerifyingKey} (h : verifyStep ext c r limit pc s = (s', .done key)) :
    ∃ now, pc = .refresh now key := by
  cases pc with
  | refresh now key' => cases h; exact ⟨now, rfl⟩
  | start | pruning | readKey | recordActivity =>
    simp only [verifyStep] at h
    repeat' split at h
    all_goals cases h
  | markNonce now key' =>
    simp only [verifyStep] at h
    split at h
    · cases h
    · split at h
      · cases h
      · obtain ⟨-, h⟩ := Prod.mk.inj h
        split at h <;> cases h

/-- The registration endpoint changes the daemons and nothing else. -/
inductive TouchesDaemons (s : RelayState) : RelayState → Prop
  | same : TouchesDaemons s s
  | memory (daemons : Table String DaemonRegistration) :
      TouchesDaemons s { s with inner := { s.inner with daemons } }
  | rows (f : RelayStore → Table String DaemonRow) :
      TouchesDaemons s (s.updateStore fun st => { st with daemons := f st })

/-- The three push endpoints change the tokens and nothing else. -/
inductive TouchesTokens (s : RelayState) : RelayState → Prop
  | same : TouchesTokens s s
  | memory (tokens : Table String TokenOwner) :
      TouchesTokens s { s with inner := { s.inner with tokens } }
  | rows (f : RelayStore → Table String TokenRow) :
      TouchesTokens s (s.updateStore fun st => { st with pushTokens := f st })

/-- The two pairing endpoints change the pairing codes and nothing else. -/
inductive TouchesCodes (s : RelayState) : RelayState → Prop
  | memory (pairingCodes : Table String PairingCodeEntry) (history : RelayHistory) :
      history.accepted = s.history.accepted →
      TouchesCodes s { s with inner := { s.inner with pairingCodes }, history }
  | rows (f : RelayStore → Table String PairingCodeRow) (history : RelayHistory) :
      history.accepted = s.history.accepted →
      TouchesCodes s { s.updateStore fun st => { st with pairingCodes := f st } with history }

theorem TouchesCodes.same : TouchesCodes s s := .memory _ _ rfl

theorem registerDaemonStep_touches {call : RegisterDaemonCall} {pc : RegisterDaemonPc} :
    TouchesDaemons s (registerDaemonStep ext c call s pc).1 := by
  cases pc with
  | start =>
    simp only [registerDaemonStep]
    repeat' split
    all_goals exact .same
  | observing key =>
    simp only [registerDaemonStep]
    repeat' split
    all_goals exact .same
  | stamping => exact .same
  | inserting existing registration signer =>
    simp only [registerDaemonStep]
    split
    · exact .same
    · split
      · exact .same
      · exact .memory _
  | saving existing registration =>
    simp only [registerDaemonStep]
    split
    · exact .rows _
    · exact .same
  | rollingBack existing registration =>
    simp only [registerDaemonStep, rollbackDaemonRegistration]
    split
    · exact .same
    · split
      · exact .memory _
      · exact .memory _

theorem removalStep_touches {pushToken : String} {pc : RemovalPc} :
    TouchesTokens s (removalStep c pushToken s pc).1 := by
  cases pc with
  | row =>
    simp only [removalStep]
    split
    · exact .rows _
    · exact .same
  | memory => exact .memory _

theorem registerTokenStep_touches {request : RegisterTokenRequest} {pc : RegisterTokenPc} :
    TouchesTokens s (registerTokenStep c request s pc).1 := by
  cases pc with
  | checkingCap =>
    simp only [registerTokenStep]
    split <;> exact .same
  | evicting evicted pc =>
    have h : TouchesTokens s (removalStep c evicted s pc).1 := removalStep_touches
    simp only [registerTokenStep]
    split <;> rename_i heq <;> rw [heq] at h <;> exact h
  | stamping => exact .same
  | saving owner =>
    simp only [registerTokenStep]
    split
    · exact .rows _
    · exact .same
  | inserting owner => exact .memory _

theorem unregisterTokenStep_touches {request : UnregisterTokenRequest} {pc : RemovalPc} :
    TouchesTokens s (unregisterTokenStep c request s pc).1 := by
  have h : TouchesTokens s (removalStep c request.pushToken s pc).1 := removalStep_touches
  simp only [unregisterTokenStep]
  split <;> rename_i heq <;> rw [heq] at h <;> exact h

theorem pushStep_touches {request : PushRequest} {pc : PushPc} :
    TouchesTokens s (pushStep c request s pc).1 := by
  cases pc with
  | checking =>
    simp only [pushStep]
    repeat' split
    all_goals exact .same
  | removing cause pc =>
    have h : TouchesTokens s (removalStep c request.recipientToken s pc).1 := removalStep_touches
    simp only [pushStep]
    split <;> rename_i heq <;> rw [heq] at h <;> exact h
  | delivering =>
    simp only [pushStep]
    repeat' split
    all_goals exact .same
  | touchingRow now =>
    simp only [pushStep]
    split
    · exact .rows _
    · exact .same
  | touchingMemory now => exact .memory _

theorem publishStep_touches {request : PublishPairingRequest} {pc : PublishPc} :
    TouchesCodes s (publishStep ext c request s pc).1 := by
  cases pc with
  | checking =>
    simp only [publishStep]
    repeat' split
    all_goals exact .same
  | evicting key record expiresAtMs =>
    simp only [publishStep]
    split <;> exact .memory _ _ rfl
  | deletingRows superseded key payload entry =>
    cases superseded with
    | nil => exact .same
    | cons stale superseded =>
      simp only [publishStep]
      split
      · exact .rows _ _ rfl
      · exact .same
  | saving key payload entry =>
    simp only [publishStep]
    split
    · exact .rows _ _ rfl
    · exact .same
  | inserting key entry => exact .memory _ _ rfl

theorem resolveStep_touches {code : String} {pc : ResolvePc} :
    TouchesCodes s (resolveStep c code s pc).1 := by
  cases pc with
  | start =>
    simp only [resolveStep]
    repeat' split
    all_goals exact .same
  | looking key =>
    simp only [resolveStep]
    split
    · exact .same
    · split
      · exact .memory _ _ rfl
      · exact .same
  | forgettingMemory key record publication => exact .memory _ _ rfl
  | forgettingRow key record publication =>
    simp only [resolveStep]
    split
    · exact .rows _ _ rfl
    · exact .memory _ _ rfl
  | deletingExpired key =>
    simp only [resolveStep]
    split
    · exact .rows _ _ rfl
    · exact .same

/-- One step of an endpoint. -/
theorem handlerStep_touches {h : Handler} : TouchesDaemons s (handlerStep ext c s h).1 ∨
    TouchesTokens s (handlerStep ext c s h).1 ∨ TouchesCodes s (handlerStep ext c s h).1 := by
  cases h with
  | registerDaemon call pc => exact .inl registerDaemonStep_touches
  | registerToken request pc => exact .inr (.inl registerTokenStep_touches)
  | unregisterToken request pc => exact .inr (.inl unregisterTokenStep_touches)
  | push request pc => exact .inr (.inl pushStep_touches)
  | publish request pc => exact .inr (.inr publishStep_touches)
  | resolve code pc => exact .inr (.inr resolveStep_touches)

theorem handle_advance {i : Nat} {h : Handler} {x' : RelayTask}
    (hs : relayAdvance ext c i (.handle h) s = some (s', x')) : handlerStep ext c s h = (s', x') :=
  Option.some.inj hs

/-- No request changes the configuration or the time. -/
theorem advance_config {i : Nat} {x x' : RelayTask}
    (h : relayAdvance ext c i x s = some (s', x')) :
    s'.config = s.config ∧ s'.clock = s.clock := by
  cases hx : x.rest with
  | some rest => cases (verification_step hx h).1 <;> exact ⟨rfl, rfl⟩
  | none =>
    cases x with
    | verify | prove => cases hx
    | handle hd =>
      have ht : TouchesDaemons s (handlerStep ext c s hd).1 ∨
          TouchesTokens s (handlerStep ext c s hd).1 ∨ TouchesCodes s (handlerStep ext c s hd).1 :=
        handlerStep_touches
      rw [handle_advance h] at ht
      rcases ht with ht | ht | ht <;> cases ht <;> exact ⟨rfl, rfl⟩
    | returned => cases h

/-- Where the endpoints lead that call no verification any more: on, or to an answer. -/
theorem registerTokenStep_onward {request : RegisterTokenRequest} {pc : RegisterTokenPc}
    {x' : RelayTask} (h : registerTokenStep c request s pc = (s', x')) :
    (∃ pc', x' = .handle (.registerToken request pc')) ∨ ∃ reply, x' = .returned reply := by
  cases pc with
  | checkingCap =>
    simp only [registerTokenStep] at h
    split at h <;> cases h <;> exact .inl ⟨_, rfl⟩
  | evicting evicted pc =>
    simp only [registerTokenStep] at h
    split at h <;> cases h
    · exact .inl ⟨_, rfl⟩
    · exact .inl ⟨_, rfl⟩
    · exact .inr ⟨_, rfl⟩
  | stamping => cases h; exact .inl ⟨_, rfl⟩
  | saving owner =>
    simp only [registerTokenStep] at h
    split at h <;> cases h
    · exact .inl ⟨_, rfl⟩
    · exact .inr ⟨_, rfl⟩
  | inserting owner => cases h; exact .inr ⟨_, rfl⟩

theorem unregisterTokenStep_onward {request : UnregisterTokenRequest} {pc : RemovalPc}
    {x' : RelayTask} (h : unregisterTokenStep c request s pc = (s', x')) :
    (∃ pc', x' = .handle (.unregisterToken request pc')) ∨ ∃ reply, x' = .returned reply := by
  simp only [unregisterTokenStep] at h
  split at h <;> cases h
  · exact .inl ⟨_, rfl⟩
  · exact .inr ⟨_, rfl⟩
  · exact .inr ⟨_, rfl⟩

theorem pushStep_onward {request : PushRequest} {pc : PushPc} {x' : RelayTask}
    (h : pushStep c request s pc = (s', x')) :
    (∃ pc', x' = .handle (.push request pc')) ∨ ∃ reply, x' = .returned reply := by
  cases pc with
  | checking | delivering | touchingRow =>
    simp only [pushStep] at h
    repeat' split at h
    all_goals cases h
    all_goals first | exact .inl ⟨_, rfl⟩ | exact .inr ⟨_, rfl⟩
  | removing cause pc =>
    simp only [pushStep] at h
    split at h <;> cases h
    · exact .inl ⟨_, rfl⟩
    · exact .inr ⟨_, rfl⟩
    · exact .inr ⟨_, rfl⟩
  | touchingMemory now => cases h; exact .inr ⟨_, rfl⟩

theorem publishStep_onward {request : PublishPairingRequest} {pc : PublishPc} {x' : RelayTask}
    (h : publishStep ext c request s pc = (s', x')) :
    (∃ pc', x' = .handle (.publish request pc')) ∨ ∃ reply, x' = .returned reply := by
  cases pc with
  | deletingRows superseded key payload entry =>
    cases superseded <;> cases h <;> exact .inl ⟨_, rfl⟩
  | checking | evicting | saving =>
    simp only [publishStep] at h
    repeat' split at h
    all_goals cases h
    all_goals first | exact .inl ⟨_, rfl⟩ | exact .inr ⟨_, rfl⟩
  | inserting key entry => cases h; exact .inr ⟨_, rfl⟩

theorem resolveStep_onward {code : String} {pc : ResolvePc} {x' : RelayTask}
    (h : resolveStep c code s pc = (s', x')) :
    (∃ pc', x' = .handle (.resolve code pc')) ∨ ∃ reply, x' = .returned reply := by
  cases pc with
  | start | looking =>
    simp only [resolveStep] at h
    repeat' split at h
    all_goals cases h
    all_goals first | exact .inl ⟨_, rfl⟩ | exact .inr ⟨_, rfl⟩
  | forgettingMemory key record publication => cases h; exact .inl ⟨_, rfl⟩
  | forgettingRow key record publication => cases h; exact .inr ⟨_, rfl⟩
  | deletingExpired key => cases h; exact .inr ⟨_, rfl⟩

/-- A registration goes on, or into one of the verifications, or to an answer. -/
theorem registerDaemonStep_onward {call : RegisterDaemonCall} {pc : RegisterDaemonPc}
    {x' : RelayTask} (h : registerDaemonStep ext c call s pc = (s', x')) :
    (∃ pc', x' = .handle (.registerDaemon call pc')) ∨
      (∃ key proof, x' = .prove call.request.daemonNodeId key proof .start
        (.registerDaemon call (.observing key))) ∨
      (∃ nonce tsMs key existing, x' = .verify (pairContext call nonce tsMs) false .start
        (.registerDaemon call (.stamping key existing none))) ∨
      ∃ reply, x' = .returned reply := by
  cases pc with
  | start =>
    simp only [registerDaemonStep] at h
    repeat' split at h
    all_goals cases h
    · exact .inr (.inr (.inr ⟨_, rfl⟩))
    · exact .inr (.inr (.inr ⟨_, rfl⟩))
    · exact .inr (.inl ⟨_, _, rfl⟩)
    · exact .inl ⟨_, rfl⟩
  | observing key =>
    simp only [registerDaemonStep] at h
    repeat' split at h
    all_goals cases h
    · exact .inr (.inr (.inr ⟨_, rfl⟩))
    · exact .inr (.inr (.inl ⟨_, _, _, _, rfl⟩))
    · exact .inr (.inr (.inr ⟨_, rfl⟩))
    · exact .inl ⟨_, rfl⟩
  | stamping => cases h; exact .inl ⟨_, rfl⟩
  | inserting | saving =>
    simp only [registerDaemonStep] at h
    repeat' split at h
    all_goals cases h
    all_goals first | exact .inl ⟨_, rfl⟩ | exact .inr (.inr (.inr ⟨_, rfl⟩))
  | rollingBack => cases h; exact .inr (.inr (.inr ⟨_, rfl⟩))

/-- Where an endpoint leads: on, to the start of a verification, or to an answer. -/
theorem handlerStep_onward {h : Handler} {x' : RelayTask} (hs : handlerStep ext c s h = (s', x')) :
    (∃ h', x' = .handle h') ∨ (∃ id key proof rest, x' = .prove id key proof .start rest) ∨
      (∃ r rest, x' = .verify r false .start rest) ∨ ∃ reply, x' = .returned reply := by
  have stays {y : RelayTask} (hy : (∃ h', y = .handle h') ∨ ∃ reply, y = .returned reply) :
      (∃ h', y = .handle h') ∨ (∃ id key proof rest, y = .prove id key proof .start rest) ∨
        (∃ r rest, y = .verify r false .start rest) ∨ ∃ reply, y = .returned reply := by
    rcases hy with hy | hy
    · exact .inl hy
    · exact .inr (.inr (.inr hy))
  cases h with
  | registerDaemon call pc =>
    rcases registerDaemonStep_onward hs with ⟨pc', rfl⟩ | ⟨key, proof, rfl⟩ |
      ⟨nonce, tsMs, key, existing, rfl⟩ | hreply
    · exact .inl ⟨_, rfl⟩
    · exact .inr (.inl ⟨_, _, _, _, rfl⟩)
    · exact .inr (.inr (.inl ⟨_, _, rfl⟩))
    · exact .inr (.inr (.inr hreply))
  | registerToken request pc =>
    exact stays ((registerTokenStep_onward hs).imp_left fun ⟨pc', hx⟩ => ⟨_, hx⟩)
  | unregisterToken request pc =>
    exact stays ((unregisterTokenStep_onward hs).imp_left fun ⟨pc', hx⟩ => ⟨_, hx⟩)
  | push request pc => exact stays ((pushStep_onward hs).imp_left fun ⟨pc', hx⟩ => ⟨_, hx⟩)
  | publish request pc => exact stays ((publishStep_onward hs).imp_left fun ⟨pc', hx⟩ => ⟨_, hx⟩)
  | resolve code pc => exact stays ((resolveStep_onward hs).imp_left fun ⟨pc', hx⟩ => ⟨_, hx⟩)

/-- The reading of the clock that a signed request works with. -/
def VerifyPc.now : VerifyPc → Option Nat
  | .start => none
  | .pruning now _ | .readKey now | .markNonce now _ | .recordActivity now _ | .refresh now _ =>
    some now

/-- The reading of the clock that a verification works with. -/
def RelayTask.reading : RelayTask → Option Nat
  | .verify _ _ pc _ => pc.now
  | .prove _ _ _ (.pruning now _) _ => some now
  | _ => none

/-- The clock is read once, and the timestamp is compared with that reading. -/
theorem verifyStep_now {r : SignedRequestContext} {limit : Bool} {pc pc' : VerifyPc}
    (h : verifyStep ext c r limit pc s = (s', .running pc')) :
    pc'.now = pc.now ∨ pc'.now = some s.clock ∧ absDiff s.clock r.tsMs ≤ clockSkewMs := by
  cases pc with
  | start =>
    simp only [verifyStep] at h
    split at h <;> cases h
    exact .inr ⟨rfl, Nat.le_of_not_lt ‹_›⟩
  | pruning now pc =>
    simp only [verifyStep] at h
    split at h <;> cases h <;> exact .inl rfl
  | readKey now =>
    simp only [verifyStep] at h
    repeat' split at h
    all_goals cases h
    exact .inl rfl
  | markNonce now key =>
    simp only [verifyStep] at h
    split at h
    · cases h
    · split at h
      · cases h
      · obtain ⟨-, h⟩ := Prod.mk.inj h
        split at h <;> cases h
        exact .inl rfl
  | recordActivity now key =>
    simp only [verifyStep] at h
    repeat' split at h
    all_goals cases h
    all_goals exact .inl rfl
  | refresh now key => cases h

/-- A reading is kept, or it is the time of the step. -/
theorem advance_reading {i now : Nat} {x x' : RelayTask}
    (h : relayAdvance ext c i x s = some (s', x')) (hx' : x'.reading = some now) :
    x.reading = some now ∨ now = s.clock := by
  cases x with
  | verify r limit pc rest =>
    rcases verify_advance h with ⟨pc', hs, rfl⟩ | ⟨key, -, rfl⟩ | ⟨e, -, rfl⟩
    · rcases verifyStep_now hs with hsame | ⟨hnow, -⟩
      · exact .inl (hsame.symm.trans hx')
      · exact .inr (Option.some.inj (hx'.symm.trans hnow))
    · cases hx'
    · cases hx'
  | prove daemonNodeId key proof pc rest =>
    rcases prove_advance h with ⟨pc', hs, rfl⟩ | ⟨-, rfl⟩ | ⟨e, -, rfl⟩
    · cases pc with
      | start =>
        simp only [proofStep] at hs
        split at hs <;> cases hs
        exact .inr (Option.some.inj hx').symm
      | pruning now' pc =>
        simp only [proofStep] at hs
        split at hs <;> cases hs
        · exact .inl hx'
        · cases hx'
      | markNonce =>
        simp only [proofStep] at hs
        split at hs
        · cases hs
        · obtain ⟨-, hs⟩ := Prod.mk.inj hs
          split at hs <;> cases hs
          cases hx'
      | recordNonce =>
        simp only [proofStep] at hs
        repeat' split at hs
        all_goals cases hs
    · cases hx'
    · cases hx'
  | handle hd =>
    rcases handlerStep_onward (handle_advance h) with ⟨_, rfl⟩ | ⟨_, _, _, _, rfl⟩ | ⟨_, _, rfl⟩ |
      ⟨_, rfl⟩ <;> cases hx'
  | returned => cases h

theorem reading_of_pruning {x : RelayTask} {now : Nat} {pc : PrunePc}
    (h : x.pruning = some (now, pc)) : x.reading = some now := by
  unfold RelayTask.pruning at h
  split at h
  · cases h; rfl
  · cases h; rfl
  · cases h

/-- A request as it arrives. -/
inductive Arrival : RelayTask → Prop
  | registerDaemon (call : RegisterDaemonCall) : Arrival (.handle (.registerDaemon call .start))
  | registerToken (r : SignedRequestContext) (request : RegisterTokenRequest) :
      r.daemonNodeId = request.daemonNodeId →
      Arrival (.verify r true .start (.registerToken request .checkingCap))
  | unregisterToken (r : SignedRequestContext) (request : UnregisterTokenRequest) :
      r.daemonNodeId = request.daemonNodeId →
      Arrival (.verify r false .start (.unregisterToken request .row))
  | push (r : SignedRequestContext) (request : PushRequest) :
      r.daemonNodeId = request.daemonNodeId → Arrival (.verify r false .start (.push request .checking))
  | publish (r : SignedRequestContext) (request : PublishPairingRequest) :
      r.daemonNodeId = request.daemonNodeId →
      Arrival (.verify r false .start (.publish request .checking))
  | resolve (code : String) : Arrival (.handle (.resolve code .start))

theorem arrival_of_route {path : String} {body : List UInt8} {header : Option String}
    {x : RelayTask} (h : route ext path body header = some x) : Arrival x := by
  unfold route at h
  split at h
  · obtain ⟨r, -, rfl⟩ := Option.map_eq_some_iff.mp h; exact .registerDaemon _
  · obtain ⟨r, -, rfl⟩ := Option.map_eq_some_iff.mp h; exact .registerToken _ r rfl
  · obtain ⟨r, -, rfl⟩ := Option.map_eq_some_iff.mp h; exact .unregisterToken _ r rfl
  · obtain ⟨r, -, rfl⟩ := Option.map_eq_some_iff.mp h; exact .push _ r rfl
  · obtain ⟨r, -, rfl⟩ := Option.map_eq_some_iff.mp h; exact .publish _ r rfl
  · cases h

theorem arrival_of_arrives {x : RelayTask} (h : x.arrives ext = true) : Arrival x := by
  unfold RelayTask.arrives at h
  split at h
  · exact arrival_of_route (of_decide_eq_true h)
  · exact arrival_of_route (of_decide_eq_true h)
  · exact .resolve _
  · cases h

end Shelly.Relay
