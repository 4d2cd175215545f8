import Shelly.Relay.Frames

namespace Shelly.Relay

variable (ext : Externals)

/-- What lets a key be replaced without a signature of its own. The key that a rekey
reads for its verification must be the one it observed before (or none, and the
verification fails), and a failed save must not put another key back. -/
def keysSettled (p : Pool RelayState RelayTask) : Move RelayTask RelayChoice RelayEvent → Bool
  | .advance i _ =>
    match p.task i with
    | some (.verify r _ (.readKey _) (.registerDaemon _ (.stamping _ existing _))) =>
      (p.shared.registeredKey r.daemonNodeId).isNone ||
        decide (p.shared.registeredKey r.daemonNodeId = existing.map (·.publicKey))
    | some (.handle (.registerDaemon call (.rollingBack existing registration))) =>
      decide (p.shared.inner.daemons.lookup call.request.daemonNodeId ≠ some registration) ||
        existing.all fun r => r.publicKey = registration.publicKey
    | _ => true
  | .environment .restart => false
  | _ => true

/-- The signature of the request itself verifies under the key. -/
def RegisterDaemonCall.SignedUnder (call : RegisterDaemonCall) (audience : String)
    (key : VerifyingKey) : Prop :=
  ∃ nonce tsMs signature, call.request.nonce = some nonce ∧ call.request.tsMs = some tsMs ∧
    (pairContext call nonce tsMs).decodeSignature ext = .ok signature ∧
    (pairContext call nonce tsMs).authentic ext audience key signature = true

/-- A request that would replace the key it observed was signed under that key. -/
def RegisterDaemonCall.Justified (call : RegisterDaemonCall) (audience : String)
    (requested : VerifyingKey) (existing : Option DaemonRegistration) :
    Option VerifyingKey → Prop
  | some signer =>
    existing.map (·.publicKey) = some signer ∧ call.SignedUnder ext audience signer
  | none => ∀ r, existing = some r → r.publicKey = requested

/-- What a registration knows at each point. -/
def RekeyOk (s : RelayState) (_ : Nat) : RelayTask → Prop
  | .verify r _ pc (.registerDaemon call (.stamping _ existing _)) =>
    ∃ nonce tsMs, call.request.nonce = some nonce ∧ call.request.tsMs = some tsMs ∧
      r = pairContext call nonce tsMs ∧ ∀ key, pc.key = some key →
        existing.map (·.publicKey) = some key ∧
          call.SignedUnder ext s.config.registrationAudience key
  | .verify _ _ _ (.registerDaemon _ _) => False
  | .prove _ _ _ _ (.registerDaemon _ (.observing _)) => True
  | .prove _ _ _ _ _ => False
  | .handle (.registerDaemon call (.stamping requested existing signer)) =>
    call.Justified ext s.config.registrationAudience requested existing signer
  | .handle (.registerDaemon call (.inserting existing registration signer)) =>
    call.Justified ext s.config.registrationAudience registration.publicKey existing signer
  | _ => True

section Steps

variable {ext} {p : Pool RelayState RelayTask} {c : RelayChoice} {s s' : RelayState}
  {i j : Nat} {x x' y : RelayTask}

theorem RekeyOk.of_config (hconfig : s'.config = s.config) (h : RekeyOk ext s j y) :
    RekeyOk ext s' j y := by
  unfold RekeyOk at h ⊢
  rw [hconfig]
  exact h

/-- A rekey in its verification. -/
theorem verifying_step {r : SignedRequestContext} {limit : Bool} {pc : VerifyPc}
    {call : RegisterDaemonCall} {requested : VerifyingKey} {existing : Option DaemonRegistration}
    {signer : Option VerifyingKey}
    (ht : p.task i =
      some (.verify r limit pc (.registerDaemon call (.stamping requested existing signer))))
    (hok : RekeyOk ext p.shared i
      (.verify r limit pc (.registerDaemon call (.stamping requested existing signer))))
    (hc : keysSettled p (.advance i c) = true)
    (hs : relayAdvance ext c i
      (.verify r limit pc (.registerDaemon call (.stamping requested existing signer))) p.shared =
        some (s', x')) : RekeyOk ext p.shared i x' := by
  obtain ⟨nonce, tsMs, hnonce, hts, hr, hkey⟩ := hok
  rcases verify_advance hs with ⟨pc', hstep, rfl⟩ | ⟨key, hstep, rfl⟩ | ⟨e, hstep, rfl⟩
  · refine ⟨nonce, tsMs, hnonce, hts, hr, fun key hk => ?_⟩
    rcases verifyStep_key hstep hk with hold | ⟨now, signature, rfl, hreg, hsig, hauth⟩
    · exact hkey key hold
    · have hobserved : p.shared.registeredKey r.daemonNodeId = existing.map (·.publicKey) := by
        simp only [keysSettled, ht, hreg, Option.isNone_some, Bool.false_or,
          decide_eq_true_eq] at hc
        rw [hreg, hc]
      refine ⟨hobserved.symm.trans hreg, nonce, tsMs, signature, hnonce, hts, ?_, ?_⟩
      · exact hr ▸ hsig
      · exact hr ▸ hauth
  · obtain ⟨now, rfl⟩ := verifyStep_done hstep
    exact hkey key rfl
  · trivial

theorem registering_step {call : RegisterDaemonCall} {pc : RegisterDaemonPc}
    (hok : RekeyOk ext s i (.handle (.registerDaemon call pc)))
    (hs : registerDaemonStep ext c call s pc = (s', x')) : RekeyOk ext s i x' := by
  cases pc with
  | start =>
    simp only [registerDaemonStep] at hs
    repeat' split at hs
    all_goals cases hs; trivial
  | observing key =>
    simp only [registerDaemonStep] at hs
    split at hs
    · cases hs; trivial
    · split at hs
      · split at hs
        · rename_i nonce tsMs hnonce hts
          cases hs
          exact ⟨nonce, tsMs, hnonce, hts, rfl, fun key hk => by cases hk⟩
        · cases hs; trivial
      · rename_i hsame
        cases hs
        intro r hr
        simp only [hr, Option.any_some, decide_eq_true_eq, ne_eq, not_not] at hsame
        exact hsame
  | stamping key existing signer => cases hs; exact hok
  | inserting existing registration signer =>
    simp only [registerDaemonStep] at hs
    repeat' split at hs
    all_goals cases hs; trivial
  | saving existing registration =>
    simp only [registerDaemonStep] at hs
    split at hs <;> cases hs <;> trivial
  | rollingBack existing registration => cases hs; trivial

theorem rekey_own (ht : p.task i = some x) (hok : RekeyOk ext p.shared i x)
    (hc : keysSettled p (.advance i c) = true)
    (hs : relayAdvance ext c i x p.shared = some (s', x')) : RekeyOk ext p.shared i x' := by
  cases x with
  | verify r limit pc rest =>
    cases rest with
    | registerDaemon call pc' =>
      cases pc' with
      | stamping => exact verifying_step ht hok hc hs
      | start | observing | inserting | saving | rollingBack => exact False.elim hok
    | registerToken | unregisterToken | push | publish | resolve =>
      rcases verify_advance hs with ⟨pc', -, rfl⟩ | ⟨key, -, rfl⟩ | ⟨e, -, rfl⟩ <;> trivial
  | prove daemonNodeId key proof pc rest =>
    cases rest with
    | registerDaemon call pc' =>
      cases pc' with
      | observing =>
        rcases prove_advance hs with ⟨pc', -, rfl⟩ | ⟨-, rfl⟩ | ⟨e, -, rfl⟩ <;> trivial
      | start | stamping | inserting | saving | rollingBack => exact False.elim hok
    | registerToken | unregisterToken | push | publish | resolve => exact False.elim hok
  | handle h =>
    cases h with
    | registerDaemon call pc => exact registering_step hok (handle_advance hs)
    | registerToken request pc =>
      rcases registerTokenStep_onward (handle_advance hs) with ⟨pc', rfl⟩ | ⟨reply, rfl⟩ <;> trivial
    | unregisterToken request pc =>
      rcases unregisterTokenStep_onward (handle_advance hs) with
        ⟨pc', rfl⟩ | ⟨reply, rfl⟩ <;> trivial
    | push request pc =>
      rcases pushStep_onward (handle_advance hs) with ⟨pc', rfl⟩ | ⟨reply, rfl⟩ <;> trivial
    | publish request pc =>
      rcases publishStep_onward (handle_advance hs) with ⟨pc', rfl⟩ | ⟨reply, rfl⟩ <;> trivial
    | resolve code pc =>
      rcases resolveStep_onward (handle_advance hs) with ⟨pc', rfl⟩ | ⟨reply, rfl⟩ <;> trivial
  | returned _ => cases hs

theorem rekey_noninterference : (relayTasking ext).Noninterference
    (fun p a => keysSettled p a = true) (fun _ => True) (RekeyOk ext) where
  init _ _ := trivial
  fresh p i x _ _ hx := by cases arrival_of_arrives hx <;> trivial
  own p i c x s' x' hc _ ht hok hs :=
    ⟨trivial, (rekey_own ht hok hc hs).of_config (advance_config (i := i) hs).1⟩
  others p i c x s' x' _ _ _ _ hs _ _ _ _ hok := hok.of_config (advance_config (i := i) hs).1
  environment p e s' keep hc _ hs := by
    refine ⟨trivial, fun _ j y _ hok => hok.of_config ?_⟩
    cases e with
    | tick ms =>
      obtain ⟨-, hr⟩ := Option.ite_none_right_eq_some.mp hs
      cases hr
      rfl
    | restart => cases hc

theorem handlerStep_daemons {h : Handler} (hs : handlerStep ext c s h = (s', x'))
    (hne : ∀ call pc, h ≠ .registerDaemon call pc) : s'.inner.daemons = s.inner.daemons := by
  cases h with
  | registerDaemon call pc => exact absurd rfl (hne call pc)
  | registerToken request pc =>
    have ht : TouchesTokens s (registerTokenStep c request s pc).1 := registerTokenStep_touches
    rw [show registerTokenStep c request s pc = (s', x') from hs] at ht
    cases ht <;> rfl
  | unregisterToken request pc =>
    have ht : TouchesTokens s (unregisterTokenStep c request s pc).1 := unregisterTokenStep_touches
    rw [show unregisterTokenStep c request s pc = (s', x') from hs] at ht
    cases ht <;> rfl
  | push request pc =>
    have ht : TouchesTokens s (pushStep c request s pc).1 := pushStep_touches
    rw [show pushStep c request s pc = (s', x') from hs] at ht
    cases ht <;> rfl
  | publish request pc =>
    have ht : TouchesCodes s (publishStep ext c request s pc).1 := publishStep_touches
    rw [show publishStep ext c request s pc = (s', x') from hs] at ht
    cases ht <;> rfl
  | resolve code pc =>
    have ht : TouchesCodes s (resolveStep c code s pc).1 := resolveStep_touches
    rw [show resolveStep c code s pc = (s', x') from hs] at ht
    cases ht <;> rfl

/-- The only steps of a registration that replace a registered key. -/
theorem registeringKey_step {id : String} {K K' : VerifyingKey} {call : RegisterDaemonCall}
    {pc : RegisterDaemonPc} (hs : registerDaemonStep ext c call s pc = (s', x'))
    (hK : s.registeredKey id = some K) (hK' : s'.registeredKey id = some K') (hne : K ≠ K') :
    (∃ call' existing registration signer,
      RelayTask.handle (.registerDaemon call pc) =
        .handle (.registerDaemon call' (.inserting existing registration signer)) ∧
      call'.request.daemonNodeId = id ∧ registration.publicKey = K' ∧
      registrationKeyChanged (existing.map (·.publicKey)) (some K) K' = false) ∨
    ∃ call' existing registration,
      RelayTask.handle (.registerDaemon call pc) =
        .handle (.registerDaemon call' (.rollingBack existing registration)) ∧
      call'.request.daemonNodeId = id ∧ s.inner.daemons.lookup id = some registration ∧
      existing.map (·.publicKey) = some K' := by
  have same (h : s'.inner.daemons = s.inner.daemons) : False := by
    unfold RelayState.registeredKey at hK hK'
    rw [h] at hK'
    exact hne (Option.some.inj (hK.symm.trans hK'))
  cases pc with
  | start | observing =>
    simp only [registerDaemonStep] at hs
    repeat' split at hs
    all_goals cases hs; exact (same rfl).elim
  | stamping => cases hs; exact (same rfl).elim
  | saving existing registration =>
    simp only [registerDaemonStep] at hs
    split at hs <;> cases hs <;> exact (same rfl).elim
  | inserting existing registration signer =>
    simp only [registerDaemonStep] at hs
    split at hs
    · cases hs; exact (same rfl).elim
    · split at hs
      · cases hs; exact (same rfl).elim
      · rename_i hchanged
        cases hs
        simp only [RelayState.registeredKey, RelayState.setDaemon, Table.lookup_insert] at hK'
        split at hK'
        · rename_i hid
          obtain rfl := Option.some.inj hK'
          refine .inl ⟨call, existing, registration, signer, rfl, hid.symm, rfl, ?_⟩
          rw [← hid, hK] at hchanged
          exact Bool.eq_false_iff.mpr hchanged
        · exact (hne (Option.some.inj (hK.symm.trans hK'))).elim
  | rollingBack existing registration =>
    simp only [registerDaemonStep, rollbackDaemonRegistration] at hs
    split at hs
    · cases hs; exact (same rfl).elim
    · rename_i hlookup
      rw [ne_eq, not_not] at hlookup
      cases existing with
      | some r =>
        cases hs
        simp only [RelayState.registeredKey, RelayState.setDaemon, Table.lookup_insert] at hK'
        split at hK'
        · rename_i hid
          obtain rfl := Option.some.inj hK'
          exact .inr ⟨call, some r, registration, rfl, hid.symm, hid ▸ hlookup, rfl⟩
        · exact (hne (Option.some.inj (hK.symm.trans hK'))).elim
      | none =>
        cases hs
        simp only [RelayState.registeredKey, RelayState.removeDaemon, Table.lookup_erase] at hK'
        split at hK'
        · cases hK'
        · exact (hne (Option.some.inj (hK.symm.trans hK'))).elim

/-- The only steps that replace a registered key. -/
theorem registeredKey_step {id : String} {K K' : VerifyingKey}
    (hs : relayAdvance ext c i x s = some (s', x')) (hK : s.registeredKey id = some K)
    (hK' : s'.registeredKey id = some K') (hne : K ≠ K') :
    (∃ call existing registration signer,
      x = .handle (.registerDaemon call (.inserting existing registration signer)) ∧
      call.request.daemonNodeId = id ∧ registration.publicKey = K' ∧
      registrationKeyChanged (existing.map (·.publicKey)) (some K) K' = false) ∨
    ∃ call existing registration,
      x = .handle (.registerDaemon call (.rollingBack existing registration)) ∧
      call.request.daemonNodeId = id ∧ s.inner.daemons.lookup id = some registration ∧
      existing.map (·.publicKey) = some K' := by
  have same (h : s'.inner.daemons = s.inner.daemons) : False := by
    unfold RelayState.registeredKey at hK hK'
    rw [h] at hK'
    exact hne (Option.some.inj (hK.symm.trans hK'))
  cases hx : x.rest with
  | some rest =>
    exfalso
    cases (verification_step hx hs).1 with
    | same | gated | prunedStore | marked | recorded => exact same rfl
    | prunedMemory now _ =>
      obtain ⟨r', hr', rfl⟩ := Option.map_eq_some_iff.mp hK'
      have hr : s.inner.daemons.lookup id = some r' := by
        simp only [RelayState.pruneMemory, RelayInner.pruneExpired] at hr'
        split at hr'
        · exact (Table.lookup_retain.mp hr').1
        · exact hr'
      rw [RelayState.registeredKey, hr] at hK
      exact hne (Option.some.inj hK).symm
    | refreshed id' f accepted hf =>
      unfold RelayState.registeredKey at hK hK'
      rw [Table.lookup_modify] at hK'
      split at hK'
      · rw [Option.map_map, show (fun r => r.publicKey) ∘ f = fun r => r.publicKey from
          funext hf] at hK'
        exact hne (Option.some.inj (hK.symm.trans hK'))
      · exact hne (Option.some.inj (hK.symm.trans hK'))
  | none =>
    cases x with
    | verify | prove => cases hx
    | returned => cases hs
    | handle hd =>
      have hstep := handle_advance hs
      cases hd with
      | registerDaemon call pc => exact registeringKey_step hstep hK hK' hne
      | registerToken | unregisterToken | push | publish | resolve =>
        have ht := handlerStep_daemons hstep (fun call pc h => by cases h)
        exact (same ht).elim

end Steps

/-- Whenever a step replaces the registered key of a daemon by another key, it is the
insertion of a registration whose request was signed under the very key it replaces. -/
theorem rekey_requires_current_key {p q : Pool RelayState RelayTask}
    {a : Move RelayTask RelayChoice RelayEvent} {id : String} {K K' : VerifyingKey}
    (h : (relayTasking ext).machine.ReachableWhen (fun p a => keysSettled p a = true) p)
    (hc : keysSettled p a = true) (hs : (relayTasking ext).machine.step a p = some q)
    (hK : p.shared.registeredKey id = some K) (hK' : q.shared.registeredKey id = some K')
    (hne : K ≠ K') :
    ∃ i c call existing registration, a = .advance i c ∧
      p.task i =
        some (.handle (.registerDaemon call (.inserting existing registration (some K)))) ∧
      call.request.daemonNodeId = id ∧ registration.publicKey = K' ∧
      call.SignedUnder ext p.shared.config.registrationAudience K := by
  have hp := rekey_noninterference.invariant h
  have same {s : RelayState} (hs : s.inner.daemons = p.shared.inner.daemons)
      (hK' : s.registeredKey id = some K') : False := by
    unfold RelayState.registeredKey at hK hK'
    rw [hs] at hK'
    exact hne (Option.some.inj (hK.symm.trans hK'))
  cases Tasking.stepped_of_step hs with
  | spawn | drop => exact (hne (Option.some.inj (hK.symm.trans hK'))).elim
  | keep e s' hr =>
    cases e with
    | tick ms =>
      obtain ⟨-, hr⟩ := Option.ite_none_right_eq_some.mp hr
      cases hr
      exact (same rfl hK').elim
    | restart => cases hc
  | clear e s' hr =>
    cases e with
    | tick ms =>
      obtain ⟨-, hr⟩ := Option.ite_none_right_eq_some.mp hr
      cases hr
    | restart => cases hc
  | advance i c x x' s' ht hr =>
    rcases registeredKey_step (i := i) hr hK hK' hne with
      ⟨call, existing, registration, signer, rfl, hid, hkey, hchanged⟩ |
      ⟨call, existing, registration, rfl, hid, hl, hkey⟩
    · have hok : call.Justified ext p.shared.config.registrationAudience registration.publicKey
          existing signer := hp.2 i _ ht
      have hobserved : existing.map (·.publicKey) = some K := by
        cases he : existing.map (·.publicKey) with
        | none =>
          rw [he] at hchanged
          exact absurd (of_decide_eq_false hchanged) (not_not.mpr hne)
        | some observed =>
          rw [he] at hchanged
          rw [not_not.mp (of_decide_eq_false hchanged)]
      cases signer with
      | none =>
        obtain ⟨r, hr, hrK⟩ := Option.map_eq_some_iff.mp hobserved
        exact absurd (hrK.symm.trans ((hok r hr).trans hkey)) hne
      | some signer =>
        obtain rfl := Option.some.inj (hok.1.symm.trans hobserved)
        exact ⟨i, c, call, existing, registration, rfl, ht, hid, hkey, hok.2⟩
    · obtain ⟨r, rfl, hrK⟩ := Option.map_eq_some_iff.mp hkey
      simp only [keysSettled, ht, hid, hl, ne_eq, not_true_eq_false, decide_false, Bool.false_or,
        Option.all_some, decide_eq_true_eq] at hc
      rw [RelayState.registeredKey, hl] at hK
      exact absurd ((Option.some.inj hK).symm.trans (hc.symm.trans hrK)) hne

section Traces

private def daemonId : String := "daemon-0123456789"

private def rekeyTo (c : Char) (nonce : Option String) : RegisterDaemonRequest :=
  ⟨daemonId, keyText c, nonce, nonce.map fun _ => 1000, none⟩

/-- Requests for the keys `A`, `B`, `A` and `C`. -/
private def rekeys : Externals :=
  .playing ⟨[rekeyTo 'A' none, rekeyTo 'B' (some "nonce-0000000001"),
    rekeyTo 'A' (some "nonce-0000000002"), rekeyTo 'C' (some "nonce-0000000003")], [], [], [], []⟩

private def keyNamed (c : Char) : Option VerifyingKey :=
  (decodePublicKey rekeys (keyText c)).toOption

private def pair (i : Nat) (signer : Option Char) : Move RelayTask RelayChoice RelayEvent :=
  arriving rekeys i "/v1/pair" [UInt8.ofNat i] (signer.bind signedBy)

/-- The daemon registers the key `A` and replaces it by `B`, signing with `A`. -/
theorem rekey_requires_current_key_run :
    ∃ (p q : Pool RelayState RelayTask) (K : VerifyingKey), p.shared.registeredKey daemonId = some K ∧
      q.shared.registeredKey daemonId ≠ some K ∧ ∃ call existing registration,
        p.task 1 =
          some (.handle (.registerDaemon call (.inserting existing registration (some K)))) ∧
        call.SignedUnder rekeys p.shared.config.registrationAudience K := by
  obtain ⟨p, hr, hc, hA, hq⟩ :=
    (relayTasking rekeys).machine.exists_reachable_of_exec (fun p a => keysSettled p a = true)
      (fun p => keysSettled p (.advance 1 .fine) = true ∧
        p.shared.registeredKey daemonId = keyNamed 'A' ∧
        ((relayTasking rekeys).machine.step (.advance 1 .fine) p).any
          (fun q => q.shared.registeredKey daemonId = keyNamed 'B') = true)
      (List.flatten [[pair 0 none], Move.repeated 5 0 .fine, [pair 1 (some 'A')],
        Move.repeated 9 1 .fine])
      (Tasking.init_empty (RelayState.opened_new 1000 (.inl rfl))) (by decide)
  obtain ⟨q, hs, hB⟩ := (Option.any_eq_true _ _).mp hq
  have hB := of_decide_eq_true hB
  have hne : (keyNamed 'A').isSome ∧ (keyNamed 'B').isSome ∧ keyNamed 'A' ≠ keyNamed 'B' := by
    decide
  obtain ⟨K, hK⟩ := Option.isSome_iff_exists.mp hne.1
  obtain ⟨K', hK'⟩ := Option.isSome_iff_exists.mp hne.2.1
  have hKK' : K ≠ K' := fun h => hne.2.2 (hK.trans (h ▸ hK'.symm))
  obtain ⟨i, c, call, existing, registration, hi, ht, -, -, hsigned⟩ :=
    rekey_requires_current_key rekeys hr hc hs (hA.trans hK) (hB.trans hK') hKK'
  cases hi
  refine ⟨p, q, K, hA.trans hK, ?_, call, existing, registration, ht, hsigned⟩
  rw [hB, hK']
  exact fun h => hKK' (Option.some.inj h).symm

/-- Under which key a registration that is to replace a key was verified. -/
private def insertionSigner : RelayTask → Option (Option VerifyingKey)
  | .handle (.registerDaemon _ (.inserting _ _ signer)) => some signer
  | _ => none

/-- A request for the key `C` observes the key `A`, is verified under `B`, which is registered
in between, and replaces `A`, which is registered again by then. -/
theorem rekeyed_without_current_key :
    ¬ ∀ (ext : Externals) (p q : Pool RelayState RelayTask)
      (a : Move RelayTask RelayChoice RelayEvent) (id : String) (K K' : VerifyingKey),
      (relayTasking ext).machine.Reachable p → (relayTasking ext).machine.step a p = some q →
      p.shared.registeredKey id = some K → q.shared.registeredKey id = some K' → K ≠ K' →
      ∃ i c call existing registration, a = .advance i c ∧
        p.task i =
          some (.handle (.registerDaemon call (.inserting existing registration (some K)))) ∧
        call.request.daemonNodeId = id ∧ registration.publicKey = K' ∧
        call.SignedUnder ext p.shared.config.registrationAudience K := by
  intro hall
  obtain ⟨p, hr, hA, hsigner, hq⟩ :=
    (relayTasking rekeys).machine.exists_reachable_of_exec Machine.Any
      (fun p => p.shared.registeredKey daemonId = keyNamed 'A' ∧
        (p.task 3).bind insertionSigner = some (keyNamed 'B') ∧
        ((relayTasking rekeys).machine.step (.advance 3 .fine) p).any
          (fun q => q.shared.registeredKey daemonId = keyNamed 'C') = true)
      (List.flatten [[pair 0 none], Move.repeated 5 0 .fine,
        [pair 3 (some 'B')], Move.repeated 2 3 .fine,
        [pair 1 (some 'A')], Move.repeated 11 1 .fine, Move.repeated 7 3 .fine,
        [pair 2 (some 'B')], Move.repeated 11 2 .fine])
      (Tasking.init_empty (RelayState.opened_new 1000 (.inl rfl))) (by decide)
  obtain ⟨q, hs, hC⟩ := (Option.any_eq_true _ _).mp hq
  have hC := of_decide_eq_true hC
  have hne : (keyNamed 'A').isSome ∧ (keyNamed 'C').isSome ∧ keyNamed 'A' ≠ keyNamed 'C' ∧
      keyNamed 'A' ≠ keyNamed 'B' := by decide
  obtain ⟨K, hK⟩ := Option.isSome_iff_exists.mp hne.1
  obtain ⟨K', hK'⟩ := Option.isSome_iff_exists.mp hne.2.1
  obtain ⟨i, c, call, existing, registration, hi, ht, -⟩ :=
    hall rekeys p q _ daemonId K K' hr hs (hA.trans hK) (hC.trans hK')
      fun h => hne.2.2.1 (hK.trans (h ▸ hK'.symm))
  cases hi
  rw [ht] at hsigner
  exact hne.2.2.2 (hK.trans (Option.some.inj hsigner))

end Traces

end Shelly.Relay
