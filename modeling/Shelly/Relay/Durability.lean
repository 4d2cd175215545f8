import Shelly.Relay.Mirror
import Shelly.Relay.Pruning

namespace Shelly.Relay

section Load

variable {ext : Externals} {st : RelayStore} {config : RelayConfig} {now : Nat} {key payload : String}
  {entry : PairingCodeEntry}

theorem asI64_lt (n : Nat) : asI64 n < 2 ^ 63 := by
  unfold asI64
  have h := Int.bmod_lt (x := n) (m := 2 ^ 64) (by decide)
  omega

/-- Just the numbers that are not negative as signed ones are read back. -/
theorem toU64_asI64_iff {n : Nat} : RelayStore.toU64 (asI64 n) = some n ↔ n < 2 ^ 63 := by
  constructor
  · intro h
    have hsigned := toU64_eq_some.mp h
    have hlt := asI64_lt n
    omega
  · exact toU64_asI64

/-- A database loads when each row that the prune leaves can be read. -/
theorem load_isSome_iff : (st.loadState ext config now).isSome = true ↔
    (∀ id row, (st.pruneExpiredRows config now).daemons.lookup id = some row →
      ∃ r, RelayStore.loadDaemon ext row = some r) ∧
    (∀ t row, (st.pruneExpiredRows config now).pushTokens.lookup t = some row →
      ∃ o, RelayStore.loadToken row = some o) ∧
    (∀ k n, (st.pruneExpiredRows config now).seenNonces.lookup k = some n →
      ∃ tsMs, RelayStore.toU64 n = some tsMs) ∧
    ∀ k row, (st.pruneExpiredRows config now).pairingCodes.lookup k = some row →
      ∃ e, RelayStore.loadPairingCode ext k row = some e := by
  rw [Option.isSome_iff_exists]
  constructor
  · rintro ⟨⟨inner, st'⟩, hload⟩
    have hrebuilt := rebuilt_of_load hload
    obtain ⟨rfl, -⟩ := RelayStore.loadState_eq_some.mp hload
    refine ⟨fun id row h => ?_, fun t row h => ?_, fun k n h => ?_, fun k row h => ?_⟩
    · obtain ⟨r, -, hr⟩ := hrebuilt.daemons.lookup_row h
      exact ⟨r, hr⟩
    · obtain ⟨o, -, ho⟩ := hrebuilt.tokens.lookup_row h
      exact ⟨o, ho⟩
    · obtain ⟨tsMs, -, hts⟩ := hrebuilt.seenNonces.lookup_row h
      exact ⟨tsMs, hts⟩
    · obtain ⟨e, -, he⟩ := hrebuilt.pairingCodes.lookup_row h
      exact ⟨e, he⟩
  · rintro ⟨hd, ht, hn, hc⟩
    obtain ⟨daemons, hdaemons⟩ := Table.exists_traverse hd
    obtain ⟨tokens, htokens⟩ := Table.exists_traverse ht
    obtain ⟨seenNonces, hseen⟩ := Table.exists_traverse hn
    obtain ⟨pairingCodes, hcodes⟩ := Table.exists_traverse hc
    exact ⟨(⟨daemons, tokens, seenNonces, pairingCodes, 0⟩, _),
      RelayStore.loadState_eq_some.mpr ⟨rfl, rfl, hdaemons, htokens, hseen, hcodes⟩⟩

/-- The row of a record that has not expired and whose owner is kept. -/
theorem saved_row_iff (st : RelayStore) (key payload : String) (hnow : now < entry.expiresAtMs) (hexpiry : entry.expiresAtMs < 2 ^ 63) :
    ((st.savePairingCode key (entry.row payload)).pruneExpiredRows config now).pairingCodes.lookup
        key = some (entry.row payload) ↔
      st.staleOwner config now entry.daemonNodeId = false := by
  rw [RelayStore.pruneExpiredRows_pairingCodes, Table.lookup_retain, RelayStore.savePairingCode,
    Table.lookup_insert_self]
  have hlive : (!decide ((entry.row payload).expiresAtMs ≤ asI64 now)) = true := by
    rw [PairingCodeEntry.row, asI64_of_lt hexpiry, asI64_of_lt (hnow.trans hexpiry)]
    simp [hnow]
  rw [hlive, Bool.true_and, Bool.not_eq_true', PairingCodeEntry.row]
  exact and_iff_right rfl

/-- What is read from the other rows does not depend on the saved one. -/
theorem other_row_iff {k : String} {row : PairingCodeRow} (hk : k ≠ key) (saved : PairingCodeRow) :
    ((st.savePairingCode key saved).pruneExpiredRows config now).pairingCodes.lookup k = some row ↔
      ((st.deletePairingCode key).pruneExpiredRows config now).pairingCodes.lookup k =
        some row := by
  rw [RelayStore.pruneExpiredRows_pairingCodes, RelayStore.pruneExpiredRows_pairingCodes,
    Table.lookup_retain, Table.lookup_retain, RelayStore.savePairingCode,
    RelayStore.deletePairingCode, Table.lookup_insert_ne _ _ hk, Table.lookup_erase_ne _ hk]
  exact Iff.rfl

theorem deleted_row_none :
    ((st.deletePairingCode key).pruneExpiredRows config now).pairingCodes.lookup key = none := by
  rw [Option.eq_none_iff_forall_not_mem]
  intro row hrow
  rw [RelayStore.pruneExpiredRows_pairingCodes] at hrow
  have hdeleted := (Table.lookup_retain.mp hrow).1
  rw [RelayStore.deletePairingCode, Table.lookup_erase_self] at hdeleted
  cases hdeleted

/-- A saved record is loaded as it was just when its expiry is not negative as a signed number,
its owner is kept, and the rest of the database loads. -/
theorem load_saved_iff (hjson : ext.DecodesRendezvous) (hfits : entry.record.fits key)
    (hpayload : storedPayload ext entry.record = some payload) (hnow : now < entry.expiresAtMs) :
    (∃ inner st', (st.savePairingCode key (entry.row payload)).loadState ext config now =
        some (inner, st') ∧ inner.pairingCodes.lookup key = some entry) ↔
      entry.expiresAtMs < 2 ^ 63 ∧ st.staleOwner config now entry.daemonNodeId = false ∧
        ((st.deletePairingCode key).loadState ext config now).isSome = true := by
  constructor
  · rintro ⟨inner, st', hload, hentry⟩
    have hrebuilt := rebuilt_of_load hload
    obtain ⟨hd, ht, hn, hc⟩ := load_isSome_iff.mp (Option.isSome_iff_exists.mpr ⟨_, hload⟩)
    obtain ⟨rfl, -⟩ := RelayStore.loadState_eq_some.mp hload
    obtain ⟨row, hrow, hread⟩ := hrebuilt.pairingCodes.lookup hentry
    obtain rfl : row = entry.row payload := by
      rw [RelayStore.pruneExpiredRows_pairingCodes] at hrow
      have hsaved := (Table.lookup_retain.mp hrow).1
      rw [RelayStore.savePairingCode, Table.lookup_insert_self] at hsaved
      exact (Option.some.inj hsaved).symm
    have hexpiry : entry.expiresAtMs < 2 ^ 63 := by
      have hsigned := (loadPairingCode_fields hread).2
      rw [PairingCodeEntry.row_expiresAtMs] at hsigned
      have hlt := asI64_lt entry.expiresAtMs
      omega
    refine ⟨hexpiry, (saved_row_iff st key payload hnow hexpiry).mp hrow, load_isSome_iff.mpr ⟨hd, ht, hn, ?_⟩⟩
    intro k row hk
    by_cases hkey : k = key
    · rw [hkey, deleted_row_none] at hk
      cases hk
    · exact hc k row ((other_row_iff hkey _).mpr hk)
  · rintro ⟨hexpiry, howner, hrest⟩
    obtain ⟨hd, ht, hn, hc⟩ := load_isSome_iff.mp hrest
    have hrow := (saved_row_iff st key payload hnow hexpiry).mpr howner
    obtain ⟨payload', hpayload', hread⟩ := loadPairingCode_row hjson hfits hexpiry
    obtain rfl : payload' = payload := Option.some.inj (hpayload'.symm.trans hpayload)
    obtain ⟨⟨inner, st'⟩, hload⟩ : ∃ r, (st.savePairingCode key (entry.row payload')).loadState ext
        config now = some r := by
      rw [← Option.isSome_iff_exists]
      refine load_isSome_iff.mpr ⟨hd, ht, hn, fun k row hk => ?_⟩
      by_cases hkey : k = key
      · rw [hkey, hrow] at hk
        rw [hkey, ← Option.some.inj hk]
        exact ⟨entry, hread⟩
      · exact hc k row ((other_row_iff hkey _).mp hk)
    refine ⟨inner, st', hload, ?_⟩
    have hrebuilt := rebuilt_of_load hload
    obtain ⟨rfl, -⟩ := RelayStore.loadState_eq_some.mp hload
    obtain ⟨e, he, hread'⟩ := hrebuilt.pairingCodes.lookup_row hrow
    rw [he, ← hread', hread]

end Load

section Accepted

/-- The publication that a request is for. -/
def Handler.publication : Handler → Option (PublishPairingRequest × PublishPc)
  | .publish request pc => some (request, pc)
  | _ => none

def RelayTask.publication : RelayTask → Option (PublishPairingRequest × PublishPc)
  | .verify _ _ _ rest => rest.publication
  | .prove _ _ _ _ rest => rest.publication
  | .handle h => h.publication
  | .returned _ => none

/-- What a publication is going to save. -/
def PublishPc.saves : PublishPc → Option (String × PairingCodeEntry)
  | .deletingRows _ _ payload entry | .saving _ payload entry => some (payload, entry)
  | _ => none

/-- The kind of the record fits its key, and its payload is its own. -/
def Publishes (ext : Externals) (x : RelayTask) : Prop :=
  ∀ request pc, x.publication = some (request, pc) →
    (Handler.publish request pc).Fits ext ∧
      ∀ payload entry, pc.saves = some (payload, entry) →
        storedPayload ext entry.record = some payload

variable {ext : Externals} {c : RelayChoice} {s s' : RelayState} {x x' : RelayTask} {i : Nat}

theorem publishes_of_none (h : x.publication = none) : Publishes ext x :=
  fun request pc hx => by cases h.symm.trans hx

theorem publishes_publishStep {request : PublishPairingRequest} {pc : PublishPc}
    (h : Publishes ext (.handle (.publish request pc)))
    (hs : publishStep ext c request s pc = (s', x')) : Publishes ext x' := by
  obtain ⟨hfits, hsaves⟩ := h request pc rfl
  have hfits' := publishStep_fits hfits hs
  rcases publishStep_onward hs with ⟨pc', rfl⟩ | ⟨reply, rfl⟩
  · intro request' pc'' heq
    cases heq
    refine ⟨hfits', fun payload entry hp => ?_⟩
    cases pc with
    | checking =>
      simp only [publishStep] at hs
      repeat' split at hs
      all_goals cases hs
      cases hp
    | evicting key record expiresAtMs =>
      simp only [publishStep] at hs
      split at hs <;> cases hs
      cases hp
      exact ‹storedPayload ext _ = some _›
    | deletingRows superseded key payload' entry' =>
      cases superseded <;> cases hs <;> exact hsaves payload entry hp
    | saving =>
      simp only [publishStep] at hs
      split at hs <;> cases hs
      cases hp
    | inserting => cases hs
  · exact publishes_of_none rfl

theorem publishes_signedBy {r : SignedRequestContext} {limit : Bool} {pc : VerifyPc}
    {rest : Handler} {key : VerifyingKey} (h : Publishes ext (.verify r limit pc rest)) :
    Publishes ext (.handle (rest.signedBy key)) := by
  cases rest with
  | publish => exact h
  | registerDaemon call pc => cases pc <;> exact publishes_of_none rfl
  | registerToken | unregisterToken | push | resolve => exact publishes_of_none rfl

theorem publishes_of_arrives (h : x.arrives ext = true) : Publishes ext x := by
  intro request pc hx
  have hfits := fits_of_arrives h
  cases arrival_of_arrives h with
  | publish r request' hid =>
    cases hx
    exact ⟨hfits.1, fun _ _ h => by cases h⟩
  | registerDaemon | registerToken | unregisterToken | push | resolve => cases hx

theorem publishes_step (h : Publishes ext x) (hs : relayAdvance ext c i x s = some (s', x')) :
    Publishes ext x' := by
  cases x with
  | verify r limit pc rest =>
    rcases verify_advance hs with ⟨pc', -, rfl⟩ | ⟨key, -, rfl⟩ | ⟨e, -, rfl⟩
    · exact h
    · exact publishes_signedBy h
    · exact publishes_of_none rfl
  | prove id key proof pc rest =>
    rcases prove_advance hs with ⟨pc', -, rfl⟩ | ⟨-, rfl⟩ | ⟨e, -, rfl⟩
    · exact h
    · exact h
    · exact publishes_of_none rfl
  | handle hd =>
    have hstep := handle_advance hs
    cases hd with
    | publish request pc => exact publishes_publishStep h hstep
    | registerDaemon call pc =>
      rcases registerDaemonStep_onward hstep with ⟨pc', rfl⟩ | ⟨key, proof, rfl⟩ |
        ⟨nonce, tsMs, key, existing, rfl⟩ | ⟨reply, rfl⟩ <;> exact publishes_of_none rfl
    | registerToken request pc =>
      rcases registerTokenStep_onward hstep with ⟨pc', rfl⟩ | ⟨reply, rfl⟩ <;>
        exact publishes_of_none rfl
    | unregisterToken request pc =>
      rcases unregisterTokenStep_onward hstep with ⟨pc', rfl⟩ | ⟨reply, rfl⟩ <;>
        exact publishes_of_none rfl
    | push request pc =>
      rcases pushStep_onward hstep with ⟨pc', rfl⟩ | ⟨reply, rfl⟩ <;> exact publishes_of_none rfl
    | resolve code pc =>
      rcases resolveStep_onward hstep with ⟨pc', rfl⟩ | ⟨reply, rfl⟩ <;>
        exact publishes_of_none rfl
  | returned => cases hs

theorem publishes_noninterference (ext : Externals) : (relayTasking ext).Noninterference
    Machine.Any (fun _ => True) (fun _ _ x => Publishes ext x) where
  init _ _ := trivial
  fresh _ _ _ _ _ hx := publishes_of_arrives hx
  own _ i _ _ _ _ _ _ _ hL hs := ⟨trivial, publishes_step (i := i) hL hs⟩
  others _ _ _ _ _ _ _ _ _ _ _ _ _ _ _ hL := hL
  environment _ _ _ _ _ _ _ := ⟨trivial, fun _ _ _ _ hL => hL⟩

/-- An accepted publication, once its row is saved, is there after a restart before its expiry
just when the expiry is not negative as a signed number, its owner is not too old by then, and
the rest of the database loads. -/
theorem publish_survives_restart (hjson : ext.DecodesRendezvous) {p : Pool RelayState RelayTask}
    (h : (relayTasking ext).machine.Reachable p) {request : PublishPairingRequest}
    {key payload : String} {entry : PairingCodeEntry}
    (ht : p.task i = some (.handle (.publish request (.saving key payload entry))))
    (st : RelayStore) (config : RelayConfig) {now : Nat} (hnow : now < entry.expiresAtMs) :
    (∃ inner st', (st.savePairingCode key (entry.row payload)).loadState ext config now =
        some (inner, st') ∧ inner.pairingCodes.lookup key = some entry) ↔
      entry.expiresAtMs < 2 ^ 63 ∧ st.staleOwner config now entry.daemonNodeId = false ∧
        ((st.deletePairingCode key).loadState ext config now).isSome = true := by
  have hpublishes := ((publishes_noninterference ext).invariant h).2 i _ ht
  obtain ⟨⟨-, hfits⟩, hsaves⟩ := hpublishes request _ rfl
  exact load_saved_iff hjson hfits (hsaves payload entry rfl) hnow

end Accepted

section Traces

private def publisher : String := "daemon-publishing-codes"

/-- A registration, and two publications: one expires in a second, one at the end of time. -/
private def publisherScript : Externals :=
  .playingRendezvous ⟨[⟨publisher, keyText 'A', none, none, none⟩], [], [], [],
    [.legacy ⟨publisher, "ABCDE", "ticket-0123456789", 2000, "nonce-0000000001", 1000⟩,
      .legacy ⟨publisher, "ABCDE", "ticket-0123456789", u64Max, "nonce-0000000002", 1000⟩]⟩

/-- The daemon registers and its publication comes to save its row. -/
private def publishing (body : UInt8) : List (Move RelayTask RelayChoice RelayEvent) :=
  [arriving publisherScript 0 "/v1/pair" [0] none] ++ Move.repeated 5 0 RelayChoice.fine ++
    [arriving publisherScript 1 "/v1/pair/publish" [body] (signedBy 'A')] ++
    Move.repeated 9 1 RelayChoice.fine

/-- The publication that a request is about to save. -/
private def RelayTask.saving : RelayTask →
    Option (PublishPairingRequest × String × String × PairingCodeEntry)
  | .handle (.publish request (.saving key payload entry)) => some (request, key, payload, entry)
  | _ => none

private theorem task_of_saving {x : RelayTask} {request : PublishPairingRequest}
    {key payload : String} {entry : PairingCodeEntry}
    (h : x.saving = some (request, key, payload, entry)) :
    x = .handle (.publish request (.saving key payload entry)) := by
  unfold RelayTask.saving at h
  split at h <;> cases h
  rfl

/-- The code that expires in a second is there half a second later. -/
theorem publish_survives_restart_run :
    ∃ (p : Pool RelayState RelayTask) (st st' : RelayStore) (inner : RelayInner)
      (entry : PairingCodeEntry),
      (st.savePairingCode "ABCDE" (entry.row "ticket-0123456789")).loadState publisherScript
        p.shared.config 1500 = some (inner, st') ∧
      inner.pairingCodes.lookup "ABCDE" = some entry ∧ entry.expiresAtMs = 2000 := by
  obtain ⟨p, hr, htask⟩ :=
    (relayTasking publisherScript).machine.exists_reachable_of_exec Machine.Any
      (fun p => ((p.task 1).bind RelayTask.saving).any (fun r =>
        r.2.1 = "ABCDE" ∧ r.2.2.1 = "ticket-0123456789" ∧ r.2.2.2.expiresAtMs = 2000 ∧
          (p.shared.store.any fun st =>
            !st.staleOwner p.shared.config 1500 r.2.2.2.daemonNodeId &&
              ((st.deletePairingCode r.2.1).loadState publisherScript p.shared.config
                1500).isSome) = true) = true)
      (publishing 0) (Tasking.init_empty (RelayState.opened_new 1000 (.inr rfl)))
      (by decide)
  obtain ⟨⟨request, key, payload, entry⟩, hsaving, hentry⟩ := (Option.any_eq_true _ _).mp htask
  obtain ⟨x, hx, hsaving⟩ := Option.bind_eq_some_iff.mp hsaving
  obtain ⟨rfl, rfl, hexpiry, hstore⟩ := of_decide_eq_true hentry
  obtain ⟨st, -, hst⟩ := (Option.any_eq_true _ _).mp hstore
  rw [Bool.and_eq_true, Bool.not_eq_true'] at hst
  have hnow : 1500 < entry.expiresAtMs := by rw [hexpiry]; decide
  obtain ⟨inner, st', hload, hlookup⟩ := (publish_survives_restart (decodesRendezvous_playing _) hr
    (hx.trans (congrArg some (task_of_saving hsaving))) st p.shared.config hnow).mpr
    ⟨by rw [hexpiry]; decide, hst⟩
  exact ⟨p, st, st', inner, entry, hload, hlookup, hexpiry⟩

/-- The code that expires at the end of time is pruned by the next restart. -/
theorem publish_lost_in_restart :
    ¬ ∀ (ext : Externals) (p : Pool RelayState RelayTask) (i : Nat)
      (request : PublishPairingRequest) (key payload : String) (entry : PairingCodeEntry)
      (st : RelayStore) (now : Nat), ext.DecodesRendezvous →
      (relayTasking ext).machine.Reachable p →
      p.task i = some (.handle (.publish request (.saving key payload entry))) →
      p.shared.store = some st → p.shared.clock ≤ now → now < entry.expiresAtMs →
      ∃ inner st', (st.savePairingCode key (entry.row payload)).loadState ext p.shared.config now =
        some (inner, st') ∧ inner.pairingCodes.lookup key = some entry := by
  intro hall
  obtain ⟨p, hr, htask⟩ :=
    (relayTasking publisherScript).machine.exists_reachable_of_exec Machine.Any
      (fun p => ((p.task 1).bind RelayTask.saving).any (fun r =>
        p.shared.clock ≤ 1500 ∧ 1500 < r.2.2.2.expiresAtMs ∧ p.shared.store.any (fun st =>
          ((st.savePairingCode r.2.1 (r.2.2.2.row r.2.2.1)).loadState publisherScript
            p.shared.config 1500).all fun l => !l.1.pairingCodes.contains r.2.1) = true) = true)
      (publishing 1) (Tasking.init_empty (RelayState.opened_new 1000 (.inr rfl)))
      (by decide)
  obtain ⟨⟨request, key, payload, entry⟩, hsaving, hentry⟩ := (Option.any_eq_true _ _).mp htask
  obtain ⟨x, hx, hsaving⟩ := Option.bind_eq_some_iff.mp hsaving
  obtain ⟨hclock, hnow, hstore⟩ := of_decide_eq_true hentry
  obtain ⟨st, hst, hlost⟩ := (Option.any_eq_true _ _).mp hstore
  obtain ⟨inner, st', hload, hlookup⟩ := hall publisherScript p 1 request key payload entry st 1500
    (decodesRendezvous_playing _) hr (hx.trans (congrArg some (task_of_saving hsaving))) hst hclock
    hnow
  rw [hload, Option.all_some, Table.contains, hlookup] at hlost
  cases hlost

end Traces

end Shelly.Relay
