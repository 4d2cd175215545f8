import Shelly.Relay.Frames

namespace Shelly.Relay

/-- What the relay keeps both in memory and in the database. -/
inductive EntryKey
  | daemon (daemonNodeId : String)
  | token (pushToken : String)
  | code (code : String)
  deriving DecidableEq

/-- The row of a binding. -/
def TokenOwner.row (o : TokenOwner) : TokenRow :=
  ⟨o.daemonNodeId, platformAsStr o.platform, asI64 o.updatedAtMs⟩

/-- Memory has no such entry. -/
def RelayInner.lacks (inner : RelayInner) : EntryKey → Bool
  | .daemon id => !inner.daemons.contains id
  | .token t => !inner.tokens.contains t
  | .code k => !inner.pairingCodes.contains k

def RelayStore.has (st : RelayStore) : EntryKey → Bool
  | .daemon id => st.daemons.contains id
  | .token t => st.pushTokens.contains t
  | .code k => st.pairingCodes.contains k

def RelayStore.rowKeys (st : RelayStore) : List EntryKey :=
  st.daemons.entries.map (EntryKey.daemon ·.1) ++ st.pushTokens.entries.map (EntryKey.token ·.1) ++
    st.pairingCodes.entries.map (EntryKey.code ·.1)

/-- The row is what the entry would be rebuilt from: of a daemon its key, of the others all. -/
def Mirrored (ext : Externals) (st : RelayStore) (inner : RelayInner) : EntryKey → Prop
  | .daemon id =>
    (st.daemons.lookup id).map (fun row => (RelayStore.loadDaemon ext row).map (·.publicKey)) =
      (inner.daemons.lookup id).map fun r => some r.publicKey
  | .token t =>
    (st.pushTokens.lookup t).map RelayStore.loadToken = (inner.tokens.lookup t).map some
  | .code k =>
    (st.pairingCodes.lookup k).map (RelayStore.loadPairingCode ext k) =
      (inner.pairingCodes.lookup k).map some

def RelayState.Mirrors (ext : Externals) (e : EntryKey) (s : RelayState) : Prop :=
  ∀ st, s.store = some st → Mirrored ext st s.inner e

/-- The entries of which a request has written one side and not the other. -/
def Handler.pendsOn : Handler → List EntryKey
  | .registerDaemon call (.saving _ _) => [.daemon call.request.daemonNodeId]
  | .registerToken _ (.evicting evicted .memory) => [.token evicted]
  | .registerToken request (.inserting _) => [.token request.pushToken]
  | .unregisterToken request .memory => [.token request.pushToken]
  | .push request (.removing _ .memory) => [.token request.recipientToken]
  | .push request (.touchingMemory _) => [.token request.recipientToken]
  | .publish _ (.deletingRows superseded _ _ _) => superseded.map .code
  | .publish _ (.inserting key _) => [.code key]
  | .resolve _ (.forgettingRow key _ _) => [.code key]
  | .resolve _ (.deletingExpired key) => [.code key]
  | _ => []

def RelayTask.pendsOn : RelayTask → List EntryKey
  | .handle h => h.pendsOn
  | _ => []

/-- The memory is pruned and the database is not. -/
def RelayTask.prunesNext (x : RelayTask) : Bool := x.pruning.any fun r => decide (r.2 = .store)

/-- The second write of a request finds the other side as the first one left it. -/
def Handler.finds (ext : Externals) (st : RelayStore) (inner : RelayInner) : Handler → Bool
  | .registerDaemon call (.saving _ registration) =>
    (inner.daemons.lookup call.request.daemonNodeId).map (·.publicKey) =
      some registration.publicKey
  | .registerToken _ (.evicting evicted .memory) => !st.has (.token evicted)
  | .registerToken request (.inserting owner) =>
    st.pushTokens.lookup request.pushToken = some owner.row
  | .unregisterToken request .memory => !st.has (.token request.pushToken)
  | .push request (.removing _ .memory) => !st.has (.token request.recipientToken)
  | .push request (.touchingMemory now) =>
    st.pushTokens.lookup request.recipientToken =
      (inner.tokens.lookup request.recipientToken).map fun o => { o with updatedAtMs := now }.row
  | .publish _ (.deletingRows (stale :: _) _ _ _) => inner.lacks (.code stale)
  | .publish _ (.inserting key entry) =>
    st.pairingCodes.lookup key = (storedPayload ext entry.record).map entry.row &&
      decide (entry.expiresAtMs < 2 ^ 63)
  | .resolve _ (.forgettingRow key _ _) => inner.lacks (.code key)
  | .resolve _ (.deletingExpired key) => inner.lacks (.code key)
  | _ => true

/-- Another request is going to write the entry. -/
def othersWrite (p : Pool RelayState RelayTask) (i : Nat) (e : EntryKey) : Bool :=
  p.tasks.entries.any fun t => decide (t.1 ≠ i) && t.2.pendsOn.contains e

/-- Another request is going to prune the database. -/
def othersPrune (p : Pool RelayState RelayTask) (i : Nat) : Bool :=
  p.tasks.entries.any fun t => decide (t.1 ≠ i) && t.2.prunesNext

/-- The prune deletes just the rows whose entries the memory does not have. -/
def prunesAlike (p : Pool RelayState RelayTask) (i : Nat) (st pruned : RelayStore) : Bool :=
  st.rowKeys.all fun e =>
    othersWrite p i e ||
      if pruned.has e then !p.shared.inner.lacks e || othersPrune p i else p.shared.inner.lacks e

/-- What keeps memory and database in step. The database answers, the second write of an
entry finds the other side as the first one left it, unless another request is going to
write the entry, and no request is abandoned between its two writes. -/
def mirrorKept (ext : Externals) (p : Pool RelayState RelayTask) :
    Move RelayTask RelayChoice RelayEvent → Bool
  | .advance i c =>
    c.storeOk && decide (p.shared.clock + clockSkewMs < 2 ^ 63) &&
      p.shared.store.all fun st =>
        match p.task i with
        | some (.handle h) =>
          h.finds ext st p.shared.inner || h.pendsOn.head?.any (othersWrite p i)
        | some x =>
          x.pruning.all fun r =>
            decide (r.2 ≠ .store) ||
              prunesAlike p i st (st.pruneExpiredRows p.shared.config r.1)
        | none => true
  | .drop i => (p.task i).all fun x => decide (x.pendsOn = []) && !x.prunesNext
  | _ => true

section Fits

/-- The kind of a record fits the form of its code. -/
def PairingRecord.fits (key : String) : PairingRecord → Prop
  | .legacyTicket _ => isValidPairingLocator key = false
  | .reachability _ => isValidPairingLocator key = true

/-- What an endpoint is going to write can be read back from the database. -/
def Handler.Fits (ext : Externals) : Handler → Prop
  | .registerDaemon _ pc =>
    match pc with
    | .start => True
    | .observing key | .stamping key _ _ => ext.keyFromBytes key.bytes = some key
    | .inserting _ r _ | .saving _ r =>
      ext.keyFromBytes r.publicKey.bytes = some r.publicKey ∧ r.updatedAtMs < 2 ^ 63
    | .rollingBack _ _ => False
  | .registerToken _ pc =>
    match pc with
    | .saving o | .inserting o => o.updatedAtMs < 2 ^ 63
    | _ => True
  | .push _ pc =>
    match pc with
    | .touchingRow now | .touchingMemory now => now < 2 ^ 63
    | _ => True
  | .publish request pc => request.validate = true ∧
    match pc with
    | .checking => True
    | .evicting key record _ => record.fits key
    | .deletingRows _ key _ entry | .saving key _ entry | .inserting key entry =>
      entry.record.fits key
  | _ => True

def RelayTask.Fits (ext : Externals) : RelayTask → Prop
  | .verify r _ pc rest =>
    rest.Fits ext ∧ ∀ now, pc.now = some now → now < 2 ^ 63 ∧ r.tsMs < 2 ^ 63
  | .prove _ _ proof pc rest => rest.Fits ext ∧ (pc ≠ .start → proof.tsMs < 2 ^ 63)
  | .handle h => h.Fits ext
  | .returned _ => True

variable {ext : Externals} {c : RelayChoice} {s s' : RelayState} {x x' : RelayTask}

theorem keyFromBytes_bytes {bytes : List UInt8} {key : VerifyingKey}
    (h : ext.keyFromBytes bytes = some key) : ext.keyFromBytes key.bytes = some key := by
  have hbytes : key.bytes = bytes := by
    unfold Externals.keyFromBytes at h
    split at h
    · split at h
      · rw [← Option.some.inj h]
      · cases h
    · cases h
  rw [hbytes, h]

theorem decodePublicKey_fits {text : String} {key : VerifyingKey}
    (h : decodePublicKey ext text = .ok key) : ext.keyFromBytes key.bytes = some key := by
  unfold decodePublicKey at h
  repeat' split at h
  all_goals cases h
  exact keyFromBytes_bytes ‹_›

theorem signedBy_fits {key : VerifyingKey} {h : Handler} (hh : h.Fits ext) :
    (h.signedBy key).Fits ext := by
  cases h with
  | registerDaemon call pc => cases pc <;> exact hh
  | registerToken | unregisterToken | push | publish | resolve => exact hh

theorem parts_fits {request : PublishPairingRequest} {key : String} {record : PairingRecord}
    {expiresAtMs : Nat} (hvalid : request.validate = true)
    (h : request.parts = .ok (key, record, expiresAtMs)) : record.fits key := by
  cases request with
  | legacy r =>
    simp only [PublishPairingRequest.parts] at h
    split at h <;> cases h
    exact not_locator_of_legacy ‹_›
  | reachability r =>
    simp only [PublishPairingRequest.parts] at h
    split at h <;> cases h
    simp only [PublishPairingRequest.validate, Bool.and_eq_true] at hvalid
    exact hvalid.1.1.2

theorem lt_of_skew {now tsMs : Nat} (hskew : absDiff now tsMs ≤ clockSkewMs)
    (hnow : now + clockSkewMs < 2 ^ 63) : now < 2 ^ 63 ∧ tsMs < 2 ^ 63 := by
  unfold absDiff at hskew
  omega

theorem registerDaemonStep_fits {call : RegisterDaemonCall} {pc : RegisterDaemonPc}
    (hok : c.storeOk = true) (hclock : s.clock < 2 ^ 63)
    (hfits : (Handler.registerDaemon call pc).Fits ext)
    (hs : registerDaemonStep ext c call s pc = (s', x')) : x'.Fits ext := by
  cases pc with
  | start =>
    simp only [registerDaemonStep] at hs
    repeat' split at hs
    all_goals cases hs
    · trivial
    · trivial
    · exact ⟨decodePublicKey_fits ‹_›, fun h => absurd rfl h⟩
    · exact decodePublicKey_fits ‹_›
  | observing key =>
    simp only [registerDaemonStep] at hs
    repeat' split at hs
    all_goals cases hs
    · trivial
    · exact ⟨hfits, fun now h => by cases h⟩
    · trivial
    · exact hfits
  | stamping key existing signer => cases hs; exact ⟨hfits, hclock⟩
  | inserting existing registration signer =>
    simp only [registerDaemonStep] at hs
    repeat' split at hs
    all_goals cases hs
    · trivial
    · trivial
    · exact hfits
  | saving existing registration =>
    have hstores : s.stores c = true := by rw [RelayState.stores, hok, Bool.or_true]
    simp only [registerDaemonStep, hstores] at hs
    cases hs
    trivial
  | rollingBack => exact hfits.elim

theorem publishStep_fits {request : PublishPairingRequest} {pc : PublishPc}
    (hfits : (Handler.publish request pc).Fits ext)
    (hs : publishStep ext c request s pc = (s', x')) : x'.Fits ext := by
  obtain ⟨hvalid, hfits⟩ := hfits
  cases pc with
  | checking =>
    simp only [publishStep] at hs
    repeat' split at hs
    all_goals cases hs
    · trivial
    · trivial
    · exact ⟨hvalid, parts_fits hvalid ‹_›⟩
  | evicting | saving =>
    simp only [publishStep] at hs
    split at hs <;> cases hs
    · exact ⟨hvalid, hfits⟩
    · trivial
  | deletingRows superseded key payload entry =>
    cases superseded <;> cases hs <;> exact ⟨hvalid, hfits⟩
  | inserting => cases hs; trivial

theorem handlerStep_fits {h : Handler} (hok : c.storeOk = true) (hclock : s.clock < 2 ^ 63)
    (hfits : h.Fits ext) (hs : handlerStep ext c s h = (s', x')) : x'.Fits ext := by
  cases h with
  | registerDaemon call pc => exact registerDaemonStep_fits hok hclock hfits hs
  | publish request pc => exact publishStep_fits hfits hs
  | resolve code pc =>
    rcases resolveStep_onward hs with ⟨pc', rfl⟩ | ⟨reply, rfl⟩ <;> trivial
  | unregisterToken request pc =>
    rcases unregisterTokenStep_onward hs with ⟨pc', rfl⟩ | ⟨reply, rfl⟩ <;> trivial
  | registerToken request pc =>
    cases pc with
    | stamping => cases hs; exact hclock
    | checkingCap | evicting | saving =>
      simp only [handlerStep, registerTokenStep] at hs
      split at hs <;> cases hs <;> trivial
    | inserting => cases hs; trivial
  | push request pc =>
    cases pc with
    | checking | delivering | touchingRow =>
      simp only [handlerStep, pushStep] at hs
      repeat' split at hs
      all_goals cases hs
      all_goals trivial
    | removing =>
      simp only [handlerStep, pushStep] at hs
      split at hs <;> cases hs <;> trivial
    | touchingMemory => cases hs; trivial

theorem fits_step {i : Nat} (hok : c.storeOk = true) (hclock : s.clock + clockSkewMs < 2 ^ 63)
    (hfits : x.Fits ext) (hs : relayAdvance ext c i x s = some (s', x')) : x'.Fits ext := by
  cases x with
  | verify r limit pc rest =>
    obtain ⟨hrest, hnow⟩ := hfits
    rcases verify_advance hs with ⟨pc', h, rfl⟩ | ⟨key, -, rfl⟩ | ⟨e, -, rfl⟩
    · refine ⟨hrest, fun now hpc' => ?_⟩
      rcases verifyStep_now h with hsame | ⟨hread, hskew⟩
      · exact hnow now (hsame.symm.trans hpc')
      · obtain rfl := Option.some.inj (hread.symm.trans hpc')
        exact lt_of_skew hskew hclock
    · exact signedBy_fits hrest
    · trivial
  | prove daemonNodeId key proof pc rest =>
    obtain ⟨hrest, hts⟩ := hfits
    rcases prove_advance hs with ⟨pc', h, rfl⟩ | ⟨-, rfl⟩ | ⟨e, -, rfl⟩
    · refine ⟨hrest, fun _ => ?_⟩
      cases pc with
      | start =>
        simp only [proofStep] at h
        split at h
        · cases h
        · exact (lt_of_skew (Nat.le_of_not_lt ‹_›) hclock).2
      | pruning | markNonce | recordNonce => exact hts (by simp)
    · exact hrest
    · trivial
  | handle h => exact handlerStep_fits hok (by omega) hfits (handle_advance hs)
  | returned => cases hs

theorem fits_of_route {path : String} {body : List UInt8} {header : Option String}
    (h : route ext path body header = some x) : x.Fits ext := by
  unfold route at h
  split at h
  · obtain ⟨r, -, rfl⟩ := Option.map_eq_some_iff.mp h
    trivial
  · obtain ⟨r, -, rfl⟩ := Option.map_eq_some_iff.mp h
    exact ⟨trivial, fun now h => by cases h⟩
  · obtain ⟨r, -, rfl⟩ := Option.map_eq_some_iff.mp h
    exact ⟨trivial, fun now h => by cases h⟩
  · obtain ⟨r, -, rfl⟩ := Option.map_eq_some_iff.mp h
    exact ⟨trivial, fun now h => by cases h⟩
  · obtain ⟨r, hr, rfl⟩ := Option.map_eq_some_iff.mp h
    have hvalid : r.validate = true := (Option.filter_eq_some_iff.mp hr).2
    exact ⟨⟨hvalid, trivial⟩, fun now h => by cases h⟩
  · cases h

theorem fits_of_arrives (h : x.arrives ext = true) : x.Fits ext := by
  unfold RelayTask.arrives at h
  split at h
  · exact fits_of_route (of_decide_eq_true h)
  · exact fits_of_route (of_decide_eq_true h)
  · trivial
  · cases h

end Fits

section Sides

/-- Nothing has changed at the entry. -/
def RelayInner.SameAt (inner inner' : RelayInner) : EntryKey → Prop
  | .daemon id => (inner'.daemons.lookup id).map (·.publicKey) =
      (inner.daemons.lookup id).map (·.publicKey)
  | .token t => inner'.tokens.lookup t = inner.tokens.lookup t
  | .code k => inner'.pairingCodes.lookup k = inner.pairingCodes.lookup k

def RelayStore.SameAt (ext : Externals) (st st' : RelayStore) : EntryKey → Prop
  | .daemon id =>
    (st'.daemons.lookup id).map (fun row => (loadDaemon ext row).map (·.publicKey)) =
      (st.daemons.lookup id).map (fun row => (loadDaemon ext row).map (·.publicKey))
  | .token t => st'.pushTokens.lookup t = st.pushTokens.lookup t
  | .code k => st'.pairingCodes.lookup k = st.pairingCodes.lookup k

variable {ext : Externals} {st st' : RelayStore} {inner inner' : RelayInner} {e : EntryKey}

theorem RelayInner.SameAt.refl : inner.SameAt inner e := by cases e <;> rfl

theorem RelayStore.SameAt.refl : st.SameAt ext st e := by cases e <;> rfl

theorem Mirrored.of_same (hst : st.SameAt ext st' e) (hinner : inner.SameAt inner' e)
    (h : Mirrored ext st inner e) : Mirrored ext st' inner' e := by
  cases e with
  | daemon id =>
    have hkeys : (inner'.daemons.lookup id).map (fun r => some r.publicKey) =
        (inner.daemons.lookup id).map fun r => some r.publicKey := by
      have hsome := congrArg (Option.map some) hinner
      rw [Option.map_map, Option.map_map] at hsome
      exact hsome
    exact hst.trans (h.trans hkeys.symm)
  | token t => exact (congrArg _ hst).trans (h.trans (congrArg _ hinner.symm))
  | code k => exact (congrArg _ hst).trans (h.trans (congrArg _ hinner.symm))

theorem lacks_of_same (hinner : inner.SameAt inner' e) : inner'.lacks e = inner.lacks e := by
  cases e with
  | daemon id =>
    have h := congrArg Option.isSome hinner
    rw [Option.isSome_map, Option.isSome_map] at h
    exact congrArg Bool.not h
  | token t => exact congrArg (fun o => !Option.isSome o) hinner
  | code k => exact congrArg (fun o => !Option.isSome o) hinner

theorem lacks_eq_false_of_mirrored (h : Mirrored ext st inner e) : inner.lacks e = !st.has e := by
  cases e with
  | daemon id =>
    have h := congrArg Option.isSome h
    rw [Option.isSome_map, Option.isSome_map] at h
    exact congrArg Bool.not h.symm
  | token t =>
    have h := congrArg Option.isSome h
    rw [Option.isSome_map, Option.isSome_map] at h
    exact congrArg Bool.not h.symm
  | code k =>
    have h := congrArg Option.isSome h
    rw [Option.isSome_map, Option.isSome_map] at h
    exact congrArg Bool.not h.symm

theorem mirrored_of_absent (hlacks : inner.lacks e = true) (hhas : st.has e = false) :
    Mirrored ext st inner e := by
  cases e <;>
    simp_all [RelayInner.lacks, RelayStore.has, Mirrored, Table.contains_eq_false]

theorem sameAt_daemons {daemons : Table String DaemonRegistration} {id : String}
    (h : ∀ id', id' ≠ id → daemons.lookup id' = inner.daemons.lookup id') (he : e ≠ .daemon id) :
    inner.SameAt { inner with daemons } e := by
  cases e with
  | daemon id' => exact congrArg _ (h id' fun hid => he (congrArg _ hid))
  | token | code => rfl

theorem sameAt_tokens {tokens : Table String TokenOwner} {t : String}
    (h : ∀ t', t' ≠ t → tokens.lookup t' = inner.tokens.lookup t') (he : e ≠ .token t) :
    inner.SameAt { inner with tokens } e := by
  cases e with
  | token t' => exact h t' fun ht => he (congrArg _ ht)
  | daemon | code => rfl

theorem sameAt_codes {pairingCodes : Table String PairingCodeEntry} {k : String}
    (h : ∀ k', k' ≠ k → pairingCodes.lookup k' = inner.pairingCodes.lookup k')
    (he : e ≠ .code k) : inner.SameAt { inner with pairingCodes } e := by
  cases e with
  | code k' => exact h k' fun hk => he (congrArg _ hk)
  | daemon | token => rfl

theorem sameAt_daemonRows {daemons : Table String DaemonRow} {id : String}
    (h : ∀ id', id' ≠ id → daemons.lookup id' = st.daemons.lookup id') (he : e ≠ .daemon id) :
    st.SameAt ext { st with daemons } e := by
  cases e with
  | daemon id' => exact congrArg _ (h id' fun hid => he (congrArg _ hid))
  | token | code => rfl

theorem sameAt_tokenRows {pushTokens : Table String TokenRow} {t : String}
    (h : ∀ t', t' ≠ t → pushTokens.lookup t' = st.pushTokens.lookup t') (he : e ≠ .token t) :
    st.SameAt ext { st with pushTokens } e := by
  cases e with
  | token t' => exact h t' fun ht => he (congrArg _ ht)
  | daemon | code => rfl

theorem sameAt_codeRows {pairingCodes : Table String PairingCodeRow} {k : String}
    (h : ∀ k', k' ≠ k → pairingCodes.lookup k' = st.pairingCodes.lookup k') (he : e ≠ .code k) :
    st.SameAt ext { st with pairingCodes } e := by
  cases e with
  | code k' => exact h k' fun hk => he (congrArg _ hk)
  | daemon | token => rfl

theorem sameAt_of_absent (h : st.has e = false) (h' : st'.has e = false) :
    st.SameAt ext st' e := by
  cases e <;> simp_all [RelayStore.has, RelayStore.SameAt, Table.contains_eq_false]

/-- What two memories have in common with the same rows, they have in common. -/
theorem sameAt_of_mirrored (h : Mirrored ext st inner e) (h' : Mirrored ext st inner' e) :
    inner.SameAt inner' e := by
  have hinj {α : Type} : Function.Injective (Option.map (some : α → Option α)) :=
    Option.map_injective (Option.some_injective α)
  cases e with
  | daemon id =>
    have hkeys := h'.symm.trans h
    rw [show (fun r : DaemonRegistration => some r.publicKey) = some ∘ (·.publicKey) from rfl,
      ← Option.map_map, ← Option.map_map] at hkeys
    exact hinj hkeys
  | token t => exact hinj (h'.symm.trans h)
  | code k => exact hinj (h'.symm.trans h)

/-- A row that loads, if memory has its entry. -/
theorem Mirrored.loads_token {t : String} {row : TokenRow} (h : Mirrored ext st inner (.token t))
    (hrow : st.pushTokens.lookup t = some row) : ∃ o, RelayStore.loadToken row = some o := by
  simp only [Mirrored, hrow] at h
  obtain ⟨o, -, ho⟩ := Option.map_eq_some_iff.mp h.symm
  exact ⟨o, ho.symm⟩

theorem Mirrored.loads_code {k : String} {row : PairingCodeRow}
    (h : Mirrored ext st inner (.code k)) (hrow : st.pairingCodes.lookup k = some row) :
    ∃ entry, RelayStore.loadPairingCode ext k row = some entry := by
  simp only [Mirrored, hrow] at h
  obtain ⟨entry, -, hentry⟩ := Option.map_eq_some_iff.mp h.symm
  exact ⟨entry, hentry.symm⟩

theorem Mirrored.loads_daemon {id : String} {row : DaemonRow}
    (h : Mirrored ext st inner (.daemon id)) (hrow : st.daemons.lookup id = some row) :
    ∃ r, RelayStore.loadDaemon ext row = some r := by
  simp only [Mirrored, hrow] at h
  obtain ⟨r, -, hr⟩ := Option.map_eq_some_iff.mp h.symm
  obtain ⟨registration, hload, -⟩ := Option.map_eq_some_iff.mp hr.symm
  exact ⟨registration, hload⟩

end Sides

section Rows

variable {ext : Externals}

theorem toU64_asI64 {n : Nat} (h : n < 2 ^ 63) : RelayStore.toU64 (asI64 n) = some n := by
  rw [asI64_of_lt h, RelayStore.toU64, if_pos (Int.natCast_nonneg n)]
  rfl

theorem loadDaemon_row {r : DaemonRegistration}
    (hkey : ext.keyFromBytes r.publicKey.bytes = some r.publicKey) (h : r.updatedAtMs < 2 ^ 63) :
    RelayStore.loadDaemon ext ⟨r.publicKey.bytes, asI64 r.updatedAtMs⟩ = some r := by
  simp only [RelayStore.loadDaemon, hkey, toU64_asI64 h]
  rfl

theorem loadDaemon_touched {row : DaemonRow} {key : VerifyingKey} {now : Nat} (hnow : now < 2 ^ 63)
    (h : (RelayStore.loadDaemon ext row).map (·.publicKey) = some key) :
    (RelayStore.loadDaemon ext { row with updatedAtMs := asI64 now }).map (·.publicKey) =
      some key := by
  obtain ⟨registration, hload, rfl⟩ := Option.map_eq_some_iff.mp h
  simp only [RelayStore.loadDaemon, Option.bind_eq_bind, Option.bind_eq_some_iff] at hload ⊢
  obtain ⟨publicKey, hkey, updatedAtMs, -, heq⟩ := hload
  cases heq
  simp only [hkey, toU64_asI64 hnow]
  rfl

theorem loadToken_row {o : TokenOwner} (h : o.updatedAtMs < 2 ^ 63) :
    RelayStore.loadToken o.row = some o := by
  have hplatform : platformFromDb (platformAsStr o.platform) = some o.platform := by
    cases o.platform <;> rfl
  simp only [RelayStore.loadToken, TokenOwner.row, hplatform, toU64_asI64 h]
  rfl

theorem loadPairingCode_row (hjson : ext.DecodesRendezvous) {key : String} {entry : PairingCodeEntry}
    (hfits : entry.record.fits key) (h : entry.expiresAtMs < 2 ^ 63) :
    ∃ payload, storedPayload ext entry.record = some payload ∧
      RelayStore.loadPairingCode ext key (entry.row payload) = some entry := by
  obtain ⟨daemonNodeId, record, expiresAtMs, publication⟩ := entry
  cases record with
  | legacyTicket ticketBlob =>
    refine ⟨ticketBlob, rfl, ?_⟩
    have hkind : isValidPairingLocator key = false := hfits
    simp only [RelayStore.loadPairingCode, PairingCodeEntry.row, hkind, toU64_asI64 h]
    rfl
  | reachability rendezvous =>
    obtain ⟨text, henc, hdec⟩ := hjson rendezvous
    refine ⟨text, henc, ?_⟩
    have hkind : isValidPairingLocator key = true := hfits
    simp only [RelayStore.loadPairingCode, PairingCodeEntry.row, hkind, hdec, toU64_asI64 h]
    rfl

end Rows

section Steps

variable {ext : Externals} {p : Pool RelayState RelayTask} {c : RelayChoice} {s' : RelayState}
  {i : Nat} {x x' : RelayTask} {h : Handler} {e : EntryKey}

/-- What a step does at an entry. It changes nothing there, or the request has still to write
the other side, or both sides are the same, or another request is going to write the entry,
or memory has no entry and a prune of the database is to come. -/
inductive Outcome (ext : Externals) (p : Pool RelayState RelayTask) (i : Nat) (x x' : RelayTask)
    (s' : RelayState) (e : EntryKey) : Prop
  | quiet : (p.shared.Mirrors ext e → s'.Mirrors ext e) →
      s'.inner.lacks e = p.shared.inner.lacks e → (e ∈ x.pendsOn → e ∈ x'.pendsOn) →
      (x.prunesNext = true → p.shared.inner.lacks e = false) → Outcome ext p i x x' s' e
  | opened : e ∈ x'.pendsOn → Outcome ext p i x x' s' e
  | closed : s'.Mirrors ext e → Outcome ext p i x x' s' e
  | handed : othersWrite p i e = true → Outcome ext p i x x' s' e
  | forgotten : s'.inner.lacks e = true → x'.prunesNext = true ∨ othersPrune p i = true →
      Outcome ext p i x x' s' e

theorem Outcome.memory (hstore : s'.store = p.shared.store)
    (hinner : p.shared.inner.SameAt s'.inner e) (hpends : e ∈ x.pendsOn → e ∈ x'.pendsOn)
    (hprunes : x.prunesNext = false) : Outcome ext p i x x' s' e := by
  refine .quiet (fun hm st hst => ?_) (lacks_of_same hinner) hpends
    fun h => by cases hprunes.symm.trans h
  exact (hm st (hstore ▸ hst)).of_same .refl hinner

theorem Outcome.rows {f : RelayStore → RelayStore} (hstore : s'.store = p.shared.store.map f)
    (hinner : s'.inner = p.shared.inner) (hf : ∀ st, RelayStore.SameAt ext st (f st) e)
    (hpends : e ∈ x.pendsOn → e ∈ x'.pendsOn) (hprunes : x.prunesNext = false) :
    Outcome ext p i x x' s' e := by
  refine .quiet (fun hm st' hst' => ?_) (by rw [hinner]) hpends
    fun h => by cases hprunes.symm.trans h
  rw [hstore] at hst'
  obtain ⟨st, hst, rfl⟩ := Option.map_eq_some_iff.mp hst'
  rw [hinner]
  exact (hm st hst).of_same (hf st) .refl

theorem finds_or_handed (hc : mirrorKept ext p (.advance i c) = true)
    (ht : p.task i = some (.handle h)) (he : h.pendsOn.head? = some e) :
    (∀ st, p.shared.store = some st → h.finds ext st p.shared.inner = true) ∨
      othersWrite p i e = true := by
  simp only [mirrorKept, Bool.and_eq_true, ht] at hc
  cases hst : p.shared.store with
  | none => exact .inl fun st h => by cases h
  | some st =>
    rw [hst, Option.all_some, he, Option.any_some, Bool.or_eq_true] at hc
    refine hc.2.imp_left fun hf st' hst' => ?_
    cases hst'
    exact hf

theorem stores_of_kept (hc : mirrorKept ext p (.advance i c) = true) {s : RelayState} :
    s.stores c = true := by
  simp only [mirrorKept, Bool.and_eq_true] at hc
  rw [RelayState.stores, hc.1.1, Bool.or_true]

theorem registerDaemon_outcome {call : RegisterDaemonCall} {pc : RegisterDaemonPc}
    (hc : mirrorKept ext p (.advance i c) = true)
    (ht : p.task i = some (.handle (.registerDaemon call pc)))
    (hfits : (Handler.registerDaemon call pc).Fits ext)
    (hs : registerDaemonStep ext c call p.shared pc = (s', x')) :
    Outcome ext p i (.handle (.registerDaemon call pc)) x' s' e := by
  cases pc with
  | start | observing =>
    simp only [registerDaemonStep] at hs
    repeat' split at hs
    all_goals cases hs
    all_goals exact .memory rfl .refl (fun h => by cases h) rfl
  | stamping => cases hs; exact .memory rfl .refl (fun h => by cases h) rfl
  | inserting existing registration signer =>
    simp only [registerDaemonStep] at hs
    repeat' split at hs
    all_goals cases hs
    · exact .memory rfl .refl (fun h => by cases h) rfl
    · exact .memory rfl .refl (fun h => by cases h) rfl
    · by_cases he : e = .daemon call.request.daemonNodeId
      · exact .opened (List.mem_singleton.mpr he)
      · exact .memory rfl (sameAt_daemons (fun _ h => Table.lookup_insert_ne _ _ h) he)
          (fun h => by cases h) rfl
  | saving existing registration =>
    simp only [registerDaemonStep, stores_of_kept hc] at hs
    cases hs
    by_cases he : e = .daemon call.request.daemonNodeId
    · subst he
      rcases finds_or_handed hc ht rfl with hf | hw
      · refine .closed fun st' hst' => ?_
        obtain ⟨st, hst, rfl⟩ := Option.map_eq_some_iff.mp hst'
        have hkey : (p.shared.inner.daemons.lookup call.request.daemonNodeId).map (·.publicKey) =
            some registration.publicKey := of_decide_eq_true (hf st hst)
        obtain ⟨r, hr, hrk⟩ := Option.map_eq_some_iff.mp hkey
        have hrow : (st.saveDaemon call.request.daemonNodeId registration).daemons.lookup
            call.request.daemonNodeId =
              some ⟨registration.publicKey.bytes, asI64 registration.updatedAtMs⟩ :=
          Table.lookup_insert_self _ _ _
        have hload := loadDaemon_row hfits.1 hfits.2
        simp only [Mirrored, RelayState.updateStore, hrow, hr, Option.map_some, hload, hrk]
      · exact .handed hw
    · refine .rows rfl rfl (fun st => ?_) (fun h => absurd (List.mem_singleton.mp h) he) rfl
      exact sameAt_daemonRows (fun _ h => Table.lookup_insert_ne _ _ h) he
  | rollingBack => exact hfits.elim

/-- The row of a binding is deleted first, then its entry. -/
theorem removal_outcome {t : String} {pc : RemovalPc} {r : Progress RemovalPc Unit}
    (hc : mirrorKept ext p (.advance i c) = true) (ht : p.task i = some (.handle h))
    (hpends : h.pendsOn = if pc = .memory then [.token t] else [])
    (hfinds : pc = .memory → ∀ st, h.finds ext st p.shared.inner = !st.has (.token t))
    (hx' : pc = .row → x'.pendsOn = [.token t])
    (hs : removalStep c t p.shared pc = (s', r)) : Outcome ext p i (.handle h) x' s' e := by
  cases pc with
  | row =>
    simp only [removalStep, stores_of_kept hc] at hs
    cases hs
    by_cases he : e = .token t
    · exact .opened (by rw [hx' rfl, he]; exact List.mem_singleton_self _)
    · refine .rows rfl rfl (fun st => ?_) (fun hm => ?_) rfl
      · exact sameAt_tokenRows (fun _ h => Table.lookup_erase_ne _ h) he
      · rw [RelayTask.pendsOn, hpends] at hm
        cases hm
  | memory =>
    cases hs
    by_cases he : e = .token t
    · subst he
      rcases finds_or_handed hc ht (by rw [hpends]; rfl) with hf | hw
      · refine .closed fun st hst => mirrored_of_absent ?_ ?_
        · exact congrArg Bool.not (Table.contains_eq_false.mpr (Table.lookup_erase_self _ _))
        · have hnone := hf st hst
          rw [hfinds rfl st, Bool.not_eq_true'] at hnone
          exact hnone
      · exact .handed hw
    · refine .memory rfl (sameAt_tokens (fun _ h => Table.lookup_erase_ne _ h) he) (fun hm => ?_) rfl
      rw [RelayTask.pendsOn, hpends] at hm
      exact absurd (List.mem_singleton.mp hm) he

theorem registerToken_outcome {request : RegisterTokenRequest} {pc : RegisterTokenPc}
    (hc : mirrorKept ext p (.advance i c) = true)
    (ht : p.task i = some (.handle (.registerToken request pc)))
    (hfits : (Handler.registerToken request pc).Fits ext)
    (hs : registerTokenStep c request p.shared pc = (s', x')) :
    Outcome ext p i (.handle (.registerToken request pc)) x' s' e := by
  cases pc with
  | checkingCap =>
    simp only [registerTokenStep] at hs
    split at hs <;> cases hs <;> exact .memory rfl .refl (fun h => by cases h) rfl
  | evicting evicted pc =>
    obtain ⟨t, r, hstep⟩ : ∃ t r, removalStep c evicted p.shared pc = (t, r) := ⟨_, _, rfl⟩
    have hout {x' : RelayTask} (hx' : pc = .row → x'.pendsOn = [.token evicted]) :
        Outcome ext p i (.handle (.registerToken request (.evicting evicted pc))) x' t e :=
      removal_outcome hc ht (by cases pc <;> rfl) (by rintro rfl; exact fun _ => rfl) hx' hstep
    simp only [registerTokenStep, hstep] at hs
    cases pc with
    | row =>
      simp only [removalStep, stores_of_kept hc] at hstep
      cases hstep
      cases hs
      exact hout fun _ => rfl
    | memory =>
      cases hstep
      cases hs
      exact hout fun h => by cases h
  | stamping => cases hs; exact .memory rfl .refl (fun h => by cases h) rfl
  | saving owner =>
    simp only [registerTokenStep, stores_of_kept hc] at hs
    cases hs
    by_cases he : e = .token request.pushToken
    · exact .opened (List.mem_singleton.mpr he)
    · refine .rows rfl rfl (fun st => ?_) (fun h => by cases h) rfl
      exact sameAt_tokenRows (fun _ h => Table.lookup_insert_ne _ _ h) he
  | inserting owner =>
    cases hs
    by_cases he : e = .token request.pushToken
    · subst he
      rcases finds_or_handed hc ht rfl with hf | hw
      · refine .closed fun st hst => ?_
        have hrow : st.pushTokens.lookup request.pushToken = some owner.row :=
          of_decide_eq_true (hf st hst)
        have hload : RelayStore.loadToken owner.row = some owner := loadToken_row hfits
        have hentry : (p.shared.setToken request.pushToken owner).inner.tokens.lookup
            request.pushToken = some owner := Table.lookup_insert_self _ _ _
        simp only [Mirrored, hrow, hentry, Option.map_some, hload]
      · exact .handed hw
    · exact .memory rfl (sameAt_tokens (fun _ h => Table.lookup_insert_ne _ _ h) he)
        (fun h => absurd (List.mem_singleton.mp h) he) rfl

theorem unregisterToken_outcome {request : UnregisterTokenRequest} {pc : RemovalPc}
    (hc : mirrorKept ext p (.advance i c) = true)
    (ht : p.task i = some (.handle (.unregisterToken request pc)))
    (hs : unregisterTokenStep c request p.shared pc = (s', x')) :
    Outcome ext p i (.handle (.unregisterToken request pc)) x' s' e := by
  obtain ⟨t, r, hstep⟩ : ∃ t r, removalStep c request.pushToken p.shared pc = (t, r) :=
    ⟨_, _, rfl⟩
  have hout {x' : RelayTask} (hx' : pc = .row → x'.pendsOn = [.token request.pushToken]) :
      Outcome ext p i (.handle (.unregisterToken request pc)) x' t e :=
    removal_outcome hc ht (by cases pc <;> rfl) (by rintro rfl; exact fun _ => rfl) hx' hstep
  simp only [unregisterTokenStep, hstep] at hs
  cases pc with
  | row =>
    simp only [removalStep, stores_of_kept hc] at hstep
    cases hstep
    cases hs
    exact hout fun _ => rfl
  | memory =>
    cases hstep
    cases hs
    exact hout fun h => by cases h

theorem push_outcome {request : PushRequest} {pc : PushPc}
    (hc : mirrorKept ext p (.advance i c) = true)
    (ht : p.task i = some (.handle (.push request pc)))
    (hfits : (Handler.push request pc).Fits ext)
    (hs : pushStep c request p.shared pc = (s', x')) :
    Outcome ext p i (.handle (.push request pc)) x' s' e := by
  cases pc with
  | checking | delivering =>
    simp only [pushStep] at hs
    repeat' split at hs
    all_goals cases hs
    all_goals exact .memory rfl .refl (fun h => by cases h) rfl
  | removing cause pc =>
    obtain ⟨t, r, hstep⟩ : ∃ t r, removalStep c request.recipientToken p.shared pc = (t, r) :=
      ⟨_, _, rfl⟩
    have hout {x' : RelayTask} (hx' : pc = .row → x'.pendsOn = [.token request.recipientToken]) :
        Outcome ext p i (.handle (.push request (.removing cause pc))) x' t e :=
      removal_outcome hc ht (by cases pc <;> rfl) (by rintro rfl; exact fun _ => rfl) hx' hstep
    simp only [pushStep, hstep] at hs
    cases pc with
    | row =>
      simp only [removalStep, stores_of_kept hc] at hstep
      cases hstep
      cases hs
      exact hout fun _ => rfl
    | memory =>
      cases hstep
      cases hs
      exact hout fun h => by cases h
  | touchingRow now =>
    simp only [pushStep, stores_of_kept hc] at hs
    cases hs
    by_cases he : e = .token request.recipientToken
    · exact .opened (List.mem_singleton.mpr he)
    · refine .rows rfl rfl (fun st => ?_) (fun h => by cases h) rfl
      exact sameAt_tokenRows (fun _ h => Table.lookup_modify_ne _ _ h) he
  | touchingMemory now =>
    cases hs
    by_cases he : e = .token request.recipientToken
    · subst he
      rcases finds_or_handed hc ht rfl with hf | hw
      · refine .closed fun st hst => ?_
        have hrow := of_decide_eq_true (hf st hst)
        have hentry : (p.shared.touchToken request.recipientToken now).inner.tokens.lookup
            request.recipientToken = (p.shared.inner.tokens.lookup request.recipientToken).map
              fun o => { o with updatedAtMs := now } :=
          (Table.lookup_modify _ _ _ _).trans (if_pos rfl)
        simp only [Mirrored, hrow, hentry, Option.map_map]
        congr 1
        funext o
        have hnow : ({ o with updatedAtMs := now } : TokenOwner).updatedAtMs < 2 ^ 63 := hfits
        exact loadToken_row hnow
      · exact .handed hw
    · exact .memory rfl (sameAt_tokens (fun _ h => Table.lookup_modify_ne _ _ h) he)
        (fun h => absurd (List.mem_singleton.mp h) he) rfl

theorem storeOk_of_kept (hc : mirrorKept ext p (.advance i c) = true) : c.storeOk = true := by
  simp only [mirrorKept, Bool.and_eq_true] at hc
  exact hc.1.1

theorem lookup_evictCodes {inner : RelayInner} {daemonNodeId keep k : String}
    (hk : k ∉ inner.supersededCodes daemonNodeId keep) :
    (inner.evictCodesForDaemon daemonNodeId keep).pairingCodes.lookup k =
      inner.pairingCodes.lookup k := by
  ext entry
  rw [RelayInner.evictCodesForDaemon, Table.lookup_retain, and_iff_left_iff_imp]
  intro hentry
  rw [Bool.not_eq_true', decide_eq_false_iff_not]
  intro hsuperseded
  refine hk (List.mem_map.mpr ⟨⟨k, entry⟩, ?_, rfl⟩)
  exact List.mem_filter.mpr ⟨Table.mem_entries.mpr hentry, decide_eq_true hsuperseded⟩

theorem publish_outcome (hjson : ext.DecodesRendezvous) {request : PublishPairingRequest}
    {pc : PublishPc} (hc : mirrorKept ext p (.advance i c) = true)
    (ht : p.task i = some (.handle (.publish request pc)))
    (hfits : (Handler.publish request pc).Fits ext)
    (hs : publishStep ext c request p.shared pc = (s', x')) :
    Outcome ext p i (.handle (.publish request pc)) x' s' e := by
  cases pc with
  | checking =>
    simp only [publishStep] at hs
    repeat' split at hs
    all_goals cases hs
    all_goals exact .memory rfl .refl (fun h => by cases h) rfl
  | evicting key record expiresAtMs =>
    simp only [publishStep] at hs
    split at hs <;> cases hs
    · by_cases he : e ∈ (p.shared.inner.supersededCodes request.daemonNodeId key).map .code
      · exact .opened he
      · refine .memory rfl ?_ (fun h => by cases h) rfl
        cases e with
        | code k => exact lookup_evictCodes fun hk => he (List.mem_map.mpr ⟨k, hk, rfl⟩)
        | daemon | token => rfl
    · rename_i hnone
      cases record with
      | legacyTicket => cases hnone
      | reachability rendezvous =>
        obtain ⟨text, henc, -⟩ := hjson rendezvous
        cases henc.symm.trans hnone
  | deletingRows superseded key payload entry =>
    cases superseded with
    | nil => cases hs; exact .memory rfl .refl (fun h => by cases h) rfl
    | cons stale superseded =>
      simp only [publishStep, storeOk_of_kept hc, if_true] at hs
      cases hs
      by_cases he : e = .code stale
      · subst he
        rcases finds_or_handed hc ht rfl with hf | hw
        · refine .closed fun st' hst' => ?_
          obtain ⟨st, hst, rfl⟩ := Option.map_eq_some_iff.mp hst'
          exact mirrored_of_absent (hf st hst)
            (Table.contains_eq_false.mpr (Table.lookup_erase_self _ _))
        · exact .handed hw
      · refine .rows rfl rfl (fun st => ?_) (fun hm => ?_) rfl
        · exact sameAt_codeRows (fun _ h => Table.lookup_erase_ne _ h) he
        · exact (List.mem_cons.mp hm).resolve_left he
  | saving key payload entry =>
    simp only [publishStep, stores_of_kept hc] at hs
    cases hs
    by_cases he : e = .code key
    · exact .opened (List.mem_singleton.mpr he)
    · refine .rows rfl rfl (fun st => ?_) (fun h => by cases h) rfl
      exact sameAt_codeRows (fun _ h => Table.lookup_insert_ne _ _ h) he
  | inserting key entry =>
    cases hs
    by_cases he : e = .code key
    · subst he
      rcases finds_or_handed hc ht rfl with hf | hw
      · refine .closed fun st hst => ?_
        have hfound := hf st hst
        simp only [Handler.finds, Bool.and_eq_true, decide_eq_true_eq] at hfound
        obtain ⟨payload, hpayload, hload⟩ := loadPairingCode_row hjson hfits.2 hfound.2
        have hentry : (p.shared.setPairingCode key entry).inner.pairingCodes.lookup key =
            some entry := Table.lookup_insert_self _ _ _
        simp only [Mirrored, RelayState.notePublished, hfound.1, hpayload, hentry,
          Option.map_some, hload]
      · exact .handed hw
    · exact .memory rfl (sameAt_codes (fun _ h => Table.lookup_insert_ne _ _ h) he)
        (fun h => absurd (List.mem_singleton.mp h) he) rfl

/-- A code is forgotten by the memory first, then by the database. -/
theorem forgetting_outcome {key : String} (hc : mirrorKept ext p (.advance i c) = true)
    (ht : p.task i = some (.handle h)) (hpends : h.pendsOn = [.code key])
    (hfinds : ∀ st, h.finds ext st p.shared.inner = p.shared.inner.lacks (.code key))
    (hinner : s'.inner = p.shared.inner)
    (hstore : s'.store = p.shared.store.map fun st => st.deletePairingCode key) :
    Outcome ext p i (.handle h) x' s' e := by
  by_cases he : e = .code key
  · subst he
    rcases finds_or_handed hc ht (by rw [hpends]; rfl) with hf | hw
    · refine .closed fun st' hst' => ?_
      rw [hstore] at hst'
      obtain ⟨st, hst, rfl⟩ := Option.map_eq_some_iff.mp hst'
      rw [hinner]
      exact mirrored_of_absent (hfinds st ▸ hf st hst)
        (Table.contains_eq_false.mpr (Table.lookup_erase_self _ _))
    · exact .handed hw
  · refine .rows hstore hinner (fun st => ?_) (fun hm => ?_) rfl
    · exact sameAt_codeRows (fun _ h => Table.lookup_erase_ne _ h) he
    · rw [RelayTask.pendsOn, hpends] at hm
      exact absurd (List.mem_singleton.mp hm) he

theorem resolve_outcome {code : String} {pc : ResolvePc}
    (hc : mirrorKept ext p (.advance i c) = true)
    (ht : p.task i = some (.handle (.resolve code pc)))
    (hs : resolveStep c code p.shared pc = (s', x')) :
    Outcome ext p i (.handle (.resolve code pc)) x' s' e := by
  -- The entry is gone and the deletion of the row is to come.
  have forgot {key : String} {x x' : RelayTask} {s' : RelayState} (hx : x.pendsOn = [])
      (hx' : x'.pendsOn = [.code key]) (hprunes : x.prunesNext = false)
      (hstore : s'.store = p.shared.store)
      (hinner : s'.inner = (p.shared.removePairingCode key).inner) :
      Outcome ext p i x x' s' e := by
    by_cases he : e = .code key
    · exact .opened (by rw [hx', he]; exact List.mem_singleton_self _)
    · refine .memory hstore ?_ (fun h => by rw [hx] at h; cases h) hprunes
      rw [hinner]
      exact sameAt_codes (fun _ h => Table.lookup_erase_ne _ h) he
  cases pc with
  | start =>
    simp only [resolveStep] at hs
    repeat' split at hs
    all_goals cases hs
    all_goals exact .memory rfl .refl (fun h => by cases h) rfl
  | looking key =>
    simp only [resolveStep] at hs
    split at hs
    · cases hs
      exact .memory rfl .refl (fun h => by cases h) rfl
    · split at hs <;> cases hs
      · exact forgot rfl rfl rfl rfl rfl
      · exact .memory rfl .refl (fun h => by cases h) rfl
  | forgettingMemory key record publication =>
    cases hs
    exact forgot rfl rfl rfl rfl rfl
  | forgettingRow key record publication =>
    simp only [resolveStep, storeOk_of_kept hc, if_true] at hs
    cases hs
    exact forgetting_outcome hc ht rfl (fun _ => rfl) rfl rfl
  | deletingExpired key =>
    simp only [resolveStep, storeOk_of_kept hc, if_true] at hs
    cases hs
    exact forgetting_outcome hc ht rfl (fun _ => rfl) rfl rfl

/-- A prune of the memory keeps an entry or drops it. -/
theorem sameAt_pruneExpired {inner : RelayInner} {config : RelayConfig} {now : Nat}
    (hlacks : (inner.pruneExpired config now).lacks e = false) :
    inner.SameAt (inner.pruneExpired config now) e := by
  cases e with
  | daemon id =>
    rw [RelayInner.lacks, Bool.not_eq_false'] at hlacks
    refine congrArg (Option.map _) (Table.Includes.lookup_eq ?_ hlacks)
    rw [RelayInner.pruneExpired]
    split
    · exact Table.includes_retain _ _
    · exact fun _ _ h => h
  | token t =>
    rw [RelayInner.lacks, Bool.not_eq_false'] at hlacks
    exact (Table.includes_retain _ _).lookup_eq hlacks
  | code k =>
    rw [RelayInner.lacks, Bool.not_eq_false'] at hlacks
    exact (Table.includes_retain _ _).lookup_eq hlacks

/-- A prune of the database keeps a row or deletes it. -/
theorem sameAt_pruneExpiredRows {st : RelayStore} {config : RelayConfig} {now : Nat}
    (hhas : (st.pruneExpiredRows config now).has e = true) :
    st.SameAt ext (st.pruneExpiredRows config now) e ∧ st.has e = true := by
  cases e with
  | daemon id =>
    have hincludes : st.daemons.Includes (st.pruneExpiredRows config now).daemons := by
      rw [RelayStore.pruneExpiredRows_daemons]
      exact Table.includes_retain _ _
    have hsame := hincludes.lookup_eq hhas
    exact ⟨congrArg _ hsame, (congrArg Option.isSome hsame).symm.trans hhas⟩
  | token t =>
    have hincludes : st.pushTokens.Includes (st.pruneExpiredRows config now).pushTokens := by
      rw [RelayStore.pruneExpiredRows_pushTokens]
      exact Table.includes_retain _ _
    have hsame := hincludes.lookup_eq hhas
    exact ⟨hsame, (congrArg Option.isSome hsame).symm.trans hhas⟩
  | code k =>
    have hincludes : st.pairingCodes.Includes (st.pruneExpiredRows config now).pairingCodes := by
      rw [RelayStore.pruneExpiredRows_pairingCodes]
      exact Table.includes_retain _ _
    have hsame := hincludes.lookup_eq hhas
    exact ⟨hsame, (congrArg Option.isSome hsame).symm.trans hhas⟩

theorem mem_rowKeys {st : RelayStore} (h : st.has e = true) : e ∈ st.rowKeys := by
  unfold RelayStore.rowKeys
  rw [List.mem_append, List.mem_append]
  cases e with
  | daemon id =>
    obtain ⟨row, hrow⟩ := Table.contains_eq_true.mp h
    exact .inl (.inl (List.mem_map.mpr ⟨_, Table.mem_entries.mpr hrow, rfl⟩))
  | token t =>
    obtain ⟨row, hrow⟩ := Table.contains_eq_true.mp h
    exact .inl (.inr (List.mem_map.mpr ⟨_, Table.mem_entries.mpr hrow, rfl⟩))
  | code k =>
    obtain ⟨row, hrow⟩ := Table.contains_eq_true.mp h
    exact .inr (List.mem_map.mpr ⟨_, Table.mem_entries.mpr hrow, rfl⟩)

theorem alike_of_kept {st : RelayStore} {now : Nat} (hc : mirrorKept ext p (.advance i c) = true)
    (ht : p.task i = some x) (hx : x.pruning = some (now, .store)) (hst : p.shared.store = some st) :
    prunesAlike p i st (st.pruneExpiredRows p.shared.config now) = true := by
  cases x with
  | verify | prove =>
    simp only [mirrorKept, Bool.and_eq_true, ht, hst, Option.all_some, hx] at hc
    simpa using hc.2
  | handle | returned => cases hx

theorem pruneStore_outcome {now : Nat} (hc : mirrorKept ext p (.advance i c) = true)
    (ht : p.task i = some x) (hx : x.pruning = some (now, .store)) (hpends : x.pendsOn = [])
    (hs : s' = p.shared.pruneStore now) : Outcome ext p i x x' s' e := by
  have hinner : s'.inner = p.shared.inner := by rw [hs]; rfl
  cases hst : p.shared.store with
  | none =>
    refine .closed fun st' hst' => ?_
    rw [hs, RelayState.pruneStore, hst] at hst'
    cases hst'
  | some st =>
    have hstore : s'.store = some (st.pruneExpiredRows p.shared.config now) := by
      rw [hs, RelayState.pruneStore, hst]
      rfl
    have quiet (hmirrors : p.shared.Mirrors ext e → s'.Mirrors ext e)
        (hlacks : p.shared.inner.lacks e = false) : Outcome ext p i x x' s' e :=
      .quiet hmirrors (by rw [hinner]) (fun h => by rw [hpends] at h; cases h) fun _ => hlacks
    have closed (hhas : (st.pruneExpiredRows p.shared.config now).has e = false)
        (hlacks : p.shared.inner.lacks e = true) : Outcome ext p i x x' s' e := by
      refine .closed fun st' hst' => ?_
      obtain rfl := Option.some.inj (hstore.symm.trans hst')
      exact mirrored_of_absent (hinner ▸ hlacks) hhas
    have halike := List.all_eq_true.mp (alike_of_kept hc ht hx hst)
    by_cases hhas : (st.pruneExpiredRows p.shared.config now).has e = true
    · obtain ⟨hsame, hrow⟩ := sameAt_pruneExpiredRows hhas
      have hkey := halike e (mem_rowKeys hrow)
      rw [if_pos hhas, Bool.or_eq_true, Bool.or_eq_true] at hkey
      rcases hkey with hw | hlacks | hprunes
      · exact .handed hw
      · rw [Bool.not_eq_true'] at hlacks
        refine quiet (fun hm st' hst' => ?_) hlacks
        obtain rfl := Option.some.inj (hstore.symm.trans hst')
        rw [hinner]
        exact (hm st hst).of_same hsame .refl
      · cases hlacks : p.shared.inner.lacks e with
        | true => exact .forgotten (hinner ▸ hlacks) (.inr hprunes)
        | false =>
          refine quiet (fun hm st' hst' => ?_) hlacks
          obtain rfl := Option.some.inj (hstore.symm.trans hst')
          rw [hinner]
          exact (hm st hst).of_same hsame .refl
    · have hgone := Bool.eq_false_iff.mpr hhas
      cases hlacks : p.shared.inner.lacks e with
      | true => exact closed hgone hlacks
      | false =>
        cases hrow : st.has e with
        | false =>
          refine quiet (fun hm => ?_) hlacks
          have hboth := lacks_eq_false_of_mirrored (hm st hst)
          rw [hlacks, hrow] at hboth
          cases hboth
        | true =>
          have hkey := halike e (mem_rowKeys hrow)
          rw [if_neg hhas, Bool.or_eq_true, hlacks] at hkey
          exact .handed (hkey.resolve_right Bool.false_ne_true)

theorem prune_outcome {now : Nat} {pc : PrunePc} {next : Option PrunePc}
    (hc : mirrorKept ext p (.advance i c) = true) (ht : p.task i = some x)
    (hx : x.pruning = some (now, pc)) (hpends : x.pendsOn = [])
    (hnext : next = some .store → x'.prunesNext = true)
    (hs : pruneStep c now pc p.shared = (s', next)) : Outcome ext p i x x' s' e := by
  have nothing (h : e ∈ x.pendsOn) : e ∈ x'.pendsOn := by
    rw [hpends] at h
    cases h
  cases pc with
  | gate =>
    have hprunes : x.prunesNext = false := by
      rw [RelayTask.prunesNext, hx]
      rfl
    simp only [pruneStep] at hs
    split at hs <;> cases hs
    · exact .memory rfl .refl nothing hprunes
    · exact .memory rfl (by cases e <;> rfl) nothing hprunes
  | memory =>
    cases hs
    have hprunes : x.prunesNext = false := by
      rw [RelayTask.prunesNext, hx]
      rfl
    cases hlacks : (p.shared.pruneMemory now).inner.lacks e with
    | true => exact .forgotten hlacks (.inl (hnext rfl))
    | false => exact .memory rfl (sameAt_pruneExpired hlacks) nothing hprunes
  | store =>
    simp only [pruneStep, storeOk_of_kept hc, if_true] at hs
    cases hs
    exact pruneStore_outcome hc ht hx hpends rfl

/-- Activity is recorded with the daemon's row. Its key stays what it is. -/
theorem mirrors_recorded {s : RelayState} {st : RelayStore} {r : SignedRequestContext} {now : Nat}
    (hnow : now < 2 ^ 63) (hst : s.store = some st) (hm : s.Mirrors ext e) :
    (s.setStore (st.recordAuthenticatedActivity r.daemonNodeId r.nonce r.tsMs now).1).Mirrors
      ext e := by
  have hm := hm st hst
  intro st' hst'
  cases hst'
  unfold RelayStore.recordAuthenticatedActivity RelayStore.insertNonce
  split <;> rename_i heq <;> split at heq <;> cases heq
  · cases e with
    | token | code => exact hm
    | daemon id =>
      simp only [Mirrored, Table.lookup_modify] at hm ⊢
      split
      · rename_i hid
        refine Eq.trans ?_ hm
        cases hrow : st.daemons.lookup id with
        | none => rfl
        | some row =>
          rw [hrow] at hm
          obtain ⟨registration, -, hkey⟩ := Option.map_eq_some_iff.mp hm.symm
          simp only [Option.map_some, loadDaemon_touched hnow hkey.symm, hkey]
      · exact hm
  · cases e <;> exact hm

theorem verify_outcome {r : SignedRequestContext} {limit : Bool} {pc : VerifyPc} {rest : Handler}
    (hc : mirrorKept ext p (.advance i c) = true) (ht : p.task i = some (.verify r limit pc rest))
    (hfits : (RelayTask.verify r limit pc rest).Fits ext)
    (hs : relayAdvance ext c i (.verify r limit pc rest) p.shared = some (s', x')) :
    Outcome ext p i (.verify r limit pc rest) x' s' e := by
  have hstate : (verifyStep ext c r limit pc p.shared).1 = s' := by
    rcases verify_advance hs with ⟨pc', h, -⟩ | ⟨key, h, -⟩ | ⟨e, h, -⟩ <;> rw [h]
  have nothing {y : RelayTask} (h : e ∈ (RelayTask.verify r limit pc rest).pendsOn) :
      e ∈ y.pendsOn := by cases h
  cases pc with
  | start | readKey =>
    simp only [verifyStep] at hstate
    repeat' split at hstate
    all_goals subst hstate; exact .memory rfl .refl nothing rfl
  | markNonce now key =>
    simp only [verifyStep] at hstate
    repeat' split at hstate
    · subst hstate; exact .memory rfl .refl nothing rfl
    · subst hstate; exact .memory rfl .refl nothing rfl
    · subst hstate; exact .memory rfl (by cases e <;> rfl) nothing rfl
    · subst hstate; exact .memory rfl (by cases e <;> rfl) nothing rfl
  | pruning now pc =>
    obtain ⟨t, next, hprune⟩ : ∃ t next, pruneStep c now pc p.shared = (t, next) := ⟨_, _, rfl⟩
    simp only [relayAdvance, verifyStep, hprune] at hs
    have hnext : next = some .store → x'.prunesNext = true := by
      rintro rfl
      cases hs
      rfl
    have hstate : pruneStep c now pc p.shared = (s', next) := by
      cases next <;> cases hs <;> exact hprune
    exact prune_outcome hc ht rfl rfl hnext hstate
  | recordActivity now key =>
    simp only [verifyStep, storeOk_of_kept hc, if_true] at hstate
    split at hstate
    · subst hstate; exact .memory rfl .refl nothing rfl
    · rename_i st hst
      have hnow : now < 2 ^ 63 := (hfits.2 now rfl).1
      have hrecorded : s' = p.shared.setStore
          (st.recordAuthenticatedActivity r.daemonNodeId r.nonce r.tsMs now).1 := by
        split at hstate <;> rename_i heq <;> rw [heq] <;> exact hstate.symm
      rw [hrecorded]
      exact .quiet (mirrors_recorded hnow hst) rfl nothing fun h => by cases h
  | refresh now key =>
    subst hstate
    refine .memory rfl ?_ nothing rfl
    cases e with
    | token | code => rfl
    | daemon id =>
      simp only [RelayInner.SameAt, verifyStep, Table.lookup_modify]
      split
      · rename_i hid
        rw [Option.map_map, hid]
        congr 1
        funext registration
        simp only [Function.comp_apply]
        split <;> rfl
      · rfl

theorem prove_outcome {daemonNodeId : String} {key : VerifyingKey} {proof : RegistrationProof}
    {pc : ProofPc} {rest : Handler} (hc : mirrorKept ext p (.advance i c) = true)
    (ht : p.task i = some (.prove daemonNodeId key proof pc rest))
    (hs : relayAdvance ext c i (.prove daemonNodeId key proof pc rest) p.shared = some (s', x')) :
    Outcome ext p i (.prove daemonNodeId key proof pc rest) x' s' e := by
  have hstate : (proofStep ext c daemonNodeId key proof pc p.shared).1 = s' := by
    rcases prove_advance hs with ⟨pc', h, -⟩ | ⟨h, -⟩ | ⟨e, h, -⟩ <;> rw [h]
  have nothing {y : RelayTask} (h : e ∈ (RelayTask.prove daemonNodeId key proof pc rest).pendsOn) :
      e ∈ y.pendsOn := by cases h
  cases pc with
  | start =>
    simp only [proofStep] at hstate
    split at hstate
    all_goals subst hstate; exact .memory rfl .refl nothing rfl
  | markNonce =>
    simp only [proofStep] at hstate
    split at hstate
    · subst hstate; exact .memory rfl .refl nothing rfl
    · subst hstate; exact .memory rfl (by cases e <;> rfl) nothing rfl
  | pruning now pc =>
    obtain ⟨t, next, hprune⟩ : ∃ t next, pruneStep c now pc p.shared = (t, next) := ⟨_, _, rfl⟩
    simp only [relayAdvance, proofStep, hprune] at hs
    have hnext : next = some .store → x'.prunesNext = true := by
      rintro rfl
      cases hs
      rfl
    have hstate : pruneStep c now pc p.shared = (s', next) := by
      cases next <;> cases hs <;> exact hprune
    exact prune_outcome hc ht rfl rfl hnext hstate
  | recordNonce =>
    simp only [proofStep, storeOk_of_kept hc, if_true] at hstate
    split at hstate
    · subst hstate; exact .memory rfl .refl nothing rfl
    · rename_i st hst
      simp only [RelayStore.insertNonce] at hstate
      split at hstate <;> rename_i heq <;> split at heq <;> cases heq <;> subst hstate <;>
        refine .quiet (fun hm st' hst' => ?_) rfl nothing (fun h => by cases h)
      · cases hst'
        cases e <;> exact hm st hst
      · cases hst'
        cases e <;> exact hm st hst

theorem advance_outcome (hjson : ext.DecodesRendezvous)
    (hc : mirrorKept ext p (.advance i c) = true) (ht : p.task i = some x) (hfits : x.Fits ext)
    (hs : relayAdvance ext c i x p.shared = some (s', x')) : Outcome ext p i x x' s' e := by
  cases x with
  | verify r limit pc rest => exact verify_outcome hc ht hfits hs
  | prove daemonNodeId key proof pc rest => exact prove_outcome hc ht hs
  | returned => cases hs
  | handle h =>
    have hstep := handle_advance hs
    cases h with
    | registerDaemon call pc => exact registerDaemon_outcome hc ht hfits hstep
    | registerToken request pc => exact registerToken_outcome hc ht hfits hstep
    | unregisterToken request pc => exact unregisterToken_outcome hc ht hstep
    | push request pc => exact push_outcome hc ht hfits hstep
    | publish request pc => exact publish_outcome hjson hc ht hfits hstep
    | resolve code pc => exact resolve_outcome hc ht hstep

/-- The timestamps of the stored nonces can be read back. -/
def NoncesLoad (s : RelayState) : Prop :=
  ∀ st, s.store = some st → ∀ k n, st.seenNonces.lookup k = some n → 0 ≤ n

theorem NoncesLoad.of_store {s s' : RelayState} (h : NoncesLoad s)
    (hstore : ∀ st', s'.store = some st' → ∃ st, s.store = some st ∧
      ∀ k n, st'.seenNonces.lookup k = some n → st.seenNonces.lookup k = some n ∨ 0 ≤ n) :
    NoncesLoad s' := by
  intro st' hst' k n hn
  obtain ⟨st, hst, hrows⟩ := hstore st' hst'
  rcases hrows k n hn with hold | hnew
  · exact h st hst k n hold
  · exact hnew

theorem noncesLoad_insert {s : RelayState} {st : RelayStore} {daemonNodeId nonce : String}
    {tsMs : Nat} (hts : tsMs < 2 ^ 63) (hst : s.store = some st) (h : NoncesLoad s) :
    NoncesLoad (s.setStore (st.insertNonce daemonNodeId nonce tsMs).1) := by
  refine h.of_store fun st' hst' => ⟨st, hst, fun k n hn => ?_⟩
  cases hst'
  unfold RelayStore.insertNonce at hn
  split at hn
  · exact .inl hn
  · rw [Table.lookup_insert] at hn
    split at hn
    · rw [← Option.some.inj hn, asI64_of_lt hts]
      exact .inr (Int.natCast_nonneg _)
    · exact .inl hn

theorem noncesLoad_record {s : RelayState} {st : RelayStore} {daemonNodeId nonce : String}
    {tsMs now : Nat} (hts : tsMs < 2 ^ 63) (hst : s.store = some st) (h : NoncesLoad s) :
    NoncesLoad (s.setStore (st.recordAuthenticatedActivity daemonNodeId nonce tsMs now).1) := by
  have hinsert : NoncesLoad (s.setStore (st.insertNonce daemonNodeId nonce tsMs).1) :=
    noncesLoad_insert hts hst h
  unfold RelayStore.recordAuthenticatedActivity
  split <;> rename_i st₁ heq <;> rw [heq] at hinsert
  · intro st' hst'
    cases hst'
    exact hinsert st₁ rfl
  · exact hinsert

theorem noncesLoad_prune {s : RelayState} {now : Nat} {pc : PrunePc} (h : NoncesLoad s) :
    NoncesLoad (pruneStep c now pc s).1 := by
  cases pc with
  | gate =>
    simp only [pruneStep]
    split <;> exact h
  | memory => exact h
  | store =>
    simp only [pruneStep]
    split
    · refine h.of_store fun st' hst' => ?_
      obtain ⟨st, hst, rfl⟩ := Option.map_eq_some_iff.mp hst'
      refine ⟨st, hst, fun k n hn => .inl ?_⟩
      rw [RelayStore.pruneExpiredRows_seenNonces, Table.lookup_retain] at hn
      exact hn.1
    · exact h

theorem noncesLoad_step {s : RelayState} (hfits : x.Fits ext)
    (hs : relayAdvance ext c i x s = some (s', x')) (h : NoncesLoad s) : NoncesLoad s' := by
  cases x with
  | verify r limit pc rest =>
    have hstate : (verifyStep ext c r limit pc s).1 = s' := by
      rcases verify_advance hs with ⟨pc', h, -⟩ | ⟨key, h, -⟩ | ⟨e, h, -⟩ <;> rw [h]
    cases pc with
    | pruning now pc =>
      have hprune : NoncesLoad (pruneStep c now pc s).1 := noncesLoad_prune h
      simp only [verifyStep] at hstate
      split at hstate <;> rename_i heq <;> rw [heq] at hprune <;> subst hstate <;> exact hprune
    | recordActivity now key =>
      simp only [verifyStep] at hstate
      split at hstate
      · subst hstate; exact h
      · rename_i st hst
        split at hstate
        · have hnew : NoncesLoad (s.setStore (st.recordAuthenticatedActivity r.daemonNodeId r.nonce
              r.tsMs now).1) := noncesLoad_record (hfits.2 now rfl).2 hst h
          split at hstate <;> rename_i heq <;> rw [heq] at hnew <;> subst hstate <;> exact hnew
        · subst hstate; exact h
    | start | readKey | markNonce | refresh =>
      simp only [verifyStep] at hstate
      repeat' split at hstate
      all_goals subst hstate; exact h
  | prove daemonNodeId key proof pc rest =>
    have hstate : (proofStep ext c daemonNodeId key proof pc s).1 = s' := by
      rcases prove_advance hs with ⟨pc', h, -⟩ | ⟨h, -⟩ | ⟨e, h, -⟩ <;> rw [h]
    cases pc with
    | pruning now pc =>
      have hprune : NoncesLoad (pruneStep c now pc s).1 := noncesLoad_prune h
      simp only [proofStep] at hstate
      split at hstate <;> rename_i heq <;> rw [heq] at hprune <;> subst hstate <;> exact hprune
    | recordNonce =>
      simp only [proofStep] at hstate
      split at hstate
      · subst hstate; exact h
      · rename_i st hst
        split at hstate
        · have hnew : NoncesLoad (s.setStore (st.insertNonce daemonNodeId proof.nonce
              proof.tsMs).1) := noncesLoad_insert (hfits.2 (by simp)) hst h
          split at hstate <;> rename_i heq <;> rw [heq] at hnew <;> subst hstate <;> exact hnew
        · subst hstate; exact h
    | start | markNonce =>
      simp only [proofStep] at hstate
      repeat' split at hstate
      all_goals subst hstate; exact h
  | returned => cases hs
  | handle hd =>
    have ht : TouchesDaemons s (handlerStep ext c s hd).1 ∨
        TouchesTokens s (handlerStep ext c s hd).1 ∨ TouchesCodes s (handlerStep ext c s hd).1 :=
      handlerStep_touches
    rw [handle_advance hs] at ht
    have hrows {t : RelayState} {f : RelayStore → RelayStore} (hstore : t.store = s.store.map f)
        (hf : ∀ st, (f st).seenNonces = st.seenNonces) : NoncesLoad t := by
      refine h.of_store fun st' hst' => ?_
      obtain ⟨st, hst, rfl⟩ := Option.map_eq_some_iff.mp (hstore.symm.trans hst')
      exact ⟨st, hst, fun k n hn => .inl (hf st ▸ hn)⟩
    rcases ht with ht | ht | ht <;> cases ht
    · exact h
    · exact h
    · exact hrows rfl fun _ => rfl
    · exact h
    · exact h
    · exact hrows rfl fun _ => rfl
    · exact h
    · exact hrows rfl fun _ => rfl

end Steps

section Runs

variable {ext : Externals} {p q : Pool RelayState RelayTask}
  {a : Move RelayTask RelayChoice RelayEvent} {e : EntryKey}

theorem fits_noninterference (ext : Externals) : (relayTasking ext).Noninterference
    (fun p a => mirrorKept ext p a = true) NoncesLoad (fun _ _ x => x.Fits ext) where
  init s hs := by
    intro st hst k n hn
    rcases hs.store with hnone | hempty
    · cases hnone.symm.trans hst
    · cases hempty.symm.trans hst
      cases (Table.lookup_empty k).symm.trans hn
  fresh p i x _ _ hx := fits_of_arrives hx
  own p i c x s' x' hc hG ht hfits hs := by
    refine ⟨noncesLoad_step (i := i) hfits hs hG, ?_⟩
    simp only [mirrorKept, Bool.and_eq_true, decide_eq_true_eq] at hc
    exact fits_step (i := i) hc.1.1 hc.1.2 hfits hs
  others _ _ _ _ _ _ _ _ _ _ _ _ _ _ _ hfits := hfits
  environment p e s' keep _ hG hs := by
    refine ⟨?_, fun _ _ _ _ hfits => hfits⟩
    cases e with
    | tick ms =>
      obtain ⟨-, hr⟩ := Option.ite_none_right_eq_some.mp hs
      cases hr
      exact hG
    | restart =>
      obtain ⟨st, hst, hr⟩ := Option.bind_eq_some_iff.mp hs
      obtain ⟨r, hload, hr⟩ := Option.map_eq_some_iff.mp hr
      cases hr
      refine hG.of_store fun st' hst' => ⟨st, hst, fun k n hn => .inl ?_⟩
      obtain ⟨inner, rows⟩ := r
      obtain ⟨rfl, -⟩ := RelayStore.loadState_eq_some.mp hload
      cases hst'
      rw [RelayStore.pruneExpiredRows_seenNonces, Table.lookup_retain] at hn
      exact hn.1

/-- What has just been loaded is what the rows hold. -/
theorem mirrored_of_load {st st' : RelayStore} {config : RelayConfig} {now : Nat}
    {inner : RelayInner} (h : st.loadState ext config now = some (inner, st')) :
    Mirrored ext st' inner e := by
  obtain ⟨-, -, hdaemons, htokens, -, hcodes⟩ := RelayStore.loadState_eq_some.mp h
  cases e with
  | daemon id =>
    have hkeys := congrArg (Option.map (Option.map (·.publicKey)))
      (Table.map_lookup_traverse hdaemons id)
    rw [Option.map_map, Option.map_map] at hkeys
    exact hkeys
  | token t => exact Table.map_lookup_traverse htokens t
  | code k => exact Table.map_lookup_traverse hcodes k

/-- A request is on its way to write the other side of an entry, or to prune the database of
one that the memory has dropped. -/
def Awaits (e : EntryKey) (s : RelayState) (x : RelayTask) : Prop :=
  e ∈ x.pendsOn ∨ s.inner.lacks e = true ∧ x.prunesNext = true

theorem othersWrite_iff {i : Nat} :
    othersWrite p i e = true ↔ ∃ j y, j ≠ i ∧ p.task j = some y ∧ e ∈ y.pendsOn := by
  unfold othersWrite
  rw [List.any_eq_true]
  constructor
  · rintro ⟨⟨j, y⟩, hm, hy⟩
    rw [Bool.and_eq_true, decide_eq_true_eq, List.contains_iff_mem] at hy
    exact ⟨j, y, hy.1, Table.mem_entries.mp hm, hy.2⟩
  · rintro ⟨j, y, hji, hy, he⟩
    refine ⟨⟨j, y⟩, Table.mem_entries.mpr hy, ?_⟩
    rw [Bool.and_eq_true, decide_eq_true_eq, List.contains_iff_mem]
    exact ⟨hji, he⟩

theorem othersPrune_iff {i : Nat} :
    othersPrune p i = true ↔ ∃ j y, j ≠ i ∧ p.task j = some y ∧ y.prunesNext = true := by
  unfold othersPrune
  rw [List.any_eq_true]
  constructor
  · rintro ⟨⟨j, y⟩, hm, hy⟩
    rw [Bool.and_eq_true, decide_eq_true_eq] at hy
    exact ⟨j, y, hy.1, Table.mem_entries.mp hm, hy.2⟩
  · rintro ⟨j, y, hji, hy, hprunes⟩
    refine ⟨⟨j, y⟩, Table.mem_entries.mpr hy, ?_⟩
    rw [Bool.and_eq_true, decide_eq_true_eq]
    exact ⟨hji, hprunes⟩

theorem covered_of_outcome {i : Nat} {x x' : RelayTask} {s' : RelayState}
    (hout : Outcome ext p i x x' s' e)
    (hp : p.shared.Mirrors ext e ∨ Awaits e p.shared x ∨
      ∃ j y, j ≠ i ∧ p.task j = some y ∧ Awaits e p.shared y) :
    s'.Mirrors ext e ∨ Awaits e s' x' ∨ ∃ j y, j ≠ i ∧ p.task j = some y ∧ Awaits e s' y := by
  cases hout with
  | quiet hmirrors hlacks hpends hprunes =>
    rcases hp with hm | (hx | ⟨hl, hx⟩) | ⟨j, y, hji, hy, hawaits⟩
    · exact .inl (hmirrors hm)
    · exact .inr (.inl (.inl (hpends hx)))
    · cases hl.symm.trans (hprunes hx)
    · refine .inr (.inr ⟨j, y, hji, hy, hawaits.imp_right fun ⟨hl, hprunes⟩ => ⟨?_, hprunes⟩⟩)
      exact hlacks.trans hl
  | opened hx' => exact .inr (.inl (.inl hx'))
  | closed hm => exact .inl hm
  | handed hw =>
    obtain ⟨j, y, hji, hy, he⟩ := othersWrite_iff.mp hw
    exact .inr (.inr ⟨j, y, hji, hy, .inl he⟩)
  | forgotten hlacks hprunes =>
    rcases hprunes with hx' | hw
    · exact .inr (.inl (.inr ⟨hlacks, hx'⟩))
    · obtain ⟨j, y, hji, hy, hprunes⟩ := othersPrune_iff.mp hw
      exact .inr (.inr ⟨j, y, hji, hy, .inr ⟨hlacks, hprunes⟩⟩)

/-- Memory and database agree on the entry, or a request is on its way. -/
theorem mirrors_step (hjson : ext.DecodesRendezvous)
    (hsafe : Tasking.Safe NoncesLoad (fun _ _ x => x.Fits ext) p)
    (hp : p.Covered (·.Mirrors ext e) (Awaits e)) (hc : mirrorKept ext p a = true)
    (hs : (relayTasking ext).machine.step a p = some q) :
    q.Covered (·.Mirrors ext e) (Awaits e) := by
  refine Tasking.covered_step hp hs ?_ ?_ ?_ ?_
  · rintro i c x s' x' rfl ht hr hp
    exact covered_of_outcome (advance_outcome (i := i) hjson hc ht (hsafe.2 i x ht) hr) hp
  · rintro i x rfl ht hawaits
    simp only [mirrorKept, ht, Option.all_some, Bool.and_eq_true, decide_eq_true_eq,
      Bool.not_eq_true'] at hc
    rcases hawaits with he | ⟨-, hx⟩
    · rw [hc.1] at he
      cases he
    · cases hx.symm.trans hc.2
  · rintro ev s' rfl hr
    cases ev with
    | tick ms =>
      obtain ⟨-, hr⟩ := Option.ite_none_right_eq_some.mp hr
      cases hr
      exact ⟨id, fun _ h => h⟩
    | restart =>
      obtain ⟨st, -, hr⟩ := Option.bind_eq_some_iff.mp hr
      obtain ⟨r, -, hr⟩ := Option.map_eq_some_iff.mp hr
      cases hr
  · rintro ev s' rfl hr
    cases ev with
    | tick ms =>
      obtain ⟨-, hr⟩ := Option.ite_none_right_eq_some.mp hr
      cases hr
    | restart =>
      obtain ⟨st, -, hr⟩ := Option.bind_eq_some_iff.mp hr
      obtain ⟨r, hload, hr⟩ := Option.map_eq_some_iff.mp hr
      cases hr
      intro st' hst'
      cases hst'
      exact mirrored_of_load hload

theorem mirrors_init (h : (relayTasking ext).machine.init p) :
    p.Covered (·.Mirrors ext e) (Awaits e) := by
  refine .inl fun st hst => ?_
  have hinner : p.shared.inner = .empty := h.1.inner
  rw [hinner]
  rcases h.1.store with hnone | hempty
  · cases hnone.symm.trans hst
  · cases hempty.symm.trans hst
    cases e <;> rfl

theorem mirrors_of_reachable (hjson : ext.DecodesRendezvous)
    (h : (relayTasking ext).machine.ReachableWhen (fun p a => mirrorKept ext p a = true) p) :
    Tasking.Safe NoncesLoad (fun _ _ x => x.Fits ext) p ∧
      ∀ e, p.Covered (·.Mirrors ext e) (Awaits e) :=
  h.invariant (I := fun p => Tasking.Safe NoncesLoad (fun _ _ x => x.Fits ext) p ∧
      ∀ e, p.Covered (·.Mirrors ext e) (Awaits e))
    (fun _ hp => ⟨(fits_noninterference ext).safe_init hp, fun _ => mirrors_init hp⟩)
    fun _ _ _ hp hc hs => ⟨(fits_noninterference ext).step hp.1 hc hs,
      fun e => mirrors_step hjson hp.1 (hp.2 e) hc hs⟩

/-- Where both sides agree and the timestamps of the nonces can be read, the database loads. -/
theorem load_of_mirrors {s : RelayState} {st : RelayStore} (hst : s.store = some st)
    (hmirrors : ∀ e, s.Mirrors ext e) (hnonces : NoncesLoad s) (config : RelayConfig) (now : Nat) :
    ∃ rebuilt st', st.loadState ext config now = some (rebuilt, st') ∧
      ∀ e, st'.has e = st.has e → s.inner.SameAt rebuilt e := by
  have hrows (e : EntryKey) : Mirrored ext st s.inner e := hmirrors e st hst
  obtain ⟨daemons, hdaemons⟩ : ∃ u, ((st.pruneExpiredRows config now).daemons.traverse
      fun _ => RelayStore.loadDaemon ext) = some u := by
    refine Table.exists_traverse fun id row hrow => (hrows (.daemon id)).loads_daemon ?_
    rw [RelayStore.pruneExpiredRows_daemons] at hrow
    exact (Table.lookup_retain.mp hrow).1
  obtain ⟨tokens, htokens⟩ : ∃ u, ((st.pruneExpiredRows config now).pushTokens.traverse
      fun _ => RelayStore.loadToken) = some u := by
    refine Table.exists_traverse fun t row hrow => (hrows (.token t)).loads_token ?_
    rw [RelayStore.pruneExpiredRows_pushTokens] at hrow
    exact (Table.lookup_retain.mp hrow).1
  obtain ⟨seenNonces, hseen⟩ : ∃ u, ((st.pruneExpiredRows config now).seenNonces.traverse
      fun _ => RelayStore.toU64) = some u := by
    refine Table.exists_traverse fun k n hn => ?_
    rw [RelayStore.pruneExpiredRows_seenNonces] at hn
    have hpos : 0 ≤ n := hnonces st hst k n (Table.lookup_retain.mp hn).1
    exact ⟨n.toNat, if_pos hpos⟩
  obtain ⟨pairingCodes, hcodes⟩ : ∃ u, (st.pruneExpiredRows config now).pairingCodes.traverse
      (RelayStore.loadPairingCode ext) = some u := by
    refine Table.exists_traverse fun k row hrow => (hrows (.code k)).loads_code ?_
    rw [RelayStore.pruneExpiredRows_pairingCodes] at hrow
    exact (Table.lookup_retain.mp hrow).1
  have hload : st.loadState ext config now =
      some (⟨daemons, tokens, seenNonces, pairingCodes, 0⟩, st.pruneExpiredRows config now) :=
    RelayStore.loadState_eq_some.mpr ⟨rfl, rfl, hdaemons, htokens, hseen, hcodes⟩
  refine ⟨_, _, hload, fun e hhas => ?_⟩
  have hsame : st.SameAt ext (st.pruneExpiredRows config now) e := by
    cases hrow : (st.pruneExpiredRows config now).has e with
    | true => exact (sameAt_pruneExpiredRows hrow).1
    | false => exact sameAt_of_absent (hhas.symm.trans hrow) hrow
  exact sameAt_of_mirrored ((hrows e).of_same hsame .refl) (mirrored_of_load hload)

end Runs

/-- The database answers every call. -/
def storeAnswers (_ : Pool RelayState RelayTask) : Move RelayTask RelayChoice RelayEvent → Bool
  | .advance _ c => c.storeOk
  | _ => true

section Traces

private def tenant : String := "daemon-0123456789"

private def tenantToken : String := "push-token-number-1"

/-- A registration of the key `A`, one of the key `B`, a token and a code. -/
private def tenantScript : Externals :=
  .playingRendezvous ⟨[⟨tenant, keyText 'A', none, none, none⟩,
      ⟨tenant, keyText 'B', some "nonce-0000000001", some 1000, none⟩],
    [⟨tenant, .apns, tenantToken, "nonce-0000000002", 1000⟩], [], [],
    [.legacy ⟨tenant, "ABCDE", "ticket-0123456789", 2000, "nonce-0000000003", 1000⟩]⟩

private def tenantPair (i : Nat) (signer : Option Char) : Move RelayTask RelayChoice RelayEvent :=
  arriving tenantScript i "/v1/pair" [UInt8.ofNat i] (signer.bind signedBy)

end Traces

end Shelly.Relay
