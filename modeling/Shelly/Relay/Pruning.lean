import Shelly.Relay.Frames

namespace Shelly.Relay

/-- What `load_state` reads from the rows is what the memory holds. -/
structure Rebuilt (ext : Externals) (st : RelayStore) (inner : RelayInner) : Prop where
  daemons : st.daemons.Reads (fun _ => RelayStore.loadDaemon ext) inner.daemons
  tokens : st.pushTokens.Reads (fun _ => RelayStore.loadToken) inner.tokens
  seenNonces : st.seenNonces.Reads (fun _ => RelayStore.toU64) inner.seenNonces
  pairingCodes : st.pairingCodes.Reads (RelayStore.loadPairingCode ext) inner.pairingCodes

instance (ext : Externals) (st : RelayStore) (inner : RelayInner) :
    Decidable (Rebuilt ext st inner) :=
  decidable_of_iff
    (st.daemons.Reads (fun _ => RelayStore.loadDaemon ext) inner.daemons ∧
      st.pushTokens.Reads (fun _ => RelayStore.loadToken) inner.tokens ∧
      st.seenNonces.Reads (fun _ => RelayStore.toU64) inner.seenNonces ∧
      st.pairingCodes.Reads (RelayStore.loadPairingCode ext) inner.pairingCodes)
    ⟨fun ⟨hd, ht, hn, hc⟩ => ⟨hd, ht, hn, hc⟩, fun ⟨hd, ht, hn, hc⟩ => ⟨hd, ht, hn, hc⟩⟩

/-- Everything that has not lapsed belongs to a registered daemon. -/
structure OwnersRegistered (now : Nat) (inner : RelayInner) : Prop where
  tokens : ∀ t o, inner.tokens.lookup t = some o → pushTokenIsStale o.updatedAtMs now = false →
    inner.daemons.contains o.daemonNodeId = true
  seenNonces : ∀ k tsMs, inner.seenNonces.lookup k = some tsMs → now - clockSkewMs ≤ tsMs →
    inner.daemons.contains k.1 = true
  pairingCodes : ∀ k e, inner.pairingCodes.lookup k = some e → now < e.expiresAtMs →
    inner.daemons.contains e.daemonNodeId = true

section Agreement

variable {ext : Externals} {st : RelayStore} {inner : RelayInner} {config : RelayConfig}
  {now : Nat}

theorem toU64_eq_some {n : Int} {m : Nat} : RelayStore.toU64 n = some m ↔ n = m := by
  unfold RelayStore.toU64
  split
  · rw [Option.some.injEq]
    omega
  · constructor
    · intro h; cases h
    · omega

theorem loadDaemon_updatedAt {row : DaemonRow} {r : DaemonRegistration}
    (h : RelayStore.loadDaemon ext row = some r) : row.updatedAtMs = r.updatedAtMs := by
  simp only [RelayStore.loadDaemon, Option.bind_eq_bind, Option.bind_eq_some_iff] at h
  obtain ⟨publicKey, -, updatedAtMs, hts, h⟩ := h
  cases h
  exact toU64_eq_some.mp hts

theorem loadToken_fields {row : TokenRow} {o : TokenOwner} (h : RelayStore.loadToken row = some o) :
    row.daemonNodeId = o.daemonNodeId ∧ row.updatedAtMs = o.updatedAtMs := by
  simp only [RelayStore.loadToken, Option.bind_eq_bind, Option.bind_eq_some_iff] at h
  obtain ⟨platform, -, updatedAtMs, hts, h⟩ := h
  cases h
  exact ⟨rfl, toU64_eq_some.mp hts⟩

theorem loadPairingCode_fields {k : String} {row : PairingCodeRow} {e : PairingCodeEntry}
    (h : RelayStore.loadPairingCode ext k row = some e) :
    row.daemonNodeId = e.daemonNodeId ∧ row.expiresAtMs = e.expiresAtMs := by
  unfold RelayStore.loadPairingCode at h
  split at h <;> obtain ⟨record, -, h⟩ := Option.bind_eq_some_iff.mp h <;>
    obtain ⟨expiresAtMs, hts, h⟩ := Option.bind_eq_some_iff.mp h <;> cases h <;>
    exact ⟨rfl, toU64_eq_some.mp hts⟩

/-- A cutoff means the same to both sides. -/
theorem lt_cutoff {n : Int} {m cutoff : Nat} (hn : n = m) (hcutoff : cutoff < 2 ^ 63) :
    (!decide (n < asI64 cutoff)) = decide (cutoff ≤ m) := by
  rw [asI64_of_lt hcutoff, hn, Bool.eq_iff_iff]
  simp only [Bool.not_eq_true', decide_eq_false_iff_not, decide_eq_true_eq]
  omega

theorem activeDaemons_contains {owner : String} :
    (inner.activeDaemons config now).contains owner = (inner.daemons.lookup owner).any fun r =>
      decide (now - config.daemonRetentionMs ≤ r.updatedAtMs) := by
  rw [Bool.eq_iff_iff, Table.contains_eq_true, Option.any_eq_true]
  simp only [RelayInner.activeDaemons, Table.lookup_retain]

/-- The two prunes part over an owner just when stale daemons are pruned and the owner is
not registered. -/
theorem keepsOwner_iff (h : Rebuilt ext st inner) (hnow : now < 2 ^ 63) (owner : String) :
    (!st.staleOwner config now owner) = inner.keepsOwner config now owner ↔
      (config.pruneStaleDaemons = true → inner.daemons.contains owner = true) := by
  have hcutoff : now - config.daemonRetentionMs < 2 ^ 63 := (Nat.sub_le _ _).trans_lt hnow
  unfold RelayStore.staleOwner RelayInner.keepsOwner
  rw [activeDaemons_contains, Table.contains]
  cases hr : inner.daemons.lookup owner with
  | none =>
    have hrow : st.daemons.lookup owner = none := by
      have howner := h.daemons owner
      rw [hr] at howner
      exact Option.map_eq_none_iff.mp howner
    rw [hrow, Option.any_none, Option.any_none]
    cases config.pruneStaleDaemons <;> simp
  | some r =>
    obtain ⟨row, hrow, hload⟩ := h.daemons.lookup hr
    have hsame := lt_cutoff (loadDaemon_updatedAt hload) hcutoff
    rw [hrow, Option.any_some, Option.any_some, ← hsame]
    cases config.pruneStaleDaemons <;>
      cases decide (row.updatedAtMs < asI64 (now - config.daemonRetentionMs)) <;> simp

/-- What has just been loaded is what the rows hold. -/
theorem rebuilt_of_load {st' : RelayStore} (h : st.loadState ext config now = some (inner, st')) :
    Rebuilt ext st' inner := by
  obtain ⟨-, -, hdaemons, htokens, hnonces, hcodes⟩ := RelayStore.loadState_eq_some.mp h
  exact ⟨Table.map_lookup_traverse hdaemons, Table.map_lookup_traverse htokens,
    Table.map_lookup_traverse hnonces, Table.map_lookup_traverse hcodes⟩

/-- One pair of tables, where the two sides agree on what has lapsed. -/
theorem reads_pruned_iff {K V W : Type*} [DecidableEq K] (config : RelayConfig)
    (h : Rebuilt ext st inner) (hnow : now < 2 ^ 63) {f : K → V → Option W}
    {rows : Table K V} {entries : Table K W} (hreads : rows.Reads f entries)
    (liveRow : V → Bool) (live : W → Bool) (rowOwner : K → V → String) (owner : K → W → String)
    (hlive : ∀ k v w, f k v = some w → liveRow v = live w)
    (howner : ∀ k v w, f k v = some w → rowOwner k v = owner k w) :
    (rows.retain fun k v => liveRow v && !st.staleOwner config now (rowOwner k v)).Reads f
        (entries.retain fun k w => live w && inner.keepsOwner config now (owner k w)) ↔
      (config.pruneStaleDaemons = true → ∀ k w, entries.lookup k = some w → live w = true →
        inner.daemons.contains (owner k w) = true) := by
  have hentry {k : K} {v : V} {w : W} (hfv : f k v = some w) :
      (liveRow v && !st.staleOwner config now (rowOwner k v)) =
          (live w && inner.keepsOwner config now (owner k w)) ↔
        (live w = true → config.pruneStaleDaemons = true →
          inner.daemons.contains (owner k w) = true) := by
    rw [hlive k v w hfv, howner k v w hfv, ← keepsOwner_iff h hnow]
    cases live w <;> simp
  rw [Table.reads_retain_iff hreads]
  constructor
  · intro hall hprune k w hw hlw
    obtain ⟨v, hv, hfv⟩ := hreads.lookup hw
    exact (hentry hfv).mp (hall k v w hv hw hfv) hlw hprune
  · intro hall k v w hv hw hfv
    exact (hentry hfv).mpr fun hlw hprune => hall hprune k w hw hlw

theorem pruneExpired_daemons_lookup (id : String) :
    (inner.pruneExpired config now).daemons.lookup id =
      (inner.daemons.retain fun id _ => inner.keepsOwner config now id).lookup id := by
  ext r
  rw [Table.lookup_retain]
  unfold RelayInner.pruneExpired RelayInner.keepsOwner
  rw [activeDaemons_contains]
  cases config.pruneStaleDaemons with
  | false => simp
  | true =>
    simp only [RelayInner.activeDaemons, if_true, Table.lookup_retain, Bool.not_true,
      Bool.false_or]
    refine and_congr_right fun hr => ?_
    rw [hr, Option.any_some]

/-- The two prunes agree just when, in case stale daemons are pruned, everything that has
not lapsed belongs to a registered daemon. -/
theorem prunes_agree_iff (h : Rebuilt ext st inner) (hnow : now < 2 ^ 63) :
    Rebuilt ext (st.pruneExpiredRows config now) (inner.pruneExpired config now) ↔
      (config.pruneStaleDaemons = true → OwnersRegistered now inner) := by
  have hcutoff (ms : Nat) : now - ms < 2 ^ 63 := (Nat.sub_le _ _).trans_lt hnow
  have hdaemons : (st.pruneExpiredRows config now).daemons.Reads
      (fun _ => RelayStore.loadDaemon ext) (inner.pruneExpired config now).daemons := by
    intro id
    rw [pruneExpired_daemons_lookup, RelayStore.pruneExpiredRows_daemons]
    refine (Table.reads_retain_iff h.daemons _ _).mpr (fun k v w _ hw _ => ?_) id
    exact (keepsOwner_iff h hnow k).mpr fun _ => Table.contains_eq_true.mpr ⟨w, hw⟩
  have htokens := reads_pruned_iff config h hnow h.tokens
    (fun row => !decide (row.updatedAtMs < asI64 (now - pushTokenTtlMs)))
    (fun o => !pushTokenIsStale o.updatedAtMs now)
    (fun _ row => row.daemonNodeId) (fun _ o => o.daemonNodeId)
    (fun _ row o hload => by
      rw [lt_cutoff (loadToken_fields hload).2 (hcutoff _), pushTokenIsStale, ← decide_not,
        decide_eq_decide]
      omega)
    (fun _ row o hload => (loadToken_fields hload).1)
  have hnonces := reads_pruned_iff config h hnow h.seenNonces
    (fun tsMs => !decide (tsMs < asI64 (now - clockSkewMs)))
    (fun tsMs => decide (now - clockSkewMs ≤ tsMs)) (fun k _ => k.1) (fun k _ => k.1)
    (fun _ _ _ hload => lt_cutoff (toU64_eq_some.mp hload) (hcutoff _)) (fun _ _ _ _ => rfl)
  have hcodes := reads_pruned_iff config h hnow h.pairingCodes
    (fun row => !decide (row.expiresAtMs ≤ asI64 now)) (fun e => decide (now < e.expiresAtMs))
    (fun _ row => row.daemonNodeId) (fun _ e => e.daemonNodeId)
    (fun _ row e hload => by
      rw [asI64_of_lt hnow, (loadPairingCode_fields hload).2, ← decide_not, decide_eq_decide]
      omega)
    (fun _ row e hload => (loadPairingCode_fields hload).1)
  constructor
  · intro hpruned hprune
    have ht := htokens.mp hpruned.tokens hprune
    have hn := hnonces.mp hpruned.seenNonces hprune
    have hc := hcodes.mp hpruned.pairingCodes hprune
    exact ⟨fun t o ho hlive => ht t o ho (by rw [hlive, Bool.not_false]),
      fun k tsMs hk hlive => hn k tsMs hk (decide_eq_true hlive),
      fun k e hk hlive => hc k e hk (decide_eq_true hlive)⟩
  · intro howners
    refine ⟨hdaemons, ?_, ?_, ?_⟩
    · exact htokens.mpr fun hprune t o ho hlive =>
        (howners hprune).tokens t o ho (Bool.not_eq_true' _ ▸ hlive)
    · exact hnonces.mpr fun hprune k tsMs hk hlive =>
        (howners hprune).seenNonces k tsMs hk (of_decide_eq_true hlive)
    · exact hcodes.mpr fun hprune k e hk hlive =>
        (howners hprune).pairingCodes k e hk (of_decide_eq_true hlive)

end Agreement

end Shelly.Relay
