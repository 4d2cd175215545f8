import Shelly.Relay.Publications

namespace Shelly.Relay

/-- The active records of a daemon, in memory and in the database, are the one of its last
publish, as long as that has not been returned to a client. -/
structure OneActive (s : RelayState) : Prop where
  memory : ∀ k e, s.inner.pairingCodes.lookup k = some e → s.clock < e.expiresAtMs →
    s.history.lastPublished.lookup e.daemonNodeId = some e.publication ∧
      e.publication ∉ s.history.resolved
  oneInMemory : ∀ k k' e e', s.inner.pairingCodes.lookup k = some e →
    s.inner.pairingCodes.lookup k' = some e' → s.clock < e.expiresAtMs →
    s.clock < e'.expiresAtMs → e.daemonNodeId = e'.daemonNodeId → k = k'
  store : ∀ k r, s.pairing.row k = some r → (s.clock : Int) < r.expiresAtMs →
    s.history.lastPublished.lookup r.daemonNodeId = some r.publication ∧
      r.publication ∉ s.history.resolved
  oneInStore : ∀ k k' r r', s.pairing.row k = some r → s.pairing.row k' = some r' →
    (s.clock : Int) < r.expiresAtMs → (s.clock : Int) < r'.expiresAtMs →
    r.daemonNodeId = r'.daemonNodeId → k = k'

def RelayTask.inFlight : RelayTask → Bool
  | .returned _ => false
  | _ => true

/-- No request is in flight. -/
abbrev Quiet (p : Pool RelayState RelayTask) : Prop := p.Lacks fun _ x => x.inFlight

/-- What a publish is bringing into memory, from the eviction of the older entries on. -/
def PairingWork.publishes : PairingWork → Option (String × PairingCodeEntry)
  | .deletingRows _ key entry => some (key, entry)
  | .saving key entry => some (key, entry)
  | .inserting key entry => some (key, entry)
  | _ => none

def RelayTask.publishes (x : RelayTask) : Option (String × PairingCodeEntry) :=
  x.work.bind PairingWork.publishes

def RelayTask.publisher (x : RelayTask) : Option String := x.publishes.map (·.2.daemonNodeId)

def PairingWork.inserts : PairingWork → Option String
  | .inserting key _ => some key
  | _ => none

def RelayTask.inserts (x : RelayTask) (key : String) : Bool :=
  x.work.bind PairingWork.inserts = some key

/-- A prune takes no pairing entry out of memory that has not expired. -/
def RelayState.keepsActive (s : RelayState) (now : Nat) : Bool :=
  s.inner.pairingCodes.entries.all fun e =>
    decide (e.2.expiresAtMs ≤ now) || s.inner.keepsOwner s.config now e.2.daemonNodeId

/-- The daemon whose older entries the next step evicts. -/
def RelayTask.evicts : RelayTask → Option String
  | .handle (.publish request (.evicting _ _ _)) => some request.daemonNodeId
  | _ => none

/-- The rows of older records are deleted, and a row is saved only when no publish is between
a row of the same code and its entry. -/
def PairingWork.keepsApart (p : Pool RelayState RelayTask) (c : RelayChoice) : PairingWork → Bool
  | .deletingRows (_ :: _) _ _ | .forgettingRow _ _ => p.shared.stores c
  | .saving key _ =>
    p.shared.store.isNone || !c.storeOk || decide (p.Lacks fun _ y => y.inserts key)
  | _ => true

/-- A request takes its next step without bringing records of one daemon together. -/
def RelayTask.keepsApart (p : Pool RelayState RelayTask) (c : RelayChoice) (x : RelayTask) : Bool :=
  x.work.all (PairingWork.keepsApart p c) &&
    x.evicts.all (fun D => decide (p.Lacks fun _ y => y.publisher = some D)) &&
    x.pruning.all fun r => r.2 ≠ .memory || p.shared.store.isNone || p.shared.keepsActive r.1

/-- What keeps the records of a daemon apart. Its publishes follow each other, no two publishes
of one code are between row and entry at the same time, the rows of older records are deleted
without failure or interruption, and a prune leaves the unexpired entries. -/
def publishesApart (p : Pool RelayState RelayTask) : Move RelayTask RelayChoice RelayEvent → Bool
  | .advance i c => (p.task i).all fun x => x.keepsApart p c
  | .drop i => p.shared.store.isNone || (p.task i).all fun x => x.owes.isEmpty
  | .environment .restart => false
  | _ => true

theorem publishesApart_runsOn {p : Pool RelayState RelayTask}
    {a : Move RelayTask RelayChoice RelayEvent} (h : publishesApart p a = true) :
    runsOn a = true := by
  cases a with
  | environment e =>
    cases e with
    | tick => rfl
    | restart => cases h
  | spawn | advance | drop => rfl

section Steps

variable {ext : Externals} {c : RelayChoice} {s s' : RelayState} {x x' y : RelayTask}
  {v : PairingView} {p : Pool RelayState RelayTask} {i j : Nat} {k : String}

/-- A publication on its way into memory was on its way before, or has just evicted the
other entries of its daemon. -/
theorem PairingStep.publishes_origin (h : PairingStep ext c s x x' v) {key : String}
    {entry : PairingCodeEntry} (hx' : x'.publishes = some (key, entry)) :
    (x.publishes = some (key, entry) ∧ v.codes = s.inner.pairingCodes) ∨
      ∃ request record expiresAtMs, x = .handle (.publish request (.evicting key record expiresAtMs)) ∧
        entry.daemonNodeId = request.daemonNodeId ∧
        v.codes = (s.inner.evictCodesForDaemon request.daemonNodeId key).pairingCodes := by
  obtain ⟨w, hw, hpublishes⟩ := Option.bind_eq_some_iff.mp hx'
  have before {w₀ : PairingWork} (hx : x.work = some w₀)
      (h₀ : w₀.publishes = some (key, entry)) : x.publishes = some (key, entry) := by
    rw [RelayTask.publishes, hx]
    exact h₀
  cases h with
  | quiet _ hnone | pruned _ _ hnone | prunedRows _ _ _ _ hnone | inserted _ _ _ hnone
  | lapsed _ _ _ _ _ _ hnone | forgotRow _ _ _ hnone | keptRow _ _ _ hnone
  | deletedExpired _ _ hnone => cases hnone.symm.trans hw
  | evicted request key' record expiresAtMs hx hx' =>
    rcases hx' with hx' | ⟨hx', -⟩ <;> cases hx'.symm.trans hw
    cases hpublishes
    exact .inr ⟨request, record, expiresAtMs, hx, rfl, rfl⟩
  | deletedRow stale key' superseded entry' hx hx' =>
    cases hx'.symm.trans hw
    exact .inl ⟨before hx hpublishes, rfl⟩
  | deletedRows key' entry' hx hx' =>
    cases hx'.symm.trans hw
    exact .inl ⟨before hx hpublishes, rfl⟩
  | saved request key' payload entry' hx hx' =>
    cases hx'.symm.trans hw
    exact .inl ⟨by rw [hx]; exact hpublishes, rfl⟩
  | hit _ _ _ _ _ _ hx' | forgotMemory _ _ _ hx' =>
    cases hx'.symm.trans hw
    cases hpublishes

/-- Only an insertion tells the daemon that its publish is done. -/
theorem PairingStep.lastPublished_eq (h : PairingStep ext c s x x' v)
    (hx : ¬ ∃ key entry, x.work = some (.inserting key entry)) :
    v.lastPublished = s.history.lastPublished := by
  cases h with
  | inserted key entry hw => exact absurd ⟨key, entry, hw⟩ hx
  | _ => rfl

/-- What becomes of an entry in memory. -/
theorem PairingStep.codes_fate (h : PairingStep ext c s x x' v)
    (hencodes : ∀ record, storedPayload ext record ≠ none)
    (hnow : ∀ now, x.reading = some now → now ≤ s.clock)
    (hkeeps : ∀ now, x.pruning = some (now, .memory) → s.keepsActive now = true)
    {e : PairingCodeEntry} (he : s.inner.pairingCodes.lookup k = some e) :
    v.codes.lookup k = some e ∨ e.expiresAtMs ≤ s.clock ∨ k ∈ x'.owes ∨
      ∃ entry, x.work = some (.inserting k entry) := by
  cases h with
  | quiet | prunedRows | deletedRow | deletedRows | saved | hit | forgotRow | keptRow
  | deletedExpired => exact .inl he
  | pruned now hpruning =>
    by_cases hlive : now < e.expiresAtMs
    · have hkept := List.all_eq_true.mp (hkeeps now hpruning) ⟨k, e⟩ (Table.mem_entries.mpr he)
      rw [Bool.or_eq_true, decide_eq_true_eq] at hkept
      refine .inl (Table.lookup_retain.mpr ⟨he, ?_⟩)
      rw [decide_eq_true hlive, Bool.true_and]
      exact hkept.resolve_left (Nat.not_le.mpr hlive)
    · exact .inr (.inl (Nat.le_trans (Nat.le_of_not_lt hlive) (hnow now (reading_of_pruning hpruning))))
  | evicted request key record expiresAtMs hx hx' =>
    rcases hx' with hx' | ⟨-, hnone⟩
    · by_cases hstale : e.daemonNodeId = request.daemonNodeId ∧ k ≠ key
      · refine .inr (.inr (.inl ?_))
        rw [RelayTask.owes, hx']
        refine List.mem_map.mpr ⟨⟨k, e⟩, List.mem_filter.mpr ⟨Table.mem_entries.mpr he, ?_⟩, rfl⟩
        exact decide_eq_true hstale
      · refine .inl (Table.lookup_retain.mpr ⟨he, ?_⟩)
        rw [decide_eq_false hstale]
        rfl
    · exact absurd hnone (hencodes record)
  | inserted key entry hx hx' =>
    by_cases hk : k = key
    · exact .inr (.inr (.inr ⟨entry, hk ▸ hx⟩))
    · refine .inl ?_
      rw [Table.lookup_insert, if_neg hk]
      exact he
  | lapsed code key entry hx hentry hexpired hx' =>
    by_cases hk : k = key
    · subst hk
      cases he.symm.trans hentry
      exact .inr (.inl hexpired)
    · refine .inl ?_
      rw [Table.lookup_erase, if_neg hk]
      exact he
  | forgotMemory key n hx hx' =>
    by_cases hk : k = key
    · refine .inr (.inr (.inl ?_))
      rw [RelayTask.owes, hx', hk]
      exact List.mem_singleton_self key
    · refine .inl ?_
      rw [Table.lookup_erase, if_neg hk]
      exact he

/-- A request goes on owing what it owes, or has deleted the row, or inserts the entry. -/
theorem PairingStep.owes_fate (h : PairingStep ext c s x x' v) (hk : k ∈ x.owes)
    (hstores : (∀ key entry, x.work ≠ some (.inserting key entry)) → s.stores c = true) :
    k ∈ x'.owes ∨ v.row k = none ∨ ∃ entry, x.work = some (.inserting k entry) := by
  have erased {rows : Option (Table String PairingCodeRow)} :
      ((rows.map fun rows => rows.erase k).bind fun rows => rows.lookup k) = none := by
    cases rows with
    | none => rfl
    | some rows => exact Table.lookup_erase_self rows k
  have unstored (hnot : ∀ key entry, x.work ≠ some (.inserting key entry))
      (hok : c.storeOk = false) : s.pairing.rows = none := by
    have hst := hstores hnot
    rw [RelayState.stores, hok, Bool.or_false, Option.isNone_iff_eq_none] at hst
    unfold RelayState.pairing
    rw [hst]
    rfl
  have nowhere (hnone : x.owes = []) : False := by
    rw [hnone] at hk
    cases hk
  cases h with
  | quiet hnone | prunedRows _ _ _ hnone | deletedExpired _ hnone => exact (nowhere hnone).elim
  | pruned now hpruning =>
    refine (nowhere ?_).elim
    rw [RelayTask.owes, work_of_pruning hpruning]
    rfl
  | evicted _ _ _ _ hx | saved _ _ _ _ hx | hit _ _ _ hx | lapsed _ _ _ hx =>
    refine (nowhere ?_).elim
    rw [hx]
    rfl
  | forgotMemory key n hx =>
    refine (nowhere ?_).elim
    rw [RelayTask.owes, hx]
    rfl
  | deletedRow stale key superseded entry hx hx' =>
    rw [RelayTask.owes, hx] at hk
    rcases List.mem_cons.mp hk with rfl | hk
    · refine .inr (.inl ?_)
      have hnot : ∀ key entry, x.work ≠ some (.inserting key entry) := by
        intro key entry hw
        cases hx.symm.trans hw
      unfold PairingView.row
      split
      · exact erased
      · rename_i hok
        rw [unstored hnot (Bool.not_eq_true _ ▸ hok)]
        rfl
    · refine .inl ?_
      rw [RelayTask.owes, hx']
      exact hk
  | deletedRows key entry hx =>
    rw [RelayTask.owes, hx] at hk
    cases hk
  | inserted key entry hx =>
    rw [RelayTask.owes, hx] at hk
    cases List.mem_singleton.mp hk
    exact .inr (.inr ⟨entry, hx⟩)
  | forgotRow key n hx =>
    rw [RelayTask.owes, hx] at hk
    cases List.mem_singleton.mp hk
    exact .inr (.inl erased)
  | keptRow key n hx hx' hok =>
    have hnot : ∀ key entry, x.work ≠ some (.inserting key entry) := by
      intro key entry hw
      cases hx.symm.trans hw
    refine .inr (.inl ?_)
    rw [PairingView.row, unstored hnot hok]
    rfl

end Steps

section Invariant

variable {ext : Externals} {c : RelayChoice} {s s' : RelayState} {x x' y : RelayTask}
  {v : PairingView} {p q : Pool RelayState RelayTask} {i j : Nat}
  {a : Move RelayTask RelayChoice RelayEvent}

theorem store_of_row {k : String} {r : PairingCodeRow} (h : s.pairing.row k = some r) :
    s.store.isNone = false := by
  cases hst : s.store with
  | none =>
    unfold PairingView.row RelayState.pairing at h
    rw [hst] at h
    cases h
  | some st => rfl

theorem keepsApart_pruning (hc : x.keepsApart p c = true) (hst : p.shared.store.isNone = false)
    {now : Nat} (hx : x.pruning = some (now, .memory)) : p.shared.keepsActive now = true := by
  simp only [RelayTask.keepsApart, Bool.and_eq_true] at hc
  have hpruning := hc.2
  rw [hx, hst] at hpruning
  exact hpruning

theorem keepsApart_evicting (hc : x.keepsApart p c = true) {D : String} (hx : x.evicts = some D) :
    p.Lacks fun _ y => y.publisher = some D := by
  simp only [RelayTask.keepsApart, Bool.and_eq_true] at hc
  have hevicts := hc.1.2
  rw [hx] at hevicts
  exact of_decide_eq_true hevicts

theorem keepsApart_work (hc : x.keepsApart p c = true) {w : PairingWork} (hx : x.work = some w) :
    w.keepsApart p c = true := by
  simp only [RelayTask.keepsApart, Bool.and_eq_true] at hc
  have hwork := hc.1.1
  rw [hx] at hwork
  exact hwork

theorem keepsApart_owes (hc : x.keepsApart p c = true) {k : String} (hk : k ∈ x.owes)
    (hnot : ∀ key entry, x.work ≠ some (.inserting key entry)) : p.shared.stores c = true := by
  unfold RelayTask.owes at hk
  cases hw : x.work with
  | none =>
    rw [hw] at hk
    cases hk
  | some w =>
    rw [hw] at hk
    have hc := keepsApart_work hc hw
    cases w with
    | deletingRows superseded key entry =>
      cases superseded with
      | nil => cases hk
      | cons stale superseded => exact hc
    | forgettingRow key n => exact hc
    | inserting key entry => exact absurd hw (hnot key entry)
    | saving | forgettingMemory => cases hk

theorem keepsApart_saving (hc : x.keepsApart p c = true) {key : String} {entry : PairingCodeEntry}
    (hx : x.work = some (.saving key entry)) (hst : p.shared.store.isNone = false)
    (hstores : p.shared.stores c = true) : p.Lacks fun _ y => y.inserts key := by
  have hok : c.storeOk = true := by
    rw [RelayState.stores, hst, Bool.false_or] at hstores
    exact hstores
  have hlacks : (p.shared.store.isNone || !c.storeOk ||
      decide (p.Lacks fun _ y => y.inserts key)) = true := keepsApart_work hc hx
  rw [hst, hok] at hlacks
  exact of_decide_eq_true hlacks

/-- Every entry in memory is of the last publish of its daemon. -/
structure Latest (s : RelayState) : Prop where
  last : ∀ k e, s.inner.pairingCodes.lookup k = some e →
    s.history.lastPublished.lookup e.daemonNodeId = some e.publication

/-- A publish finds no entry of its daemon in memory except at its own code, and at its code
the row that it has saved itself. -/
structure PublishOk (s : RelayState) (_ : Nat) (x : RelayTask) : Prop where
  alone : ∀ key entry, x.publishes = some (key, entry) → ∀ k e,
    s.inner.pairingCodes.lookup k = some e → e.daemonNodeId = entry.daemonNodeId → k = key
  row : ∀ key entry r, x.work = some (.inserting key entry) → s.pairing.row key = some r →
    ∃ payload, r = entry.row payload
  now : ∀ now, x.reading = some now → now ≤ s.clock

/-- Two publishes on their way are of different daemons. -/
def OfOthers (x y : RelayTask) : Prop := ∀ D, x.publisher = some D → y.publisher ≠ some D

/-- Every active row belongs to an entry in memory, or to a request that deletes it or
inserts its entry. -/
def Covered (p : Pool RelayState RelayTask) : Prop :=
  ∀ k r, p.shared.pairing.row k = some r → (p.shared.clock : Int) < r.expiresAtMs →
    (∃ e payload, p.shared.inner.pairingCodes.lookup k = some e ∧ r = e.row payload) ∨
      ∃ i x, p.task i = some x ∧ k ∈ x.owes

structure Accounted (p : Pool RelayState RelayTask) : Prop where
  numbering : Numbering p
  others : p.Pairwise OfOthers
  covered : Covered p

theorem publishes_of_inserting {key : String} {entry : PairingCodeEntry}
    (h : x.work = some (.inserting key entry)) : x.publishes = some (key, entry) := by
  rw [RelayTask.publishes, h]
  rfl

theorem publisher_of_publishes {key : String} {entry : PairingCodeEntry}
    (h : x.publishes = some (key, entry)) : x.publisher = some entry.daemonNodeId := by
  rw [RelayTask.publisher, h]
  rfl

theorem publishes_of_publisher {D : String} (h : x.publisher = some D) :
    ∃ key entry, x.publishes = some (key, entry) ∧ entry.daemonNodeId = D := by
  obtain ⟨⟨key, entry⟩, hx, hD⟩ := Option.map_eq_some_iff.mp h
  exact ⟨key, entry, hx, hD⟩

theorem latest_step (hs : relayAdvance ext c i x s = some (s', x')) (hidle : x.Idle)
    (hlatest : Latest s) (hok : PublishOk s i x) : Latest s' := by
  have hstep := pairing_step hidle hs
  refine ⟨fun k e he => ?_⟩
  by_cases hx : ∃ key entry, x.work = some (.inserting key entry)
  · obtain ⟨key, entry, hx⟩ := hx
    obtain ⟨-, hv⟩ := hstep.of_inserting hx
    have hcodes : s'.inner.pairingCodes = s.inner.pairingCodes.insert key entry :=
      congrArg PairingView.codes hv
    have hlast : s'.history.lastPublished =
        s.history.lastPublished.insert entry.daemonNodeId entry.publication :=
      congrArg PairingView.lastPublished hv
    rw [hcodes, Table.lookup_insert] at he
    rw [hlast, Table.lookup_insert]
    split at he
    · obtain rfl := Option.some.inj he
      exact if_pos rfl
    · rename_i hne
      rw [if_neg fun hD => hne (hok.alone key entry (publishes_of_inserting hx) k e he hD)]
      exact hlatest.last k e he
  · have hlast : s'.history.lastPublished = s.history.lastPublished := hstep.lastPublished_eq hx
    rw [hlast]
    rcases hstep.codes_origin he with he | ⟨hx', -⟩
    · exact hlatest.last k e he
    · exact absurd ⟨k, e, hx'⟩ hx

theorem publishOk_step (hs : relayAdvance ext c i x s = some (s', x')) (hidle : x.Idle)
    (hok : PublishOk s i x) : PublishOk s' i x' := by
  have hstep := pairing_step hidle hs
  refine ⟨fun key entry hx' k e he hD => ?_, fun key entry r hw hr => ?_, fun now hx' => ?_⟩
  · have hcodes : (x.publishes = some (key, entry) ∧
        s'.inner.pairingCodes = s.inner.pairingCodes) ∨
        ∃ request record expiresAtMs,
          x = .handle (.publish request (.evicting key record expiresAtMs)) ∧
          entry.daemonNodeId = request.daemonNodeId ∧ s'.inner.pairingCodes =
            (s.inner.evictCodesForDaemon request.daemonNodeId key).pairingCodes :=
      hstep.publishes_origin hx'
    rcases hcodes with ⟨hx, hcodes⟩ | ⟨request, _, _, -, hD', hcodes⟩ <;> rw [hcodes] at he
    · exact hok.alone key entry hx k e he hD
    · obtain ⟨-, hkept⟩ := Table.lookup_retain.mp he
      simp only [Bool.not_eq_true', decide_eq_false_iff_not, not_and, not_not] at hkept
      exact hkept (hD.trans hD')
  · obtain ⟨request, payload, -, -, hrows⟩ := hstep.to_inserting hw
    exact ⟨payload, row_of_saved hrows hr⟩
  · rw [(advance_config hs).2]
    rcases advance_reading hs hx' with hx | rfl
    · exact hok.now now hx
    · exact Nat.le_refl _

theorem publishOk_others (hs : relayAdvance ext c i x p.shared = some (s', x')) (hidle : x.Idle)
    (hc : x.keepsApart p c = true) (hy : p.task j = some y) (hothers : OfOthers x y)
    (hok : PublishOk p.shared j y) : PublishOk s' j y := by
  have hstep := pairing_step hidle hs
  refine ⟨fun key entry hpub k e he hD => ?_, fun key entry r hw hr => ?_, fun now hread => ?_⟩
  · rcases hstep.codes_origin he with he | ⟨hx, -⟩
    · exact hok.alone key entry hpub k e he hD
    · have hx' := publisher_of_publishes (publishes_of_inserting hx)
      exact absurd (publisher_of_publishes hpub) (hD ▸ hothers _ hx')
  · rcases hstep.rows_origin hr with hr | ⟨request, payload, entry', hx, -, -, hstores, hrows⟩
    · exact hok.row key entry r hw hr
    · have hst : p.shared.store.isNone = false := by
        cases hst : p.shared.store with
        | none =>
          unfold RelayState.pairing at hrows
          rw [hst] at hrows
          exact absurd rfl hrows
        | some st => rfl
      have hsaving : x.work = some (.saving key entry') := by rw [hx]; rfl
      have hlacks : y.inserts key = false := keepsApart_saving hc hsaving hst hstores j y hy
      rw [RelayTask.inserts, hw] at hlacks
      exact absurd rfl (of_decide_eq_false hlacks)
  · rw [(advance_config hs).2]
    exact hok.now now hread

theorem ofOthers_step (hp : Accounted p) (hc : publishesApart p a = true)
    (hs : (relayTasking ext).machine.step a p = some q) : q.Pairwise OfOthers := by
  obtain ⟨⟨hsafe, -⟩, hothers, -⟩ := hp
  refine Tasking.pairwise_step (fun x y h D hy hx => h D hx hy) hothers hs ?_ ?_
  · intro x y hx D hD
    obtain ⟨key, entry, hpub, -⟩ := publishes_of_publisher hD
    rw [RelayTask.publishes, arrives_work hx] at hpub
    cases hpub
  · intro i c x s' x' ha ht hr j y hji hy D hD
    subst ha
    have hstep := pairing_step (i := i) (hsafe.2 i x ht).idle hr
    obtain ⟨key, entry, hpub, rfl⟩ := publishes_of_publisher hD
    rcases hstep.publishes_origin hpub with ⟨hx, -⟩ | ⟨request, record, expiresAtMs, hx, hD', -⟩
    · exact hothers i j x y hji.symm ht hy _ (publisher_of_publishes hx)
    · simp only [publishesApart, ht, Option.all_some] at hc
      have hevicts : x.evicts = some entry.daemonNodeId := by rw [hx, hD']; rfl
      exact of_decide_eq_false (keepsApart_evicting hc hevicts j y hy)

theorem covered_step (hencodes : ∀ record, storedPayload ext record ≠ none)
    (hlocal : Tasking.Safe Latest PublishOk p) (hp : Accounted p) (hc : publishesApart p a = true)
    (hs : (relayTasking ext).machine.step a p = some q) : Covered q := by
  obtain ⟨⟨hsafe, -⟩, -, hcovered⟩ := hp
  intro k r hr hactive
  cases Tasking.stepped_of_step hs with
  | spawn i x hx hi =>
    rcases hcovered k r hr hactive with h | ⟨j, y, hy, hk⟩
    · exact .inl h
    · refine .inr ⟨j, y, ?_, hk⟩
      rw [Pool.setTask_task, if_neg (by rintro rfl; cases hi.symm.trans hy)]
      exact hy
  | drop i x ht hx =>
    rcases hcovered k r hr hactive with h | ⟨j, y, hy, hk⟩
    · exact .inl h
    · refine .inr ⟨j, y, ?_, hk⟩
      rw [Pool.dropTask_task, if_neg ?_]
      · exact hy
      · rintro rfl
        have hst : p.shared.store.isNone = false := store_of_row hr
        simp only [publishesApart, hst, hy, Option.all_some, Bool.false_or] at hc
        rw [List.isEmpty_iff.mp hc] at hk
        cases hk
  | keep event s' hr' =>
    cases event with
    | tick ms =>
      obtain ⟨-, heq⟩ := Option.ite_none_right_eq_some.mp hr'
      cases heq
      refine hcovered k r hr (Int.lt_of_le_of_lt ?_ hactive)
      exact Int.ofNat_le.mpr (Nat.le_add_right _ ms)
    | restart => cases hc
  | clear event s' hr' =>
    cases event with
    | tick ms =>
      obtain ⟨-, heq⟩ := Option.ite_none_right_eq_some.mp hr'
      cases heq
    | restart => cases hc
  | advance i c x x' s' ht hr' =>
    have hok := hlocal.2 i x ht
    have hstep := pairing_step (i := i) (hsafe.2 i x ht).idle hr'
    have hclock : s'.clock = p.shared.clock := (advance_config (i := i) hr').2
    have hactive : (s'.clock : Int) < r.expiresAtMs := hactive
    have hr : s'.pairing.row k = some r := hr
    have hkeeps : x.keepsApart p c = true := by
      simp only [publishesApart, ht, Option.all_some] at hc
      exact hc
    -- The request itself answers for the row in its new state.
    have owned (hk : k ∈ x'.owes) : ∃ j y, ((p.setShared s').setTask i x').task j = some y ∧
        k ∈ y.owes := ⟨i, x', by rw [Pool.setTask_task, if_pos rfl], hk⟩
    rcases hstep.rows_origin hr with hold | ⟨_, _, entry, -, -, hx', -⟩
    swap
    · refine .inr (owned ?_)
      rw [RelayTask.owes, hx']
      exact List.mem_singleton_self k
    have hst := store_of_row hold
    have inserted (hx : ∃ entry, x.work = some (.inserting k entry)) : ∃ e payload,
        s'.inner.pairingCodes.lookup k = some e ∧ r = e.row payload := by
      obtain ⟨entry, hx⟩ := hx
      obtain ⟨-, hv⟩ := hstep.of_inserting hx
      have hcodes : s'.inner.pairingCodes = p.shared.inner.pairingCodes.insert k entry :=
        congrArg PairingView.codes hv
      obtain ⟨payload, hpayload⟩ := hok.row k entry r hx hold
      exact ⟨entry, payload, by rw [hcodes, Table.lookup_insert_self], hpayload⟩
    rcases hcovered k r hold (hclock ▸ hactive) with ⟨e, payload, he, hpayload⟩ | ⟨j, y, hy, hk⟩
    · rcases hstep.codes_fate hencodes hok.now (fun now => keepsApart_pruning hkeeps hst) he with
        he | hexpired | hk | hx
      · exact .inl ⟨e, payload, he, hpayload⟩
      · -- An entry that has expired does not have an active row.
        have hle : asI64 e.expiresAtMs ≤ (e.expiresAtMs : Int) := asI64_le _
        rw [hpayload, PairingCodeEntry.row_expiresAtMs, hclock] at hactive
        omega
      · exact .inr (owned hk)
      · exact .inl (inserted hx)
    · by_cases hji : j = i
      · subst hji
        cases ht.symm.trans hy
        rcases hstep.owes_fate hk (keepsApart_owes hkeeps hk) with hk | hgone | hx
        · exact .inr (owned hk)
        · cases hgone.symm.trans hr
        · exact .inl (inserted hx)
      · refine .inr ⟨j, y, ?_, hk⟩
        rw [Pool.setTask_task, if_neg hji]
        exact hy

theorem latest_noninterference (ext : Externals) : (relayTasking ext).Noninterference
    (fun p a => publishesApart p a = true ∧ Accounted p) Latest PublishOk where
  init s hs := by
    refine ⟨fun k e he => ?_⟩
    rw [hs.inner] at he
    cases (Table.lookup_empty k).symm.trans he
  fresh p i x _ _ hx := by
    have hnone := arrives_work hx
    refine ⟨fun key entry hpub => ?_, fun key entry r hw => ?_, fun now hread => ?_⟩
    · rw [RelayTask.publishes, hnone] at hpub
      cases hpub
    · cases hnone.symm.trans hw
    · cases arrival_of_arrives hx <;> cases hread
  own p i c x s' x' hc hlatest ht hok hs := by
    have hidle := (hc.2.numbering.1.2 i x ht).idle
    exact ⟨latest_step hs hidle hlatest hok, publishOk_step hs hidle hok⟩
  others p i c x s' x' hc _ ht _ hs j y hji hy hok := by
    obtain ⟨hc, ⟨hsafe, -⟩, hothers, -⟩ := hc
    simp only [publishesApart, ht, Option.all_some] at hc
    exact publishOk_others (i := i) hs (hsafe.2 i x ht).idle hc hy (hothers i j x y hji.symm ht hy) hok
  environment p e s' keep hc hlatest hs := by
    cases e with
    | tick ms =>
      obtain ⟨-, hr⟩ := Option.ite_none_right_eq_some.mp hs
      cases hr
      exact ⟨⟨hlatest.last⟩, fun _ j y _ hok =>
        ⟨hok.alone, hok.row, fun now hread => Nat.le_add_right_of_le (hok.now now hread)⟩⟩
    | restart => cases hc.1

theorem accounted_init (h : (relayTasking ext).machine.init p) : Accounted p := by
  refine ⟨numbering_init h, Tasking.pairwise_init h, fun k r hr => ?_⟩
  unfold PairingView.row RelayState.pairing at hr
  rcases h.1.store with hst | hst <;> rw [hst] at hr
  · cases hr
  · cases (Table.lookup_empty k).symm.trans hr

end Invariant

section Traces

private def advertiser : String := "daemon-0123456789"

private def advert (n : Nat) (code : String) : PublishPairingRequest :=
  .legacy ⟨advertiser, code, "ticket-number-00" ++ toString n, 600000,
    "nonce-000000000-" ++ toString n, 1000⟩

private def advertScript : Externals :=
  .playing ⟨[⟨advertiser, keyText 'A', none, none, none⟩], [], [], [],
    [advert 0 "ABCDE", advert 1 "FGHJK"]⟩

private def registerAdvertiser : List (Move RelayTask RelayChoice RelayEvent) :=
  [arriving advertScript 10 "/v1/pair" [0] none] ++ Move.repeated 5 10 RelayChoice.fine

private def sendAdvert (n : Nat) : List (Move RelayTask RelayChoice RelayEvent) :=
  [arriving advertScript n "/v1/pair/publish" [UInt8.ofNat n] (signedBy 'A')]

end Traces

end Shelly.Relay
