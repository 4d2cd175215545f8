import Shelly.Relay.Frames

namespace Shelly.Relay

variable {ext : Externals} {c : RelayChoice} {s s' : RelayState}

/-- The part of the relay that the two pairing endpoints work on. -/
structure PairingView where
  codes : Table String PairingCodeEntry
  rows : Option (Table String PairingCodeRow)
  publications : Nat
  resolved : List Nat
  consumed : List (Nat × Nat)
  lastPublished : Table String Nat

def RelayState.pairing (s : RelayState) : PairingView :=
  ⟨s.inner.pairingCodes, s.store.map (·.pairingCodes), s.history.publications, s.history.resolved,
    s.history.consumed, s.history.lastPublished⟩

/-- The row under a key, if there is a database that has one. -/
def PairingView.row (v : PairingView) (key : String) : Option PairingCodeRow :=
  v.rows.bind fun rows => rows.lookup key

/-- What a request is doing to the pairing codes, over several steps. -/
inductive PairingWork
  | deletingRows (superseded : List String) (key : String) (entry : PairingCodeEntry)
  | saving (key : String) (entry : PairingCodeEntry)
  | inserting (key : String) (entry : PairingCodeEntry)
  | forgettingMemory (key : String) (publication : Nat)
  | forgettingRow (key : String) (publication : Nat)
  deriving DecidableEq

def Handler.work : Handler → Option PairingWork
  | .publish _ (.deletingRows superseded key _ entry) => some (.deletingRows superseded key entry)
  | .publish _ (.saving key _ entry) => some (.saving key entry)
  | .publish _ (.inserting key entry) => some (.inserting key entry)
  | .resolve _ (.forgettingMemory key _ publication) => some (.forgettingMemory key publication)
  | .resolve _ (.forgettingRow key _ publication) => some (.forgettingRow key publication)
  | _ => none

def RelayTask.work : RelayTask → Option PairingWork
  | .handle h => h.work
  | _ => none

/-- The work on the pairing codes starts after the verification. -/
def RelayTask.Idle (x : RelayTask) : Prop := ∀ rest, x.rest = some rest → rest.work = none

/-- The key on which a request has begun and not finished its change: a publish between its
row and its entry, a resolve between what it found and the deletion of the row. -/
def PairingWork.window : PairingWork → Option String
  | .inserting key _ => some key
  | .forgettingMemory key _ => some key
  | .forgettingRow key _ => some key
  | _ => none

def RelayTask.window (x : RelayTask) : Option String := x.work.bind PairingWork.window

/-- The keys whose rows a request still has to bring in line with the memory. -/
def PairingWork.owes : PairingWork → List String
  | .deletingRows superseded _ _ => superseded
  | .inserting key _ => [key]
  | .forgettingRow key _ => [key]
  | _ => []

def RelayTask.owes (x : RelayTask) : List String := x.work.elim [] PairingWork.owes

/-- The publication a request is working with. -/
def PairingWork.publication : PairingWork → Nat
  | .deletingRows _ _ entry => entry.publication
  | .saving _ entry => entry.publication
  | .inserting _ entry => entry.publication
  | .forgettingMemory _ publication => publication
  | .forgettingRow _ publication => publication

@[simp] theorem signedBy_work (key : VerifyingKey) (h : Handler) :
    (h.signedBy key).work = h.work := by
  cases h with
  | registerDaemon call pc => cases pc <;> rfl
  | registerToken | unregisterToken | push | publish | resolve => rfl

/-- Every step of the relay, seen from the pairing codes. -/
inductive PairingStep (ext : Externals) (c : RelayChoice) (s : RelayState) (x x' : RelayTask) :
    PairingView → Prop
  | quiet : x.owes = [] → x'.work = none → PairingStep ext c s x x' s.pairing
  | pruned (now : Nat) : x.pruning = some (now, .memory) → x'.work = none →
      PairingStep ext c s x x' { s.pairing with
        codes := s.inner.pairingCodes.retain fun _ e =>
          decide (now < e.expiresAtMs) && s.inner.keepsOwner s.config now e.daemonNodeId }
  | prunedRows (rows : Table String PairingCodeRow) (p : String → PairingCodeRow → Bool) :
      s.pairing.rows = some rows → x.owes = [] → x'.work = none →
      PairingStep ext c s x x' { s.pairing with rows := some (rows.retain p) }
  | evicted (request : PublishPairingRequest) (key : String) (record : PairingRecord)
      (expiresAtMs : Nat) :
      x = .handle (.publish request (.evicting key record expiresAtMs)) →
      (x'.work = some (.deletingRows (s.inner.supersededCodes request.daemonNodeId key) key
          ⟨request.daemonNodeId, record, expiresAtMs, s.history.publications⟩) ∨
        x'.work = none ∧ storedPayload ext record = none) →
      PairingStep ext c s x x' { s.pairing with
        codes := (s.inner.evictCodesForDaemon request.daemonNodeId key).pairingCodes
        publications := s.history.publications + 1 }
  | deletedRow (stale key : String) (superseded : List String) (entry : PairingCodeEntry) :
      x.work = some (.deletingRows (stale :: superseded) key entry) →
      x'.work = some (.deletingRows superseded key entry) →
      PairingStep ext c s x x' { s.pairing with
        rows := if c.storeOk then s.pairing.rows.map fun rows => rows.erase stale
          else s.pairing.rows }
  | deletedRows (key : String) (entry : PairingCodeEntry) :
      x.work = some (.deletingRows [] key entry) → x'.work = some (.saving key entry) →
      PairingStep ext c s x x' s.pairing
  | saved (request : PublishPairingRequest) (key payload : String) (entry : PairingCodeEntry) :
      x = .handle (.publish request (.saving key payload entry)) →
      x'.work = some (.inserting key entry) → s.stores c = true →
      PairingStep ext c s x x' { s.pairing with
        rows := s.pairing.rows.map fun rows => rows.insert key (entry.row payload) }
  | inserted (key : String) (entry : PairingCodeEntry) :
      x.work = some (.inserting key entry) → x'.work = none →
      PairingStep ext c s x x' { s.pairing with
        codes := s.inner.pairingCodes.insert key entry
        lastPublished := s.history.lastPublished.insert entry.daemonNodeId entry.publication }
  | hit (code key : String) (entry : PairingCodeEntry) :
      x = .handle (.resolve code (.looking key)) → s.inner.pairingCodes.lookup key = some entry →
      s.clock < entry.expiresAtMs → x'.work = some (.forgettingMemory key entry.publication) → PairingStep ext c s x x' s.pairing
  | lapsed (code key : String) (entry : PairingCodeEntry) :
      x = .handle (.resolve code (.looking key)) → s.inner.pairingCodes.lookup key = some entry →
      entry.expiresAtMs ≤ s.clock → x'.work = none →
      PairingStep ext c s x x' { s.pairing with codes := s.inner.pairingCodes.erase key }
  | forgotMemory (key : String) (publication : Nat) :
      x.work = some (.forgettingMemory key publication) →
      x'.work = some (.forgettingRow key publication) →
      PairingStep ext c s x x' { s.pairing with
        codes := s.inner.pairingCodes.erase key
        consumed := (((s.inner.pairingCodes.lookup key).map (·.publication)).map fun d =>
          (publication, d)).toList ++ s.history.consumed }
  | forgotRow (key : String) (publication : Nat) :
      x.work = some (.forgettingRow key publication) → x'.work = none → c.storeOk = true →
      PairingStep ext c s x x' { s.pairing with
        rows := s.pairing.rows.map fun rows => rows.erase key
        consumed := (((s.pairing.row key).map (·.publication)).map fun d =>
          (publication, d)).toList ++ s.history.consumed
        resolved := publication :: s.history.resolved }
  | keptRow (key : String) (publication : Nat) :
      x.work = some (.forgettingRow key publication) → x'.work = none → c.storeOk = false →
      PairingStep ext c s x x' { s.pairing with resolved := publication :: s.history.resolved }
  | deletedExpired (key : String) : x.owes = [] → x'.work = none →
      PairingStep ext c s x x' { s.pairing with
        rows := if c.storeOk then s.pairing.rows.map fun rows => rows.erase key
          else s.pairing.rows }

theorem pairing_updateStore {f : RelayStore → RelayStore}
    {g : Table String PairingCodeRow → Table String PairingCodeRow}
    (h : ∀ st, (f st).pairingCodes = g st.pairingCodes) :
    (s.updateStore f).pairing = { s.pairing with rows := s.pairing.rows.map g } := by
  unfold RelayState.updateStore RelayState.pairing
  cases s.store with
  | none => rfl
  | some st => simp only [Option.map_some, h]

theorem storedPublication_eq (s : RelayState) (key : String) :
    storedPublication s key = (s.pairing.row key).map (·.publication) := by
  unfold storedPublication PairingView.row RelayState.pairing
  cases s.store <;> rfl

theorem pairing_of_daemons (h : TouchesDaemons s s') : s'.pairing = s.pairing := by
  cases h with
  | same | memory => rfl
  | rows f =>
    unfold RelayState.updateStore RelayState.pairing
    cases s.store <;> rfl

theorem pairing_of_tokens (h : TouchesTokens s s') : s'.pairing = s.pairing := by
  cases h with
  | same | memory => rfl
  | rows f =>
    unfold RelayState.updateStore RelayState.pairing
    cases s.store <;> rfl

/-- A verification only prunes. -/
theorem pairing_upkeep {x x' : RelayTask} (h : Upkeep s x s') (hx : x.owes = [])
    (hx' : x'.work = none) : PairingStep ext c s x x' s'.pairing := by
  cases h with
  | same | gated | marked | refreshed => exact .quiet hx hx'
  | prunedMemory now hpruning => exact .pruned now hpruning hx'
  | prunedStore now hpruning =>
    cases hst : s.store with
    | none =>
      have hsame : (s.pruneStore now).pairing = s.pairing := by
        unfold RelayState.pruneStore RelayState.pairing
        rw [hst]
        rfl
      rw [hsame]
      exact .quiet hx hx'
    | some st =>
      have hrows : (s.pruneStore now).pairing = { s.pairing with
          rows := some (st.pairingCodes.retain fun _ row =>
            !decide (row.expiresAtMs ≤ asI64 now) &&
              !st.staleOwner s.config now row.daemonNodeId) } := by
        unfold RelayState.pruneStore RelayState.pairing
        rw [hst]
        rfl
      rw [hrows]
      exact .prunedRows st.pairingCodes _ (by unfold RelayState.pairing; rw [hst]; rfl) hx hx'
  | recorded seenNonces daemons st hst =>
    have hsame : (s.setStore { st with seenNonces, daemons }).pairing = s.pairing := by
      unfold RelayState.setStore RelayState.pairing
      rw [hst]
      rfl
    rw [hsame]
    exact .quiet hx hx'

theorem publish_pairing {request : PublishPairingRequest} {pc : PublishPc} {x' : RelayTask}
    (h : publishStep ext c request s pc = (s', x')) :
    PairingStep ext c s (.handle (.publish request pc)) x' s'.pairing := by
  cases pc with
  | checking =>
    simp only [publishStep] at h
    repeat' split at h
    all_goals cases h
    all_goals exact .quiet rfl rfl
  | evicting key record expiresAtMs =>
    simp only [publishStep] at h
    split at h
    · cases h
      exact .evicted request key record expiresAtMs rfl (.inl rfl)
    · rename_i hnone
      cases h
      exact .evicted request key record expiresAtMs rfl (.inr ⟨rfl, hnone⟩)
  | deletingRows superseded key payload entry =>
    cases superseded with
    | nil =>
      cases h
      exact .deletedRows key entry rfl rfl
    | cons stale superseded =>
      obtain ⟨rfl, rfl⟩ := Prod.mk.inj h
      have hrows : (if c.storeOk then s.updateStore fun st => st.deletePairingCode stale
          else s).pairing = { s.pairing with
            rows := if c.storeOk then s.pairing.rows.map fun rows => rows.erase stale
              else s.pairing.rows } := by
        split
        · exact pairing_updateStore fun _ => rfl
        · rfl
      rw [hrows]
      exact .deletedRow stale key superseded entry rfl rfl
  | saving key payload entry =>
    simp only [publishStep] at h
    split at h <;> cases h
    · rename_i hstores
      rw [pairing_updateStore (g := fun rows => rows.insert key (entry.row payload)) fun _ => rfl]
      exact .saved request key payload entry rfl rfl hstores
    · exact .quiet rfl rfl
  | inserting key entry =>
    cases h
    exact .inserted key entry rfl rfl

theorem resolve_pairing {code : String} {pc : ResolvePc} {x' : RelayTask}
    (h : resolveStep c code s pc = (s', x')) :
    PairingStep ext c s (.handle (.resolve code pc)) x' s'.pairing := by
  cases pc with
  | start =>
    simp only [resolveStep] at h
    repeat' split at h
    all_goals cases h
    all_goals exact .quiet rfl rfl
  | looking key =>
    simp only [resolveStep] at h
    split at h
    · cases h
      exact .quiet rfl rfl
    · rename_i entry hentry
      split at h <;> cases h
      · rename_i hexpired
        exact .lapsed code key entry rfl hentry hexpired rfl
      · rename_i hlive
        exact .hit code key entry rfl hentry (Nat.lt_of_not_le hlive) rfl
  | forgettingMemory key record publication =>
    cases h
    exact .forgotMemory key publication rfl rfl
  | forgettingRow key record publication =>
    obtain ⟨rfl, rfl⟩ := Prod.mk.inj h
    cases hok : c.storeOk with
    | true =>
      have hrows : (s.updateStore fun st => st.deletePairingCode key).pairing =
          { s.pairing with rows := s.pairing.rows.map fun rows => rows.erase key } :=
        pairing_updateStore fun _ => rfl
      simp only [if_true]
      change PairingStep ext c s _ _ { (s.updateStore fun st => st.deletePairingCode key).pairing with
        consumed := ((storedPublication s key).map fun d => (publication, d)).toList ++
          s.history.consumed
        resolved := publication :: s.history.resolved }
      rw [hrows, storedPublication_eq]
      exact .forgotRow key publication rfl rfl hok
    | false => exact .keptRow key publication rfl rfl hok
  | deletingExpired key =>
    obtain ⟨rfl, rfl⟩ := Prod.mk.inj h
    have hrows : (if c.storeOk then s.updateStore fun st => st.deletePairingCode key
        else s).pairing = { s.pairing with
          rows := if c.storeOk then s.pairing.rows.map fun rows => rows.erase key
            else s.pairing.rows } := by
      split
      · exact pairing_updateStore fun _ => rfl
      · rfl
    rw [hrows]
    exact .deletedExpired key rfl rfl

theorem pairing_step {i : Nat} {x x' : RelayTask} (hidle : x.Idle)
    (hs : relayAdvance ext c i x s = some (s', x')) : PairingStep ext c s x x' s'.pairing := by
  cases x with
  | verify r limit pc rest =>
    refine pairing_upkeep (verification_step rfl hs).1 rfl ?_
    rcases verify_advance hs with ⟨pc', -, rfl⟩ | ⟨key, -, rfl⟩ | ⟨e, -, rfl⟩
    · rfl
    · exact (signedBy_work key rest).trans (hidle rest rfl)
    · rfl
  | prove daemonNodeId key proof pc rest =>
    refine pairing_upkeep (verification_step rfl hs).1 rfl ?_
    rcases prove_advance hs with ⟨pc', -, rfl⟩ | ⟨-, rfl⟩ | ⟨e, -, rfl⟩
    · rfl
    · exact hidle rest rfl
    · rfl
  | returned reply => cases hs
  | handle hd =>
    have hstep := handle_advance hs
    have quiet (hsame : s'.pairing = s.pairing) (hx : hd.work = none) (hx' : x'.work = none) :
        PairingStep ext c s (.handle hd) x' s'.pairing := by
      rw [hsame]
      refine .quiet ?_ hx'
      rw [RelayTask.owes, RelayTask.work, hx]
      rfl
    cases hd with
    | publish request pc => exact publish_pairing hstep
    | resolve code pc => exact resolve_pairing hstep
    | registerDaemon call pc =>
      have ht : TouchesDaemons s (registerDaemonStep ext c call s pc).1 :=
        registerDaemonStep_touches
      rw [show registerDaemonStep ext c call s pc = (s', x') from hstep] at ht
      refine quiet (pairing_of_daemons ht) rfl ?_
      rcases registerDaemonStep_onward hstep with ⟨pc', rfl⟩ | ⟨_, _, rfl⟩ | ⟨_, _, _, _, rfl⟩ |
        ⟨reply, rfl⟩ <;> rfl
    | registerToken request pc =>
      have ht : TouchesTokens s (registerTokenStep c request s pc).1 := registerTokenStep_touches
      rw [show registerTokenStep c request s pc = (s', x') from hstep] at ht
      refine quiet (pairing_of_tokens ht) rfl ?_
      rcases registerTokenStep_onward hstep with ⟨pc', rfl⟩ | ⟨reply, rfl⟩ <;> rfl
    | unregisterToken request pc =>
      have ht : TouchesTokens s (unregisterTokenStep c request s pc).1 :=
        unregisterTokenStep_touches
      rw [show unregisterTokenStep c request s pc = (s', x') from hstep] at ht
      refine quiet (pairing_of_tokens ht) rfl ?_
      rcases unregisterTokenStep_onward hstep with ⟨pc', rfl⟩ | ⟨reply, rfl⟩ <;> rfl
    | push request pc =>
      have ht : TouchesTokens s (pushStep c request s pc).1 := pushStep_touches
      rw [show pushStep c request s pc = (s', x') from hstep] at ht
      refine quiet (pairing_of_tokens ht) rfl ?_
      rcases pushStep_onward hstep with ⟨pc', rfl⟩ | ⟨reply, rfl⟩ <;> rfl

theorem idle_step {i : Nat} {x x' : RelayTask} (hidle : x.Idle)
    (hs : relayAdvance ext c i x s = some (s', x')) : x'.Idle := by
  have handled {h : Handler} : (RelayTask.handle h).Idle := fun rest hr => by cases hr
  have replied {reply : Reply} : (RelayTask.returned reply).Idle := fun rest hr => by cases hr
  cases x with
  | verify r limit pc rest =>
    rcases verify_advance hs with ⟨pc', -, rfl⟩ | ⟨key, -, rfl⟩ | ⟨e, -, rfl⟩
    · exact hidle
    · exact handled
    · exact replied
  | prove daemonNodeId key proof pc rest =>
    rcases prove_advance hs with ⟨pc', -, rfl⟩ | ⟨-, rfl⟩ | ⟨e, -, rfl⟩
    · exact hidle
    · exact handled
    · exact replied
  | returned reply => cases hs
  | handle hd =>
    have hstep := handle_advance hs
    cases hd with
    | registerDaemon call pc =>
      rcases registerDaemonStep_onward hstep with ⟨pc', rfl⟩ | ⟨_, _, rfl⟩ | ⟨_, _, _, _, rfl⟩ |
        ⟨reply, rfl⟩
      · exact handled
      · intro rest hr; cases hr; rfl
      · intro rest hr; cases hr; rfl
      · exact replied
    | registerToken request pc =>
      rcases registerTokenStep_onward hstep with ⟨pc', rfl⟩ | ⟨reply, rfl⟩
      · exact handled
      · exact replied
    | unregisterToken request pc =>
      rcases unregisterTokenStep_onward hstep with ⟨pc', rfl⟩ | ⟨reply, rfl⟩
      · exact handled
      · exact replied
    | push request pc =>
      rcases pushStep_onward hstep with ⟨pc', rfl⟩ | ⟨reply, rfl⟩
      · exact handled
      · exact replied
    | publish request pc =>
      rcases publishStep_onward hstep with ⟨pc', rfl⟩ | ⟨reply, rfl⟩
      · exact handled
      · exact replied
    | resolve code pc =>
      rcases resolveStep_onward hstep with ⟨pc', rfl⟩ | ⟨reply, rfl⟩
      · exact handled
      · exact replied

section Numbers

variable {x x' y : RelayTask} {v : PairingView} {w w' : PairingWork} {p : Pool RelayState RelayTask}
  {i j : Nat}

/-- The publication has not reached memory yet. -/
def PairingWork.pending : PairingWork → Bool
  | .deletingRows _ _ _ => true
  | .saving _ _ => true
  | .inserting _ _ => true
  | _ => false

/-- An entry in memory was there before, or its own publish inserts it. -/
theorem PairingStep.codes_origin (h : PairingStep ext c s x x' v) {k : String}
    {e : PairingCodeEntry} (he : v.codes.lookup k = some e) :
    s.inner.pairingCodes.lookup k = some e ∨ x.work = some (.inserting k e) ∧ x'.work = none := by
  cases h with
  | quiet | prunedRows | deletedRow | deletedRows | saved | hit | forgotRow | keptRow
  | deletedExpired => exact .inl he
  | pruned => exact .inl (Table.includes_retain _ _ k e he)
  | evicted => exact .inl (Table.includes_retain _ _ k e he)
  | lapsed => exact .inl (Table.includes_erase _ _ k e he)
  | forgotMemory => exact .inl (Table.includes_erase _ _ k e he)
  | inserted key entry hx hx' =>
    rw [Table.lookup_insert] at he
    split at he
    · rename_i hk
      obtain rfl := Option.some.inj he
      exact .inr ⟨hk ▸ hx, hx'⟩
    · exact .inl he

theorem row_of_map {rows : Option (Table String PairingCodeRow)}
    {g : Table String PairingCodeRow → Table String PairingCodeRow}
    (hg : ∀ rows : Table String PairingCodeRow, rows.Includes (g rows)) {k : String}
    {r : PairingCodeRow} (hr : ((rows.map g).bind fun rows => rows.lookup k) = some r) :
    (rows.bind fun rows => rows.lookup k) = some r := by
  cases rows with
  | none => cases hr
  | some rows => exact hg rows k r hr

/-- A row was there before, or its own publish saves it. -/
theorem PairingStep.rows_origin (h : PairingStep ext c s x x' v) {k : String} {r : PairingCodeRow}
    (hr : v.row k = some r) : s.pairing.row k = some r ∨
      ∃ request payload entry, x = .handle (.publish request (.saving k payload entry)) ∧
        r = entry.row payload ∧ x'.work = some (.inserting k entry) ∧ s.stores c = true ∧
        s.pairing.rows ≠ none := by
  have erased {key : String} (hr : ((s.pairing.rows.map fun rows => rows.erase key).bind fun rows =>
      rows.lookup k) = some r) : s.pairing.row k = some r :=
    row_of_map (fun rows => Table.includes_erase rows key) hr
  cases h with
  | quiet | pruned | evicted | deletedRows | inserted | hit | lapsed | forgotMemory | keptRow =>
    exact .inl hr
  | prunedRows rows p hrows =>
    refine .inl ?_
    rw [PairingView.row, hrows]
    exact Table.includes_retain rows p k r hr
  | forgotRow => exact .inl (erased hr)
  | deletedRow stale =>
    refine .inl ?_
    unfold PairingView.row at hr
    split at hr
    · exact erased hr
    · exact hr
  | deletedExpired key =>
    refine .inl ?_
    unfold PairingView.row at hr
    split at hr
    · exact erased hr
    · exact hr
  | saved request key payload entry hx hx' hstores =>
    cases hrows : s.pairing.rows with
    | none =>
      unfold PairingView.row at hr
      rw [hrows] at hr
      cases hr
    | some rows =>
      simp only [PairingView.row, hrows, Option.map_some, Option.bind_some,
        Table.lookup_insert] at hr ⊢
      split at hr
      · rename_i hk
        subst hk
        exact .inr ⟨request, payload, entry, hx, (Option.some.inj hr).symm, hx', hstores,
          fun h => by cases h⟩
      · exact .inl hr

/-- The key on which the next step of a request begins to work. -/
def RelayTask.opens (c : RelayChoice) (s : RelayState) : RelayTask → Option String
  | .handle (.publish _ (.saving key _ _)) => if s.stores c then some key else none
  | .handle (.resolve _ (.looking key)) =>
    if (s.inner.pairingCodes.lookup key).any fun e => decide (s.clock < e.expiresAtMs) then some key
    else none
  | _ => none

/-- A window is open already, or the step opens it. -/
theorem PairingStep.window_origin (h : PairingStep ext c s x x' v) {key : String}
    (hw : x'.window = some key) : x.window = some key ∨ x.opens c s = some key := by
  have idle (hx' : x'.work = none) : False := by
    rw [RelayTask.window, hx'] at hw
    cases hw
  cases h with
  | quiet _ hx' | pruned _ _ hx' | prunedRows _ _ _ _ hx' | inserted _ _ _ hx'
  | lapsed _ _ _ _ _ _ hx' | forgotRow _ _ _ hx' | keptRow _ _ _ hx'
  | deletedExpired _ _ hx' => exact (idle hx').elim
  | evicted request key' record expiresAtMs hx hx' =>
    rcases hx' with hx' | ⟨hx', -⟩
    · rw [RelayTask.window, hx'] at hw
      cases hw
    · exact (idle hx').elim
  | deletedRow _ _ _ _ _ hx' | deletedRows _ _ _ hx' =>
    rw [RelayTask.window, hx'] at hw
    cases hw
  | saved request key' payload entry hx hx' hstores =>
    rw [RelayTask.window, hx'] at hw
    refine .inr ?_
    rw [hx, RelayTask.opens, if_pos hstores]
    exact hw
  | hit code key' entry hx hentry hlive hx' =>
    rw [RelayTask.window, hx'] at hw
    refine .inr ?_
    rw [hx, RelayTask.opens, hentry, if_pos (by exact decide_eq_true hlive)]
    exact hw
  | forgotMemory key' publication hx hx' =>
    rw [RelayTask.window, hx'] at hw
    refine .inl ?_
    rw [RelayTask.window, hx]
    exact hw

theorem work_of_pruning {now : Nat} {pc : PrunePc} (h : x.pruning = some (now, pc)) :
    x.work = none := by
  cases x with
  | verify | prove => rfl
  | handle | returned => cases h

/-- The insertion of a publication is the one step left to it. -/
theorem PairingStep.of_inserting (h : PairingStep ext c s x x' v) {key : String}
    {entry : PairingCodeEntry} (hx : x.work = some (.inserting key entry)) :
    x'.work = none ∧ v = { s.pairing with
      codes := s.inner.pairingCodes.insert key entry
      lastPublished := s.history.lastPublished.insert entry.daemonNodeId entry.publication } := by
  have howes : x.owes = [key] := by rw [RelayTask.owes, hx]; rfl
  cases h with
  | inserted key' entry' hx' hnone =>
    cases hx'.symm.trans hx
    exact ⟨hnone, rfl⟩
  | quiet hnone | prunedRows _ _ _ hnone | deletedExpired _ hnone =>
    cases hnone.symm.trans howes
  | pruned now hpruning => cases (work_of_pruning hpruning).symm.trans hx
  | evicted _ _ _ _ hx' | saved _ _ _ _ hx' | hit _ _ _ hx' | lapsed _ _ _ hx' =>
    rw [hx'] at hx
    cases hx
  | deletedRow _ _ _ _ hx' | deletedRows _ _ hx' | forgotMemory _ _ hx' | forgotRow _ _ hx'
  | keptRow _ _ hx' => cases hx'.symm.trans hx

theorem window_of_work {w : PairingWork} (h : x.work = some w) : x.window = w.window := by
  rw [RelayTask.window, h]
  rfl

theorem exists_work_of_window {key : String} (h : x.window = some key) :
    ∃ w, x.work = some w ∧ w.window = some key := Option.bind_eq_some_iff.mp h

/-- Only a resolve that returns its publication adds to the list of those returned. -/
theorem PairingStep.resolved_cases (h : PairingStep ext c s x x' v) :
    v.resolved = s.history.resolved ∨
      ∃ key n, x.work = some (.forgettingRow key n) ∧ x'.work = none ∧
        v.resolved = n :: s.history.resolved := by
  cases h with
  | forgotRow key n hx hx' => exact .inr ⟨key, n, hx, hx', rfl⟩
  | keptRow key n hx hx' => exact .inr ⟨key, n, hx, hx', rfl⟩
  | _ => exact .inl rfl

theorem PairingStep.resolved_of_work (h : PairingStep ext c s x x' v) (hw : x'.work = some w) :
    v.resolved = s.history.resolved := by
  rcases h.resolved_cases with heq | ⟨_, _, -, hnone, -⟩
  · exact heq
  · cases hnone.symm.trans hw

theorem PairingStep.to_inserting (h : PairingStep ext c s x x' v) {key : String}
    {entry : PairingCodeEntry} (hw : x'.work = some (.inserting key entry)) :
    ∃ request payload, x = .handle (.publish request (.saving key payload entry)) ∧
      s.stores c = true ∧
      v.rows = s.pairing.rows.map fun rows => rows.insert key (entry.row payload) := by
  cases h with
  | saved request key' payload entry' hx hx' hstores =>
    cases hx'.symm.trans hw
    exact ⟨request, payload, hx, hstores, rfl⟩
  | quiet _ hx' | pruned _ _ hx' | prunedRows _ _ _ _ hx' | deletedRow _ _ _ _ _ hx'
  | deletedRows _ _ _ hx' | inserted _ _ _ hx' | hit _ _ _ _ _ _ hx' | lapsed _ _ _ _ _ _ hx'
  | forgotMemory _ _ _ hx' | forgotRow _ _ _ hx' | keptRow _ _ _ hx'
  | deletedExpired _ _ hx' => cases hx'.symm.trans hw
  | evicted _ _ _ _ _ hx' => rcases hx' with hx' | ⟨hx', -⟩ <;> cases hx'.symm.trans hw

theorem PairingStep.to_forgettingMemory (h : PairingStep ext c s x x' v) {key : String} {n : Nat}
    (hw : x'.work = some (.forgettingMemory key n)) :
    ∃ e, x.opens c s = some key ∧ s.inner.pairingCodes.lookup key = some e ∧
      e.publication = n ∧ v = s.pairing := by
  cases h with
  | hit code key' entry hx hentry hlive hx' =>
    cases hx'.symm.trans hw
    refine ⟨entry, ?_, hentry, rfl, rfl⟩
    rw [hx, RelayTask.opens, hentry, if_pos (by exact decide_eq_true hlive)]
  | quiet _ hx' | pruned _ _ hx' | prunedRows _ _ _ _ hx' | deletedRow _ _ _ _ _ hx'
  | deletedRows _ _ _ hx' | saved _ _ _ _ _ hx' | inserted _ _ _ hx' | lapsed _ _ _ _ _ _ hx'
  | forgotMemory _ _ _ hx' | forgotRow _ _ _ hx' | keptRow _ _ _ hx'
  | deletedExpired _ _ hx' => cases hx'.symm.trans hw
  | evicted _ _ _ _ _ hx' => rcases hx' with hx' | ⟨hx', -⟩ <;> cases hx'.symm.trans hw

theorem PairingStep.to_forgettingRow (h : PairingStep ext c s x x' v) {key : String} {n : Nat}
    (hw : x'.work = some (.forgettingRow key n)) :
    x.work = some (.forgettingMemory key n) ∧ v.codes = s.inner.pairingCodes.erase key ∧
      v.rows = s.pairing.rows := by
  cases h with
  | forgotMemory key' publication hx hx' =>
    cases hx'.symm.trans hw
    exact ⟨hx, rfl, rfl⟩
  | quiet _ hx' | pruned _ _ hx' | prunedRows _ _ _ _ hx' | deletedRow _ _ _ _ _ hx'
  | deletedRows _ _ _ hx' | saved _ _ _ _ _ hx' | inserted _ _ _ hx' | hit _ _ _ _ _ _ hx'
  | lapsed _ _ _ _ _ _ hx' | forgotRow _ _ _ hx' | keptRow _ _ _ hx'
  | deletedExpired _ _ hx' => cases hx'.symm.trans hw
  | evicted _ _ _ _ _ hx' => rcases hx' with hx' | ⟨hx', -⟩ <;> cases hx'.symm.trans hw

theorem row_of_saved {key payload : String} {entry : PairingCodeEntry} {r : PairingCodeRow}
    (hrows : v.rows = s.pairing.rows.map fun rows => rows.insert key (entry.row payload))
    (hr : v.row key = some r) : r = entry.row payload := by
  unfold PairingView.row at hr
  rw [hrows] at hr
  obtain ⟨rows, hrows, hr⟩ := Option.bind_eq_some_iff.mp hr
  obtain ⟨rows, -, rfl⟩ := Option.map_eq_some_iff.mp hrows
  rw [Table.lookup_insert_self] at hr
  exact (Option.some.inj hr).symm

theorem PairingStep.publications_le (h : PairingStep ext c s x x' v) :
    s.history.publications ≤ v.publications := by
  cases h with
  | evicted => exact Nat.le_succ _
  | _ => exact Nat.le_refl _

/-- A publication that a request works with was its own before, or is a new one, or is the
one that a resolve has just found. -/
theorem PairingStep.work_origin (h : PairingStep ext c s x x' v) (hw : x'.work = some w') :
    (∃ w, x.work = some w ∧ w'.publication = w.publication ∧
        (w'.pending = true → w.pending = true)) ∨
      (w'.publication = s.history.publications ∧ w'.window = none ∧
        v.publications = s.history.publications + 1) ∨
      ∃ code key entry, x = .handle (.resolve code (.looking key)) ∧
        s.inner.pairingCodes.lookup key = some entry ∧ s.clock < entry.expiresAtMs ∧
        w' = .forgettingMemory key entry.publication := by
  cases h with
  | quiet _ hx' | pruned _ _ hx' | prunedRows _ _ _ _ hx' | inserted _ _ _ hx'
  | lapsed _ _ _ _ _ _ hx' | forgotRow _ _ _ hx' | keptRow _ _ _ hx'
  | deletedExpired _ _ hx' => cases hx'.symm.trans hw
  | evicted request key record expiresAtMs hx hx' =>
    rcases hx' with hx' | ⟨hx', -⟩
    · obtain rfl := Option.some.inj (hx'.symm.trans hw)
      exact .inr (.inl ⟨rfl, rfl, rfl⟩)
    · cases hx'.symm.trans hw
  | deletedRow stale key superseded entry hx hx' =>
    obtain rfl := Option.some.inj (hx'.symm.trans hw)
    exact .inl ⟨_, hx, rfl, fun _ => rfl⟩
  | deletedRows key entry hx hx' =>
    obtain rfl := Option.some.inj (hx'.symm.trans hw)
    exact .inl ⟨_, hx, rfl, fun _ => rfl⟩
  | saved request key payload entry hx hx' =>
    obtain rfl := Option.some.inj (hx'.symm.trans hw)
    exact .inl ⟨.saving key entry, by rw [hx]; rfl, rfl, fun _ => rfl⟩
  | hit code key entry hx hentry hlive hx' =>
    obtain rfl := Option.some.inj (hx'.symm.trans hw)
    exact .inr (.inr ⟨code, key, entry, hx, hentry, hlive, rfl⟩)
  | forgotMemory key publication hx hx' =>
    obtain rfl := Option.some.inj (hx'.symm.trans hw)
    exact .inl ⟨_, hx, rfl, fun hp => by cases hp⟩

/-- The publications in memory have their numbers, each a single one, and none that has been
returned. -/
structure Numbered (s : RelayState) : Prop where
  bound : ∀ k e, s.inner.pairingCodes.lookup k = some e → e.publication < s.history.publications
  unique : ∀ k k' e e', s.inner.pairingCodes.lookup k = some e →
    s.inner.pairingCodes.lookup k' = some e' → e.publication = e'.publication → k = k'
  returned : ∀ n ∈ s.history.resolved, n < s.history.publications
  gone : ∀ n ∈ s.history.resolved, ∀ k e, s.inner.pairingCodes.lookup k = some e →
    e.publication ≠ n

/-- A request works with a publication that has its number. While it is pending it has been
neither in memory nor returned; when a resolve works with it, it can be only at its key. -/
structure WorkOk (s : RelayState) (_ : Nat) (x : RelayTask) : Prop where
  idle : x.Idle
  bound : ∀ w, x.work = some w → w.publication < s.history.publications
  absent : ∀ w, x.work = some w → w.pending = true → ∀ k e,
    s.inner.pairingCodes.lookup k = some e → e.publication ≠ w.publication
  unreturned : ∀ w, x.work = some w → w.pending = true → w.publication ∉ s.history.resolved
  found : ∀ key n, x.work = some (.forgettingMemory key n) → ∀ k e,
    s.inner.pairingCodes.lookup k = some e → e.publication = n → k = key
  forgotten : ∀ key n, x.work = some (.forgettingRow key n) → ∀ k e,
    s.inner.pairingCodes.lookup k = some e → e.publication ≠ n

/-- A pending publication belongs to one request. -/
def Apart (x y : RelayTask) : Prop :=
  ∀ w w', x.work = some w → y.work = some w' → (w.pending = true ∨ w'.pending = true) →
    w.publication ≠ w'.publication

/-- The relay keeps running. -/
def runsOn : Move RelayTask RelayChoice RelayEvent → Bool
  | .environment .restart => false
  | _ => true

theorem numbered_step (hs : relayAdvance ext c i x s = some (s', x')) (hn : Numbered s)
    (hok : WorkOk s i x) : Numbered s' := by
  have hstep := pairing_step hok.idle hs
  have hle : s.history.publications ≤ s'.history.publications := hstep.publications_le
  have hresolved : s'.history.resolved = s.history.resolved ∨
      ∃ key n, x.work = some (.forgettingRow key n) ∧ x'.work = none ∧
        s'.history.resolved = n :: s.history.resolved := hstep.resolved_cases
  refine ⟨fun k e he => ?_, fun k k' e e' he he' heq => ?_, fun n hmem => ?_,
    fun n hmem k e he => ?_⟩
  · rcases hstep.codes_origin he with he | ⟨hx, -⟩
    · exact Nat.lt_of_lt_of_le (hn.bound k e he) hle
    · exact Nat.lt_of_lt_of_le (hok.bound _ hx) hle
  · rcases hstep.codes_origin he with he | ⟨hx, -⟩ <;>
      rcases hstep.codes_origin he' with he' | ⟨hx', -⟩
    · exact hn.unique k k' e e' he he' heq
    · exact absurd heq (hok.absent _ hx' rfl k e he)
    · exact absurd heq.symm (hok.absent _ hx rfl k' e' he')
    · cases hx.symm.trans hx'
      rfl
  · rcases hresolved with heq | ⟨key, m, hx, -, heq⟩ <;> rw [heq] at hmem
    · exact Nat.lt_of_lt_of_le (hn.returned n hmem) hle
    · rcases List.mem_cons.mp hmem with rfl | hmem
      · exact Nat.lt_of_lt_of_le (hok.bound _ hx) hle
      · exact Nat.lt_of_lt_of_le (hn.returned n hmem) hle
  · rcases hstep.codes_origin he with he | ⟨hx', -⟩ <;>
      rcases hresolved with heq | ⟨key, m, hx, -, heq⟩ <;> rw [heq] at hmem
    · exact hn.gone n hmem k e he
    · rcases List.mem_cons.mp hmem with rfl | hmem
      · exact hok.forgotten key n hx k e he
      · exact hn.gone n hmem k e he
    · rintro rfl
      exact hok.unreturned _ hx' rfl hmem
    · cases hx.symm.trans hx'

theorem workOk_step (hs : relayAdvance ext c i x s = some (s', x')) (hn : Numbered s)
    (hok : WorkOk s i x) : WorkOk s' i x' := by
  have hstep := pairing_step hok.idle hs
  have hle : s.history.publications ≤ s'.history.publications := hstep.publications_le
  refine ⟨idle_step hok.idle hs, fun w hw => ?_, fun w hw hp k e he => ?_, fun w hw hp => ?_,
    fun key n hw k e he => ?_, fun key n hw k e he => ?_⟩
  · rcases hstep.work_origin hw with ⟨w₀, hx, hpub, -⟩ | ⟨hpub, -, hnext⟩ | ⟨_, key, e, -, he, -, rfl⟩
    · rw [hpub]
      exact Nat.lt_of_lt_of_le (hok.bound w₀ hx) hle
    · rw [hpub]
      exact Nat.lt_of_lt_of_eq (Nat.lt_succ_self _) hnext.symm
    · exact Nat.lt_of_lt_of_le (hn.bound key e he) hle
  · rcases hstep.codes_origin he with he | ⟨-, hx'⟩
    · rcases hstep.work_origin hw with ⟨w₀, hx, hpub, hp'⟩ | ⟨hpub, -⟩ | ⟨_, key, e', -, -, -, rfl⟩
      · rw [hpub]
        exact hok.absent w₀ hx (hp' hp) k e he
      · rw [hpub]
        exact Nat.ne_of_lt (hn.bound k e he)
      · cases hp
    · cases hx'.symm.trans hw
  · have hresolved : s'.history.resolved = s.history.resolved := hstep.resolved_of_work hw
    rw [hresolved]
    rcases hstep.work_origin hw with ⟨w₀, hx, hpub, hp'⟩ | ⟨hpub, -⟩ | ⟨_, key, e', -, -, -, rfl⟩
    · rw [hpub]
      exact hok.unreturned w₀ hx (hp' hp)
    · rw [hpub]
      exact fun hmem => Nat.lt_irrefl _ (hn.returned _ hmem)
    · cases hp
  · obtain ⟨e₀, -, he₀, rfl, hsame⟩ := hstep.to_forgettingMemory hw
    have hcodes : s'.inner.pairingCodes = s.inner.pairingCodes := congrArg PairingView.codes hsame
    rw [hcodes] at he
    exact hn.unique k key e e₀ he he₀
  · obtain ⟨hx, hcodes, -⟩ := hstep.to_forgettingRow hw
    have hcodes : s'.inner.pairingCodes = s.inner.pairingCodes.erase key := hcodes
    rw [hcodes, Table.lookup_erase] at he
    split at he
    · cases he
    · rename_i hne
      exact fun hpub => hne (hok.found key n hx k e he hpub)

theorem workOk_others (hs : relayAdvance ext c i x s = some (s', x')) (hidle : x.Idle)
    (hok : WorkOk s j y) (hapart : Apart x y) : WorkOk s' j y := by
  have hstep := pairing_step hidle hs
  refine ⟨hok.idle, fun w hw => Nat.lt_of_lt_of_le (hok.bound w hw) hstep.publications_le,
    fun w hw hp k e he => ?_, fun w hw hp => ?_, fun key n hw k e he => ?_,
    fun key n hw k e he => ?_⟩
  · rcases hstep.codes_origin he with he | ⟨hx, -⟩
    · exact hok.absent w hw hp k e he
    · exact hapart _ _ hx hw (.inl rfl)
  · have hresolved : s'.history.resolved = s.history.resolved ∨
        ∃ key n, x.work = some (.forgettingRow key n) ∧ x'.work = none ∧
          s'.history.resolved = n :: s.history.resolved := hstep.resolved_cases
    rcases hresolved with heq | ⟨key, n, hx, -, heq⟩ <;> rw [heq]
    · exact hok.unreturned w hw hp
    · rw [List.mem_cons, not_or]
      exact ⟨fun hpub => hapart _ _ hx hw (.inr hp) hpub.symm, hok.unreturned w hw hp⟩
  · rcases hstep.codes_origin he with he | ⟨hx, -⟩
    · exact hok.found key n hw k e he
    · exact fun hpub => absurd hpub (hapart _ _ hx hw (.inl rfl))
  · rcases hstep.codes_origin he with he | ⟨hx, -⟩
    · exact hok.forgotten key n hw k e he
    · exact hapart _ _ hx hw (.inl rfl)

theorem arrives_work (hx : x.arrives ext = true) : x.work = none := by
  cases arrival_of_arrives hx <;> rfl

theorem arrives_idle (hx : x.arrives ext = true) : x.Idle := by
  intro rest hr
  cases arrival_of_arrives hx <;> cases hr <;> rfl

theorem numbered_noninterference (ext : Externals) : (relayTasking ext).Noninterference
    (fun p a => runsOn a = true ∧ p.Pairwise Apart) Numbered WorkOk where
  init s hs := by
    have hcodes {k : String} {e : PairingCodeEntry}
        (he : s.inner.pairingCodes.lookup k = some e) : False := by
      rw [hs.inner] at he
      cases (Table.lookup_empty k).symm.trans he
    have hresolved {n : Nat} (hn : n ∈ s.history.resolved) : False := by
      rw [hs.history] at hn
      cases hn
    exact ⟨fun k e he => (hcodes he).elim, fun k k' e e' he => (hcodes he).elim,
      fun n hn => (hresolved hn).elim, fun n hn => (hresolved hn).elim⟩
  fresh p i x _ _ hx := by
    have hnone {w : PairingWork} (hw : x.work = some w) : False := by
      cases (arrives_work hx).symm.trans hw
    exact ⟨arrives_idle hx, fun w hw => (hnone hw).elim, fun w hw => (hnone hw).elim,
      fun w hw => (hnone hw).elim, fun key n hw => (hnone hw).elim,
      fun key n hw => (hnone hw).elim⟩
  own p i c x s' x' _ hn _ hok hs := ⟨numbered_step hs hn hok, workOk_step hs hn hok⟩
  others p i c x s' x' hc _ ht hokx hs j y hji hy hok :=
    workOk_others (i := i) hs hokx.idle hok (hc.2 i j x y hji.symm ht hy)
  environment p e s' keep hc hn hs := by
    cases e with
    | tick ms =>
      obtain ⟨-, hr⟩ := Option.ite_none_right_eq_some.mp hs
      cases hr
      exact ⟨⟨hn.bound, hn.unique, hn.returned, hn.gone⟩, fun _ j y _ hok =>
        ⟨hok.idle, hok.bound, hok.absent, hok.unreturned, hok.found, hok.forgotten⟩⟩
    | restart => cases hc.1

theorem apart_step {q : Pool RelayState RelayTask} {a : Move RelayTask RelayChoice RelayEvent}
    (hsafe : Tasking.Safe Numbered WorkOk p) (hp : p.Pairwise Apart)
    (hs : (relayTasking ext).machine.step a p = some q) : q.Pairwise Apart := by
  refine Tasking.pairwise_step ?_ hp hs ?_ ?_
  · intro x y h w w' hw hw' hpending
    exact (h w' w hw' hw hpending.symm).symm
  · intro x y hx w w' hw
    cases (arrives_work hx).symm.trans hw
  · intro i c x s' x' _ ht hr j y hji hy w w' hw hw' hpending
    rcases (pairing_step (i := i) (hsafe.2 i x ht).idle hr).work_origin hw with
      ⟨w₀, hx, hpub, hp'⟩ | ⟨hpub, -⟩ | ⟨_, key, e, -, he, -, rfl⟩
    · rw [hpub]
      exact hp i j x y hji.symm ht hy w₀ w' hx hw' (hpending.imp_left hp')
    · rw [hpub]
      exact (Nat.ne_of_lt ((hsafe.2 j y hy).bound w' hw')).symm
    · rcases hpending with hpending | hpending
      · cases hpending
      · exact (hsafe.2 j y hy).absent w' hw' hpending key e he

/-- The numbering, and the claim of each request on the numbers it works with. -/
def Numbering (p : Pool RelayState RelayTask) : Prop :=
  Tasking.Safe Numbered WorkOk p ∧ p.Pairwise Apart

theorem numbering_init (h : (relayTasking ext).machine.init p) : Numbering p :=
  ⟨(numbered_noninterference ext).safe_init h, Tasking.pairwise_init h⟩

theorem numbering_step {q : Pool RelayState RelayTask} {a : Move RelayTask RelayChoice RelayEvent}
    (hp : Numbering p) (ha : runsOn a = true) (hs : (relayTasking ext).machine.step a p = some q) :
    Numbering q :=
  ⟨(numbered_noninterference ext).step hp.1 ⟨ha, hp.2⟩ hs, apart_step hp.1 hp.2 hs⟩

end Numbers

end Shelly.Relay
