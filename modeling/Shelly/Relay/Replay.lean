import Shelly.Relay.Frames

namespace Shelly.Relay

/-- What tells one signed request from another. -/
def SignedRequestContext.identity (r : SignedRequestContext) : String × String × Nat × List UInt8 :=
  (r.daemonNodeId, r.nonce, r.tsMs, r.body)

/-- The key under which the nonce of a request is kept. -/
def SignedRequestContext.nonceKey (r : SignedRequestContext) : String × String :=
  (r.daemonNodeId, r.nonce)

/-- The part of the relay that keeps replays out. -/
structure NonceView where
  seen : Table (String × String) Nat
  rows : Option (Table (String × String) Int)
  prunedAtMs : Nat
  accepted : List SignedRequestContext

def RelayState.nonces (s : RelayState) : NonceView :=
  ⟨s.inner.seenNonces, s.store.map (·.seenNonces), s.inner.prunedAtMs, s.history.accepted⟩

/-- The timestamp under which a nonce is known: by the database, if there is one. -/
def NonceView.remembered (v : NonceView) (k : String × String) : Option Int :=
  match v.rows with
  | some rows => rows.lookup k
  | none => (v.seen.lookup k).map Int.ofNat

/-- A request past its skew check. -/
def RelayTask.claims : RelayTask → Option SignedRequestContext
  | .verify _ _ .start _ => none
  | .verify r _ _ _ => some r
  | _ => none

/-- A request that has found its nonce unused, where that decides. -/
def RelayTask.holds (stored : Bool) : RelayTask → Option SignedRequestContext
  | .verify r _ (.recordActivity _ _) _ => if stored then none else some r
  | .verify r _ (.refresh _ _) _ => some r
  | _ => none

/-- A request whose next step looks its nonce up where that decides, and records it. -/
def RelayTask.records (stored : Bool) : RelayTask → Option SignedRequestContext
  | .verify r _ (.markNonce _ _) _ => if stored then none else some r
  | .verify r _ (.recordActivity _ _) _ => if stored then some r else none
  | _ => none

/-- The nonce that the next step puts into memory. -/
def RelayTask.marks (ext : Externals) (c : RelayChoice) (s : RelayState) :
    RelayTask → Option ((String × String) × Nat)
  | .verify r limit (.markNonce _ key) _ =>
    if s.registeredKey r.daemonNodeId = some key ∧ (limit && c.limited) = false then
      some (r.nonceKey, r.tsMs)
    else none
  | .prove daemonNodeId key proof .markNonce _ =>
    match checkProof ext s.config.registrationAudience daemonNodeId key proof with
    | .ok () => some ((daemonNodeId, proof.nonce), proof.tsMs)
    | .error _ => none
  | _ => none

/-- Without a database: a prune of stale daemons drops no nonce that could still be used. -/
def RelayState.keepsSeen (s : RelayState) (now : Nat) : Bool :=
  s.inner.seenNonces.entries.all fun e =>
    decide (e.2 + clockSkewMs < now) || s.inner.keepsOwner s.config now e.1.1

/-- With a database: the same for the rows. -/
def RelayState.keepsRecorded (s : RelayState) (now : Nat) : Bool :=
  s.store.all fun st => st.seenNonces.entries.all fun e =>
    decide (e.2 + clockSkewMs < now) || !st.staleOwner s.config now e.1.1

/-- A prune that counts for replays does not drop a nonce with its daemon. -/
def RelayState.prunesFairly (c : RelayChoice) (s : RelayState) : Nat × PrunePc → Bool
  | (now, .memory) => s.store.isSome || s.keepsSeen now
  | (now, .store) => !c.storeOk || s.keepsRecorded now
  | (_, .gate) => true

/-- A request that finds its nonce unused is still within the skew of the last prune, and its
timestamp fits the database. -/
def RelayState.recordsInTime (s : RelayState) (r : SignedRequestContext) : Bool :=
  (s.nonces.remembered r.nonceKey).isSome ||
    decide (s.inner.prunedAtMs ≤ r.tsMs + clockSkewMs) && decide (r.tsMs < 2 ^ 63)

/-- Without a database: a nonce in memory is not given an earlier timestamp. -/
def RelayState.marksLater (s : RelayState) (m : (String × String) × Nat) : Bool :=
  s.store.isSome || (s.inner.seenNonces.lookup m.1).all fun tsMs => decide (tsMs ≤ m.2)

/-- What keeps a nonce known for as long as its request is. -/
def noncesKept (ext : Externals) (p : Pool RelayState RelayTask) :
    Move RelayTask RelayChoice RelayEvent → Bool
  | .advance i c =>
    (p.task i).all fun x =>
      x.pruning.all (p.shared.prunesFairly c) &&
        (x.records p.shared.store.isSome).all p.shared.recordsInTime &&
        (x.marks ext c p.shared).all p.shared.marksLater
  | .environment .restart => p.shared.keepsRecorded p.shared.clock
  | _ => true

section Steps

variable {ext : Externals} {c : RelayChoice} {s s' : RelayState} {x x' : RelayTask}
  {v : NonceView}

/-- A step brings no request to a later stage. -/
def Keeps (stored : Bool) (x x' : RelayTask) : Prop :=
  (∀ r, x'.claims = some r → x.claims = some r) ∧ ∀ r, x'.holds stored = some r → x.holds stored = some r

/-- Every step of the relay, seen from the nonces. -/
inductive NonceStep (ext : Externals) (c : RelayChoice) (s : RelayState) (x x' : RelayTask) :
    NonceView → Prop
  | quiet : Keeps s.store.isSome x x' → NonceStep ext c s x x' s.nonces
  | claimed (r : SignedRequestContext) : absDiff s.clock r.tsMs ≤ clockSkewMs →
      x'.claims = some r → (∀ b, x'.holds b = none) → NonceStep ext c s x x' s.nonces
  | gated (now : Nat) : x.pruning = some (now, .gate) → s.inner.prunedAtMs ≤ now →
      x'.pruning = some (now, .memory) → Keeps s.store.isSome x x' →
      NonceStep ext c s x x' { s.nonces with prunedAtMs := now }
  | prunedMemory (now : Nat) : x.pruning = some (now, .memory) → Keeps s.store.isSome x x' →
      NonceStep ext c s x x' { s.nonces with
        seen := (s.inner.pruneExpired s.config now).seenNonces }
  | prunedRows (now : Nat) : x.pruning = some (now, .store) → c.storeOk = true →
      Keeps s.store.isSome x x' → NonceStep ext c s x x' { s.nonces with
        rows := s.store.map fun st => (st.pruneExpiredRows s.config now).seenNonces }
  | marked (k : String × String) (tsMs : Nat) : x.marks ext c s = some (k, tsMs) →
      (∀ r, x'.claims = some r → x.claims = some r) →
      (∀ r, x'.holds s.store.isSome = some r → x.records s.store.isSome = some r ∧
        r.nonceKey = k ∧ r.tsMs = tsMs ∧ s.inner.seenNonces.lookup k = none) →
      NonceStep ext c s x x' { s.nonces with seen := s.inner.seenNonces.insert k tsMs }
  | recorded (r : SignedRequestContext) (rows : Table (String × String) Int) :
      x.records s.store.isSome = some r → x.claims = some r →
      s.nonces.rows = some rows → rows.lookup r.nonceKey = none →
      x'.claims = some r → x'.holds s.store.isSome = some r →
      NonceStep ext c s x x' { s.nonces with rows := some (rows.insert r.nonceKey (asI64 r.tsMs)) }
  | proved (k : String × String) (tsMs : Nat) (rows : Table (String × String) Int) :
      s.nonces.rows = some rows → rows.lookup k = none → x'.claims = none →
      (∀ b, x'.holds b = none) →
      NonceStep ext c s x x' { s.nonces with rows := some (rows.insert k (asI64 tsMs)) }
  | accepted (r : SignedRequestContext) : (∀ b, x.holds b = some r) → x.claims = some r →
      x'.claims = none → (∀ b, x'.holds b = none) →
      NonceStep ext c s x x' { s.nonces with accepted := r :: s.history.accepted }

theorem Keeps.rfl {b : Bool} : Keeps b x x := ⟨fun _ h => h, fun _ h => h⟩

theorem Keeps.of_none {b : Bool} (hclaims : x'.claims = none) (hholds : x'.holds b = none) :
    Keeps b x x' :=
  ⟨fun _ h => by (rw [hclaims] at h; cases h), fun _ h => by (rw [hholds] at h; cases h)⟩

theorem nonces_of_daemons (h : TouchesDaemons s s') : s'.nonces = s.nonces := by
  cases h with
  | same | memory => rfl
  | rows f =>
    unfold RelayState.updateStore RelayState.nonces
    cases s.store <;> rfl

theorem nonces_of_tokens (h : TouchesTokens s s') : s'.nonces = s.nonces := by
  cases h with
  | same | memory => rfl
  | rows f =>
    unfold RelayState.updateStore RelayState.nonces
    cases s.store <;> rfl

theorem nonces_of_codes (h : TouchesCodes s s') : s'.nonces = s.nonces := by
  cases h with
  | memory codes history hsame =>
    unfold RelayState.nonces
    rw [hsame]
  | rows f history hsame =>
    unfold RelayState.updateStore RelayState.nonces
    rw [hsame]
    cases s.store <;> rfl

/-- The prune of a request on its way. -/
theorem prune_nonces {now : Nat} {pc : PrunePc} {next : Option PrunePc}
    (hx : x.pruning = some (now, pc)) (hs : pruneStep c now pc s = (s', next))
    (hx' : ∀ pc', next = some pc' → x'.pruning = some (now, pc'))
    (hkeeps : Keeps s.store.isSome x x') : NonceStep ext c s x x' s'.nonces := by
  cases pc with
  | gate =>
    simp only [pruneStep] at hs
    split at hs <;> cases hs
    · exact .quiet hkeeps
    · refine .gated now hx ?_ (hx' _ rfl) hkeeps
      simp only [pruneIntervalMs] at *
      omega
  | memory =>
    cases hs
    exact .prunedMemory now hx hkeeps
  | store =>
    obtain ⟨rfl, rfl⟩ := Prod.mk.inj hs
    cases hok : c.storeOk with
    | false => exact .quiet hkeeps
    | true =>
      have hrows : (s.pruneStore now).nonces = { s.nonces with
          rows := s.store.map fun st => (st.pruneExpiredRows s.config now).seenNonces } := by
        unfold RelayState.pruneStore RelayState.nonces
        cases s.store <;> rfl
      rw [if_pos rfl, hrows]
      exact .prunedRows now hx hok hkeeps

theorem verify_nonces {r : SignedRequestContext} {limit : Bool} {pc : VerifyPc} {rest : Handler}
    {i : Nat} (h : relayAdvance ext c i (.verify r limit pc rest) s = some (s', x')) :
    NonceStep ext c s (.verify r limit pc rest) x' s'.nonces := by
  have refused {e : ApiError} (hs : verifyStep ext c r limit pc s = (s, .failed e)) :
      NonceStep ext c s (.verify r limit pc rest) x' s'.nonces := by
    simp only [relayAdvance, hs, Option.some.injEq] at h
    cases h
    exact .quiet (.of_none rfl rfl)
  cases pc with
  | start =>
    by_cases hskew : absDiff s.clock r.tsMs > clockSkewMs
    · exact refused (if_pos hskew)
    · have hs : verifyStep ext c r limit .start s = (s, .running (.pruning s.clock .gate)) :=
        if_neg hskew
      simp only [relayAdvance, hs, Option.some.injEq] at h
      cases h
      exact .claimed r (Nat.le_of_not_lt hskew) rfl fun _ => rfl
  | pruning now pc =>
    obtain ⟨t, next, hprune⟩ : ∃ t next, pruneStep c now pc s = (t, next) := ⟨_, _, rfl⟩
    simp only [relayAdvance, verifyStep, hprune, Option.some.injEq] at h
    cases next with
    | none =>
      cases h
      exact prune_nonces rfl hprune (fun _ h => by cases h) ⟨fun _ hr => hr, fun _ h => by cases h⟩
    | some pc' =>
      cases h
      refine prune_nonces rfl hprune (fun pc'' heq => ?_)
        ⟨fun _ hr => hr, fun _ h => by cases h⟩
      cases heq
      rfl
  | readKey now =>
    rcases verify_advance h with ⟨pc', hs, rfl⟩ | ⟨key, hs, rfl⟩ | ⟨e, hs, rfl⟩
    · simp only [verifyStep] at hs
      repeat' split at hs
      all_goals cases hs
      exact .quiet ⟨fun _ hr => hr, fun _ h => by cases h⟩
    · obtain ⟨now', hpc⟩ := verifyStep_done hs
      cases hpc
    · simp only [verifyStep] at hs
      repeat' split at hs
      all_goals cases hs
      all_goals exact .quiet (.of_none rfl rfl)
  | markNonce now key =>
    by_cases hkey : s.registeredKey r.daemonNodeId ≠ some key
    · exact refused (if_pos hkey)
    · by_cases hlimit : (limit && c.limited) = true
      · exact refused ((if_neg hkey).trans (if_pos hlimit))
      · have hmarks : (RelayTask.verify r limit (.markNonce now key) rest).marks ext c s =
            some (r.nonceKey, r.tsMs) :=
          if_pos ⟨not_not.mp hkey, Bool.not_eq_true _ ▸ hlimit⟩
        simp only [relayAdvance, verifyStep, if_neg hkey, if_neg hlimit, Option.some.injEq] at h
        cases hseen : s.inner.seenNonces.contains (r.daemonNodeId, r.nonce) with
        | true =>
          simp only [hseen, if_true] at h
          cases h
          exact .marked r.nonceKey r.tsMs hmarks (fun _ h => by cases h) (fun _ h => by cases h)
        | false =>
          simp only [hseen, Bool.false_eq_true, if_false] at h
          cases h
          refine .marked r.nonceKey r.tsMs hmarks (fun _ hr => hr) fun r' hr => ?_
          have heq : r' = r := by
            simp only [RelayTask.holds] at hr
            split at hr
            · cases hr
            · exact (Option.some.inj hr).symm
          subst heq
          exact ⟨hr, rfl, rfl, Table.contains_eq_false.mp hseen⟩
  | recordActivity now key =>
    cases hst : s.store with
    | none =>
      simp only [relayAdvance, verifyStep, hst, Option.some.injEq] at h
      cases h
      refine .quiet ⟨fun _ hr => hr, fun r' hr => ?_⟩
      rw [hst]
      exact hr
    | some st =>
      cases hok : c.storeOk with
      | false =>
        refine refused (e := .internal) ?_
        simp only [verifyStep, hst, hok, Bool.false_eq_true, if_false]
      | true =>
        have hrows : s.nonces.rows = some st.seenNonces := by
          unfold RelayState.nonces
          rw [hst]
          rfl
        have hstored : s.store.isSome = true := by rw [hst]; rfl
        cases hseen : st.seenNonces.contains (r.daemonNodeId, r.nonce) with
        | true =>
          have hset : s.setStore st = s := by
            unfold RelayState.setStore
            rw [← hst]
          refine refused (e := .replay) ?_
          simp only [verifyStep, hst, hok, if_true, RelayStore.recordAuthenticatedActivity,
            RelayStore.insertNonce, hseen, hset]
        | false =>
          simp only [relayAdvance, verifyStep, hst, hok, if_true,
            RelayStore.recordAuthenticatedActivity, RelayStore.insertNonce, hseen,
            Bool.false_eq_true, if_false, Option.some.injEq] at h
          cases h
          exact .recorded r st.seenNonces (by rw [hstored]; rfl) rfl hrows
            (Table.contains_eq_false.mp hseen) rfl rfl
  | refresh now key =>
    cases h
    refine .accepted r (fun _ => rfl) rfl rfl fun _ => rfl

theorem prove_nonces {daemonNodeId : String} {key : VerifyingKey} {proof : RegistrationProof}
    {pc : ProofPc} {rest : Handler} {i : Nat}
    (h : relayAdvance ext c i (.prove daemonNodeId key proof pc rest) s = some (s', x')) :
    NonceStep ext c s (.prove daemonNodeId key proof pc rest) x' s'.nonces := by
  have hidle : x'.claims = none ∧ ∀ b, x'.holds b = none := by
    rcases prove_advance h with ⟨pc', -, rfl⟩ | ⟨-, rfl⟩ | ⟨e, -, rfl⟩ <;> exact ⟨rfl, fun _ => rfl⟩
  have hkeeps : Keeps s.store.isSome (.prove daemonNodeId key proof pc rest) x' :=
    .of_none hidle.1 (hidle.2 _)
  have refused {e : ApiError} (hs : proofStep ext c daemonNodeId key proof pc s = (s, .failed e)) :
      NonceStep ext c s (.prove daemonNodeId key proof pc rest) x' s'.nonces := by
    simp only [relayAdvance, hs, Option.some.injEq] at h
    cases h
    exact .quiet hkeeps
  cases pc with
  | start =>
    simp only [relayAdvance, proofStep] at h
    split at h <;> rename_i heq <;> split at heq <;> cases heq <;> cases h <;> exact .quiet hkeeps
  | pruning now pc =>
    obtain ⟨t, next, hprune⟩ : ∃ t next, pruneStep c now pc s = (t, next) := ⟨_, _, rfl⟩
    simp only [relayAdvance, proofStep, hprune, Option.some.injEq] at h
    cases next with
    | none =>
      cases h
      exact prune_nonces rfl hprune (fun _ h => by cases h) hkeeps
    | some pc' =>
      cases h
      refine prune_nonces rfl hprune (fun pc'' heq => ?_) hkeeps
      cases heq
      rfl
  | markNonce =>
    cases hproof : checkProof ext s.config.registrationAudience daemonNodeId key proof with
    | error e =>
      refine refused (e := e) ?_
      simp only [proofStep, hproof]
    | ok =>
      have hmarks : (RelayTask.prove daemonNodeId key proof .markNonce rest).marks ext c s =
          some ((daemonNodeId, proof.nonce), proof.tsMs) := by
        simp only [RelayTask.marks, hproof]
      simp only [relayAdvance, proofStep, hproof, Option.some.injEq] at h
      have hs : s' = s.markNonce daemonNodeId proof.nonce proof.tsMs := by
        split at h <;> rename_i heq <;> cases h <;> exact (Prod.mk.inj heq).1.symm
      rw [hs]
      refine .marked (daemonNodeId, proof.nonce) proof.tsMs hmarks (fun r hr => ?_) fun r hr => ?_
      · cases hidle.1.symm.trans hr
      · cases (hidle.2 _).symm.trans hr
  | recordNonce =>
    cases hst : s.store with
    | none =>
      simp only [relayAdvance, proofStep, hst, Option.some.injEq] at h
      cases h
      exact .quiet hkeeps
    | some st =>
      cases hok : c.storeOk with
      | false =>
        refine refused (e := .internal) ?_
        simp only [proofStep, hst, hok, Bool.false_eq_true, if_false]
      | true =>
        have hrows : s.nonces.rows = some st.seenNonces := by
          unfold RelayState.nonces
          rw [hst]
          rfl
        cases hseen : st.seenNonces.contains (daemonNodeId, proof.nonce) with
        | true =>
          have hset : s.setStore st = s := by
            unfold RelayState.setStore
            rw [← hst]
          refine refused (e := .replay) ?_
          simp only [proofStep, hst, hok, if_true, RelayStore.insertNonce, hseen, hset]
        | false =>
          simp only [relayAdvance, proofStep, hst, hok, if_true, RelayStore.insertNonce, hseen,
            Bool.false_eq_true, if_false, Option.some.injEq] at h
          cases h
          exact .proved _ proof.tsMs st.seenNonces hrows (Table.contains_eq_false.mp hseen) rfl
            fun _ => rfl

theorem nonces_step {i : Nat} (h : relayAdvance ext c i x s = some (s', x')) :
    NonceStep ext c s x x' s'.nonces := by
  cases x with
  | verify r limit pc rest => exact verify_nonces h
  | prove daemonNodeId key proof pc rest => exact prove_nonces h
  | returned => cases h
  | handle hd =>
    have hstep := handle_advance h
    have hsame : s'.nonces = s.nonces := by
      have ht : TouchesDaemons s (handlerStep ext c s hd).1 ∨
          TouchesTokens s (handlerStep ext c s hd).1 ∨ TouchesCodes s (handlerStep ext c s hd).1 :=
        handlerStep_touches
      rw [hstep] at ht
      rcases ht with ht | ht | ht
      · exact nonces_of_daemons ht
      · exact nonces_of_tokens ht
      · exact nonces_of_codes ht
    rw [hsame]
    rcases handlerStep_onward hstep with ⟨_, rfl⟩ | ⟨_, _, _, _, rfl⟩ | ⟨_, _, rfl⟩ | ⟨_, rfl⟩ <;>
      exact .quiet (.of_none rfl rfl)

/-- What a request has still to prune was announced by the gate. -/
theorem pruning_origin {i now : Nat} {pc : PrunePc}
    (h : relayAdvance ext c i x s = some (s', x')) (hx' : x'.pruning = some (now, pc))
    (hpc : pc ≠ .gate) : (x.pruning = some (now, .gate) ∧ s'.inner.prunedAtMs = now) ∨
      x.pruning = some (now, .memory) := by
  have next {pc₀ : PrunePc} (hprune : pruneStep c now pc₀ s = (s', some pc)) :
      (pc₀ = .gate ∧ s'.inner.prunedAtMs = now) ∨ pc₀ = .memory := by
    cases pc₀ with
    | gate =>
      simp only [pruneStep] at hprune
      split at hprune <;> cases hprune
      exact .inl ⟨rfl, rfl⟩
    | memory => exact .inr rfl
    | store => cases hprune
  cases x with
  | verify r limit pc₁ rest =>
    rcases verify_advance h with ⟨pc', hs, rfl⟩ | ⟨key, -, rfl⟩ | ⟨e, -, rfl⟩
    · cases pc₁ with
      | start =>
        simp only [verifyStep] at hs
        split at hs <;> cases hs
        cases hx'
        exact absurd rfl hpc
      | pruning now' pc₀ =>
        simp only [verifyStep] at hs
        split at hs <;> rename_i heq <;> cases hs
        · cases hx'
          rcases next heq with ⟨rfl, hpruned⟩ | rfl
          · exact .inl ⟨rfl, hpruned⟩
          · exact .inr rfl
        · cases hx'
      | readKey | recordActivity =>
        simp only [verifyStep] at hs
        repeat' split at hs
        all_goals cases hs
        all_goals cases hx'
      | markNonce =>
        simp only [verifyStep] at hs
        split at hs
        · cases hs
        · split at hs
          · cases hs
          · obtain ⟨-, hs⟩ := Prod.mk.inj hs
            split at hs <;> cases hs
            cases hx'
      | refresh => cases hs
    · cases hx'
    · cases hx'
  | prove daemonNodeId key proof pc₁ rest =>
    rcases prove_advance h with ⟨pc', hs, rfl⟩ | ⟨-, rfl⟩ | ⟨e, -, rfl⟩
    · cases pc₁ with
      | start =>
        simp only [proofStep] at hs
        split at hs <;> cases hs
        cases hx'
        exact absurd rfl hpc
      | pruning now' pc₀ =>
        simp only [proofStep] at hs
        split at hs <;> rename_i heq <;> cases hs
        · cases hx'
          rcases next heq with ⟨rfl, hpruned⟩ | rfl
          · exact .inl ⟨rfl, hpruned⟩
          · exact .inr rfl
        · cases hx'
      | markNonce =>
        simp only [proofStep] at hs
        split at hs
        · cases hs
        · obtain ⟨-, hs⟩ := Prod.mk.inj hs
          split at hs <;> cases hs
          cases hx'
      | recordNonce =>
        simp only [proofStep] at hs
        repeat' split at hs
        all_goals cases hs
    · cases hx'
    · cases hx'
  | handle hd =>
    rcases handlerStep_onward (handle_advance h) with ⟨_, rfl⟩ | ⟨_, _, _, _, rfl⟩ | ⟨_, _, rfl⟩ |
      ⟨_, rfl⟩ <;> cases hx'
  | returned => cases h

end Steps

section Invariant

variable {ext : Externals} {c : RelayChoice} {s s' : RelayState} {x x' y : RelayTask}
  {v : NonceView} {p q : Pool RelayState RelayTask} {i j : Nat} {r : SignedRequestContext}
  {a : Move RelayTask RelayChoice RelayEvent}

/-- A copy of the request would be refused: its nonce is known, or was until a prune began
after the request's time. -/
def Known (s : RelayState) (r : SignedRequestContext) : Prop :=
  (∃ v, s.nonces.remembered r.nonceKey = some v ∧ (r.tsMs : Int) ≤ v) ∨
    r.tsMs + clockSkewMs < s.inner.prunedAtMs

/-- No two accepted requests have nonce and timestamp in common, and no copy of one can pass. -/
structure Refusing (s : RelayState) : Prop where
  once : (s.history.accepted.map fun r => (r.nonceKey, r.tsMs)).Nodup
  known : ∀ r ∈ s.history.accepted, Known s r ∨ r.tsMs + clockSkewMs < s.clock
  pruned : s.inner.prunedAtMs ≤ s.clock

/-- What a request can rely on while it is verified. -/
structure ClaimOk (s : RelayState) (_ : Nat) (x : RelayTask) : Prop where
  reading : ∀ now, x.reading = some now → now ≤ s.clock
  pruning : ∀ now pc, x.pruning = some (now, pc) → pc ≠ .gate → now ≤ s.inner.prunedAtMs
  claimed : ∀ r, x.claims = some r → ∀ r' ∈ s.history.accepted, r'.nonceKey = r.nonceKey →
    r'.tsMs = r.tsMs → Known s r
  held : ∀ r, x.holds s.store.isSome = some r → Known s r ∧
    (r.nonceKey, r.tsMs) ∉ s.history.accepted.map fun r => (r.nonceKey, r.tsMs)

/-- Two requests that have found their nonce unused differ in nonce or timestamp. -/
def Distinct (stored : Bool) (x y : RelayTask) : Prop :=
  ∀ r r', x.holds stored = some r → y.holds stored = some r' →
    (r.nonceKey, r.tsMs) ≠ (r'.nonceKey, r'.tsMs)

theorem Known.congr {r' : SignedRequestContext} (h : Known s r) (hkey : r.nonceKey = r'.nonceKey)
    (hts : r.tsMs = r'.tsMs) : Known s r' := by
  unfold Known at h ⊢
  rw [← hkey, ← hts]
  exact h

theorem kept_pruning (hc : noncesKept ext p (.advance i c) = true) (ht : p.task i = some x)
    {now : Nat} {pc : PrunePc} (hx : x.pruning = some (now, pc)) :
    p.shared.prunesFairly c (now, pc) = true := by
  simp only [noncesKept, ht, Option.all_some, Bool.and_eq_true] at hc
  have hpruning := hc.1.1
  rw [hx] at hpruning
  exact hpruning

theorem kept_records (hc : noncesKept ext p (.advance i c) = true) (ht : p.task i = some x)
    (hx : x.records p.shared.store.isSome = some r) : p.shared.recordsInTime r = true := by
  simp only [noncesKept, ht, Option.all_some, Bool.and_eq_true] at hc
  have hrecords := hc.1.2
  rw [hx] at hrecords
  exact hrecords

theorem kept_marks (hc : noncesKept ext p (.advance i c) = true) (ht : p.task i = some x)
    {m : (String × String) × Nat} (hx : x.marks ext c p.shared = some m) :
    p.shared.marksLater m = true := by
  simp only [noncesKept, ht, Option.all_some, Bool.and_eq_true] at hc
  have hmarks := hc.2
  rw [hx] at hmarks
  exact hmarks

theorem NonceStep.stored_eq (h : NonceStep ext c s x x' v) : v.rows.isSome = s.store.isSome := by
  have hrows : s.nonces.rows.isSome = s.store.isSome := Option.isSome_map
  cases h with
  | prunedRows now => exact Option.isSome_map
  | recorded r rows _ _ hst => rw [← hrows, hst]; rfl
  | proved k tsMs rows hst => rw [← hrows, hst]; rfl
  | _ => exact hrows

theorem advance_stored (h : relayAdvance ext c i x s = some (s', x')) :
    s'.store.isSome = s.store.isSome := by
  rw [← (nonces_step h).stored_eq]
  exact Option.isSome_map.symm

theorem NonceStep.prunedAt_le (h : NonceStep ext c s x x' v) :
    s.inner.prunedAtMs ≤ v.prunedAtMs := by
  cases h with
  | gated now _ hle => exact hle
  | _ => exact Nat.le_refl _

theorem NonceStep.prunedAt_cases (h : NonceStep ext c s x x' v) :
    v.prunedAtMs = s.inner.prunedAtMs ∨
      ∃ now, x.pruning = some (now, .gate) ∧ v.prunedAtMs = now := by
  cases h with
  | gated now hx => exact .inr ⟨now, hx, rfl⟩
  | _ => exact .inl rfl

theorem claims_of_records {b : Bool} (h : x.records b = some r) : x.claims = some r := by
  cases x with
  | verify r' limit pc rest =>
    cases pc with
    | markNonce | recordActivity =>
      simp only [RelayTask.records] at h
      split at h
      all_goals first | exact h | cases h
    | _ => cases h
  | _ => cases h

/-- A known nonce stays known, or the prune that drops it began after the request's time. -/
theorem remembered_step (hstep : NonceStep ext c p.shared x x' v) (ht : p.task i = some x)
    (hc : noncesKept ext p (.advance i c) = true) {k : String × String} {tsMs : Nat} {n : Int}
    (hn : p.shared.nonces.remembered k = some n) (hle : (tsMs : Int) ≤ n) :
    (∃ n', v.remembered k = some n' ∧ (tsMs : Int) ≤ n') ∨
      ∃ now pc, x.pruning = some (now, pc) ∧ pc ≠ .gate ∧ tsMs + clockSkewMs < now := by
  cases hst : p.shared.store with
  | none =>
    have hrows : p.shared.nonces.rows = none := by rw [RelayState.nonces, hst]; rfl
    have hsome : p.shared.store.isSome = false := by rw [hst]; rfl
    simp only [NonceView.remembered, hrows] at hn
    obtain ⟨m, hm, rfl⟩ := Option.map_eq_some_iff.mp hn
    have hm : p.shared.inner.seenNonces.lookup k = some m := hm
    cases hstep with
    | quiet | claimed | gated | accepted =>
      refine .inl ⟨_, ?_, hle⟩
      simp only [NonceView.remembered, hrows]
      exact hn
    | prunedMemory now hpruning =>
      have hfair := kept_pruning hc ht hpruning
      simp only [RelayState.prunesFairly, hsome, Bool.false_or] at hfair
      have hkept := List.all_eq_true.mp hfair ⟨k, m⟩ (Table.mem_entries.mpr hm)
      rw [Bool.or_eq_true, decide_eq_true_eq] at hkept
      by_cases hold : m + clockSkewMs < now
      · refine .inr ⟨now, .memory, hpruning, by decide, ?_⟩
        have hle : tsMs ≤ m := Int.ofNat_le.mp hle
        omega
      · refine .inl ⟨m, ?_, hle⟩
        have hlive : now - clockSkewMs ≤ m := by omega
        have hlookup : (p.shared.inner.pruneExpired p.shared.config now).seenNonces.lookup k =
            some m := by
          rw [RelayInner.pruneExpired_seenNonces, Table.lookup_retain, Bool.and_eq_true, decide_eq_true_eq]
          exact ⟨hm, hlive, hkept.resolve_left hold⟩
        simp only [NonceView.remembered, hrows, hlookup]
        rfl
    | prunedRows now =>
      refine .inl ⟨m, ?_, hle⟩
      simp only [NonceView.remembered, hst, Option.map_none]
      exact hn
    | marked k' tsMs' hmarks =>
      by_cases hk : k = k'
      · subst hk
        have hlater := kept_marks hc ht hmarks
        simp only [RelayState.marksLater, hsome, Bool.false_or, hm, Option.all_some,
          decide_eq_true_eq] at hlater
        refine .inl ⟨tsMs', ?_, Int.le_trans hle (Int.ofNat_le.mpr hlater)⟩
        simp only [NonceView.remembered, hrows, Table.lookup_insert_self]
        rfl
      · refine .inl ⟨m, ?_, hle⟩
        simp only [NonceView.remembered, hrows, Table.lookup_insert, if_neg hk]
        exact hn
    | recorded r rows _ _ hsome' => cases hrows.symm.trans hsome'
    | proved k' tsMs' rows hsome' => cases hrows.symm.trans hsome'
  | some st =>
    have hrows : p.shared.nonces.rows = some st.seenNonces := by rw [RelayState.nonces, hst]; rfl
    simp only [NonceView.remembered, hrows] at hn
    cases hstep with
    | quiet | claimed | gated | accepted | prunedMemory | marked =>
      refine .inl ⟨n, ?_, hle⟩
      simp only [NonceView.remembered, hrows]
      exact hn
    | prunedRows now hpruning hok =>
      have hfair := kept_pruning hc ht hpruning
      simp only [RelayState.prunesFairly, hok, Bool.not_true, Bool.false_or,
        RelayState.keepsRecorded, hst, Option.all_some] at hfair
      have hkept := List.all_eq_true.mp hfair ⟨k, n⟩ (Table.mem_entries.mpr hn)
      rw [Bool.or_eq_true, decide_eq_true_eq] at hkept
      by_cases hold : n + clockSkewMs < now
      · refine .inr ⟨now, .store, hpruning, by decide, ?_⟩
        omega
      · refine .inl ⟨n, ?_, hle⟩
        have hcast := asI64_le (now - clockSkewMs)
        have hlive : ¬ n < asI64 (now - clockSkewMs) := by omega
        simp only [NonceView.remembered, hst, Option.map_some]
        rw [RelayStore.pruneExpiredRows_seenNonces, Table.lookup_retain, Bool.and_eq_true,
          Bool.not_eq_true', decide_eq_false_iff_not]
        exact ⟨hn, hlive, hkept.resolve_left hold⟩
    | recorded r rows _ _ hsome hnone =>
      cases hrows.symm.trans hsome
      refine .inl ⟨n, ?_, hle⟩
      simp only [NonceView.remembered]
      rw [Table.lookup_insert, if_neg (by rintro rfl; cases hnone.symm.trans hn)]
      exact hn
    | proved k' tsMs' rows hsome hnone =>
      cases hrows.symm.trans hsome
      refine .inl ⟨n, ?_, hle⟩
      simp only [NonceView.remembered]
      rw [Table.lookup_insert, if_neg (by rintro rfl; cases hnone.symm.trans hn)]
      exact hn

theorem known_step (hs : relayAdvance ext c i x p.shared = some (s', x')) (ht : p.task i = some x)
    (hc : noncesKept ext p (.advance i c) = true) (hok : ClaimOk p.shared i x)
    (h : Known p.shared r) : Known s' r := by
  have hstep := nonces_step hs
  have hpruned : p.shared.inner.prunedAtMs ≤ s'.inner.prunedAtMs := hstep.prunedAt_le
  rcases h with ⟨n, hn, hle⟩ | hlate
  · rcases remembered_step hstep ht hc hn hle with hkept | ⟨now, pc, hpruning, hpc, hlate⟩
    · exact .inl hkept
    · have hnow := hok.pruning now pc hpruning hpc
      exact .inr (by omega)
  · exact .inr (by omega)

/-- The list of accepted requests grows only by one that has found its nonce unused. -/
theorem NonceStep.accepted_cases (h : NonceStep ext c s x x' v) :
    v.accepted = s.history.accepted ∨
      ∃ r, (∀ b, x.holds b = some r) ∧ x.claims = some r ∧ x'.claims = none ∧
        (∀ b, x'.holds b = none) ∧ v.accepted = r :: s.history.accepted := by
  cases h with
  | accepted r hholds hclaims hclaims' hholds' =>
    exact .inr ⟨r, hholds, hclaims, hclaims', hholds', rfl⟩
  | _ => exact .inl rfl

theorem NonceStep.claims_origin (h : NonceStep ext c s x x' v) (hx' : x'.claims = some r) :
    x.claims = some r ∨ absDiff s.clock r.tsMs ≤ clockSkewMs := by
  cases h with
  | quiet hkeeps | gated _ _ _ _ hkeeps | prunedMemory _ _ hkeeps | prunedRows _ _ _ hkeeps =>
    exact .inl (hkeeps.1 r hx')
  | claimed r' hskew hclaims =>
    cases hclaims.symm.trans hx'
    exact .inr hskew
  | marked _ _ _ hclaims => exact .inl (hclaims r hx')
  | recorded r' rows _ hx _ _ hclaims =>
    cases hclaims.symm.trans hx'
    exact .inl hx
  | proved _ _ _ _ _ hnone => cases hnone.symm.trans hx'
  | accepted _ _ _ hnone => cases hnone.symm.trans hx'

/-- A request that records its nonce finds it unused, and leaves it known. -/
theorem NonceStep.holds_origin (h : NonceStep ext c s x x' v)
    (hx' : x'.holds s.store.isSome = some r) : x.holds s.store.isSome = some r ∨
      (x.records s.store.isSome = some r ∧ s.nonces.remembered r.nonceKey = none ∧
        (r.tsMs < 2 ^ 63 → ∃ n, v.remembered r.nonceKey = some n ∧ (r.tsMs : Int) ≤ n)) := by
  cases h with
  | quiet hkeeps | gated _ _ _ _ hkeeps | prunedMemory _ _ hkeeps | prunedRows _ _ _ hkeeps =>
    exact .inl (hkeeps.2 r hx')
  | claimed r' _ _ hnone => cases (hnone _).symm.trans hx'
  | marked k tsMs hmarks _ hholds =>
    obtain ⟨hrecords, rfl, rfl, hunused⟩ := hholds r hx'
    refine .inr ⟨hrecords, ?_⟩
    cases hst : s.store with
    | some st =>
      -- With a database the nonce counts only once it is recorded there.
      rw [hst] at hrecords
      cases x with
      | verify r' limit pc rest =>
        cases pc with
        | recordActivity => cases hmarks
        | _ => cases hrecords
      | _ => cases hrecords
    | none =>
      have hrows : s.nonces.rows = none := by rw [RelayState.nonces, hst]; rfl
      simp only [NonceView.remembered, hrows, Table.lookup_insert_self]
      refine ⟨?_, fun _ => ⟨r.tsMs, rfl, Int.le_refl _⟩⟩
      rw [Option.map_eq_none_iff]
      exact hunused
  | recorded r' rows hrecords _ hrows hunused _ hholds =>
    cases hholds.symm.trans hx'
    refine .inr ⟨hrecords, ?_, fun hbound => ⟨asI64 r.tsMs, ?_, ?_⟩⟩
    · simp only [NonceView.remembered, hrows]
      exact hunused
    · simp only [NonceView.remembered, Table.lookup_insert_self]
    · exact Int.le_of_eq (asI64_of_lt hbound).symm
  | proved _ _ _ _ _ _ hnone => cases (hnone _).symm.trans hx'
  | accepted _ _ _ _ hnone => cases (hnone _).symm.trans hx'

theorem refusing_step (hs : relayAdvance ext c i x p.shared = some (s', x'))
    (ht : p.task i = some x) (hc : noncesKept ext p (.advance i c) = true)
    (hrefusing : Refusing p.shared) (hok : ClaimOk p.shared i x) : Refusing s' := by
  have hstep := nonces_step hs
  have hclock := (advance_config hs).2
  have haccepted : s'.history.accepted = p.shared.history.accepted ∨
      ∃ r, (∀ b, x.holds b = some r) ∧ x.claims = some r ∧ x'.claims = none ∧
        (∀ b, x'.holds b = none) ∧ s'.history.accepted = r :: p.shared.history.accepted :=
    hstep.accepted_cases
  refine ⟨?_, fun r hr => ?_, ?_⟩
  · rcases haccepted with heq | ⟨r, hholds, -, -, -, heq⟩ <;> rw [heq]
    · exact hrefusing.once
    · exact List.nodup_cons.mpr ⟨(hok.held r (hholds _)).2, hrefusing.once⟩
  · rw [hclock]
    rcases haccepted with heq | ⟨r', hholds, -, -, -, heq⟩ <;> rw [heq] at hr
    · exact (hrefusing.known r hr).imp_left (known_step hs ht hc hok)
    · rcases List.mem_cons.mp hr with rfl | hr
      · exact .inl (known_step hs ht hc hok (hok.held r (hholds _)).1)
      · exact (hrefusing.known r hr).imp_left (known_step hs ht hc hok)
  · rw [hclock]
    have hpruned : s'.inner.prunedAtMs = p.shared.inner.prunedAtMs ∨
        ∃ now, x.pruning = some (now, .gate) ∧ s'.inner.prunedAtMs = now := hstep.prunedAt_cases
    rcases hpruned with heq | ⟨now, hx, heq⟩ <;> rw [heq]
    · exact hrefusing.pruned
    · exact hok.reading now (reading_of_pruning hx)

theorem claimOk_step (hs : relayAdvance ext c i x p.shared = some (s', x'))
    (ht : p.task i = some x) (hc : noncesKept ext p (.advance i c) = true)
    (hrefusing : Refusing p.shared) (hok : ClaimOk p.shared i x) : ClaimOk s' i x' := by
  have hstep := nonces_step hs
  have hclock := (advance_config hs).2
  have haccepted : s'.history.accepted = p.shared.history.accepted ∨
      ∃ r, (∀ b, x.holds b = some r) ∧ x.claims = some r ∧ x'.claims = none ∧
        (∀ b, x'.holds b = none) ∧ s'.history.accepted = r :: p.shared.history.accepted :=
    hstep.accepted_cases
  refine ⟨fun now hx' => ?_, fun now pc hx' hpc => ?_, fun r hx' r' hr' hkey hts => ?_,
    fun r hx' => ?_⟩
  · rw [hclock]
    rcases advance_reading hs hx' with hx | rfl
    · exact hok.reading now hx
    · exact Nat.le_refl _
  · rcases pruning_origin hs hx' hpc with ⟨-, heq⟩ | hx
    · exact Nat.le_of_eq heq.symm
    · exact Nat.le_trans (hok.pruning now .memory hx nofun) hstep.prunedAt_le
  · rcases haccepted with heq | ⟨_, -, -, hnone, -⟩
    · rw [heq] at hr'
      rcases hstep.claims_origin hx' with hx | hskew
      · exact known_step hs ht hc hok (hok.claimed r hx r' hr' hkey hts)
      · -- The request has just passed the skew check, so no copy of it is too old.
        rcases hrefusing.known r' hr' with hknown | hlate
        · exact known_step hs ht hc hok (hknown.congr hkey hts)
        · unfold absDiff at hskew
          omega
    · cases hnone.symm.trans hx'
  · rw [advance_stored hs] at hx'
    rcases haccepted with heq | ⟨_, -, -, -, hnone, -⟩
    · rw [heq]
      rcases hstep.holds_origin hx' with hx | ⟨hrecords, hunused, hleft⟩
      · obtain ⟨hknown, hnot⟩ := hok.held r hx
        exact ⟨known_step hs ht hc hok hknown, hnot⟩
      · have htime := kept_records hc ht hrecords
        simp only [RelayState.recordsInTime, hunused, Option.isSome_none, Bool.false_or,
          Bool.and_eq_true, decide_eq_true_eq] at htime
        refine ⟨.inl (hleft htime.2), fun hmem => ?_⟩
        obtain ⟨r', hr', heq'⟩ := List.mem_map.mp hmem
        obtain ⟨hkey, hts⟩ := Prod.mk.inj heq'
        rcases hok.claimed r (claims_of_records hrecords) r' hr' hkey hts with ⟨n, hn, -⟩ | hlate
        · cases hunused.symm.trans hn
        · omega
    · cases (hnone _).symm.trans hx'

theorem claimOk_others (hs : relayAdvance ext c i x p.shared = some (s', x'))
    (ht : p.task i = some x) (hc : noncesKept ext p (.advance i c) = true)
    (hokx : ClaimOk p.shared i x) (hok : ClaimOk p.shared j y)
    (hdistinct : Distinct p.shared.store.isSome x y) : ClaimOk s' j y := by
  have hstep := nonces_step hs
  have haccepted : s'.history.accepted = p.shared.history.accepted ∨
      ∃ r, (∀ b, x.holds b = some r) ∧ x.claims = some r ∧ x'.claims = none ∧
        (∀ b, x'.holds b = none) ∧ s'.history.accepted = r :: p.shared.history.accepted :=
    hstep.accepted_cases
  refine ⟨fun now hy => ?_, fun now pc hy hpc => ?_, fun r hy r' hr' hkey hts => ?_,
    fun r hy => ?_⟩
  · rw [(advance_config hs).2]
    exact hok.reading now hy
  · exact Nat.le_trans (hok.pruning now pc hy hpc) hstep.prunedAt_le
  · rcases haccepted with heq | ⟨r₀, hholds, -, -, -, heq⟩ <;> rw [heq] at hr'
    · exact known_step hs ht hc hokx (hok.claimed r hy r' hr' hkey hts)
    · rcases List.mem_cons.mp hr' with rfl | hr'
      · exact known_step hs ht hc hokx ((hokx.held r' (hholds _)).1.congr hkey hts)
      · exact known_step hs ht hc hokx (hok.claimed r hy r' hr' hkey hts)
  · rw [advance_stored hs] at hy
    obtain ⟨hknown, hnot⟩ := hok.held r hy
    refine ⟨known_step hs ht hc hokx hknown, ?_⟩
    rcases haccepted with heq | ⟨r₀, hholds, -, -, -, heq⟩ <;> rw [heq]
    · exact hnot
    · rw [List.map_cons, List.mem_cons, not_or]
      exact ⟨fun heq => hdistinct r₀ r (hholds _) hy heq.symm, hnot⟩

theorem distinct_step (hlocal : Tasking.Safe Refusing ClaimOk p)
    (hp : p.Pairwise (Distinct p.shared.store.isSome)) (hc : noncesKept ext p a = true)
    (hs : (relayTasking ext).machine.step a p = some q) :
    q.Pairwise (Distinct p.shared.store.isSome) := by
  refine Tasking.pairwise_step (fun x y h r r' hr hr' heq => h r' r hr' hr heq.symm) hp hs ?_ ?_
  · intro x y hx r r' hr
    cases arrival_of_arrives hx <;> cases hr
  · intro i c x s' x' ha ht hr j y hji hy r r' hx' hy'
    subst ha
    have hstep := nonces_step (i := i) hr
    rcases hstep.holds_origin hx' with hx | ⟨hrecords, hunused, -⟩
    · exact hp i j x y hji.symm ht hy r r' hx hy'
    · -- The other request has left its nonce known, so this one does not find it unused.
      intro heq
      obtain ⟨hkey, hts⟩ := Prod.mk.inj heq
      have htime := kept_records hc ht hrecords
      simp only [RelayState.recordsInTime, hunused, Option.isSome_none, Bool.false_or,
        Bool.and_eq_true, decide_eq_true_eq] at htime
      rcases (((hlocal.2 j y hy).held r' hy').1).congr hkey.symm hts.symm with ⟨n, hn, -⟩ | hlate
      · cases hunused.symm.trans hn
      · omega

theorem loadState_rows {st : RelayStore} {config : RelayConfig} {now : Nat}
    {loaded : RelayInner × RelayStore} (h : st.loadState ext config now = some loaded) :
    loaded.2 = st.pruneExpiredRows config now ∧ loaded.1.prunedAtMs = 0 := by
  simp only [RelayStore.loadState, Option.bind_eq_bind, Option.bind_eq_some_iff] at h
  obtain ⟨daemons, -, tokens, -, seenNonces, -, pairingCodes, -, h⟩ := h
  cases h
  exact ⟨rfl, rfl⟩

/-- A restart forgets only nonces whose requests are too old. -/
theorem refusing_restart {st : RelayStore} {loaded : RelayInner × RelayStore}
    (hst : s.store = some st) (hload : st.loadState ext s.config s.clock = some loaded)
    (hc : s.keepsRecorded s.clock = true) (hrefusing : Refusing s) :
    Refusing { s with inner := loaded.1, store := some loaded.2 } := by
  obtain ⟨hrows, hpruned⟩ := loadState_rows hload
  refine ⟨hrefusing.once, fun r hr => ?_, ?_⟩
  · rcases hrefusing.known r hr with (⟨n, hn, hle⟩ | hlate) | hlate
    · have hn : st.seenNonces.lookup r.nonceKey = some n := by
        rw [RelayState.nonces, NonceView.remembered, hst] at hn
        exact hn
      simp only [RelayState.keepsRecorded, hst, Option.all_some] at hc
      have hkept := List.all_eq_true.mp hc ⟨r.nonceKey, n⟩ (Table.mem_entries.mpr hn)
      rw [Bool.or_eq_true, decide_eq_true_eq] at hkept
      by_cases hold : n + clockSkewMs < s.clock
      · have hlate : r.tsMs + clockSkewMs < s.clock := by omega
        exact .inr hlate
      · refine .inl (.inl ⟨n, ?_, hle⟩)
        have hcast := asI64_le (s.clock - clockSkewMs)
        have hlive : ¬ n < asI64 (s.clock - clockSkewMs) := by omega
        have hlookup : (st.pruneExpiredRows s.config s.clock).seenNonces.lookup r.nonceKey =
            some n := by
          rw [RelayStore.pruneExpiredRows_seenNonces, Table.lookup_retain, Bool.and_eq_true,
            Bool.not_eq_true', decide_eq_false_iff_not]
          exact ⟨hn, hlive, hkept.resolve_left hold⟩
        rw [← hrows] at hlookup
        exact hlookup
    · exact .inr (Nat.lt_of_lt_of_le hlate hrefusing.pruned)
    · exact .inr hlate
  · rw [hpruned]
    exact Nat.zero_le _

theorem nonces_noninterference (ext : Externals) : (relayTasking ext).Noninterference
    (fun p a => noncesKept ext p a = true ∧ p.Pairwise (Distinct p.shared.store.isSome))
    Refusing ClaimOk where
  init s hs := by
    refine ⟨?_, fun r hr => ?_, ?_⟩
    · rw [hs.history]
      exact List.nodup_nil
    · rw [hs.history] at hr
      cases hr
    · rw [hs.inner]
      exact Nat.zero_le _
  fresh p i x _ _ hx := by
    refine ⟨fun now hread => ?_, fun now pc hprune => ?_, fun r hr => ?_, fun r hr => ?_⟩
    · cases arrival_of_arrives hx <;> cases hread
    · cases arrival_of_arrives hx <;> cases hprune
    · cases arrival_of_arrives hx <;> cases hr
    · cases arrival_of_arrives hx <;> cases hr
  own p i c x s' x' hc hrefusing ht hok hs :=
    ⟨refusing_step hs ht hc.1 hrefusing hok, claimOk_step hs ht hc.1 hrefusing hok⟩
  others p i c x s' x' hc _ ht hokx hs j y hji hy hok :=
    claimOk_others hs ht hc.1 hokx hok (hc.2 i j x y hji.symm ht hy)
  environment p e s' keep hc hrefusing hs := by
    cases e with
    | tick ms =>
      obtain ⟨-, hr⟩ := Option.ite_none_right_eq_some.mp hs
      cases hr
      refine ⟨⟨hrefusing.once, fun r hr => ?_, ?_⟩, fun _ j y _ hok =>
        ⟨fun now hread => ?_, hok.pruning, hok.claimed, hok.held⟩⟩
      · exact (hrefusing.known r hr).imp_right fun hlate => Nat.lt_add_right ms hlate
      · exact Nat.le_add_right_of_le hrefusing.pruned
      · exact Nat.le_add_right_of_le (hok.reading now hread)
    | restart =>
      obtain ⟨st, hst, hr⟩ := Option.bind_eq_some_iff.mp hs
      obtain ⟨loaded, hload, hr⟩ := Option.map_eq_some_iff.mp hr
      cases hr
      exact ⟨refusing_restart hst hload hc.1 hrefusing, nofun⟩

/-- Whether there is a database does not change. -/
theorem step_stored (hs : (relayTasking ext).machine.step a p = some q) :
    q.shared.store.isSome = p.shared.store.isSome := by
  have event {e : RelayEvent} {s' : RelayState} {keep : Bool}
      (h : relayEvent ext e p.shared = some (s', keep)) :
      s'.store.isSome = p.shared.store.isSome := by
    cases e with
    | tick ms =>
      obtain ⟨-, hr⟩ := Option.ite_none_right_eq_some.mp h
      cases hr
      rfl
    | restart =>
      obtain ⟨st, hst, hr⟩ := Option.bind_eq_some_iff.mp h
      obtain ⟨loaded, -, hr⟩ := Option.map_eq_some_iff.mp hr
      cases hr
      rw [hst]
      rfl
  cases Tasking.stepped_of_step hs with
  | spawn | drop => rfl
  | advance i c x x' s' _ hr => exact advance_stored (i := i) hr
  | keep e s' hr => exact event hr
  | clear e s' hr => exact event hr

end Invariant

/-- No signed request is accepted twice. -/
theorem no_replay {ext : Externals} {p : Pool RelayState RelayTask}
    (h : (relayTasking ext).machine.ReachableWhen (fun p a => noncesKept ext p a = true) p) :
    (p.shared.history.accepted.map SignedRequestContext.identity).Nodup := by
  have hp := (nonces_noninterference ext).invariant_with
    (C := fun p a => noncesKept ext p a = true) (fun p hinit => Tasking.pairwise_init hinit)
    (fun p a q hlocal hp hc hs => by
      rw [step_stored hs]
      exact distinct_step hlocal hp hc hs) h
  refine List.Nodup.of_map (fun i : String × String × Nat × List UInt8 =>
    ((i.1, i.2.1), i.2.2.1)) ?_
  rw [List.map_map]
  exact hp.1.1.once

section Traces

private def sender : String := "daemon-0123456789"

private def farewell (n tsMs : Nat) : UnregisterTokenRequest :=
  ⟨sender, "push-token-number-0", "nonce-000000000-" ++ toString n, tsMs⟩

private def farewellScript : Externals :=
  .playing ⟨[⟨sender, keyText 'A', none, none, none⟩], [], [farewell 0 1000, farewell 1 301001], [], []⟩

private def registerSender : List (Move RelayTask RelayChoice RelayEvent) :=
  [arriving farewellScript 10 "/v1/pair" [0] none] ++ Move.repeated 5 10 RelayChoice.fine

/-- The request with number `n`, in slot `i`. -/
private def sendFarewell (n i : Nat) : List (Move RelayTask RelayChoice RelayEvent) :=
  [arriving farewellScript i "/v1/push/unregister-token" [UInt8.ofNat n] (signedBy 'A')]

/-- A request, its copy, a restart, and the copy once more: one is accepted. -/
theorem no_replay_run :
    ∃ p : Pool RelayState RelayTask,
      p.shared.history.accepted.map SignedRequestContext.identity =
        [(sender, "nonce-000000000-0", 1000, [0])] ∧
      (p.shared.history.accepted.map SignedRequestContext.identity).Nodup := by
  obtain ⟨p, hr, haccepted⟩ :=
    (relayTasking farewellScript).machine.exists_reachable_of_exec
      (fun p a => noncesKept farewellScript p a = true)
      (fun p => p.shared.history.accepted.map SignedRequestContext.identity =
        [(sender, "nonce-000000000-0", 1000, [0])])
      (List.flatten [registerSender, sendFarewell 0 0, Move.repeated 8 0 .fine, sendFarewell 0 1,
        Move.repeated 4 1 .fine, [.environment (.tick 100), .environment .restart],
        sendFarewell 0 2, Move.repeated 4 2 .fine])
      (Tasking.init_empty (RelayState.opened_new 1000 (.inr rfl))) (by decide)
  exact ⟨p, haccepted, no_replay hr⟩

/-- A copy waits between its skew check and its nonce. The request is accepted, its nonce is
pruned when its time is over, and then the copy is accepted too. -/
theorem request_replayed :
    ¬ ∀ (ext : Externals) (p : Pool RelayState RelayTask),
      (relayTasking ext).machine.Reachable p →
      (p.shared.history.accepted.map SignedRequestContext.identity).Nodup := by
  intro hall
  obtain ⟨p, hr, haccepted⟩ :=
    (relayTasking farewellScript).machine.exists_reachable_of_exec Machine.Any
      (fun p => p.shared.history.accepted.map SignedRequestContext.identity =
        [(sender, "nonce-000000000-0", 1000, [0]), (sender, "nonce-000000000-1", 301001, [1]),
          (sender, "nonce-000000000-0", 1000, [0])])
      (List.flatten [registerSender, sendFarewell 0 0, Move.repeated 3 0 .fine, sendFarewell 0 1,
        Move.repeated 8 1 .fine, [.environment (.tick 300001)], sendFarewell 1 2,
        Move.repeated 10 2 .fine, Move.repeated 3 0 .fine])
      (Tasking.init_empty (RelayState.opened_new 1000 (.inl rfl))) (by decide)
  have hnodup := hall farewellScript p hr
  rw [haccepted] at hnodup
  exact absurd hnodup (by decide)

end Traces

end Shelly.Relay
