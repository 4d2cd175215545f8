import Shelly.Relay.TokenCap

namespace Shelly.Relay

section Runs

variable (ext : Externals)

/-- `verify_signed_request` from some point on, with what the outside answers on the way. The
result is the state in which it accepts. -/
def verifyRun (r : SignedRequestContext) (limit : Bool) :
    List RelayChoice → VerifyPc → RelayState → Option RelayState
  | [], _, _ => none
  | c :: cs, pc, s =>
    match verifyStep ext c r limit pc s with
    | (s', .running pc') => verifyRun r limit cs pc' s'
    | (s', .done _) => some s'
    | (_, .failed _) => none

/-- An endpoint from some point on, to its answer. -/
def handlerRun : List RelayChoice → Handler → RelayState → Option RelayState
  | [], _, _ => none
  | c :: cs, h, s =>
    match handlerStep ext c s h with
    | (s', .handle h') => handlerRun cs h' s'
    | (s', .returned _) => some s'
    | (_, _) => none

end Runs

namespace RelayState

variable (s : RelayState)

def tokenRow (t : String) : Option TokenRow := s.store.bind fun st => st.pushTokens.lookup t

def codeRow (k : String) : Option PairingCodeRow := s.store.bind fun st => st.pairingCodes.lookup k

/-- A prune would keep the owner's rows. -/
def keepsRowOwner (owner : String) : Bool :=
  s.store.all fun st => !st.staleOwner s.config s.clock owner

/-- Not expired: a prune at this time would keep it. -/
def liveToken (o : TokenOwner) : Bool :=
  !pushTokenIsStale o.updatedAtMs s.clock && s.inner.keepsOwner s.config s.clock o.daemonNodeId

def liveTokenRow (row : TokenRow) : Bool :=
  !decide (row.updatedAtMs < asI64 (s.clock - pushTokenTtlMs)) && s.keepsRowOwner row.daemonNodeId

def liveCode (e : PairingCodeEntry) : Bool :=
  decide (s.clock < e.expiresAtMs) && s.inner.keepsOwner s.config s.clock e.daemonNodeId

def liveCodeRow (row : PairingCodeRow) : Bool :=
  !decide (row.expiresAtMs ≤ asI64 s.clock) && s.keepsRowOwner row.daemonNodeId

/-- Another daemon has something unexpired under the name. -/
def othersToken (D t : String) : Bool :=
  (s.inner.tokens.lookup t).any fun o => o.daemonNodeId ≠ D && s.liveToken o

def othersTokenRow (D t : String) : Bool :=
  (s.tokenRow t).any fun row => row.daemonNodeId ≠ D && s.liveTokenRow row

def othersCode (D k : String) : Bool :=
  (s.inner.pairingCodes.lookup k).any fun e => e.daemonNodeId ≠ D && s.liveCode e

def othersCodeRow (D k : String) : Bool :=
  (s.codeRow k).any fun row => row.daemonNodeId ≠ D && s.liveCodeRow row

end RelayState

/-- Nothing unexpired of another daemon is removed or altered, in memory or in the database,
but for a token that the daemon registers. -/
structure Intact (D : String) (registers : Option String) (s s' : RelayState) : Prop where
  token : ∀ t o, s.inner.tokens.lookup t = some o → o.daemonNodeId ≠ D → s.liveToken o = true →
    registers ≠ some t → s'.inner.tokens.lookup t = some o
  tokenRow : ∀ t row, s.tokenRow t = some row → row.daemonNodeId ≠ D →
    s.liveTokenRow row = true → registers ≠ some t → s'.tokenRow t = some row
  code : ∀ k e, s.inner.pairingCodes.lookup k = some e → e.daemonNodeId ≠ D →
    s.liveCode e = true → s'.inner.pairingCodes.lookup k = some e
  codeRow : ∀ k row, s.codeRow k = some row → row.daemonNodeId ≠ D →
    s.liveCodeRow row = true → s'.codeRow k = some row

/-- The daemon of an accepted request. -/
def Handler.daemonNodeId : Handler → String
  | .registerDaemon call _ => call.request.daemonNodeId
  | .registerToken request _ => request.daemonNodeId
  | .unregisterToken request _ => request.daemonNodeId
  | .push request _ => request.daemonNodeId
  | .publish request _ => request.daemonNodeId
  | .resolve _ _ => ""

def Handler.registers : Handler → Option String
  | .registerToken request _ => some request.pushToken
  | _ => none

/-- The endpoints of the push tokens and the pairing records, as they go on after their
verification. -/
inductive Accepted : Handler → Prop
  | registerToken (request : RegisterTokenRequest) : Accepted (.registerToken request .checkingCap)
  | unregisterToken (request : UnregisterTokenRequest) : Accepted (.unregisterToken request .row)
  | push (request : PushRequest) : Accepted (.push request .checking)
  | publish (request : PublishPairingRequest) : Accepted (.publish request .checking)

/-- An accepted request is about to touch a name under which another daemon has something
unexpired. -/
def trespasses (ext : Externals) (s : RelayState) : Handler → Bool
  | .registerToken request _ =>
    (s.inner.tokenEvictedByCap request.daemonNodeId request.pushToken).any
      (s.othersTokenRow request.daemonNodeId)
  | .unregisterToken request _ =>
    s.othersToken request.daemonNodeId request.pushToken ||
      s.othersTokenRow request.daemonNodeId request.pushToken
  | .push request _ =>
    ((s.inner.tokens.lookup request.recipientToken).any fun o =>
        pushTokenIsStale o.updatedAtMs s.clock ||
          decide (o.daemonNodeId = request.daemonNodeId) && decide (o.platform = request.platform)) &&
      s.othersTokenRow request.daemonNodeId request.recipientToken
  | .publish request _ =>
    match request.parts with
    | .error _ => false
    | .ok (key, record, expiresAtMs) =>
      decide (s.clock < expiresAtMs) && (storedPayload ext record).isSome &&
        (s.othersCode request.daemonNodeId key || s.othersCodeRow request.daemonNodeId key ||
          (s.inner.supersededCodes request.daemonNodeId key).any
            (s.othersCodeRow request.daemonNodeId))
  | _ => false

section Endpoints

variable {ext : Externals} {c : RelayChoice} {cs : List RelayChoice} {s s' : RelayState}
  {h h' : Handler} {x' : RelayTask}

/-- The tokens an endpoint may still write, once it has decided. -/
def Handler.reachTokens : Handler → List String
  | .registerToken request (.evicting evicted _) => [evicted, request.pushToken]
  | .registerToken request _ => [request.pushToken]
  | .unregisterToken request _ => [request.pushToken]
  | .push request _ => [request.recipientToken]
  | _ => []

def Handler.reachCodes : Handler → List String
  | .publish _ (.deletingRows _ key _ _) => [key]
  | .publish _ (.saving key _ _) => [key]
  | .publish _ (.inserting key _) => [key]
  | _ => []

def Handler.reachCodeRows : Handler → List String
  | .publish _ (.deletingRows superseded key _ _) => key :: superseded
  | .publish _ (.saving key _ _) => [key]
  | .publish _ (.inserting key _) => [key]
  | _ => []

/-- The endpoint has made its decisions. -/
def Handler.decided : Handler → Bool
  | .registerToken _ .checkingCap => false
  | .registerToken _ _ => true
  | .unregisterToken _ _ => true
  | .push _ .checking => false
  | .push _ _ => true
  | .publish _ .checking => false
  | .publish _ (.evicting _ _ _) => false
  | .publish _ _ => true
  | _ => false

/-- Only the names in reach are written. -/
structure WritesOnly (tokens codes codeRows : List String) (s s' : RelayState) : Prop where
  token : ∀ t, t ∉ tokens → s'.inner.tokens.lookup t = s.inner.tokens.lookup t
  tokenRow : ∀ t, t ∉ tokens → s'.tokenRow t = s.tokenRow t
  code : ∀ k, k ∉ codes → s'.inner.pairingCodes.lookup k = s.inner.pairingCodes.lookup k
  codeRow : ∀ k, k ∉ codeRows → s'.codeRow k = s.codeRow k

theorem WritesOnly.rfl {tokens codes codeRows : List String} :
    WritesOnly tokens codes codeRows s s :=
  ⟨fun _ _ => Eq.refl _, fun _ _ => Eq.refl _, fun _ _ => Eq.refl _, fun _ _ => Eq.refl _⟩

theorem WritesOnly.trans {tokens codes codeRows tokens' codes' codeRows' : List String}
    {s'' : RelayState} (h : WritesOnly tokens codes codeRows s s')
    (h' : WritesOnly tokens' codes' codeRows' s' s'') (htokens : tokens' ⊆ tokens)
    (hcodes : codes' ⊆ codes) (hcodeRows : codeRows' ⊆ codeRows) :
    WritesOnly tokens codes codeRows s s'' :=
  ⟨fun t ht => (h'.token t fun hm => ht (htokens hm)).trans (h.token t ht),
    fun t ht => (h'.tokenRow t fun hm => ht (htokens hm)).trans (h.tokenRow t ht),
    fun k hk => (h'.code k fun hm => hk (hcodes hm)).trans (h.code k hk),
    fun k hk => (h'.codeRow k fun hm => hk (hcodeRows hm)).trans (h.codeRow k hk)⟩

theorem tokenRow_updateStore {f : RelayStore → RelayStore} {t : String}
    (hf : ∀ st, (f st).pushTokens.lookup t = st.pushTokens.lookup t) :
    (s.updateStore f).tokenRow t = s.tokenRow t := by
  unfold RelayState.updateStore RelayState.tokenRow
  cases s.store with
  | none => rfl
  | some st => exact hf st

theorem codeRow_updateStore {f : RelayStore → RelayStore} {k : String}
    (hf : ∀ st, (f st).pairingCodes.lookup k = st.pairingCodes.lookup k) :
    (s.updateStore f).codeRow k = s.codeRow k := by
  unfold RelayState.updateStore RelayState.codeRow
  cases s.store with
  | none => rfl
  | some st => exact hf st

/-- A call of the database that writes one token. -/
theorem writesOnly_tokenRow {f : RelayStore → RelayStore} {t : String} {tokens : List String}
    (ht : t ∈ tokens) (hf : ∀ st t', t' ≠ t → (f st).pushTokens.lookup t' = st.pushTokens.lookup t')
    (hcodes : ∀ st, (f st).pairingCodes = st.pairingCodes) :
    WritesOnly tokens [] [] s (s.updateStore f) where
  token _ _ := rfl
  tokenRow t' ht' := tokenRow_updateStore fun st => hf st t' (by rintro rfl; exact ht' ht)
  code _ _ := rfl
  codeRow k _ := codeRow_updateStore fun st => by rw [hcodes]

theorem removalStep_writes {t : String} {pc : RemovalPc} {tokens : List String} (ht : t ∈ tokens) :
    WritesOnly tokens [] [] s (removalStep c t s pc).1 := by
  cases pc with
  | row =>
    simp only [removalStep]
    split
    · refine writesOnly_tokenRow ht (fun st t' hne => ?_) fun _ => rfl
      exact (Table.lookup_erase _ _ _).trans (if_neg hne)
    · exact .rfl
  | memory =>
    refine ⟨fun t' ht' => ?_, fun _ _ => rfl, fun _ _ => rfl, fun _ _ => rfl⟩
    exact (Table.lookup_erase _ _ _).trans (if_neg (by rintro rfl; exact ht' ht))

/-- An endpoint that has decided writes within its reach, and its reach does not grow. -/
structure Within (h : Handler) (s s' : RelayState) (x' : RelayTask) : Prop where
  writes : WritesOnly h.reachTokens h.reachCodes h.reachCodeRows s s'
  decided : ∀ h', x' = .handle h' → h'.decided = true
  tokens : ∀ h', x' = .handle h' → h'.reachTokens ⊆ h.reachTokens
  codes : ∀ h', x' = .handle h' → h'.reachCodes ⊆ h.reachCodes
  codeRows : ∀ h', x' = .handle h' → h'.reachCodeRows ⊆ h.reachCodeRows

theorem Within.answered {reply : Reply}
    (hw : WritesOnly h.reachTokens h.reachCodes h.reachCodeRows s s') :
    Within h s s' (.returned reply) where
  writes := hw
  decided _ heq := by cases heq
  tokens _ heq := by cases heq
  codes _ heq := by cases heq
  codeRows _ heq := by cases heq

theorem Within.goesOn (hw : WritesOnly h.reachTokens h.reachCodes h.reachCodeRows s s')
    (hd : h'.decided = true) (ht : h'.reachTokens ⊆ h.reachTokens)
    (hc : h'.reachCodes ⊆ h.reachCodes) (hr : h'.reachCodeRows ⊆ h.reachCodeRows) :
    Within h s s' (.handle h') := by
  refine ⟨hw, ?_, ?_, ?_, ?_⟩ <;> (intro h'' heq; cases heq; assumption)

/-- A removal goes on, or has removed the binding, or has failed. -/
theorem removalStep_cases (c : RelayChoice) (t : String) (s : RelayState) (pc : RemovalPc) :
    (∃ s', removalStep c t s pc = (s', .running .memory)) ∨
      (∃ s', removalStep c t s pc = (s', .done ())) ∨
      ∃ s' e, removalStep c t s pc = (s', .failed e) := by
  cases pc with
  | row =>
    by_cases hst : s.stores c = true
    · exact .inl ⟨_, if_pos hst⟩
    · exact .inr (.inr ⟨_, _, if_neg hst⟩)
  | memory => exact .inr (.inl ⟨_, rfl⟩)

theorem registerToken_within {request : RegisterTokenRequest} {pc : RegisterTokenPc}
    (hd : (Handler.registerToken request pc).decided = true) :
    Within (.registerToken request pc) s (registerTokenStep c request s pc).1
      (registerTokenStep c request s pc).2 := by
  cases pc with
  | checkingCap => cases hd
  | evicting evicted pc =>
    have hw : WritesOnly [evicted, request.pushToken] [] [] s (removalStep c evicted s pc).1 :=
      removalStep_writes List.mem_cons_self
    have hsub : [request.pushToken] ⊆ [evicted, request.pushToken] :=
      List.subset_cons_of_subset _ fun _ hm => hm
    rcases removalStep_cases c evicted s pc with ⟨s', heq⟩ | ⟨s', heq⟩ | ⟨s', e, heq⟩ <;>
      (rw [heq] at hw; simp only [registerTokenStep, heq])
    · exact .goesOn hw rfl (fun _ hm => hm) (fun _ hm => hm) fun _ hm => hm
    · exact .goesOn hw rfl hsub (fun _ hm => hm) fun _ hm => hm
    · exact .answered hw
  | stamping => exact .goesOn .rfl rfl (fun _ hm => hm) (fun _ hm => hm) fun _ hm => hm
  | saving owner =>
    simp only [registerTokenStep]
    split
    · refine .goesOn (writesOnly_tokenRow (List.mem_singleton_self request.pushToken)
        (fun st t' hne => ?_) fun _ => rfl) rfl (fun _ hm => hm) (fun _ hm => hm) fun _ hm => hm
      exact (Table.lookup_insert _ _ _ _).trans (if_neg hne)
    · exact .answered .rfl
  | inserting owner =>
    refine .answered ⟨fun t ht => ?_, fun _ _ => rfl, fun _ _ => rfl, fun _ _ => rfl⟩
    refine (Table.lookup_insert _ _ _ _).trans (if_neg ?_)
    rintro rfl
    exact ht (List.mem_singleton_self _)

theorem unregisterToken_within {request : UnregisterTokenRequest} {pc : RemovalPc} :
    Within (.unregisterToken request pc) s (unregisterTokenStep c request s pc).1
      (unregisterTokenStep c request s pc).2 := by
  have hw : WritesOnly [request.pushToken] [] [] s (removalStep c request.pushToken s pc).1 :=
    removalStep_writes (List.mem_singleton_self _)
  rcases removalStep_cases c request.pushToken s pc with ⟨s', heq⟩ | ⟨s', heq⟩ | ⟨s', e, heq⟩ <;>
    (rw [heq] at hw; simp only [unregisterTokenStep, heq])
  · exact .goesOn hw rfl (fun _ hm => hm) (fun _ hm => hm) fun _ hm => hm
  · exact .answered hw
  · exact .answered hw

theorem push_within {request : PushRequest} {pc : PushPc}
    (hd : (Handler.push request pc).decided = true) :
    Within (.push request pc) s (pushStep c request s pc).1 (pushStep c request s pc).2 := by
  cases pc with
  | checking => cases hd
  | removing cause pc =>
    have hw : WritesOnly [request.recipientToken] [] [] s
        (removalStep c request.recipientToken s pc).1 :=
      removalStep_writes (List.mem_singleton_self _)
    rcases removalStep_cases c request.recipientToken s pc with ⟨s', heq⟩ | ⟨s', heq⟩ |
      ⟨s', e, heq⟩ <;> (rw [heq] at hw; simp only [pushStep, heq])
    · exact .goesOn hw rfl (fun _ hm => hm) (fun _ hm => hm) fun _ hm => hm
    · exact .answered hw
    · exact .answered hw
  | delivering =>
    simp only [pushStep]
    repeat' split
    · exact .answered .rfl
    · exact .goesOn .rfl rfl (fun _ hm => hm) (fun _ hm => hm) fun _ hm => hm
    · exact .goesOn .rfl rfl (fun _ hm => hm) (fun _ hm => hm) fun _ hm => hm
    · exact .answered .rfl
  | touchingRow now =>
    simp only [pushStep]
    split
    · refine .goesOn (writesOnly_tokenRow (List.mem_singleton_self request.recipientToken)
        (fun st t' hne => ?_) fun _ => rfl) rfl (fun _ hm => hm) (fun _ hm => hm) fun _ hm => hm
      exact (Table.lookup_modify _ _ _ _).trans (if_neg hne)
    · exact .answered .rfl
  | touchingMemory now =>
    refine .answered ⟨fun t ht => ?_, fun _ _ => rfl, fun _ _ => rfl, fun _ _ => rfl⟩
    refine (Table.lookup_modify _ _ _ _).trans (if_neg ?_)
    rintro rfl
    exact ht (List.mem_singleton_self _)

/-- A call of the database that writes one pairing code. -/
theorem writesOnly_codeRow {f : RelayStore → RelayStore} {k : String} {codes codeRows : List String}
    (hk : k ∈ codeRows)
    (hf : ∀ st k', k' ≠ k → (f st).pairingCodes.lookup k' = st.pairingCodes.lookup k')
    (htokens : ∀ st, (f st).pushTokens = st.pushTokens) :
    WritesOnly [] codes codeRows s (s.updateStore f) where
  token _ _ := rfl
  tokenRow t _ := tokenRow_updateStore fun st => by rw [htokens]
  code _ _ := rfl
  codeRow k' hk' := codeRow_updateStore fun st => hf st k' (by rintro rfl; exact hk' hk)

theorem publish_within {request : PublishPairingRequest} {pc : PublishPc}
    (hd : (Handler.publish request pc).decided = true) :
    Within (.publish request pc) s (publishStep ext c request s pc).1
      (publishStep ext c request s pc).2 := by
  cases pc with
  | checking | evicting => cases hd
  | deletingRows superseded key payload entry =>
    cases superseded with
    | nil => exact .goesOn .rfl rfl (fun _ hm => hm) (fun _ hm => hm) fun _ hm => hm
    | cons stale superseded =>
      have hsub : key :: superseded ⊆ key :: stale :: superseded :=
        List.cons_subset_cons _ (List.subset_cons_self _ _)
      have hmem : stale ∈ key :: stale :: superseded := List.mem_cons_of_mem _ List.mem_cons_self
      simp only [publishStep]
      split
      · refine .goesOn (writesOnly_codeRow hmem (fun st k' hne => ?_) fun _ => rfl) rfl
          (fun _ hm => hm) (fun _ hm => hm) hsub
        exact (Table.lookup_erase _ _ _).trans (if_neg hne)
      · exact .goesOn .rfl rfl (fun _ hm => hm) (fun _ hm => hm) hsub
  | saving key payload entry =>
    simp only [publishStep]
    split
    · refine .goesOn (writesOnly_codeRow (List.mem_singleton_self key) (fun st k' hne => ?_)
        fun _ => rfl) rfl (fun _ hm => hm) (fun _ hm => hm) fun _ hm => hm
      exact (Table.lookup_insert _ _ _ _).trans (if_neg hne)
    · exact .answered .rfl
  | inserting key entry =>
    refine .answered ⟨fun _ _ => rfl, fun _ _ => rfl, fun k hk => ?_, fun _ _ => rfl⟩
    refine (Table.lookup_insert _ _ _ _).trans (if_neg ?_)
    rintro rfl
    exact hk (List.mem_singleton_self _)

theorem handlerStep_within (hd : h.decided = true) :
    Within h s (handlerStep ext c s h).1 (handlerStep ext c s h).2 := by
  cases h with
  | registerToken request pc => exact registerToken_within hd
  | unregisterToken request pc => exact unregisterToken_within
  | push request pc => exact push_within hd
  | publish request pc => exact publish_within hd
  | registerDaemon | resolve => cases hd

/-- An endpoint that has decided writes within its reach, to its end. -/
theorem handlerRun_writes (hd : h.decided = true) (hr : handlerRun ext cs h s = some s') :
    WritesOnly h.reachTokens h.reachCodes h.reachCodeRows s s' := by
  induction cs generalizing h s with
  | nil => cases hr
  | cons c cs ih =>
    have hwithin : Within h s (handlerStep ext c s h).1 (handlerStep ext c s h).2 :=
      handlerStep_within hd
    simp only [handlerRun] at hr
    split at hr <;> rename_i heq <;> rw [heq] at hwithin
    · exact hwithin.writes.trans (ih (hwithin.decided _ rfl) hr) (hwithin.tokens _ rfl)
        (hwithin.codes _ rfl) (hwithin.codeRows _ rfl)
    · cases hr
      exact hwithin.writes
    · cases hr

end Endpoints

section Exact

variable {ext : Externals} {c : RelayChoice} {cs : List RelayChoice} {s s' s'' : RelayState}
  {h : Handler} {D k t : String} {registers : Option String}

theorem othersToken_eq_true {o : TokenOwner} (ho : s.inner.tokens.lookup t = some o)
    (hD : o.daemonNodeId ≠ D) (hlive : s.liveToken o = true) : s.othersToken D t = true := by
  rw [RelayState.othersToken, ho, Option.any_some, hlive, Bool.and_true]
  exact decide_eq_true hD

theorem othersTokenRow_eq_true {row : TokenRow} (hrow : s.tokenRow t = some row)
    (hD : row.daemonNodeId ≠ D) (hlive : s.liveTokenRow row = true) :
    s.othersTokenRow D t = true := by
  rw [RelayState.othersTokenRow, hrow, Option.any_some, hlive, Bool.and_true]
  exact decide_eq_true hD

theorem othersCode_eq_true {e : PairingCodeEntry} (he : s.inner.pairingCodes.lookup k = some e)
    (hD : e.daemonNodeId ≠ D) (hlive : s.liveCode e = true) : s.othersCode D k = true := by
  rw [RelayState.othersCode, he, Option.any_some, hlive, Bool.and_true]
  exact decide_eq_true hD

theorem othersCodeRow_eq_true {row : PairingCodeRow} (hrow : s.codeRow k = some row)
    (hD : row.daemonNodeId ≠ D) (hlive : s.liveCodeRow row = true) :
    s.othersCodeRow D k = true := by
  rw [RelayState.othersCodeRow, hrow, Option.any_some, hlive, Bool.and_true]
  exact decide_eq_true hD

theorem exists_othersToken (h : s.othersToken D t = true) : ∃ o,
    s.inner.tokens.lookup t = some o ∧ o.daemonNodeId ≠ D ∧ s.liveToken o = true := by
  obtain ⟨o, ho, hD⟩ := (Option.any_eq_true _ _).mp h
  rw [Bool.and_eq_true, decide_eq_true_eq] at hD
  exact ⟨o, ho, hD⟩

theorem exists_othersTokenRow (h : s.othersTokenRow D t = true) : ∃ row,
    s.tokenRow t = some row ∧ row.daemonNodeId ≠ D ∧ s.liveTokenRow row = true := by
  obtain ⟨row, hrow, hD⟩ := (Option.any_eq_true _ _).mp h
  rw [Bool.and_eq_true, decide_eq_true_eq] at hD
  exact ⟨row, hrow, hD⟩

theorem exists_othersCode (h : s.othersCode D k = true) : ∃ e,
    s.inner.pairingCodes.lookup k = some e ∧ e.daemonNodeId ≠ D ∧ s.liveCode e = true := by
  obtain ⟨e, he, hD⟩ := (Option.any_eq_true _ _).mp h
  rw [Bool.and_eq_true, decide_eq_true_eq] at hD
  exact ⟨e, he, hD⟩

theorem exists_othersCodeRow (h : s.othersCodeRow D k = true) : ∃ row,
    s.codeRow k = some row ∧ row.daemonNodeId ≠ D ∧ s.liveCodeRow row = true := by
  obtain ⟨row, hrow, hD⟩ := (Option.any_eq_true _ _).mp h
  rw [Bool.and_eq_true, decide_eq_true_eq] at hD
  exact ⟨row, hrow, hD⟩

theorem Intact.rfl : Intact D registers s s :=
  ⟨fun _ _ ho _ _ _ => ho, fun _ _ hrow _ _ _ => hrow, fun _ _ he _ _ => he,
    fun _ _ hrow _ _ => hrow⟩

/-- Writing only where no other daemon has anything unexpired. -/
theorem Intact.of_writes {tokens codes codeRows : List String}
    (hw : WritesOnly tokens codes codeRows s s')
    (htokens : ∀ t ∈ tokens, registers = some t ∨
      s.othersToken D t = false ∧ s.othersTokenRow D t = false)
    (hcodes : ∀ k ∈ codes, s.othersCode D k = false)
    (hcodeRows : ∀ k ∈ codeRows, s.othersCodeRow D k = false) : Intact D registers s s' := by
  refine ⟨fun t o ho hD hlive hnot => ?_, fun t row hrow hD hlive hnot => ?_,
    fun k e he hD hlive => ?_, fun k row hrow hD hlive => ?_⟩
  · refine (hw.token t fun hm => ?_).trans ho
    have hfree := ((htokens t hm).resolve_left hnot).1
    cases hfree.symm.trans (othersToken_eq_true ho hD hlive)
  · refine (hw.tokenRow t fun hm => ?_).trans hrow
    have hfree := ((htokens t hm).resolve_left hnot).2
    cases hfree.symm.trans (othersTokenRow_eq_true hrow hD hlive)
  · refine (hw.code k fun hm => ?_).trans he
    cases (hcodes k hm).symm.trans (othersCode_eq_true he hD hlive)
  · refine (hw.codeRow k fun hm => ?_).trans hrow
    cases (hcodeRows k hm).symm.trans (othersCodeRow_eq_true hrow hD hlive)

theorem registerToken_intact {request : RegisterTokenRequest}
    (hfree : trespasses ext s (.registerToken request .checkingCap) = false)
    (hr : handlerRun ext cs (.registerToken request .checkingCap) s = some s') :
    Intact request.daemonNodeId (some request.pushToken) s s' := by
  cases cs with
  | nil => cases hr
  | cons c cs =>
    cases hevicted : s.inner.tokenEvictedByCap request.daemonNodeId request.pushToken with
    | none =>
      simp only [handlerRun, handlerStep, registerTokenStep, hevicted] at hr
      refine .of_writes (handlerRun_writes rfl hr) (fun t hm => ?_)
        (fun _ h => by cases h) fun _ h => by cases h
      exact .inl (congrArg some (List.mem_singleton.mp hm).symm)
    | some evicted =>
      simp only [handlerRun, handlerStep, registerTokenStep, hevicted] at hr
      rw [trespasses, hevicted] at hfree
      obtain ⟨o, ho, hD⟩ := tokenEvictedByCap_owned hevicted
      have howner : s.othersToken request.daemonNodeId evicted = false := by
        rw [RelayState.othersToken, ho, Option.any_some, hD]
        simp
      refine .of_writes (handlerRun_writes rfl hr) (fun t hm => ?_)
        (fun _ h => by cases h) fun _ h => by cases h
      rcases List.mem_cons.mp hm with rfl | hm
      · exact .inr ⟨howner, hfree⟩
      · exact .inl (congrArg some (List.mem_singleton.mp hm).symm)

theorem unregisterToken_intact {request : UnregisterTokenRequest}
    (hfree : trespasses ext s (.unregisterToken request .row) = false)
    (hr : handlerRun ext cs (.unregisterToken request .row) s = some s') :
    Intact request.daemonNodeId none s s' := by
  rw [trespasses, Bool.or_eq_false_iff] at hfree
  refine .of_writes (handlerRun_writes rfl hr) (fun t hm => ?_) nofun nofun
  rw [List.mem_singleton.mp hm]
  exact .inr hfree

theorem push_intact {request : PushRequest}
    (hfree : trespasses ext s (.push request .checking) = false)
    (hr : handlerRun ext cs (.push request .checking) s = some s') :
    Intact request.daemonNodeId none s s' := by
  cases cs with
  | nil => cases hr
  | cons c cs =>
    cases ho : s.inner.tokens.lookup request.recipientToken with
    | none =>
      simp only [handlerRun, handlerStep, pushStep, ho, Option.some.injEq] at hr
      exact hr ▸ .rfl
    | some o =>
      rw [trespasses, ho, Option.any_some] at hfree
      by_cases hstale : pushTokenIsStale o.updatedAtMs s.clock = true
      · rw [hstale, Bool.true_or, Bool.true_and] at hfree
        simp only [handlerRun, handlerStep, pushStep, ho, if_pos hstale] at hr
        have hexpired : s.othersToken request.daemonNodeId request.recipientToken = false := by
          rw [RelayState.othersToken, ho, Option.any_some, RelayState.liveToken, hstale]
          simp
        refine .of_writes (handlerRun_writes rfl hr) (fun t hm => ?_)
          (fun _ h => by cases h) fun _ h => by cases h
        rw [List.mem_singleton.mp hm]
        exact .inr ⟨hexpired, hfree⟩
      · by_cases howner : o.daemonNodeId ≠ request.daemonNodeId ∨ o.platform ≠ request.platform
        · simp only [handlerRun, handlerStep, pushStep, ho, if_neg hstale, if_pos howner,
            Option.some.injEq] at hr
          exact hr ▸ .rfl
        · simp only [handlerRun, handlerStep, pushStep, ho, if_neg hstale, if_neg howner] at hr
          rw [not_or, not_not, not_not] at howner
          rw [decide_eq_true howner.1, decide_eq_true howner.2, Bool.and_true, Bool.or_true,
            Bool.true_and] at hfree
          have hown : s.othersToken request.daemonNodeId request.recipientToken = false := by
            rw [RelayState.othersToken, ho, Option.any_some, howner.1]
            simp
          refine .of_writes (handlerRun_writes rfl hr) (fun t hm => ?_)
            (fun _ h => by cases h) fun _ h => by cases h
          rw [List.mem_singleton.mp hm]
          exact .inr ⟨hown, hfree⟩

/-- The eviction takes only the daemon's own entries. -/
theorem evict_intact (s : RelayState) (D : String) (registers : Option String) (keep : String) :
    Intact D registers s { s.nextPublication with
      inner := s.inner.evictCodesForDaemon D keep } := by
  refine ⟨fun _ _ ho _ _ _ => ho, fun _ _ hrow _ _ _ => hrow, fun k e he hD _ => ?_,
    fun _ _ hrow _ _ => hrow⟩
  refine Table.lookup_retain.mpr ⟨he, ?_⟩
  rw [decide_eq_false fun hstale => hD hstale.1]
  rfl

theorem publish_intact {request : PublishPairingRequest}
    (hfree : trespasses ext s (.publish request .checking) = false)
    (hr : handlerRun ext cs (.publish request .checking) s = some s') :
    Intact request.daemonNodeId none s s' := by
  rw [trespasses] at hfree
  cases cs with
  | nil => cases hr
  | cons c cs =>
    cases hparts : request.parts with
    | error e =>
      simp only [handlerRun, handlerStep, publishStep, hparts, Option.some.injEq] at hr
      exact hr ▸ .rfl
    | ok parts =>
      obtain ⟨key, record, expiresAtMs⟩ := parts
      simp only [hparts] at hfree
      by_cases hexpired : expiresAtMs ≤ s.clock
      · simp only [handlerRun, handlerStep, publishStep, hparts, if_pos hexpired,
          Option.some.injEq] at hr
        exact hr ▸ .rfl
      · simp only [handlerRun, handlerStep, publishStep, hparts, if_neg hexpired] at hr
        rw [decide_eq_true (Nat.lt_of_not_le hexpired), Bool.true_and] at hfree
        cases cs with
        | nil => cases hr
        | cons c' cs =>
          cases hpayload : storedPayload ext record with
          | none =>
            simp only [handlerRun, handlerStep, publishStep, hpayload, Option.some.injEq] at hr
            exact hr ▸ evict_intact s _ none key
          | some payload =>
            simp only [handlerRun, handlerStep, publishStep, hpayload] at hr
            rw [hpayload, Option.isSome_some, Bool.true_and, Bool.or_eq_false_iff,
              Bool.or_eq_false_iff, List.any_eq_false] at hfree
            obtain ⟨⟨hcode, hrow⟩, hsuperseded⟩ := hfree
            have hw := handlerRun_writes rfl hr
            have hevict := evict_intact s request.daemonNodeId none key
            refine ⟨fun t o ho hD hlive hnot => ?_, fun t row hr hD hlive hnot => ?_,
              fun k e he hD hlive => ?_, fun k row hr hD hlive => ?_⟩
            · exact (hw.token t List.not_mem_nil).trans (hevict.token t o ho hD hlive hnot)
            · exact (hw.tokenRow t List.not_mem_nil).trans (hevict.tokenRow t row hr hD hlive hnot)
            · refine (hw.code k fun hm => ?_).trans (hevict.code k e he hD hlive)
              rw [List.mem_singleton.mp hm] at he
              cases hcode.symm.trans (othersCode_eq_true he hD hlive)
            · refine (hw.codeRow k fun hm => ?_).trans (hevict.codeRow k row hr hD hlive)
              have htrue := othersCodeRow_eq_true hr hD hlive
              rcases List.mem_cons.mp hm with rfl | hm
              · cases hrow.symm.trans htrue
              · exact hsuperseded k hm htrue

/-- An accepted request that does not trespass leaves everything of the others. -/
theorem intact_of_not_trespasses (hacc : Accepted h) (hfree : trespasses ext s h = false)
    (hr : handlerRun ext cs h s = some s') : Intact h.daemonNodeId h.registers s s' := by
  cases hacc with
  | registerToken request => exact registerToken_intact hfree hr
  | unregisterToken request => exact unregisterToken_intact hfree hr
  | push request => exact push_intact hfree hr
  | publish request => exact publish_intact hfree hr

/-- A run in which the database answers and the provider calls the token invalid. -/
private def rejecting : RelayChoice := ⟨true, false, .invalidToken ""⟩

theorem stores_rejecting (s : RelayState) : s.stores rejecting = true := Bool.or_true _

/-- Without the binding, in memory and in the database. -/
def RelayState.withoutToken (t : String) (s : RelayState) : RelayState :=
  (s.updateStore fun st => st.removeToken t).removeToken t

theorem withoutToken_lookup : (s.withoutToken t).inner.tokens.lookup t = none :=
  Table.lookup_erase_self _ _

theorem withoutToken_tokenRow : (s.withoutToken t).tokenRow t = none := by
  unfold RelayState.withoutToken RelayState.removeToken RelayState.updateStore RelayState.tokenRow
  cases s.store with
  | none => rfl
  | some st => exact Table.lookup_erase_self _ _

theorem not_intact_withoutToken (hothers : s.othersToken D t = true ∨ s.othersTokenRow D t = true)
    (hnot : registers ≠ some t) (hlookup : s'.inner.tokens.lookup t = none)
    (hrow : s'.tokenRow t = none) : ¬ Intact D registers s s' := by
  intro hintact
  rcases hothers with hothers | hothers
  · obtain ⟨o, ho, hD, hlive⟩ := exists_othersToken hothers
    cases hlookup.symm.trans (hintact.token t o ho hD hlive hnot)
  · obtain ⟨row, hr, hD, hlive⟩ := exists_othersTokenRow hothers
    cases hrow.symm.trans (hintact.tokenRow t row hr hD hlive hnot)

theorem unregisterToken_damages {request : UnregisterTokenRequest}
    (ht : trespasses ext s (.unregisterToken request .row) = true) :
    ∃ cs s', handlerRun ext cs (.unregisterToken request .row) s = some s' ∧
      ¬ Intact request.daemonNodeId none s s' := by
  refine ⟨[rejecting, rejecting], s.withoutToken request.pushToken, ?_, ?_⟩
  · simp only [handlerRun, handlerStep, unregisterTokenStep, removalStep, stores_rejecting, if_true]
    rfl
  · exact not_intact_withoutToken (Bool.or_eq_true _ _ ▸ ht) (by rintro ⟨⟩) withoutToken_lookup
      withoutToken_tokenRow

theorem registerToken_damages {request : RegisterTokenRequest}
    (ht : trespasses ext s (.registerToken request .checkingCap) = true) :
    ∃ cs s', handlerRun ext cs (.registerToken request .checkingCap) s = some s' ∧
      ¬ Intact request.daemonNodeId (some request.pushToken) s s' := by
  obtain ⟨evicted, hevicted, hothers⟩ := (Option.any_eq_true _ _).mp ht
  have hne : evicted ≠ request.pushToken := by
    rintro rfl
    obtain ⟨o, ho, -⟩ := tokenEvictedByCap_owned hevicted
    rw [RelayInner.tokenEvictedByCap, Table.contains, ho] at hevicted
    cases hevicted
  obtain ⟨s', hr⟩ : ∃ s', handlerRun ext [rejecting, rejecting, rejecting]
      (.registerToken request .stamping) (s.withoutToken evicted) = some s' := by
    simp only [handlerRun, handlerStep, registerTokenStep, stores_rejecting, if_true]
    exact ⟨_, rfl⟩
  have hw := handlerRun_writes rfl hr
  have hnot : evicted ∉ [request.pushToken] := fun hm => hne (List.mem_singleton.mp hm)
  refine ⟨[rejecting, rejecting, rejecting, rejecting, rejecting, rejecting], s', ?_, ?_⟩
  · simp only [handlerRun, handlerStep, registerTokenStep, hevicted, removalStep, stores_rejecting,
      if_true] at hr ⊢
    exact hr
  · refine not_intact_withoutToken (.inr hothers) (fun heq => hne (Option.some.inj heq).symm) ?_ ?_
    · exact (hw.token evicted hnot).trans withoutToken_lookup
    · exact (hw.tokenRow evicted hnot).trans withoutToken_tokenRow

theorem push_damages {request : PushRequest}
    (ht : trespasses ext s (.push request .checking) = true) :
    ∃ cs s', handlerRun ext cs (.push request .checking) s = some s' ∧
      ¬ Intact request.daemonNodeId none s s' := by
  rw [trespasses, Bool.and_eq_true] at ht
  obtain ⟨hany, hothers⟩ := ht
  obtain ⟨o, ho, hpermitted⟩ := (Option.any_eq_true _ _).mp hany
  have hdamage : ¬ Intact request.daemonNodeId none s (s.withoutToken request.recipientToken) :=
    not_intact_withoutToken (.inr hothers) nofun withoutToken_lookup withoutToken_tokenRow
  by_cases hstale : pushTokenIsStale o.updatedAtMs s.clock = true
  · refine ⟨[rejecting, rejecting, rejecting], _, ?_, hdamage⟩
    simp only [handlerRun, handlerStep, pushStep, ho, if_pos hstale, removalStep, stores_rejecting,
      if_true]
    rfl
  · rw [Bool.or_eq_true, Bool.and_eq_true, decide_eq_true_eq, decide_eq_true_eq] at hpermitted
    obtain ⟨howner, hplatform⟩ := hpermitted.resolve_left hstale
    have hmine : ¬ (o.daemonNodeId ≠ request.daemonNodeId ∨ o.platform ≠ request.platform) := by
      rw [not_or, not_not, not_not]
      exact ⟨howner, hplatform⟩
    refine ⟨[rejecting, rejecting, rejecting, rejecting], _, ?_, hdamage⟩
    simp only [handlerRun, handlerStep, pushStep, ho, if_neg hstale, if_neg hmine, removalStep,
      stores_rejecting, if_true]
    rfl

/-- What a publish that nothing hinders leaves behind. -/
theorem deletingRows_run (request : PublishPairingRequest) (superseded : List String)
    (key payload : String) (entry : PairingCodeEntry) (s : RelayState) :
    ∃ cs s', handlerRun ext cs (.publish request (.deletingRows superseded key payload entry)) s =
        some s' ∧ s'.inner.pairingCodes.lookup key = some entry ∧
      (∀ row, s'.codeRow key = some row → row.daemonNodeId = entry.daemonNodeId) ∧
      ∀ stale ∈ superseded, stale ≠ key → s'.codeRow stale = none := by
  induction superseded generalizing s with
  | nil =>
    refine ⟨[rejecting, rejecting, rejecting],
      ((s.updateStore fun st => st.savePairingCode key (entry.row payload)).setPairingCode key
        entry).notePublished entry.daemonNodeId entry.publication, ?_,
      Table.lookup_insert_self _ _ _, fun row hrow => ?_, nofun⟩
    · simp only [handlerRun, handlerStep, publishStep, stores_rejecting, if_true]
    · cases hst : s.store with
      | none =>
        simp only [RelayState.codeRow, RelayState.updateStore, RelayState.setPairingCode,
          RelayState.notePublished, hst] at hrow
        cases hrow
      | some st =>
        simp only [RelayState.codeRow, RelayState.updateStore, RelayState.setPairingCode,
          RelayState.notePublished, RelayStore.savePairingCode, hst, Option.map_some,
          Option.bind_some, Table.lookup_insert_self, Option.some.injEq] at hrow
        rw [← hrow]
        rfl
  | cons stale superseded ih =>
    obtain ⟨cs, s', hr, hentry, hrow, hgone⟩ := ih (s.updateStore fun st => st.deletePairingCode stale)
    refine ⟨rejecting :: cs, s', ?_, hentry, hrow, fun stale' hm hne => ?_⟩
    · exact hr
    · by_cases hm' : stale' ∈ superseded
      · exact hgone stale' hm' hne
      · obtain rfl := (List.mem_cons.mp hm).resolve_right hm'
        have hw := handlerRun_writes rfl hr
        refine (hw.codeRow stale' fun hm => ?_).trans ?_
        · exact (List.mem_cons.mp hm).elim hne hm'
        · unfold RelayState.updateStore RelayState.codeRow
          cases s.store with
          | none => rfl
          | some st => exact Table.lookup_erase_self _ _

theorem publish_damages {request : PublishPairingRequest}
    (ht : trespasses ext s (.publish request .checking) = true) :
    ∃ cs s', handlerRun ext cs (.publish request .checking) s = some s' ∧
      ¬ Intact request.daemonNodeId none s s' := by
  rw [trespasses] at ht
  cases hparts : request.parts with
  | error e =>
    rw [hparts] at ht
    cases ht
  | ok parts =>
    obtain ⟨key, record, expiresAtMs⟩ := parts
    simp only [hparts, Bool.and_eq_true, decide_eq_true_eq] at ht
    obtain ⟨⟨hlive, hsome⟩, hothers⟩ := ht
    obtain ⟨payload, hpayload⟩ := Option.isSome_iff_exists.mp hsome
    obtain ⟨cs, s', hr, hentry, hrow, hgone⟩ := deletingRows_run request
      (s.inner.supersededCodes request.daemonNodeId key) key payload
      ⟨request.daemonNodeId, record, expiresAtMs, s.history.publications⟩
      { s.nextPublication with inner := s.inner.evictCodesForDaemon request.daemonNodeId key }
    refine ⟨rejecting :: rejecting :: cs, s', ?_, fun hintact => ?_⟩
    · simp only [handlerRun, handlerStep, publishStep, hparts, if_neg (Nat.not_le.mpr hlive),
        hpayload]
      exact hr
    · rw [Bool.or_eq_true, Bool.or_eq_true] at hothers
      rcases hothers with (hothers | hothers) | hothers
      · obtain ⟨e, he, hD, hlive⟩ := exists_othersCode hothers
        cases hentry.symm.trans (hintact.code key e he hD hlive)
        exact hD rfl
      · obtain ⟨row, hr, hD, hlive⟩ := exists_othersCodeRow hothers
        exact hD (hrow row (hintact.codeRow key row hr hD hlive))
      · obtain ⟨stale, hm, hothers⟩ := List.any_eq_true.mp hothers
        obtain ⟨row, hr, hD, hlive⟩ := exists_othersCodeRow hothers
        obtain ⟨⟨k, e⟩, hmem, rfl⟩ := List.mem_map.mp hm
        have hne : k ≠ key := (of_decide_eq_true (List.mem_filter.mp hmem).2).2
        cases (hgone k hm hne).symm.trans (hintact.codeRow k row hr hD hlive)

/-- An accepted request that trespasses damages something, if the database and the provider
answer as they may. -/
theorem damages_of_trespasses (hacc : Accepted h) (ht : trespasses ext s h = true) :
    ∃ cs s', handlerRun ext cs h s = some s' ∧ ¬ Intact h.daemonNodeId h.registers s s' := by
  cases hacc with
  | registerToken request => exact registerToken_damages ht
  | unregisterToken request => exact unregisterToken_damages ht
  | push request => exact push_damages ht
  | publish request => exact publish_damages ht

end Exact

section Verification

variable {ext : Externals} {c : RelayChoice} {cs : List RelayChoice} {s₀ s s' : RelayState}
  {r : SignedRequestContext} {limit : Bool} {pc pc' : VerifyPc} {D : String}

theorem Intact.then (h : Intact D none s₀ s) (hw : WritesOnly [] [] [] s s') :
    Intact D none s₀ s' :=
  ⟨fun t o ho hD hlive hnot => (hw.token t nofun).trans (h.token t o ho hD hlive hnot),
    fun t row hrow hD hlive hnot => (hw.tokenRow t nofun).trans (h.tokenRow t row hrow hD hlive hnot),
    fun k e he hD hlive => (hw.code k nofun).trans (h.code k e he hD hlive),
    fun k row hrow hD hlive => (hw.codeRow k nofun).trans (h.codeRow k row hrow hD hlive)⟩

/-- The prune of the memory comes first and finds the daemons as they were. -/
def VerifyPc.beforeMemory : VerifyPc → Bool
  | .start | .pruning _ .gate | .pruning _ .memory => true
  | _ => false

def VerifyPc.beforeStore : VerifyPc → Bool
  | .start | .pruning _ _ => true
  | _ => false

/-- What a verification that began in `s₀` has left. -/
structure Sparing (D : String) (s₀ : RelayState) (pc : VerifyPc) (s : RelayState) : Prop where
  intact : Intact D none s₀ s
  clock : s.clock = s₀.clock
  config : s.config = s₀.config
  now : ∀ now, pc.now = some now → now = s₀.clock
  daemons : pc.beforeMemory = true → s.inner.daemons = s₀.inner.daemons
  tokens : pc.beforeMemory = true → s.inner.tokens = s₀.inner.tokens
  codes : pc.beforeMemory = true → s.inner.pairingCodes = s₀.inner.pairingCodes
  store : pc.beforeStore = true → s.store = s₀.store

theorem keepsOwner_congr {inner inner' : RelayInner} {config : RelayConfig} {now : Nat}
    {owner : String} (h : inner.daemons = inner'.daemons) :
    inner.keepsOwner config now owner = inner'.keepsOwner config now owner := by
  unfold RelayInner.keepsOwner RelayInner.activeDaemons
  rw [h]

/-- A prune of the memory removes only what has expired. -/
theorem pruneMemory_intact (h : Sparing D s₀ (.pruning s₀.clock .memory) s) :
    Intact D none s₀ (s.pruneMemory s₀.clock) := by
  refine ⟨fun t o ho _ hlive _ => ?_, h.intact.tokenRow, fun k e he _ hlive => ?_, h.intact.codeRow⟩
  · refine Table.lookup_retain.mpr ⟨(h.tokens rfl).symm ▸ ho, ?_⟩
    rw [keepsOwner_congr (h.daemons rfl), h.config]
    exact hlive
  · refine Table.lookup_retain.mpr ⟨(h.codes rfl).symm ▸ he, ?_⟩
    rw [keepsOwner_congr (h.daemons rfl), h.config]
    exact hlive

/-- So does a prune of the rows. -/
theorem pruneStore_intact (h : Sparing D s₀ (.pruning s₀.clock .store) s) :
    Intact D none s₀ (s.pruneStore s₀.clock) := by
  refine ⟨h.intact.token, fun t row hrow _ hlive _ => ?_, h.intact.code, fun k row hrow _ hlive => ?_⟩
  · cases hst : s₀.store with
    | none =>
      rw [RelayState.tokenRow, hst] at hrow
      cases hrow
    | some st =>
      rw [RelayState.tokenRow, hst] at hrow
      rw [RelayState.liveTokenRow, RelayState.keepsRowOwner, hst, ← h.config] at hlive
      rw [RelayState.tokenRow, RelayState.pruneStore, h.store rfl, hst, Option.map_some,
        Option.bind_some, RelayStore.pruneExpiredRows_pushTokens, Table.lookup_retain]
      exact ⟨hrow, hlive⟩
  · cases hst : s₀.store with
    | none =>
      rw [RelayState.codeRow, hst] at hrow
      cases hrow
    | some st =>
      rw [RelayState.codeRow, hst] at hrow
      rw [RelayState.liveCodeRow, RelayState.keepsRowOwner, hst, ← h.config] at hlive
      rw [RelayState.codeRow, RelayState.pruneStore, h.store rfl, hst, Option.map_some,
        Option.bind_some, RelayStore.pruneExpiredRows_pairingCodes, Table.lookup_retain]
      exact ⟨hrow, hlive⟩

theorem setStore_writes {st : RelayStore} {seenNonces : Table (String × String) Int}
    {daemons : Table String DaemonRow} (hst : s.store = some st) :
    WritesOnly [] [] [] s (s.setStore { st with seenNonces, daemons }) := by
  refine ⟨fun _ _ => rfl, fun t _ => ?_, fun _ _ => rfl, fun k _ => ?_⟩
  · rw [RelayState.tokenRow, RelayState.tokenRow, hst]
    rfl
  · rw [RelayState.codeRow, RelayState.codeRow, hst]
    rfl

/-- After the prune a verification writes nothing but nonces and its daemon's activity. -/
theorem verifyStep_writes (hpc : pc.beforeStore = false) :
    WritesOnly [] [] [] s (verifyStep ext c r limit pc s).1 := by
  have hup : Upkeep s (.verify r limit pc (.unregisterToken ⟨"", "", "", 0⟩ .row))
      (verifyStep ext c r limit pc s).1 := upkeep_verifyStep
  obtain ⟨t, ht⟩ : ∃ t, (verifyStep ext c r limit pc s).1 = t := ⟨_, rfl⟩
  rw [ht] at hup ⊢
  have hidle {now : Nat} {pc' : PrunePc} (hx : (RelayTask.verify r limit pc
      (.unregisterToken ⟨"", "", "", 0⟩ .row)).pruning = some (now, pc')) : False := by
    cases pc with
    | start | pruning => cases hpc
    | readKey | markNonce | recordActivity | refresh => cases hx
  cases hup with
  | same | marked | refreshed =>
    exact ⟨fun _ _ => rfl, fun _ _ => rfl, fun _ _ => rfl, fun _ _ => rfl⟩
  | gated now hx => exact (hidle hx).elim
  | prunedMemory now hx => exact (hidle hx).elim
  | prunedStore now hx => exact (hidle hx).elim
  | recorded seenNonces daemons st hst => exact setStore_writes hst

theorem sparing_step (h : Sparing D s₀ pc s)
    (hs : verifyStep ext c r limit pc s = (s', .running pc')) : Sparing D s₀ pc' s' := by
  have hadvance : relayAdvance ext c 0 (.verify r limit pc (.unregisterToken ⟨"", "", "", 0⟩ .row)) s =
      some (s', .verify r limit pc' (.unregisterToken ⟨"", "", "", 0⟩ .row)) := by
    simp only [relayAdvance, hs]
  obtain ⟨hconfig, hclock⟩ := advance_config hadvance
  have hnow : ∀ now, pc'.now = some now → now = s₀.clock := by
    intro now hpc'
    rcases verifyStep_now hs with hsame | ⟨hread, -⟩
    · exact h.now now (hsame.symm.trans hpc')
    · rw [hread] at hpc'
      exact (Option.some.inj hpc').symm.trans h.clock
  have done (hintact : Intact D none s₀ s') (hmemory : pc'.beforeMemory = false)
      (hstore : pc'.beforeStore = false) : Sparing D s₀ pc' s' :=
    ⟨hintact, hclock.trans h.clock, hconfig.trans h.config, hnow, by simp [hmemory],
      by simp [hmemory], by simp [hmemory], by simp [hstore]⟩
  have later (hpc : pc.beforeStore = false) (hmemory : pc'.beforeMemory = false)
      (hstore : pc'.beforeStore = false) : Sparing D s₀ pc' s' := by
    have hw : WritesOnly [] [] [] s (verifyStep ext c r limit pc s).1 := verifyStep_writes hpc
    rw [hs] at hw
    exact done (h.intact.then hw) hmemory hstore
  cases pc with
  | start =>
    simp only [verifyStep] at hs
    split at hs <;> cases hs
    exact ⟨h.intact, h.clock, h.config, hnow, h.daemons, h.tokens, h.codes, h.store⟩
  | pruning now pc =>
    obtain rfl := h.now now rfl
    cases pc with
    | gate =>
      simp only [verifyStep, pruneStep] at hs
      split at hs <;> rename_i heq <;> split at heq <;> cases heq <;> cases hs
      · exact ⟨h.intact.then ⟨fun _ _ => rfl, fun _ _ => rfl, fun _ _ => rfl, fun _ _ => rfl⟩,
          h.clock, h.config, hnow, h.daemons, h.tokens, h.codes, h.store⟩
      · exact done h.intact rfl rfl
    | memory =>
      cases hs
      exact ⟨pruneMemory_intact h, h.clock, h.config, hnow, (fun h => by cases h), (fun h => by cases h),
        (fun h => by cases h), h.store⟩
    | store =>
      simp only [verifyStep, pruneStep] at hs
      cases hok : c.storeOk with
      | true =>
        simp only [hok, if_true] at hs
        cases hs
        exact done (pruneStore_intact h) rfl rfl
      | false =>
        simp only [hok, Bool.false_eq_true, if_false] at hs
        cases hs
        exact done h.intact rfl rfl
  | readKey now =>
    have hpc' : ∃ key, pc' = .markNonce now key := by
      simp only [verifyStep] at hs
      repeat' split at hs
      all_goals cases hs
      exact ⟨_, rfl⟩
    obtain ⟨key, rfl⟩ := hpc'
    exact later rfl rfl rfl
  | markNonce now key =>
    have hpc' : pc' = .recordActivity now key := by
      simp only [verifyStep] at hs
      split at hs
      · cases hs
      · split at hs
        · cases hs
        · obtain ⟨-, hs⟩ := Prod.mk.inj hs
          split at hs <;> cases hs
          rfl
    subst hpc'
    exact later rfl rfl rfl
  | recordActivity now key =>
    have hpc' : pc' = .refresh now key := by
      simp only [verifyStep] at hs
      repeat' split at hs
      all_goals cases hs
      all_goals rfl
    subst hpc'
    exact later rfl rfl rfl
  | refresh now key => cases hs

theorem verifyRun_intact (h : Sparing D s₀ pc s)
    (hr : verifyRun ext r limit cs pc s = some s') : Intact D none s₀ s' := by
  induction cs generalizing pc s with
  | nil => cases hr
  | cons c cs ih =>
    simp only [verifyRun] at hr
    split at hr <;> rename_i heq
    · exact ih (sparing_step h heq) hr
    · cases hr
      obtain ⟨now, hpc⟩ := verifyStep_done heq
      have hw : WritesOnly [] [] [] s (verifyStep ext c r limit pc s).1 :=
        verifyStep_writes (by rw [hpc]; rfl)
      rw [heq] at hw
      exact h.intact.then hw
    · cases hr

theorem Sparing.start (D : String) (s : RelayState) : Sparing D s .start s :=
  ⟨.rfl, rfl, rfl, nofun, fun _ => rfl, fun _ => rfl, fun _ => rfl, fun _ => rfl⟩

end Verification

/-- The verification of a request touches nothing unexpired of another daemon. The endpoint
after it leaves everything of the others, whatever the database and the provider answer, if
and only if it does not trespass in the state in which the request is accepted. -/
theorem tenant_isolation {ext : Externals} {r : SignedRequestContext} {limit : Bool} {h : Handler}
    {s s' : RelayState} {cs : List RelayChoice}
    (harrives : (RelayTask.verify r limit .start h).arrives ext = true)
    (haccepted : verifyRun ext r limit cs .start s = some s') :
    Intact r.daemonNodeId none s s' ∧
      ((∀ cs' s'', handlerRun ext cs' h s' = some s'' →
        Intact r.daemonNodeId h.registers s' s'') ↔ trespasses ext s' h = false) := by
  have hacc : Accepted h ∧ r.daemonNodeId = h.daemonNodeId := by
    cases arrival_of_arrives harrives with
    | registerToken r request hD => exact ⟨.registerToken request, hD⟩
    | unregisterToken r request hD => exact ⟨.unregisterToken request, hD⟩
    | push r request hD => exact ⟨.push request, hD⟩
    | publish r request hD => exact ⟨.publish request, hD⟩
  obtain ⟨hacc, hD⟩ := hacc
  refine ⟨verifyRun_intact (.start _ _) haccepted, ?_⟩
  rw [hD]
  constructor
  · intro hall
    cases ht : trespasses ext s' h with
    | false => rfl
    | true =>
      obtain ⟨cs', s'', hr, hnot⟩ := damages_of_trespasses hacc ht
      exact absurd (hall cs' s'' hr) hnot
  · intro hfree cs' s'' hr
    exact intact_of_not_trespasses hacc hfree hr

section Traces

private def tokenOwner : String := "daemon-0123456789"

private def neighbour : String := "daemon-abcdefghij"

private def neighbourToken : String := "push-token-number-0"

/-- Both daemons are registered, and the token is the neighbour's. -/
private def shared : RelayState :=
  (((RelayState.new (some .empty) 1000).setDaemon tokenOwner
    ⟨⟨List.replicate 32 65, by decide⟩, 1000⟩).setDaemon neighbour
      ⟨⟨List.replicate 32 66, by decide⟩, 1000⟩).setToken neighbourToken ⟨neighbour, .apns, 1000⟩

private def removal (pushToken : String) : UnregisterTokenRequest :=
  ⟨tokenOwner, pushToken, "nonce-000000000-0", 1000⟩

private def removalScript : Externals :=
  .playing ⟨[], [], [removal neighbourToken, removal "push-token-number-1"], [], []⟩

private def removalContext (n : UInt8) : SignedRequestContext :=
  ⟨"POST", "/v1/push/unregister-token", [n], signedBy 'A', tokenOwner, "nonce-000000000-0", 1000⟩

/-- A daemon unregisters a token that nobody else has. -/
theorem tenant_isolation_run :
    ∃ s', verifyRun removalScript (removalContext 1) false (List.replicate 6 .fine) .start shared =
        some s' ∧ ∀ cs' s'', handlerRun removalScript cs'
          (.unregisterToken (removal "push-token-number-1") .row) s' = some s'' →
        Intact tokenOwner none s' s'' := by
  have hrun : (verifyRun removalScript (removalContext 1) false (List.replicate 6 .fine) .start
      shared).any (fun s' => !trespasses removalScript s'
        (.unregisterToken (removal "push-token-number-1") .row)) = true := by decide
  obtain ⟨s', haccepted, hfree⟩ := (Option.any_eq_true _ _).mp hrun
  exact ⟨s', haccepted, (tenant_isolation (by decide) haccepted).2.mpr
    ((Bool.not_eq_true' _).mp hfree)⟩

/-- A daemon unregisters the token of another one. -/
theorem neighbour_token_unregistered :
    ¬ ∀ (ext : Externals) (r : SignedRequestContext) (limit : Bool) (h : Handler)
      (s s' s'' : RelayState) (cs cs' : List RelayChoice),
      (RelayTask.verify r limit .start h).arrives ext = true →
      verifyRun ext r limit cs .start s = some s' → handlerRun ext cs' h s' = some s'' →
      Intact r.daemonNodeId h.registers s' s'' := by
  intro hall
  have hrun : (verifyRun removalScript (removalContext 0) false (List.replicate 6 .fine) .start
      shared).any (fun s' => s'.inner.tokens.lookup neighbourToken = some ⟨neighbour, .apns, 1000⟩ ∧
        s'.liveToken ⟨neighbour, .apns, 1000⟩ = true ∧
        (handlerRun removalScript (List.replicate 2 .fine)
          (.unregisterToken (removal neighbourToken) .row) s').any (fun s'' =>
            s''.inner.tokens.lookup neighbourToken = none) = true) = true := by decide
  obtain ⟨s', haccepted, hfound⟩ := (Option.any_eq_true _ _).mp hrun
  obtain ⟨htoken, hlive, hrest⟩ := of_decide_eq_true hfound
  obtain ⟨s'', hr, hgone⟩ := (Option.any_eq_true _ _).mp hrest
  have hintact := hall removalScript (removalContext 0) false
    (.unregisterToken (removal neighbourToken) .row) shared s' s'' _ _ (by decide) haccepted hr
  cases (of_decide_eq_true hgone).symm.trans
    (hintact.token neighbourToken _ htoken (by decide) hlive nofun)

end Traces

end Shelly.Relay
