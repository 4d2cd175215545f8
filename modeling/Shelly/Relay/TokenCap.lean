import Shelly.Relay.Frames

namespace Shelly.Relay

variable {ext : Externals}

/-- A registration of the daemon whose room was checked and whose token is still to come. -/
def RelayTask.binding (daemonNodeId : String) : RelayTask → Bool
  | .handle (.registerToken _ .checkingCap) => false
  | .handle (.registerToken request _) => request.daemonNodeId = daemonNodeId
  | _ => false

/-- The binding counts for the daemon, and is not one of those that make room. -/
def ownsBeside (daemonNodeId : String) (others : List String) (pushToken : String)
    (o : TokenOwner) : Bool := o.daemonNodeId = daemonNodeId && pushToken ∉ others

/-- How many bindings the daemon has beside some. -/
def RelayInner.owned (inner : RelayInner) (daemonNodeId : String) (others : List String) : Nat :=
  inner.tokens.count (ownsBeside daemonNodeId others)

/-- What lets a daemon exceed the cap. Its room is checked while another of its registrations
is between its own check and its insertion, or the token is another daemon's, for which the
check makes no room. -/
def roomKept (p : Pool RelayState RelayTask) : Move RelayTask RelayChoice RelayEvent → Bool
  | .advance i _ =>
    match p.task i with
    | some (.handle (.registerToken request .checkingCap)) =>
      decide (p.Lacks fun _ x => x.binding request.daemonNodeId) &&
        match p.shared.inner.tokens.lookup request.pushToken with
        | some o => o.daemonNodeId = request.daemonNodeId ||
          decide (p.shared.inner.owned request.daemonNodeId [] < maxTokensPerDaemon)
        | none => true
    | _ => true
  | .environment .restart => false
  | _ => true

section Count

variable {inner : RelayInner} {D t e : String} {others : List String}

theorem ownedTokens_length (inner : RelayInner) (D : String) :
    (inner.ownedTokens D).length = inner.owned D [] := by
  rw [RelayInner.ownedTokens, List.length_map, ← List.countP_eq_length_filter]
  unfold RelayInner.owned Table.count ownsBeside
  simp

theorem count_congr_le {p q : String → TokenOwner → Bool} {tokens : Table String TokenOwner}
    (h : ∀ k v, p k v = true → q k v = true) : tokens.count p ≤ tokens.count q :=
  List.countP_mono_left fun e _ => h e.1 e.2

/-- Leaving a token out of the count is leaving it out of the table. -/
theorem count_erase_eq (tokens : Table String TokenOwner) :
    (tokens.erase t).count (ownsBeside D others) = tokens.count (ownsBeside D (t :: others)) := by
  cases ht : tokens.lookup t with
  | none =>
    rw [Table.erase_of_lookup_none ht]
    refine List.countP_congr fun e he => ?_
    have hne : e.1 ≠ t := by
      intro h
      have hl : tokens.lookup e.1 = some e.2 := Table.mem_entries.mp he
      rw [h, ht] at hl
      cases hl
    simp [ownsBeside, hne]
  | some o =>
    rw [Table.count_of_lookup (ownsBeside D (t :: others)) ht]
    have hself : ownsBeside D (t :: others) t o = false := by simp [ownsBeside]
    rw [hself]
    refine List.countP_congr fun e he => ?_
    have hne : e.1 ≠ t := by
      intro h
      have hl : (tokens.erase t).lookup e.1 = some e.2 := Table.mem_entries.mp he
      rw [h, Table.lookup_erase_self] at hl
      cases hl
    simp [ownsBeside, hne]

theorem owned_anti {others' : List String} (h : others ⊆ others') :
    inner.owned D others' ≤ inner.owned D others := by
  refine count_congr_le fun k v hk => ?_
  simp only [ownsBeside, Bool.and_eq_true, decide_eq_true_eq] at hk ⊢
  exact ⟨hk.1, fun hmem => hk.2 (h hmem)⟩

/-- A binding of the daemon itself makes room for one more. -/
theorem owned_of_lookup {o : TokenOwner} (h : inner.tokens.lookup t = some o)
    (ho : o.daemonNodeId = D) : inner.owned D [] = inner.owned D [t] + 1 := by
  rw [RelayInner.owned, Table.count_of_lookup _ h, count_erase_eq]
  simp [ownsBeside, ho, RelayInner.owned]

theorem foldl_oldest_mem (bs : List (String × Nat)) (b : String × Nat) :
    bs.foldl (fun best b => if RelayInner.olderThan b best then b else best) b ∈ b :: bs := by
  induction bs generalizing b with
  | nil => exact List.mem_cons_self
  | cons x xs ih =>
    rw [List.foldl_cons]
    have hmem := ih (if RelayInner.olderThan x b then x else b)
    rcases List.mem_cons.mp hmem with h | h
    · rw [h]
      split <;> simp
    · exact List.mem_cons_of_mem _ (List.mem_cons_of_mem _ h)

theorem oldest_mem {bs : List (String × Nat)} {b : String × Nat}
    (h : RelayInner.oldest bs = some b) : b ∈ bs := by
  cases bs with
  | nil => cases h
  | cons x xs =>
    obtain rfl := Option.some.inj h
    exact foldl_oldest_mem xs x

/-- The binding to evict is one of the daemon's own. -/
theorem tokenEvictedByCap_owned (h : inner.tokenEvictedByCap D t = some e) :
    ∃ o, inner.tokens.lookup e = some o ∧ o.daemonNodeId = D := by
  simp only [RelayInner.tokenEvictedByCap] at h
  split at h
  · cases h
  · split at h
    · cases h
    · obtain ⟨b, hb, rfl⟩ := Option.map_eq_some_iff.mp h
      obtain ⟨⟨k, o⟩, hm, rfl⟩ := List.mem_map.mp (oldest_mem hb)
      obtain ⟨hm, ho⟩ := List.mem_filter.mp hm
      exact ⟨o, Table.mem_entries.mp hm, of_decide_eq_true ho⟩

theorem tokenEvictedByCap_none (h : inner.tokenEvictedByCap D t = none) :
    inner.tokens.contains t = true ∨ inner.owned D [] < maxTokensPerDaemon := by
  simp only [RelayInner.tokenEvictedByCap] at h
  split at h
  · exact .inl ‹_›
  · split at h
    · rename_i hlt
      rw [ownedTokens_length] at hlt
      exact .inr hlt
    · rename_i hge
      cases hb : inner.ownedTokens D with
      | nil =>
        rw [hb] at hge
        exact absurd (by decide) hge
      | cons b bs =>
        rw [hb] at h
        cases h

end Count

section Steps

variable {p : Pool RelayState RelayTask} {c : RelayChoice} {s s' : RelayState}
  {i j : Nat} {x x' y : RelayTask}

/-- Everything a step can do to the tokens. -/
theorem tokens_step (hs : relayAdvance ext c i x s = some (s', x')) :
    s.inner.tokens.Includes s'.inner.tokens ∨
      (∃ pushToken now, s'.inner.tokens =
        s.inner.tokens.modify pushToken fun o => { o with updatedAtMs := now }) ∨
      ∃ request owner, x = .handle (.registerToken request (.inserting owner)) ∧
        s'.inner.tokens = s.inner.tokens.insert request.pushToken owner := by
  have same (h : s'.inner.tokens = s.inner.tokens) :
      s.inner.tokens.Includes s'.inner.tokens := by
    rw [h]
    exact fun _ _ h => h
  have removal {pushToken : String} {pc : RemovalPc} :
      s.inner.tokens.Includes (removalStep c pushToken s pc).1.inner.tokens := by
    cases pc with
    | row =>
      simp only [removalStep]
      split <;> exact fun _ _ h => h
    | memory => exact Table.includes_erase _ _
  cases hx : x.rest with
  | some rest =>
    refine .inl ?_
    cases (verification_step hx hs).1 with
    | prunedMemory now _ => exact Table.includes_retain _ _
    | same | gated | prunedStore | marked | recorded | refreshed => exact same rfl
  | none =>
    cases x with
    | verify | prove => cases hx
    | returned => cases hs
    | handle hd =>
      have hstep := handle_advance hs
      cases hd with
      | registerDaemon call pc =>
        have ht : TouchesDaemons s (registerDaemonStep ext c call s pc).1 :=
          registerDaemonStep_touches
        rw [show registerDaemonStep ext c call s pc = (s', x') from hstep] at ht
        cases ht <;> exact .inl (same rfl)
      | publish request pc =>
        have ht : TouchesCodes s (publishStep ext c request s pc).1 := publishStep_touches
        rw [show publishStep ext c request s pc = (s', x') from hstep] at ht
        cases ht <;> exact .inl (same rfl)
      | resolve code pc =>
        have ht : TouchesCodes s (resolveStep c code s pc).1 := resolveStep_touches
        rw [show resolveStep c code s pc = (s', x') from hstep] at ht
        cases ht <;> exact .inl (same rfl)
      | unregisterToken request pc =>
        have hrem : s.inner.tokens.Includes
            (removalStep c request.pushToken s pc).1.inner.tokens := removal
        simp only [handlerStep, unregisterTokenStep] at hstep
        split at hstep <;> rename_i heq <;> rw [heq] at hrem <;> cases hstep <;> exact .inl hrem
      | registerToken request pc =>
        cases pc with
        | checkingCap =>
          simp only [handlerStep, registerTokenStep] at hstep
          split at hstep <;> cases hstep <;> exact .inl (same rfl)
        | evicting evicted pc =>
          have hrem : s.inner.tokens.Includes (removalStep c evicted s pc).1.inner.tokens :=
            removal
          simp only [handlerStep, registerTokenStep] at hstep
          split at hstep <;> rename_i heq <;> rw [heq] at hrem <;> cases hstep <;> exact .inl hrem
        | stamping => cases hstep; exact .inl (same rfl)
        | saving owner =>
          simp only [handlerStep, registerTokenStep] at hstep
          split at hstep <;> cases hstep <;> exact .inl (same rfl)
        | inserting owner => cases hstep; exact .inr (.inr ⟨request, owner, rfl, rfl⟩)
      | push request pc =>
        cases pc with
        | checking | delivering | touchingRow =>
          simp only [handlerStep, pushStep] at hstep
          repeat' split at hstep
          all_goals cases hstep; exact .inl (same rfl)
        | removing cause pc =>
          have hrem : s.inner.tokens.Includes
              (removalStep c request.recipientToken s pc).1.inner.tokens := removal
          simp only [handlerStep, pushStep] at hstep
          split at hstep <;> rename_i heq <;> rw [heq] at hrem <;> cases hstep <;> exact .inl hrem
        | touchingMemory now =>
          cases hstep
          exact .inr (.inl ⟨request.recipientToken, now, rfl⟩)

/-- Only the insertion of a token adds to what a daemon owns. -/
theorem owned_step_le {D : String} (hs : relayAdvance ext c i x s = some (s', x'))
    (hne : ∀ request owner, x = .handle (.registerToken request (.inserting owner)) →
      owner.daemonNodeId ≠ D) (others : List String) :
    s'.inner.owned D others ≤ s.inner.owned D others := by
  unfold RelayInner.owned
  rcases tokens_step hs with h | ⟨t, now, h⟩ | ⟨request, owner, rfl, h⟩
  · exact h.count_le _
  · rw [h, Table.count_modify]
    exact fun _ => rfl
  · rw [h, Table.count_insert]
    have hother : ownsBeside D others request.pushToken owner = false := by
      simp [ownsBeside, hne request owner rfl]
    rw [hother]
    exact Table.count_erase_le _ _ _

/-- The room that a registration has found. -/
def TokenOk (s : RelayState) (_ : Nat) : RelayTask → Prop
  | .handle (.registerToken request (.evicting evicted _)) =>
    s.inner.owned request.daemonNodeId [evicted, request.pushToken] < maxTokensPerDaemon
  | .handle (.registerToken request .stamping) =>
    s.inner.owned request.daemonNodeId [request.pushToken] < maxTokensPerDaemon
  | .handle (.registerToken request (.saving owner)) =>
    s.inner.owned request.daemonNodeId [request.pushToken] < maxTokensPerDaemon ∧
      owner.daemonNodeId = request.daemonNodeId
  | .handle (.registerToken request (.inserting owner)) =>
    s.inner.owned request.daemonNodeId [request.pushToken] < maxTokensPerDaemon ∧
      owner.daemonNodeId = request.daemonNodeId
  | .verify _ _ _ (.registerToken _ pc) => pc = .checkingCap
  | .prove _ _ _ _ (.registerToken _ pc) => pc = .checkingCap
  | _ => True

def Capped (s : RelayState) : Prop := ∀ D, s.inner.owned D [] ≤ maxTokensPerDaemon

theorem TokenOk.of_le (h : TokenOk s j y)
    (hle : ∀ D, y.binding D = true → ∀ others, s'.inner.owned D others ≤ s.inner.owned D others) :
    TokenOk s' j y := by
  match y with
  | .handle (.registerToken request (.evicting evicted pc)) =>
    exact Nat.lt_of_le_of_lt (hle _ (decide_eq_true rfl) _) h
  | .handle (.registerToken request .stamping) =>
    exact Nat.lt_of_le_of_lt (hle _ (decide_eq_true rfl) _) h
  | .handle (.registerToken request (.saving owner)) =>
    exact ⟨Nat.lt_of_le_of_lt (hle _ (decide_eq_true rfl) _) h.1, h.2⟩
  | .handle (.registerToken request (.inserting owner)) =>
    exact ⟨Nat.lt_of_le_of_lt (hle _ (decide_eq_true rfl) _) h.1, h.2⟩
  | .verify _ _ _ (.registerToken _ _) | .prove _ _ _ _ (.registerToken _ _) => exact h
  | .handle (.registerToken _ .checkingCap)
  | .verify _ _ _ (.registerDaemon _ _) | .verify _ _ _ (.unregisterToken _ _)
  | .verify _ _ _ (.push _ _) | .verify _ _ _ (.publish _ _) | .verify _ _ _ (.resolve _ _)
  | .prove _ _ _ _ (.registerDaemon _ _) | .prove _ _ _ _ (.unregisterToken _ _)
  | .prove _ _ _ _ (.push _ _) | .prove _ _ _ _ (.publish _ _) | .prove _ _ _ _ (.resolve _ _)
  | .handle (.registerDaemon _ _) | .handle (.unregisterToken _ _) | .handle (.push _ _)
  | .handle (.publish _ _) | .handle (.resolve _ _) | .returned _ => trivial

/-- The check makes room for one more binding. -/
theorem checkingCap_step {request : RegisterTokenRequest} (hcap : Capped p.shared)
    (ht : p.task i = some (.handle (.registerToken request .checkingCap)))
    (hc : roomKept p (.advance i c) = true)
    (hs : registerTokenStep c request p.shared .checkingCap = (s', x')) :
    s' = p.shared ∧ TokenOk p.shared i x' := by
  have hroom := hcap request.daemonNodeId
  simp only [registerTokenStep] at hs
  split at hs
  · -- The evicted binding is the daemon's own.
    rename_i e hevict
    cases hs
    refine ⟨rfl, ?_⟩
    obtain ⟨o, ho, hD⟩ := tokenEvictedByCap_owned hevict
    have hless := owned_of_lookup ho hD
    have hle : p.shared.inner.owned request.daemonNodeId [e, request.pushToken] ≤
        p.shared.inner.owned request.daemonNodeId [e] := owned_anti (by simp)
    change _ < _
    omega
  · rename_i hevict
    cases hs
    refine ⟨rfl, ?_⟩
    have hle : p.shared.inner.owned request.daemonNodeId [request.pushToken] ≤
        p.shared.inner.owned request.daemonNodeId [] := owned_anti (List.nil_subset _)
    rcases tokenEvictedByCap_none hevict with hknown | hfew
    · obtain ⟨o, ho⟩ := Table.contains_eq_true.mp hknown
      simp only [roomKept, ht, ho, Bool.and_eq_true, Bool.or_eq_true, decide_eq_true_eq] at hc
      rcases hc.2 with hown | hfew
      · have hless := owned_of_lookup ho hown
        change _ < _
        omega
      · exact Nat.lt_of_le_of_lt hle hfew
    · exact Nat.lt_of_le_of_lt hle hfew

theorem registering_token_step {request : RegisterTokenRequest} {pc : RegisterTokenPc}
    (hcap : Capped p.shared) (ht : p.task i = some (.handle (.registerToken request pc)))
    (hok : TokenOk p.shared i (.handle (.registerToken request pc)))
    (hc : roomKept p (.advance i c) = true)
    (hs : registerTokenStep c request p.shared pc = (s', x')) : Capped s' ∧ TokenOk s' i x' := by
  cases pc with
  | checkingCap =>
    obtain ⟨rfl, hroom⟩ := checkingCap_step hcap ht hc hs
    exact ⟨hcap, hroom⟩
  | evicting evicted pc =>
    cases pc with
    | row =>
      simp only [registerTokenStep, removalStep] at hs
      split at hs
      · rename_i heq
        split at heq <;> cases heq
        cases hs
        exact ⟨hcap, hok⟩
      · rename_i heq
        split at heq <;> cases heq
      · rename_i heq
        split at heq <;> cases heq
        cases hs
        exact ⟨hcap, trivial⟩
    | memory =>
      cases hs
      have hincludes := Table.includes_erase p.shared.inner.tokens evicted
      refine ⟨fun D => Nat.le_trans (hincludes.count_le _) (hcap D), ?_⟩
      change (p.shared.inner.tokens.erase evicted).count _ < _
      rw [count_erase_eq]
      exact hok
  | stamping => cases hs; exact ⟨hcap, hok, rfl⟩
  | saving owner =>
    simp only [registerTokenStep] at hs
    split at hs <;> cases hs
    · exact ⟨hcap, hok⟩
    · exact ⟨hcap, trivial⟩
  | inserting owner =>
    cases hs
    refine ⟨fun D => ?_, trivial⟩
    have hroom : p.shared.inner.owned request.daemonNodeId [request.pushToken] <
      maxTokensPerDaemon := hok.1
    have howner : owner.daemonNodeId = request.daemonNodeId := hok.2
    change (p.shared.inner.tokens.insert request.pushToken owner).count _ ≤ _
    rw [Table.count_insert, count_erase_eq]
    by_cases hD : request.daemonNodeId = D
    · subst hD
      have hself : ownsBeside request.daemonNodeId [] request.pushToken owner = true := by
        simp [ownsBeside, howner]
      rw [hself]
      exact hroom
    · have hother : ownsBeside D [] request.pushToken owner = false := by
        simp [ownsBeside, howner, hD]
      rw [hother]
      exact Nat.le_trans (owned_anti (List.nil_subset _)) (hcap D)

theorem token_own (hcap : Capped p.shared) (ht : p.task i = some x)
    (hok : TokenOk p.shared i x) (hc : roomKept p (.advance i c) = true)
    (hs : relayAdvance ext c i x p.shared = some (s', x')) : Capped s' ∧ TokenOk s' i x' := by
  have capped (hne : ∀ request owner, x ≠ .handle (.registerToken request (.inserting owner))) :
      Capped s' := fun D =>
    Nat.le_trans (owned_step_le hs (fun request owner h => absurd h (hne request owner)) [])
      (hcap D)
  cases x with
  | verify r limit pc rest =>
    refine ⟨capped (fun _ _ h => by cases h), ?_⟩
    rcases verify_advance hs with ⟨pc', -, rfl⟩ | ⟨key, -, rfl⟩ | ⟨e, -, rfl⟩
    · cases rest <;> exact hok
    · cases rest with
      | registerToken request pc =>
        obtain rfl : pc = .checkingCap := hok
        trivial
      | registerDaemon call pc => cases pc <;> trivial
      | unregisterToken | push | publish | resolve => trivial
    · trivial
  | prove daemonNodeId key proof pc rest =>
    refine ⟨capped (fun _ _ h => by cases h), ?_⟩
    rcases prove_advance hs with ⟨pc', -, rfl⟩ | ⟨-, rfl⟩ | ⟨e, -, rfl⟩
    · cases rest <;> exact hok
    · cases rest with
      | registerToken request pc =>
        obtain rfl : pc = .checkingCap := hok
        trivial
      | registerDaemon | unregisterToken | push | publish | resolve => trivial
    · trivial
  | returned reply => cases hs
  | handle hd =>
    have hstep := handle_advance hs
    cases hd with
    | registerToken request pc => exact registering_token_step hcap ht hok hc hstep
    | registerDaemon call pc =>
      refine ⟨capped (fun _ _ h => by cases h), ?_⟩
      rcases registerDaemonStep_onward hstep with ⟨pc', rfl⟩ | ⟨_, _, rfl⟩ | ⟨_, _, _, _, rfl⟩ |
        ⟨reply, rfl⟩ <;> trivial
    | unregisterToken request pc =>
      refine ⟨capped (fun _ _ h => by cases h), ?_⟩
      rcases unregisterTokenStep_onward hstep with ⟨pc', rfl⟩ | ⟨reply, rfl⟩ <;> trivial
    | push request pc =>
      refine ⟨capped (fun _ _ h => by cases h), ?_⟩
      rcases pushStep_onward hstep with ⟨pc', rfl⟩ | ⟨reply, rfl⟩ <;> trivial
    | publish request pc =>
      refine ⟨capped (fun _ _ h => by cases h), ?_⟩
      rcases publishStep_onward hstep with ⟨pc', rfl⟩ | ⟨reply, rfl⟩ <;> trivial
    | resolve code pc =>
      refine ⟨capped (fun _ _ h => by cases h), ?_⟩
      rcases resolveStep_onward hstep with ⟨pc', rfl⟩ | ⟨reply, rfl⟩ <;> trivial

/-- At most one registration of a daemon is between its check and its insertion. -/
def Unrivalled (x y : RelayTask) : Prop := ∀ D, x.binding D = true → y.binding D = false

theorem binding_of_advance {D : String} (hs : relayAdvance ext c i x s = some (s', x'))
    (hok : TokenOk s i x) (h : x'.binding D = true) : x.binding D = true ∨
      ∃ request, x = .handle (.registerToken request .checkingCap) ∧ request.daemonNodeId = D := by
  cases x with
  | verify r limit pc rest =>
    rcases verify_advance hs with ⟨pc', -, rfl⟩ | ⟨key, -, rfl⟩ | ⟨e, -, rfl⟩
    · cases h
    · cases rest with
      | registerToken request pc =>
        obtain rfl : pc = .checkingCap := hok
        cases h
      | registerDaemon call pc => cases pc <;> cases h
      | unregisterToken | push | publish | resolve => cases h
    · cases h
  | prove daemonNodeId key proof pc rest =>
    rcases prove_advance hs with ⟨pc', -, rfl⟩ | ⟨-, rfl⟩ | ⟨e, -, rfl⟩
    · cases h
    · cases rest with
      | registerToken request pc =>
        obtain rfl : pc = .checkingCap := hok
        cases h
      | registerDaemon | unregisterToken | push | publish | resolve => cases h
    · cases h
  | returned reply => cases hs
  | handle hd =>
    have hstep := handle_advance hs
    cases hd with
    | registerToken request pc =>
      rcases registerTokenStep_onward hstep with ⟨pc', rfl⟩ | ⟨reply, rfl⟩
      · have hD : request.daemonNodeId = D := by
          cases pc' <;> first | exact of_decide_eq_true h | cases h
        cases pc with
        | checkingCap => exact .inr ⟨request, rfl, hD⟩
        | evicting | stamping | saving | inserting => exact .inl (decide_eq_true hD)
      · cases h
    | registerDaemon call pc =>
      rcases registerDaemonStep_onward hstep with ⟨pc', rfl⟩ | ⟨_, _, rfl⟩ | ⟨_, _, _, _, rfl⟩ |
        ⟨reply, rfl⟩ <;> cases h
    | unregisterToken request pc =>
      rcases unregisterTokenStep_onward hstep with ⟨pc', rfl⟩ | ⟨reply, rfl⟩ <;> cases h
    | push request pc =>
      rcases pushStep_onward hstep with ⟨pc', rfl⟩ | ⟨reply, rfl⟩ <;> cases h
    | publish request pc =>
      rcases publishStep_onward hstep with ⟨pc', rfl⟩ | ⟨reply, rfl⟩ <;> cases h
    | resolve code pc =>
      rcases resolveStep_onward hstep with ⟨pc', rfl⟩ | ⟨reply, rfl⟩ <;> cases h

theorem tokens_noninterference : (relayTasking ext).Noninterference
    (fun p a => roomKept p a = true ∧ p.Pairwise Unrivalled) Capped TokenOk where
  init s hs D := by
    rw [hs.inner]
    exact Nat.zero_le _
  fresh p i x _ _ hx := by cases arrival_of_arrives hx <;> trivial
  own p i c x s' x' hc hcap ht hok hs := token_own hcap ht hok hc.1 hs
  others p i c x s' x' hc hcap ht hok hs j y hji hy hok' := by
    refine hok'.of_le fun D hD => owned_step_le (i := i) hs fun request owner hx howner => ?_
    -- The task that inserts is of another daemon, since `y` is on its way for this one.
    subst hx
    have hi : (RelayTask.handle (.registerToken request (.inserting owner))).binding D = true :=
      decide_eq_true (hok.2.symm.trans howner)
    exact absurd hi (Bool.eq_false_iff.mp (hc.2 j i _ _ hji hy ht D hD))
  environment p e s' keep hc hcap hs := by
    cases e with
    | tick ms =>
      obtain ⟨-, hr⟩ := Option.ite_none_right_eq_some.mp hs
      cases hr
      exact ⟨hcap, fun _ j y _ hok => hok.of_le fun _ _ _ => Nat.le_refl _⟩
    | restart => cases hc.1

theorem unrivalled_step {q : Pool RelayState RelayTask} {a : Move RelayTask RelayChoice RelayEvent}
    (hsafe : Tasking.Safe Capped TokenOk p) (hp : p.Pairwise Unrivalled)
    (hc : roomKept p a = true) (hs : (relayTasking ext).machine.step a p = some q) :
    q.Pairwise Unrivalled := by
  refine Tasking.pairwise_step ?_ hp hs ?_ ?_
  · intro x y h D hy
    by_contra hx
    rw [Bool.not_eq_false] at hx
    exact absurd hy (Bool.eq_false_iff.mp (h D hx))
  · intro x y hx D hD
    cases arrival_of_arrives hx <;> cases hD
  · intro i c x s' x' ha ht hr j y hji hy D hD
    subst ha
    rcases binding_of_advance (i := i) hr (hsafe.2 i x ht) hD with hxD | ⟨request, rfl, rfl⟩
    · exact hp i j x y hji.symm ht hy D hxD
    · simp only [roomKept, ht, Bool.and_eq_true, decide_eq_true_eq] at hc
      exact hc.1 j y hy

end Steps

section Traces

private def tokenNamed (n : Nat) : String := "push-token-number-" ++ toString n

private def tokenRequest (daemonNodeId : String) (n : Nat) : RegisterTokenRequest :=
  ⟨daemonNodeId, .apns, tokenNamed n, "nonce-000000000-" ++ toString n, 1000⟩

private def first : String := "daemon-0123456789"

private def second : String := "daemon-abcdefghij"

/-- The first daemon may register the tokens up to 16, and the second one token 16 too. -/
private def tokenScript : Externals :=
  .playing ⟨[⟨first, keyText 'A', none, none, none⟩, ⟨second, keyText 'B', none, none, none⟩],
    (List.range 17).map (tokenRequest first) ++ [tokenRequest second 16], [], [], []⟩

private def register (n : Nat) (signer : Char) : List (Move RelayTask RelayChoice RelayEvent) :=
  [arriving tokenScript n "/v1/push/register-token" [UInt8.ofNat n] (signedBy signer)] ++
    Move.repeated 10 n RelayChoice.fine

private def registerBoth : List (Move RelayTask RelayChoice RelayEvent) :=
  [arriving tokenScript 20 "/v1/pair" [0] none] ++ Move.repeated 5 20 RelayChoice.fine ++
    [arriving tokenScript 21 "/v1/pair" [1] none] ++ Move.repeated 5 21 RelayChoice.fine

end Traces

end Shelly.Relay
