import Shelly.Mobile.PairingAttempts

namespace Shelly.Mobile.PairingScreen

variable {s s' : Shared} {i j : Nat}

theorem Undisturbed.same (hattempts : s'.attempts = s.attempts)
    (hconfirming : s'.confirming = s.confirming) (hstore : s'.store = s.store)
    (hsaved : s'.savedPairing = s.savedPairing) (hunpairs : s'.unpairs = s.unpairs)
    (hdaemon : s'.pairedDaemon = s.pairedDaemon) (hpaired : s'.paired = s.paired)
    (hrestore : s'.restoreCancelled = s.restoreCancelled) : Undisturbed s s' j := by
  constructor
  · rw [hattempts]
    exact fun _ h => h
  · rw [hstore, hsaved]
    exact fun _ _ _ => ⟨hconfirming, rfl, fun _ h => h⟩
  · unfold Shared.Unpaired
    rw [hunpairs, hdaemon, hpaired, hstore]
    exact fun hmem hun => ⟨hmem, hun, id⟩
  · rw [hrestore]
    exact id

/-- While a confirmation is in flight there is no other, and no unpairing. -/
theorem Undisturbed.beside {n : Nat} {stage : Stage} (hd : s.confirming = some ⟨i, n, stage⟩)
    (halone : s.unpairs = []) (hj : j ≠ i) (hattempts : s'.attempts = s.attempts)
    (hrestore : s'.restoreCancelled = s.restoreCancelled) : Undisturbed s s' j := by
  constructor
  · rw [hattempts]
    exact fun _ h => h
  · intro m stage' hd'
    cases hd.symm.trans hd'
    exact absurd rfl hj
  · intro hmem
    rw [halone] at hmem
    cases hmem
  · rw [hrestore]
    exact id

theorem Undisturbed.attempt (hattempts : ∀ n : Nat, s.attempts[n]? = some (some j) →
      s'.attempts[n]? = some (some j))
    (hconfirming : s'.confirming = s.confirming) (hstore : s'.store = s.store)
    (hsaved : s'.savedPairing = s.savedPairing) (hunpairs : s'.unpairs = s.unpairs)
    (hdaemon : s'.pairedDaemon = s.pairedDaemon) (hpaired : s'.paired = s.paired)
    (hrestore : s.restoreCancelled = true → s'.restoreCancelled = true) : Undisturbed s s' j := by
  refine ⟨hattempts, ?_, ?_, hrestore⟩
  · rw [hstore, hsaved]
    exact fun _ _ _ => ⟨hconfirming, rfl, fun _ h => h⟩
  · unfold Shared.Unpaired
    rw [hunpairs, hdaemon, hpaired, hstore]
    exact fun hmem hun => ⟨hmem, hun, id⟩

theorem Undisturbed.trans {s'' : Shared} (h : Undisturbed s s' j) (h' : Undisturbed s' s'' j) :
    Undisturbed s s'' j := by
  constructor
  · exact fun n hn => h'.attempts n (h.attempts n hn)
  · intro n stage hd
    obtain ⟨hconfirming, hstore, hsaved⟩ := h.confirming n stage hd
    obtain ⟨hconfirming', hstore', hsaved'⟩ := h'.confirming n stage (hconfirming.trans hd)
    exact ⟨hconfirming'.trans hconfirming, hstore'.trans hstore,
      fun r hr => hsaved' r (hsaved r hr)⟩
  · intro hmem hun
    obtain ⟨hmem', hun', hstore⟩ := h.unpairs hmem hun
    obtain ⟨hmem'', hun'', hstore'⟩ := h'.unpairs hmem' hun'
    exact ⟨hmem'', hun'', fun hnone => hstore' (hstore hnone)⟩
  · exact fun hc => h'.restore (h.restore hc)

theorem Preserved.trans {s'' : Shared} {x x' x'' : PairingJob} (h : Preserved s i x s' x')
    (h' : Preserved s' i x' s'' x'') : Preserved s i x s'' x'' where
  restoring := h'.restoring
  attempts := h'.attempts
  own := h'.own
  others j hj := (h.others j hj).trans (h'.others j hj)
  settled hs := h'.settled (h.settled hs)

theorem settled_of {x x' : PairingJob} (hx : x.settling = false)
    (h : s.Settled → s'.Settled) (hs : x.settling = true ∨ s.Settled) :
    x'.settling = true ∨ s'.Settled := by
  rcases hs with hs | hs
  · cases hx.symm.trans hs
  · exact .inr (h hs)

/-- The end of an attempt is its own job's. -/
theorem endAttempt_others {n : Nat} (hn : s.attempts[n]? = some (some i)) (hj : j ≠ i) :
    ∀ m : Nat, s.attempts[m]? = some (some j) → (s.attempts.set n none)[m]? = some (some j) := by
  intro m hm
  rw [List.getElem?_set, if_neg]
  · exact hm
  · rintro rfl
    exact hj (Option.some.inj (Option.some.inj (hm.symm.trans hn)))

/-- A job that ends or is left behind by its attempt. -/
theorem Preserved.endAttempt (hr : s.Restoring) (ha : s.Attempts) {n : Nat} {x : PairingJob}
    (hx : x.settling = false) (hn : s.attempts[n]? = some (some i)) :
    Preserved s i x (s.endAttempt n) (.pair .failed) where
  restoring := hr.frame (hr.of_attempt hn) rfl (hr.of_attempt hn) rfl id .inr rfl
  attempts := ha.endAttempt n
  own := trivial
  others _ hj := .attempt (endAttempt_others hn hj) rfl rfl rfl rfl rfl rfl id
  settled := settled_of hx fun hs => hs.frame rfl rfl rfl rfl rfl

/-- A step that only moves on. -/
theorem Preserved.stay (hr : s.Restoring) (ha : s.Attempts) {x x' : PairingJob}
    (hx : x.settling = true → x'.settling = true) (hown : Local s i x') :
    Preserved s i x s x' where
  restoring := hr
  attempts := ha
  own := hown
  others _ _ := .same rfl rfl rfl rfl rfl rfl rfl rfl
  settled := Or.imp_left hx

/-- A step that changes the client of the repository or forgets the job that unpairs. -/
theorem Preserved.client (hr : s.Restoring) (ha : s.Attempts) {x x' : PairingJob}
    (hx : x.settling = false) (hc : s.restoreCancelled = true) (client : Option Client)
    (unpairJob : Option Nat) (hown : Local s i x') :
    Preserved s i x { s with client, unpairJob } x' where
  restoring := hr.frame hc rfl hc rfl id .inr rfl
  attempts := ha.frame (fun _ h => h) rfl rfl rfl rfl id (fun _ h => h) rfl rfl
  own := local_frame hown (.same rfl rfl rfl rfl rfl rfl rfl rfl)
  others _ _ := .same rfl rfl rfl rfl rfl rfl rfl rfl
  settled := settled_of hx fun hs => hs.frame rfl rfl rfl rfl rfl

theorem Preserved.discard (hr : s.Restoring) (ha : s.Attempts) {x x' : PairingJob}
    (hx : x.settling = false) (hc : s.restoreCancelled = true) (n : Nat) (hown : Local s i x') :
    Preserved s i x (s.discardPairingClient n) x' := by
  unfold Shared.discardPairingClient
  split
  · exact .client hr ha hx hc none s.unpairJob hown
  · exact .stay hr ha (fun hsettling => by cases hx.symm.trans hsettling) hown

/-- A job that ends resets the flags of the view model. -/
theorem Preserved.reset (hr : s.Restoring) (ha : s.Attempts) {x x' : PairingJob}
    (hx : x.settling = false) (hown : ∀ s, Local s i x') (loading : Bool)
    {pendingPairing : Option Nat}
    (hpending : ∀ n, pendingPairing = some n → s.pendingPairing = some n) :
    Preserved s i x { s with loading, pendingPairing } x' where
  restoring := by
    refine hr.reset loading fun hnone => ?_
    cases hp : pendingPairing with
    | none => rfl
    | some n => cases hnone.symm.trans (hpending n hp)
  attempts := ha.frame hpending rfl rfl rfl rfl id (fun _ h => h) rfl rfl
  own := hown _
  others _ _ := .same rfl rfl rfl rfl rfl rfl rfl rfl
  settled := settled_of hx fun hs => hs.frame rfl rfl rfl rfl rfl

theorem startPairing_preserved (hr : s.Restoring) (ha : s.Attempts)
    (hpending : s.pendingPairing = none)
    (hready : s.restoreCancelled = true ∨ s.restore = .finished ∨ s.store.daemon = none)
    (job : Option Nat) :
    Preserved s i (.pair .called) (s.startPairing i) (.pair (.joining s.attempts.length job)) where
  restoring := hr.startPairing i hready
  attempts := ha.startPairing i hpending
  own := by
    change (s.attempts ++ [some i])[s.attempts.length]? = some (some i)
    rw [List.getElem?_append_right (Nat.le_refl _), Nat.sub_self]
    rfl
  others j hj := by
    refine .attempt (fun n hn => ?_) rfl rfl rfl rfl rfl rfl fun _ => rfl
    change (s.attempts ++ [some i])[n]? = some (some j)
    rw [List.getElem?_append_left (List.getElem?_eq_some_iff.mp hn).1]
    exact hn
  settled := by
    refine settled_of rfl fun hs => .inr ?_
    have hagrees : s.Agrees := by
      cases hc : s.restoreCancelled with
      | true => exact hs.resolve_left (by rw [hc]; decide)
      | false => exact (hr.untouched hc).agrees (hready.resolve_left (by rw [hc]; decide))
    exact hagrees.frame rfl rfl rfl rfl

theorem showSas_preserved (hr : s.Restoring) (ha : s.Attempts) {n : Nat}
    (hn : s.attempts[n]? = some (some i)) (hi : i ∉ s.cancelled) :
    Preserved s i (.pair (.returned n)) (s.showSas n) (.pair .done) where
  restoring := hr.frame (hr.of_attempt hn) rfl (hr.of_attempt hn) rfl id .inr rfl
  attempts := ha.showSas hn hi
  own := trivial
  others _ hj := .attempt (endAttempt_others hn hj) rfl rfl rfl rfl rfl rfl id
  settled := settled_of rfl fun hs => hs.frame rfl rfl rfl rfl rfl

theorem pair_step {c : Answer} {pc pc' : PairPc} (hr : s.Restoring) (ha : s.Attempts)
    (hl : Local s i (.pair pc)) (hready : Ready s (.pair pc))
    (h : pairStep c i s pc = some (s', pc')) : Preserved s i (.pair pc) s' (.pair pc') := by
  cases pc with
  | called =>
    simp only [pairStep] at h
    split at h
    · obtain ⟨rfl, rfl⟩ := Prod.mk.inj (Option.some.inj h)
      exact .stay hr ha id trivial
    · rename_i hfree
      obtain ⟨rfl, rfl⟩ := Prod.mk.inj (Option.some.inj h)
      rw [not_or, not_not] at hfree
      exact startPairing_preserved hr ha hfree.2 (hready.resolve_left hfree.1) _
  | joining n job =>
    simp only [pairStep] at h
    split at h
    · obtain ⟨rfl, rfl⟩ := Prod.mk.inj (Option.some.inj h)
      exact .endAttempt hr ha rfl hl
    · split at h
      · cases h
      · obtain ⟨rfl, rfl⟩ := Prod.mk.inj (Option.some.inj h)
        exact .client hr ha rfl (hr.of_attempt hl) s.client none hl
  | entering n =>
    simp only [pairStep] at h
    split at h
    · obtain ⟨rfl, rfl⟩ := Prod.mk.inj (Option.some.inj h)
      exact .endAttempt hr ha rfl hl
    · obtain ⟨rfl, rfl⟩ := Prod.mk.inj (Option.some.inj h)
      exact .stay hr ha id hl
  | replacing n =>
    obtain ⟨rfl, rfl⟩ := Prod.mk.inj (Option.some.inj h)
    exact .client hr ha rfl (hr.of_attempt hl) (some (.attempt n)) s.unpairJob hl
  | pairing n =>
    simp only [pairStep] at h
    split at h
    · obtain ⟨rfl, rfl⟩ := Prod.mk.inj (Option.some.inj h)
      have hdiscard : Preserved s i (.pair (.pairing n)) (s.discardPairingClient n)
          (.pair (.pairing n)) := .discard hr ha rfl (hr.of_attempt hl) n hl
      exact hdiscard.trans (.endAttempt hdiscard.restoring hdiscard.attempts rfl hdiscard.own)
    · obtain ⟨rfl, rfl⟩ := Prod.mk.inj (Option.some.inj h)
      exact .stay hr ha id hl
  | returned n =>
    simp only [pairStep] at h
    split at h
    · obtain ⟨rfl, rfl⟩ := Prod.mk.inj (Option.some.inj h)
      exact .endAttempt hr ha rfl hl
    · rename_i hlive
      obtain ⟨rfl, rfl⟩ := Prod.mk.inj (Option.some.inj h)
      exact showSas_preserved hr ha hl hlive
  | failed =>
    obtain ⟨rfl, rfl⟩ := Prod.mk.inj (Option.some.inj h)
    exact .reset hr ha rfl (fun _ => by trivial) false fun _ hp => hp
  | done => cases h

theorem Shared.Attempts.alone (ha : s.Attempts) {d : Confirming} (hd : s.confirming = some d) :
    s.unpairs = [] := (ha.confirming d hd).2.1

theorem Shared.Attempts.not_confirming (ha : s.Attempts) (hi : i ∈ s.unpairs) :
    s.confirming = none := by
  cases hd : s.confirming with
  | none => rfl
  | some d =>
    rw [ha.alone hd] at hi
    cases hi

theorem startConfirming_preserved (hr : s.Restoring) (ha : s.Attempts) {n : Nat}
    (hn : s.pendingPairing = some n) (hfree : s.confirming = none) (halone : s.unpairs = []) :
    Preserved s i (.confirm .called) (s.startConfirming i n) (.confirm (.entering n)) where
  restoring := by
    have hc := hr.of_attempt (ha.pending n hn).2
    refine hr.frame hc rfl hc rfl id ?_ rfl
    rintro ⟨d, hd, -⟩
    cases hfree.symm.trans hd
  attempts := ha.startConfirming i hn hfree halone
  own := rfl
  others j _ := by
    refine ⟨fun _ hm => hm, fun m stage hd => ?_, fun hmem => ?_, id⟩
    · cases hfree.symm.trans hd
    · rw [halone] at hmem
      cases hmem
  settled := settled_of rfl fun hs => hs.frame rfl rfl rfl rfl rfl

/-- A confirmation that is not answered has saved nothing. -/
theorem endConfirming_preserved (hr : s.Restoring) (ha : s.Attempts) {n : Nat} {x : PairingJob}
    (hx : x.settling = false) (hd : s.confirming = some ⟨i, n, .asked⟩) :
    Preserved s i x s.endConfirming (.confirm .failed) where
  restoring := by
    have hc := hr.of_confirming hd
    refine hr.frame hc rfl hc rfl id ?_ rfl
    rintro ⟨d, hd', hstage⟩
    cases hd.symm.trans hd'
    cases hstage
  attempts := ha.endConfirming hd
  own := trivial
  others _ hj := .beside hd (ha.alone hd) hj rfl rfl
  settled := settled_of hx fun hs => hs.frame rfl rfl rfl rfl rfl

theorem answer_preserved (hr : s.Restoring) (ha : s.Attempts) {n : Nat}
    (hd : s.confirming = some ⟨i, n, .asked⟩) (hi : i ∉ s.cancelled)
    (record : PairedDaemonRecord) :
    Preserved s i (.confirm (.confirming n)) (s.answer i n) (.confirm (.saving n record)) where
  restoring := by
    have hc := hr.of_confirming hd
    refine hr.frame hc rfl hc rfl id ?_ rfl
    rintro ⟨d, hd', hstage⟩
    cases hd.symm.trans hd'
    cases hstage
  attempts := ha.answer hd hi
  own := rfl
  others _ hj := .beside hd (ha.alone hd) hj rfl rfl
  settled := settled_of rfl fun hs => hs.frame rfl rfl rfl rfl rfl

theorem save_preserved (hr : s.Restoring) (ha : s.Attempts) {n : Nat}
    (hd : s.confirming = some ⟨i, n, .answered⟩) (record : PairedDaemonRecord) :
    Preserved s i (.confirm (.saving n record)) (s.save i n record)
      (.confirm (.replacing n record)) where
  restoring := hr.save record hd (ha.alone hd)
  attempts := ha.save record hd
  own := ⟨rfl, rfl⟩
  others _ hj := .beside hd (ha.alone hd) hj rfl rfl
  settled _ := .inl rfl

theorem replacePairing_preserved (hr : s.Restoring) (ha : s.Attempts) {n : Nat}
    {record : PairedDaemonRecord} (hl : Local s i (.confirm (.replacing n record))) :
    Preserved s i (.confirm (.replacing n record)) (s.replacePairing record)
      (.confirm (.returned n)) where
  restoring := by
    have hc := hr.of_confirming hl.1
    exact hr.frame hc rfl hc rfl (fun _ heq => by cases heq) .inr rfl
  attempts := ha.frame (fun _ h => h) rfl rfl rfl rfl id (fun _ h => h) rfl rfl
  own := ⟨hl.1, record, hl.2, rfl⟩
  others _ hj := .beside hl.1 (ha.alone hl.1) hj rfl rfl
  settled _ := .inl rfl

/-- The screen shows the record that the confirmation has saved. -/
theorem showPaired_preserved (hr : s.Restoring) (ha : s.Attempts) {n : Nat}
    (hl : Local s i (.confirm (.returned n))) :
    Preserved s i (.confirm (.returned n)) (s.showPaired n) (.confirm .loading) := by
  obtain ⟨hd, record, hstore, hsaved⟩ := hl
  have hc := hr.of_confirming hd
  refine ⟨?_, ha.showPaired hd, trivial, fun _ hj => .beside hd (ha.alone hd) hj rfl rfl, ?_⟩
  · refine hr.frame hc rfl hc rfl id (fun _ => .inl ?_) rfl
    change s.savedPairing ≠ none
    rw [hsaved]
    exact fun heq => by cases heq
  · intro _
    refine .inr (.inr ⟨rfl, ?_, ?_⟩)
    · change true = s.savedPairing.isSome
      rw [hsaved]
      rfl
    · change s.savedPairing.map PairedDaemonRecord.readBack = s.store.load
      rw [hsaved, PairingStore.load, hstore]

theorem confirm_step {c : Answer} {pc pc' : ConfirmPc} (hr : s.Restoring) (ha : s.Attempts)
    (hl : Local s i (.confirm pc)) (hready : Ready s (.confirm pc))
    (h : confirmStep c i s pc = some (s', pc')) :
    Preserved s i (.confirm pc) s' (.confirm pc') := by
  cases pc with
  | called =>
    simp only [confirmStep] at h
    split at h
    · obtain ⟨rfl, rfl⟩ := Prod.mk.inj (Option.some.inj h)
      exact .stay hr ha id trivial
    · rename_i n hn
      split at h
      · obtain ⟨rfl, rfl⟩ := Prod.mk.inj (Option.some.inj h)
        exact .stay hr ha id trivial
      · rename_i hidle
        obtain ⟨rfl, rfl⟩ := Prod.mk.inj (Option.some.inj h)
        have hpending : s.pendingPairing ≠ none := by
          rw [hn]
          exact fun heq => by cases heq
        obtain ⟨hfree, halone⟩ := (hready.resolve_left hpending).resolve_left hidle
        exact startConfirming_preserved hr ha hn hfree halone
  | entering n =>
    simp only [confirmStep] at h
    split at h
    · obtain ⟨rfl, rfl⟩ := Prod.mk.inj (Option.some.inj h)
      exact endConfirming_preserved hr ha rfl hl
    · obtain ⟨rfl, rfl⟩ := Prod.mk.inj (Option.some.inj h)
      exact .stay hr ha id hl
  | confirming n =>
    have hdiscard : Preserved s i (.confirm (.confirming n)) (s.discardPairingClient n)
        (.confirm (.confirming n)) := .discard hr ha rfl (hr.of_confirming hl) n hl
    have hend := hdiscard.trans
      (endConfirming_preserved hdiscard.restoring hdiscard.attempts rfl hdiscard.own)
    simp only [confirmStep] at h
    split at h
    · obtain ⟨rfl, rfl⟩ := Prod.mk.inj (Option.some.inj h)
      exact hend
    · split at h
      · obtain ⟨rfl, rfl⟩ := Prod.mk.inj (Option.some.inj h)
        exact hend
      · rename_i hlive
        obtain ⟨rfl, rfl⟩ := Prod.mk.inj (Option.some.inj h)
        exact answer_preserved hr ha hl hlive _
  | saving n record =>
    obtain ⟨rfl, rfl⟩ := Prod.mk.inj (Option.some.inj h)
    exact save_preserved hr ha hl record
  | replacing n record =>
    obtain ⟨rfl, rfl⟩ := Prod.mk.inj (Option.some.inj h)
    exact replacePairing_preserved hr ha hl
  | returned n =>
    have hlive : ¬ (i ∈ s.cancelled ∨ s.savedPairing = none) := by
      obtain ⟨hd, record, -, hsaved⟩ := hl
      obtain ⟨-, -, -, -, hkept⟩ := ha.confirming _ hd
      rintro (hi | hnone)
      · exact hkept (fun heq => by cases heq) hi
      · cases hsaved.symm.trans hnone
    simp only [confirmStep, if_neg hlive] at h
    obtain ⟨rfl, rfl⟩ := Prod.mk.inj (Option.some.inj h)
    exact showPaired_preserved hr ha hl
  | loading =>
    obtain ⟨rfl, rfl⟩ := Prod.mk.inj (Option.some.inj h)
    refine .reset hr ha rfl (fun _ => by trivial) false fun n hn => ?_
    split at hn
    · cases hn
    · exact hn
  | failed =>
    obtain ⟨rfl, rfl⟩ := Prod.mk.inj (Option.some.inj h)
    exact .reset hr ha rfl (fun _ => by trivial) false fun n hn => by cases hn
  | done => cases h

theorem cancelPairing_preserved (hr : s.Restoring) (ha : s.Attempts)
    (hready : Ready s (.cancel .called)) :
    Preserved s i (.cancel .called) (s.cancelPairing i)
      (.cancel (s.pendingPairing.elim .done .entering)) where
  restoring := hr.cancelPairing i
  attempts := ha.cancelPairing i hready
  own := by
    cases hn : s.pendingPairing with
    | none => trivial
    | some n => exact hr.of_attempt (ha.pending n hn).2
  others _ _ := .same rfl rfl rfl rfl rfl rfl rfl rfl
  settled := settled_of rfl fun hs => hs.frame rfl rfl rfl rfl rfl

theorem cancel_step {pc pc' : CancelPc} (hr : s.Restoring) (ha : s.Attempts)
    (hl : Local s i (.cancel pc)) (hready : Ready s (.cancel pc))
    (h : cancelStep i s pc = some (s', pc')) : Preserved s i (.cancel pc) s' (.cancel pc') := by
  cases pc with
  | called =>
    obtain ⟨rfl, rfl⟩ := Prod.mk.inj (Option.some.inj h)
    exact cancelPairing_preserved hr ha hready
  | entering n =>
    obtain ⟨rfl, rfl⟩ := Prod.mk.inj (Option.some.inj h)
    refine .stay hr ha id ?_
    split
    · trivial
    · exact hl
  | discarding n =>
    obtain ⟨rfl, rfl⟩ := Prod.mk.inj (Option.some.inj h)
    exact .discard hr ha rfl hl n (by trivial)
  | done => cases h

theorem startUnpairing_preserved (ha : s.Attempts) (hready : Ready s (.unpair .called)) :
    Preserved s i (.unpair .called) (s.startUnpairing i) (.unpair .cleaning) := by
  obtain ⟨hfree, hholds, hloading⟩ := hready
  refine ⟨Shared.restoring_startUnpairing i hholds hloading, ?_, ?_, fun j _ => ?_,
    fun _ => .inl rfl⟩
  · have hno {d : Confirming} (hd : s.confirming = some d) : False := by
      cases hfree.symm.trans hd
    exact ⟨ha.pending, ha.attempt, ha.running, fun d hd => (hno hd).elim, ha.saved, ha.cancelled⟩
  · exact ⟨List.mem_cons_self, rfl, rfl⟩
  · refine ⟨fun _ hm => hm, fun n stage hd => ?_, fun hmem _ => ?_, fun _ => rfl⟩
    · cases hfree.symm.trans hd
    · exact ⟨List.mem_cons_of_mem i hmem, ⟨rfl, rfl⟩, id⟩

theorem clearStore_preserved (hr : s.Restoring) (ha : s.Attempts)
    (hl : Local s i (.unpair .clearing)) :
    Preserved s i (.unpair .clearing) s.clearStore (.unpair .dropping) := by
  obtain ⟨hi, hunpaired⟩ := hl
  have hfree := ha.not_confirming hi
  refine ⟨hr.clearStore hi, ?_, ⟨hi, hunpaired, rfl⟩, fun j _ => ?_, fun _ => .inl rfl⟩
  · exact ha.frame (fun _ h => h) rfl rfl rfl rfl id (fun n hn => by cases hn) rfl rfl
  · refine ⟨fun _ hm => hm, fun n stage hd => ?_, fun hmem hun => ⟨hmem, hun, fun _ => rfl⟩, id⟩
    cases hfree.symm.trans hd

theorem dropPairing_preserved (hr : s.Restoring) (ha : s.Attempts)
    (hl : Local s i (.unpair .dropping)) :
    Preserved s i (.unpair .dropping) (s.dropPairing i) (.unpair .done) := by
  obtain ⟨hi, hunpaired, hstore⟩ := hl
  have hfree := ha.not_confirming hi
  refine ⟨hr.dropPairing hi hstore, ?_, trivial, fun j hj => ?_, fun _ => .inr (.inr ?_)⟩
  · refine ha.frame (fun _ h => h) rfl rfl rfl rfl (fun hnil => ?_) (fun _ h => h) rfl rfl
    rw [hnil] at hi
    cases hi
  · refine ⟨fun _ hm => hm, fun n stage hd => ?_, fun hmem hun => ?_, id⟩
    · cases hfree.symm.trans hd
    · exact ⟨List.mem_filter.mpr ⟨hmem, decide_eq_true hj⟩, hun, id⟩
  · exact Shared.Unpaired.agrees (s := s.dropPairing i) hunpaired rfl hstore

theorem unpair_step {pc pc' : UnpairPc} (hr : s.Restoring) (ha : s.Attempts)
    (hl : Local s i (.unpair pc)) (hready : Ready s (.unpair pc))
    (h : unpairStep i s pc = some (s', pc')) : Preserved s i (.unpair pc) s' (.unpair pc') := by
  cases pc with
  | called =>
    obtain ⟨rfl, rfl⟩ := Prod.mk.inj (Option.some.inj h)
    exact startUnpairing_preserved ha hready
  | cleaning =>
    obtain ⟨rfl, rfl⟩ := Prod.mk.inj (Option.some.inj h)
    exact .stay hr ha id hl
  | clearing =>
    obtain ⟨rfl, rfl⟩ := Prod.mk.inj (Option.some.inj h)
    exact clearStore_preserved hr ha hl
  | dropping =>
    obtain ⟨rfl, rfl⟩ := Prod.mk.inj (Option.some.inj h)
    exact dropPairing_preserved hr ha hl
  | done => cases h

theorem job_step {c : Answer} {x x' : PairingJob} (hr : s.Restoring) (ha : s.Attempts)
    (hl : Local s i x) (hready : Ready s x) (h : advance c i x s = some (s', x')) :
    Preserved s i x s' x' := by
  cases x with
  | pair pc =>
    obtain ⟨⟨t, pc'⟩, hstep, heq⟩ := Option.map_eq_some_iff.mp h
    obtain ⟨rfl, rfl⟩ := Prod.mk.inj heq
    exact pair_step hr ha hl hready hstep
  | confirm pc =>
    obtain ⟨⟨t, pc'⟩, hstep, heq⟩ := Option.map_eq_some_iff.mp h
    obtain ⟨rfl, rfl⟩ := Prod.mk.inj heq
    exact confirm_step hr ha hl hready hstep
  | cancel pc =>
    obtain ⟨⟨t, pc'⟩, hstep, heq⟩ := Option.map_eq_some_iff.mp h
    obtain ⟨rfl, rfl⟩ := Prod.mk.inj heq
    exact cancel_step hr ha hl hready hstep
  | unpair pc =>
    obtain ⟨⟨t, pc'⟩, hstep, heq⟩ := Option.map_eq_some_iff.mp h
    obtain ⟨rfl, rfl⟩ := Prod.mk.inj heq
    exact unpair_step hr ha hl hready hstep

/-- A restore that nothing has cancelled takes its next step. -/
theorem restore_untouched (hu : s.Untouched) (hc : s.restoreCancelled = false)
    (h : s.restoreStep = some s') : s'.Untouched ∧ s'.restoreCancelled = false := by
  have hphase := hu.phase
  unfold Shared.restoreStep at h
  cases hpc : s.restore with
  | retrying =>
    rw [hpc] at hphase h
    obtain rfl := Option.some.inj h
    refine ⟨⟨hu.pending, hu.confirming, hu.unpairs, hu.attempts, hu.generation, ?_⟩, hc⟩
    simp only [hc, Bool.false_eq_true, if_false]
    exact hphase
  | loading =>
    rw [hpc] at hphase h
    obtain rfl := Option.some.inj h
    exact ⟨⟨hu.pending, hu.confirming, hu.unpairs, hu.attempts, hu.generation,
      hphase.1, hphase.2.1, hphase.2.2, rfl⟩, hc⟩
  | restoring restored =>
    rw [hpc] at hphase h
    obtain ⟨hsaved, hclient, hunpaired, hrestored⟩ := hphase
    simp only [hsaved, hclient, and_self, if_true] at h
    obtain rfl := Option.some.inj h
    exact ⟨⟨hu.pending, hu.confirming, hu.unpairs, hu.attempts, hu.generation,
      hrestored, hunpaired⟩, hc⟩
  | reading =>
    rw [hpc] at hphase h
    obtain rfl := Option.some.inj h
    exact ⟨⟨hu.pending, hu.confirming, hu.unpairs, hu.attempts, hu.generation,
      hphase.1, hphase.2, rfl⟩, hc⟩
  | returned paired =>
    rw [hpc] at hphase h
    obtain ⟨hsaved, -, hpaired⟩ := hphase
    have hkept : ¬ (s.restoreCancelled = true ∨ s.restoreGeneration ≠ 0) := by
      simp [hc, hu.generation]
    simp only [if_neg hkept] at h
    obtain rfl := Option.some.inj h
    refine ⟨⟨hu.pending, hu.confirming, hu.unpairs, hu.attempts, hu.generation, rfl, hpaired, ?_⟩,
      hc⟩
    change s.savedPairing.map PairedDaemonRecord.readBack = s.store.load
    rw [hsaved]
    exact s.store.load_readBack
  | finished =>
    rw [hpc] at h
    cases h

/-- A cancelled restore may still give the repository a pairing, but then it has one coming. -/
theorem restore_late (hlate : s.Late s.restore) (hc : s.restoreCancelled = true)
    (h : s.restoreStep = some s') : s'.Late s'.restore ∧ s'.restoreCancelled = true ∧
      (∀ j, Undisturbed s s' j) ∧ (s.Agrees → s'.Agrees) := by
  have hsame {t : Shared} (hattempts : t.attempts = s.attempts)
      (hconfirming : t.confirming = s.confirming) (hstore : t.store = s.store)
      (hsaved : t.savedPairing = s.savedPairing) (hunpairs : t.unpairs = s.unpairs)
      (hdaemon : t.pairedDaemon = s.pairedDaemon) (hpaired : t.paired = s.paired)
      (hrestore : t.restoreCancelled = s.restoreCancelled) :
      (∀ j, Undisturbed s t j) ∧ (s.Agrees → t.Agrees) :=
    ⟨fun _ => .same hattempts hconfirming hstore hsaved hunpairs hdaemon hpaired hrestore,
      fun hag => hag.frame hdaemon hpaired hsaved hstore⟩
  unfold Shared.restoreStep at h
  cases hpc : s.restore with
  | retrying =>
    rw [hpc] at h
    simp only [if_pos hc] at h
    obtain rfl := Option.some.inj h
    exact ⟨trivial, hc, hsame rfl rfl rfl rfl rfl rfl rfl rfl⟩
  | loading =>
    rw [hpc] at hlate h
    obtain rfl := Option.some.inj h
    refine ⟨⟨?_, fun hne => ?_⟩, hc, hsame rfl rfl rfl rfl rfl rfl rfl rfl⟩
    · by_cases hnone : s.store.daemon = none
      · refine .inl ?_
        rw [PairingStore.load, hnone]
        rfl
      · exact .inr ((hlate.1 hnone).imp_right fun hsaved => ⟨rfl, hsaved⟩)
    · rw [PairingStore.load, hlate.2 hne]
      rfl
  | restoring restored =>
    rw [hpc] at hlate h
    simp only at h
    split at h
    · rename_i haccepted
      obtain rfl := Option.some.inj h
      refine ⟨trivial, hc, fun j => ?_, fun hag => ?_⟩
      · refine ⟨fun _ hm => hm, fun n stage hd => ⟨rfl, rfl, fun r hr => ?_⟩,
          fun hmem hun => ⟨hmem, hun, id⟩, id⟩
        cases haccepted.2.symm.trans hr
      · -- The store is empty as the repository is, so nothing was read from it.
        have hload : s.store.load = none := by
          rw [← hag.stored, haccepted.2]
          rfl
        have hnone : restored = none := by
          rcases hlate.1 with hold | hold | ⟨hold, -⟩
          · exact hold
          · exact absurd haccepted.2 hold
          · exact hold.symm.trans hload
        refine hag.frame rfl rfl ?_ rfl
        exact hnone.trans haccepted.2.symm
    · obtain rfl := Option.some.inj h
      exact ⟨trivial, hc, hsame rfl rfl rfl rfl rfl rfl rfl rfl⟩
  | reading =>
    rw [hpc] at h
    obtain rfl := Option.some.inj h
    exact ⟨trivial, hc, hsame rfl rfl rfl rfl rfl rfl rfl rfl⟩
  | returned paired =>
    rw [hpc] at h
    simp only [if_pos (Or.inl hc)] at h
    obtain rfl := Option.some.inj h
    exact ⟨trivial, hc, hsame rfl rfl rfl rfl rfl rfl rfl rfl⟩
  | finished =>
    rw [hpc] at h
    cases h

theorem restore_attempts (ha : s.Attempts) (h : s.restoreStep = some s') : s'.Attempts := by
  have hframe {t : Shared} (hpending : t.pendingPairing = s.pendingPairing)
      (hattempts : t.attempts = s.attempts) (hattempt : t.attempt = s.attempt)
      (hjob : t.pairJob = s.pairJob) (hconfirming : t.confirming = s.confirming)
      (hunpairs : t.unpairs = s.unpairs) (hsaved : t.savedBy = s.savedBy)
      (hcancelled : t.cancelled = s.cancelled)
      (hcancelledAttempts : t.cancelledAttempts = s.cancelledAttempts) : t.Attempts :=
    ha.frame (fun _ hn => hpending ▸ hn) hattempts hattempt hjob hconfirming
      (fun hnil => hunpairs.trans hnil) (fun _ hn => hsaved ▸ hn) hcancelled hcancelledAttempts
  unfold Shared.restoreStep at h
  split at h
  · obtain rfl := Option.some.inj h
    exact hframe rfl rfl rfl rfl rfl rfl rfl rfl rfl
  · obtain rfl := Option.some.inj h
    exact hframe rfl rfl rfl rfl rfl rfl rfl rfl rfl
  · split at h
    all_goals
      obtain rfl := Option.some.inj h
      exact hframe rfl rfl rfl rfl rfl rfl rfl rfl rfl
  · obtain rfl := Option.some.inj h
    exact hframe rfl rfl rfl rfl rfl rfl rfl rfl rfl
  · split at h
    all_goals
      obtain rfl := Option.some.inj h
      exact hframe rfl rfl rfl rfl rfl rfl rfl rfl rfl
  · cases h

theorem restore_step (hr : s.Restoring) (h : s.restoreStep = some s') :
    s'.Restoring ∧ (∀ j, Undisturbed s s' j) ∧ (s.Settled → s'.Settled) := by
  cases hc : s.restoreCancelled with
  | false =>
    have hu := hr.untouched hc
    obtain ⟨hu', hc'⟩ := restore_untouched hu hc h
    refine ⟨⟨fun _ => hu', fun hyes => ?_⟩, fun j => ?_, fun _ => .inl hc'⟩
    · cases hc'.symm.trans hyes
    · refine ⟨fun n hn => ?_, fun n stage hd => ?_, fun hmem => ?_, fun hyes => ?_⟩
      · rw [hu.attempts] at hn
        cases hn
      · cases hu.confirming.symm.trans hd
      · rw [hu.unpairs] at hmem
        cases hmem
      · cases hc.symm.trans hyes
  | true =>
    obtain ⟨hlate, hc', hothers, hagrees⟩ := restore_late (hr.late hc) hc h
    refine ⟨⟨fun hno => ?_, fun _ => hlate⟩, hothers, fun hs => .inr ?_⟩
    · cases hc'.symm.trans hno
    · exact hagrees (hs.resolve_left (by rw [hc]; decide))

theorem setLoading_step (hr : s.Restoring) (ha : s.Attempts) (loading : Bool) :
    ({ s with loading } : Shared).Restoring ∧ ({ s with loading } : Shared).Attempts :=
  ⟨hr.reset loading id, ha.frame (fun _ h => h) rfl rfl rfl rfl id (fun _ h => h) rfl rfl⟩

theorem local_fresh {x : PairingJob} (h : tasking.start x = true) : Local s i x := by
  cases x with
  | pair pc =>
    cases pc with
    | called | failed | done => trivial
    | joining n _ | entering n | replacing n | pairing n | returned n => cases h
  | confirm pc =>
    cases pc with
    | called | loading | failed | done => trivial
    | entering n | confirming n | saving n _ | replacing n _ | returned n => cases h
  | cancel pc =>
    cases pc with
    | called | done => trivial
    | entering n | discarding n => cases h
  | unpair pc =>
    cases pc with
    | called | done => trivial
    | cleaning | clearing | dropping => cases h

theorem initial_restoring (store : PairingStore) : (Shared.initial store).Restoring where
  untouched _ := ⟨rfl, rfl, rfl, rfl, rfl, rfl, rfl, rfl, rfl⟩
  late h := by cases h

theorem initial_attempts (store : PairingStore) : (Shared.initial store).Attempts where
  pending _ h := by cases h
  attempt _ h := by cases h
  running _ _ h := by cases h
  confirming _ h := by cases h
  saved _ h := by cases h
  cancelled _ h := by cases h

theorem noninterference :
    tasking.Noninterference Orderly (fun s => s.Restoring ∧ s.Attempts) Local where
  init s := by
    rintro ⟨store, rfl⟩
    exact ⟨initial_restoring store, initial_attempts store⟩
  fresh p i x _ _ hx := local_fresh hx
  own p i c x s' x' hc hg hx hl h := by
    have hstep := job_step hg.1 hg.2 hl (hc x hx) h
    exact ⟨⟨hstep.restoring, hstep.attempts⟩, hstep.own⟩
  others p i c x s' x' hc hg hx hl h j y hj _ hly := by
    have hstep := job_step hg.1 hg.2 hl (hc x hx) h
    exact local_frame hly (hstep.others j hj)
  environment p e s' keep _ hg h := by
    cases e with
    | restore =>
      obtain ⟨t, hrestore, heq⟩ := Option.map_eq_some_iff.mp h
      obtain ⟨rfl, rfl⟩ := Prod.mk.inj heq
      obtain ⟨hrestoring, hothers, -⟩ := restore_step hg.1 hrestore
      exact ⟨⟨hrestoring, restore_attempts hg.2 hrestore⟩,
        fun _ j y _ hly => local_frame hly (hothers j)⟩
    | setLoading loading =>
      obtain ⟨rfl, rfl⟩ := Prod.mk.inj (Option.some.inj h)
      exact ⟨setLoading_step hg.1 hg.2 loading,
        fun _ j y _ hly => local_frame hly (.same rfl rfl rfl rfl rfl rfl rfl rfl)⟩

/-- The screen and the store agree, or a job is on its way to see to it. -/
def Settling (p : Pool Shared PairingJob) : Prop :=
  p.Covered Shared.Settled fun _ x => x.settling = true

theorem settling_init {p : Pool Shared PairingJob} (h : tasking.machine.init p) : Settling p := by
  obtain ⟨⟨store, hstore⟩, -⟩ := h
  refine .inl (.inl ?_)
  rw [hstore]
  rfl

theorem settling_step {p q : Pool Shared PairingJob} {a : Move PairingJob Answer Event}
    (hsafe : Tasking.Safe (fun s => s.Restoring ∧ s.Attempts) Local p) (hp : Settling p)
    (hc : Orderly p a) (h : tasking.machine.step a p = some q) : Settling q := by
  obtain ⟨⟨hr, ha⟩, hlocal⟩ := hsafe
  refine Tasking.covered_step hp h ?_ ?_ ?_ ?_
  · rintro i c x s' x' rfl hx hadvance hold
    have hstep := job_step hr ha (hlocal i x hx) (hc x hx) hadvance
    have hown (hs : x.settling = true ∨ p.shared.Settled) :
        s'.Settled ∨ x'.settling = true ∨
          ∃ j y, j ≠ i ∧ p.task j = some y ∧ y.settling = true := by
      rcases hstep.settled hs with hsettling | hsettled
      · exact .inr (.inl hsettling)
      · exact .inl hsettled
    rcases hold with hsettled | hsettling | hother
    · exact hown (.inr hsettled)
    · exact hown (.inl hsettling)
    · exact .inr (.inr hother)
  · rintro i x rfl -
    -- No job is ever abandoned.
    cases Tasking.stepped_of_step h with
    | drop _ y _ hcancellable => cases hcancellable
  · intro e s' _ henv
    refine ⟨?_, fun _ hsettling => hsettling⟩
    cases e with
    | restore =>
      obtain ⟨t, hrestore, heq⟩ := Option.map_eq_some_iff.mp henv
      obtain ⟨rfl, -⟩ := Prod.mk.inj heq
      exact (restore_step hr hrestore).2.2
    | setLoading loading =>
      obtain ⟨rfl, -⟩ := Prod.mk.inj (Option.some.inj henv)
      exact fun hsettled => hsettled.frame rfl rfl rfl rfl rfl
  · intro e s' _ henv
    cases e with
    | restore =>
      obtain ⟨t, -, heq⟩ := Option.map_eq_some_iff.mp henv
      cases heq
    | setLoading loading => cases henv

theorem idle_of_settling {x : PairingJob} (h : x.settling = true) : x.idle = false := by
  cases x with
  | pair pc => cases h
  | confirm pc => cases pc <;> first | rfl | cases h
  | cancel pc => cases h
  | unpair pc => cases pc <;> first | rfl | cases h

/-- In a run that is orderly, the screen and the store are consistent. -/
theorem pairing_consistent {p : Pool Shared PairingJob}
    (h : tasking.machine.ReachableWhen Orderly p) : Consistent p := by
  obtain ⟨⟨⟨hr, ha⟩, -⟩, hcovered⟩ := h.invariant
    (I := fun p => Tasking.Safe (fun s => s.Restoring ∧ s.Attempts) Local p ∧ Settling p)
    (fun p hp => ⟨noninterference.safe_init hp, settling_init hp⟩)
    fun p a q hp hc hs => ⟨noninterference.step hp.1 hc hs, settling_step hp.1 hp.2 hc hs⟩
  constructor
  · intro hidle hfinished
    rcases hcovered with hsettled | ⟨i, x, hx, hsettling⟩
    · rcases hsettled with hkept | hagrees
      · exact (hr.untouched hkept).agrees (.inl hfinished)
      · exact hagrees
    · cases (idle_of_settling hsettling).symm.trans (hidle i x hx)
  · exact fun n hn => (ha.saved n hn).2.1

def laptop : PairedDaemonRecord where
  daemonNodeId := "laptop"
  relayUrl := none
  addrs := ["10.0.0.2:4433"]
  deviceNodeId := "phone"
  deviceSecretKey := [7]
  pairedAtMillis := 1
  daemonVersion := "1.0"
  hostName := "host"
  protocolVersion := 1

/-- The app finds nothing to restore, and the first attempt reaches the screen. -/
def pairs : List (Move PairingJob Answer Event) :=
  List.flatten [List.replicate 5 (.environment .restore), [.spawn 0 (.pair .called)],
    Move.repeated 6 0 (some laptop)]

theorem initial_init : tasking.machine.init (Pool.empty (Shared.initial ⟨none, none⟩)) :=
  Tasking.init_empty ⟨_, rfl⟩

/-- A pairing that is confirmed. -/
theorem pairing_consistent_confirmed : ∃ p, tasking.machine.ReachableWhen Orderly p ∧
    p.shared.store.daemon = some laptop ∧ p.shared.paired = true ∧ Consistent p := by
  obtain ⟨p, hr, hdaemon, hpaired⟩ := tasking.machine.exists_reachable_of_exec Orderly
    (fun p => p.shared.store.daemon = some laptop ∧ p.shared.paired = true)
    (List.flatten [pairs, .spawn 1 (.confirm .called) :: Move.repeated 7 1 (some laptop)])
    initial_init (by decide)
  exact ⟨p, hr, hdaemon, hpaired, pairing_consistent hr⟩

/-- The pairing is cancelled when its record is in the store and the screen has not shown it: the
record stays, and the screen shows no pairing. -/
theorem cancelled_pairing_stays : ∃ p, tasking.machine.Reachable p ∧
    (∀ i x, p.task i = some x → x.idle = true) ∧ p.shared.restore = .finished ∧
    ¬ p.shared.Agrees ∧ ∃ n ∈ p.shared.savedBy, n ∈ p.shared.cancelledAttempts := by
  obtain ⟨p, hr, hidle, hfinished, hpaired, hsaved, hcancelled⟩ :=
    tasking.machine.exists_reachable_of_exec Machine.Any
      (fun p => p.Lacks (fun _ x => !x.idle) ∧ p.shared.restore = .finished ∧
        p.shared.paired = false ∧ p.shared.savedPairing = some laptop ∧
        ∃ n ∈ p.shared.savedBy, n ∈ p.shared.cancelledAttempts)
      (List.flatten [pairs, .spawn 1 (.confirm .called) :: Move.repeated 5 1 (some laptop),
        .spawn 2 (.cancel .called) :: Move.repeated 3 2 none, Move.repeated 2 1 none])
      initial_init (by decide)
  refine ⟨p, hr, fun i x hx => ?_, hfinished, fun hagrees => ?_, hcancelled⟩
  · have hbusy : (!x.idle) = false := hidle i x hx
    simpa using hbusy
  · have hshown := hagrees.paired
    rw [hpaired, hsaved] at hshown
    cases hshown

end Shelly.Mobile.PairingScreen
