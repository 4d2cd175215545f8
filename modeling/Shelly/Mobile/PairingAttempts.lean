import Shelly.Mobile.PairingScreen

namespace Shelly.Mobile.PairingScreen

/-- A record is on its way from the store to the screen, or out of both. -/
def PairingJob.settling : PairingJob → Bool
  | .confirm (.replacing _ _) | .confirm (.returned _) => true
  | .unpair .cleaning | .unpair .clearing | .unpair .dropping => true
  | _ => false

namespace Shared

variable (s : Shared)

def Unpaired : Prop := s.pairedDaemon = none ∧ s.paired = false

/-- The confirmation in flight has saved its record. -/
def Saved : Prop := ∃ d, s.confirming = some d ∧ d.stage = .saved

/-- What a restore has done that nothing has cancelled. -/
def Phase : RestorePc → Prop
  | .retrying | .loading => s.savedPairing = none ∧ s.client = none ∧ s.Unpaired
  | .restoring restored =>
    s.savedPairing = none ∧ s.client = none ∧ s.Unpaired ∧ restored = s.store.load
  | .reading => s.savedPairing = s.store.load ∧ s.Unpaired
  | .returned paired => s.savedPairing = s.store.load ∧ s.Unpaired ∧ paired = s.savedPairing.isSome
  | .finished => s.Agrees

/-- Neither a pairing nor an unpairing was started. -/
structure Untouched : Prop where
  pending : s.pendingPairing = none
  confirming : s.confirming = none
  unpairs : s.unpairs = []
  attempts : s.attempts = []
  generation : s.restoreGeneration = 0
  phase : s.Phase s.restore

/-- A cancelled restore offers the repository nothing that it does not have, unless it is the record
of the confirmation in flight. -/
def Late : RestorePc → Prop
  | .loading => (s.store.daemon ≠ none → s.savedPairing ≠ none ∨ s.Saved) ∧
      (s.unpairs ≠ [] → s.store.daemon = none)
  | .restoring restored =>
      (restored = none ∨ s.savedPairing ≠ none ∨ s.store.load = restored ∧ s.Saved) ∧
      (s.unpairs ≠ [] → restored = none)
  | _ => True

structure Restoring : Prop where
  untouched : s.restoreCancelled = false → s.Untouched
  late : s.restoreCancelled = true → s.Late s.restore

end Shared

/-- The confirmation in flight is of an attempt that has paired, no unpairing is in flight, and it
is cancelled when its attempt is, before it is answered. -/
def Confirming.Fits (d : Confirming) (s : Shared) : Prop :=
  s.attempts[d.attempt]? = some none ∧ s.unpairs = [] ∧
    (s.attempt = some d.attempt → s.pairJob = some d.job) ∧
    (d.attempt ∈ s.cancelledAttempts → d.job ∈ s.cancelled) ∧
    (d.stage ≠ .asked → d.job ∉ s.cancelled)

/-- The attempt that the screen is at is the one whose job `cancelPairing` cancels, and no cancelled
attempt has its record in the store. -/
structure Shared.Attempts (s : Shared) : Prop where
  pending : ∀ n, s.pendingPairing = some n → s.attempt = some n ∧ s.attempts[n]? = some none
  attempt : ∀ n, s.attempt = some n → n < s.attempts.length
  running : ∀ n i, s.attempts[n]? = some (some i) →
    (s.attempt = some n → s.pairJob = some i) ∧ (n ∈ s.cancelledAttempts → i ∈ s.cancelled)
  confirming : ∀ d, s.confirming = some d → d.Fits s
  saved : ∀ n, s.savedBy = some n → s.attempts[n]? = some none ∧ n ∉ s.cancelledAttempts ∧
    (s.attempt = some n → ∃ d, s.confirming = some d ∧ d.attempt = n ∧ d.stage ≠ .asked)
  cancelled : ∀ n ∈ s.cancelledAttempts, n < s.attempts.length ∧ s.attempt ≠ some n

def Local (s : Shared) (i : Nat) : PairingJob → Prop
  | .pair (.joining n _) | .pair (.entering n) | .pair (.replacing n) | .pair (.pairing n)
  | .pair (.returned n) => s.attempts[n]? = some (some i)
  | .confirm (.entering n) | .confirm (.confirming n) => s.confirming = some ⟨i, n, .asked⟩
  | .confirm (.saving n _) => s.confirming = some ⟨i, n, .answered⟩
  | .confirm (.replacing n record) =>
    s.confirming = some ⟨i, n, .saved⟩ ∧ s.store.daemon = some record
  | .confirm (.returned n) => s.confirming = some ⟨i, n, .saved⟩ ∧
      ∃ record, s.store.daemon = some record ∧ s.savedPairing = some record
  | .cancel (.entering _) | .cancel (.discarding _) => s.restoreCancelled = true
  | .unpair .cleaning | .unpair .clearing => i ∈ s.unpairs ∧ s.Unpaired
  | .unpair .dropping => i ∈ s.unpairs ∧ s.Unpaired ∧ s.store.daemon = none
  | _ => True

/-- What a step leaves to another job. -/
structure Undisturbed (s s' : Shared) (j : Nat) : Prop where
  attempts : ∀ n : Nat, s.attempts[n]? = some (some j) → s'.attempts[n]? = some (some j)
  confirming : ∀ n stage, s.confirming = some ⟨j, n, stage⟩ → s'.confirming = s.confirming ∧
    s'.store.daemon = s.store.daemon ∧ ∀ r, s.savedPairing = some r → s'.savedPairing = some r
  unpairs : j ∈ s.unpairs → s.Unpaired → j ∈ s'.unpairs ∧ s'.Unpaired ∧
    (s.store.daemon = none → s'.store.daemon = none)
  restore : s.restoreCancelled = true → s'.restoreCancelled = true

theorem local_frame {s s' : Shared} {j : Nat} {y : PairingJob} (h : Local s j y)
    (hu : Undisturbed s s' j) : Local s' j y := by
  cases y with
  | pair pc =>
    cases pc with
    | joining n _ | entering n | replacing n | pairing n | returned n => exact hu.attempts n h
    | called | failed | done => trivial
  | confirm pc =>
    cases pc with
    | entering n | confirming n | saving n _ => exact (hu.confirming n _ h).1.trans h
    | replacing n record =>
      obtain ⟨hconfirming, hstore, -⟩ := hu.confirming n _ h.1
      exact ⟨hconfirming.trans h.1, hstore.trans h.2⟩
    | returned n =>
      obtain ⟨hc, record, hs, hp⟩ := h
      obtain ⟨hconfirming, hstore, hsaved⟩ := hu.confirming n _ hc
      exact ⟨hconfirming.trans hc, record, hstore.trans hs, hsaved record hp⟩
    | called | loading | failed | done => trivial
  | cancel pc =>
    cases pc with
    | entering n | discarding n => exact hu.restore h
    | called | done => trivial
  | unpair pc =>
    cases pc with
    | cleaning | clearing =>
      obtain ⟨hmem, hunpaired, -⟩ := hu.unpairs h.1 h.2
      exact ⟨hmem, hunpaired⟩
    | dropping =>
      obtain ⟨hmem, hunpaired, hstore⟩ := hu.unpairs h.1 h.2.1
      exact ⟨hmem, hunpaired, hstore h.2.2⟩
    | called | done => trivial

/-- The screen and the store agree unless a restore that was not cancelled is to see to it. -/
def Shared.Settled (s : Shared) : Prop := s.restoreCancelled = false ∨ s.Agrees

/-- What a step of a job preserves. -/
structure Preserved (s : Shared) (i : Nat) (x : PairingJob) (s' : Shared) (x' : PairingJob) :
    Prop where
  restoring : s'.Restoring
  attempts : s'.Attempts
  own : Local s' i x'
  others : ∀ j, j ≠ i → Undisturbed s s' j
  settled : x.settling = true ∨ s.Settled → x'.settling = true ∨ s'.Settled

namespace Shared

variable {s : Shared}

theorem Restoring.cancelled (h : s.Restoring) (hne : ¬ s.Untouched) :
    s.restoreCancelled = true := by
  cases hc : s.restoreCancelled with
  | true => rfl
  | false => exact absurd (h.untouched hc) hne

theorem Restoring.of_attempt (h : s.Restoring) {n : Nat} {o : Option Nat}
    (hn : s.attempts[n]? = some o) : s.restoreCancelled = true := by
  refine h.cancelled fun hu => ?_
  rw [hu.attempts] at hn
  cases hn

theorem Restoring.of_confirming (h : s.Restoring) {d : Confirming} (hd : s.confirming = some d) :
    s.restoreCancelled = true :=
  h.cancelled fun hu => by cases hu.confirming.symm.trans hd

theorem Restoring.of_unpairing (h : s.Restoring) {i : Nat} (hi : i ∈ s.unpairs) :
    s.restoreCancelled = true := by
  refine h.cancelled fun hu => ?_
  rw [hu.unpairs] at hi
  cases hi

/-- A change that leaves the pairing itself alone. -/
theorem Restoring.frame (h : s.Restoring) (hcancelled : s.restoreCancelled = true) {s' : Shared}
    (hrestore : s'.restore = s.restore) (hsame : s'.restoreCancelled = true)
    (hstore : s'.store = s.store) (hsaved : s.savedPairing ≠ none → s'.savedPairing ≠ none)
    (hconfirming : s.Saved → s'.savedPairing ≠ none ∨ s'.Saved)
    (hunpairs : s'.unpairs = s.unpairs) : s'.Restoring := by
  refine ⟨fun hno => (by cases hsame.symm.trans hno), fun _ => ?_⟩
  have hlate := h.late hcancelled
  rw [hrestore]
  cases hpc : s.restore with
  | loading =>
    rw [hpc] at hlate
    refine ⟨fun hne => ?_, fun hun => ?_⟩
    · rw [hstore] at hne
      rcases hlate.1 hne with hold | hold
      · exact .inl (hsaved hold)
      · exact hconfirming hold
    · rw [hstore]
      exact hlate.2 (hunpairs ▸ hun)
  | restoring restored =>
    rw [hpc] at hlate
    refine ⟨?_, fun hun => hlate.2 (hunpairs ▸ hun)⟩
    rcases hlate.1 with hold | hold | ⟨hload, hold⟩
    · exact .inl hold
    · exact .inr (.inl (hsaved hold))
    · rcases hconfirming hold with hnew | hnew
      · exact .inr (.inl hnew)
      · exact .inr (.inr ⟨by rw [hstore]; exact hload, hnew⟩)
  | retrying | reading | returned _ | finished => trivial

theorem Untouched.startPairing_late (h : s.Untouched)
    (hready : s.restore = .finished ∨ s.store.daemon = none) : s.Late s.restore := by
  have hphase := h.phase
  have hunpairs (hne : s.unpairs ≠ []) : False := hne h.unpairs
  cases hpc : s.restore with
  | loading =>
    have hnone := hready.resolve_left (by rw [hpc]; exact fun heq => by cases heq)
    exact ⟨fun hne => absurd hnone hne, fun hne => (hunpairs hne).elim⟩
  | restoring restored =>
    have hnone := hready.resolve_left (by rw [hpc]; exact fun heq => by cases heq)
    rw [hpc] at hphase
    refine ⟨.inl ?_, fun hne => (hunpairs hne).elim⟩
    rw [hphase.2.2.2, PairingStore.load, hnone]
    rfl
  | retrying | reading | returned _ | finished => trivial

theorem Restoring.startPairing (h : s.Restoring) (i : Nat)
    (hready : s.restoreCancelled = true ∨ s.restore = .finished ∨ s.store.daemon = none) :
    (s.startPairing i).Restoring := by
  cases hc : s.restoreCancelled with
  | true => exact h.frame hc rfl rfl rfl id (fun hs => .inr hs) rfl
  | false =>
    refine ⟨fun hno => (by cases hno), fun _ => ?_⟩
    exact (h.untouched hc).startPairing_late (hready.resolve_left (by rw [hc]; decide))

theorem restoring_startUnpairing (i : Nat) (hholds : s.restore.holds = false)
    (hloading : s.restore = .loading → s.store.daemon = none) :
    (s.startUnpairing i).Restoring := by
  refine ⟨fun hno => (by cases hno), fun _ => ?_⟩
  change Late (s.startUnpairing i) s.restore
  cases hpc : s.restore with
  | loading => exact ⟨fun hne => absurd (hloading hpc) hne, fun _ => hloading hpc⟩
  | restoring restored =>
    rw [hpc] at hholds
    cases restored with
    | none => exact ⟨.inl rfl, fun _ => rfl⟩
    | some r => cases hholds
  | retrying | reading | returned _ | finished => trivial

/-- Only the call itself is noticed while nothing is in flight. -/
theorem Restoring.cancelPairing (h : s.Restoring) (i : Nat) : (s.cancelPairing i).Restoring := by
  refine ⟨fun hc => ?_, fun hc => ?_⟩
  · have hu := h.untouched hc
    refine ⟨rfl, hu.confirming, hu.unpairs, hu.attempts, hu.generation, ?_⟩
    have hphase := hu.phase
    change Phase (s.cancelPairing i) s.restore
    cases hpc : s.restore with
    | finished =>
      rw [hpc] at hphase
      exact ⟨hphase.daemon, hphase.paired, hphase.stored⟩
    | _ =>
      rw [hpc] at hphase
      exact hphase
  · have hlate := h.late hc
    change Late (s.cancelPairing i) s.restore
    cases hpc : s.restore with
    | _ =>
      rw [hpc] at hlate
      exact hlate

/-- The end of a job resets the view model's flags. -/
theorem Restoring.reset (h : s.Restoring) (loading : Bool) {pendingPairing : Option Nat}
    (hpending : s.pendingPairing = none → pendingPairing = none) :
    ({ s with loading, pendingPairing } : Shared).Restoring := by
  refine ⟨fun hc => ?_, fun hc => ?_⟩
  · have hu := h.untouched hc
    refine ⟨hpending hu.pending, hu.confirming, hu.unpairs, hu.attempts, hu.generation, ?_⟩
    have hphase := hu.phase
    change Phase ({ s with loading, pendingPairing } : Shared) s.restore
    cases hpc : s.restore with
    | finished =>
      rw [hpc] at hphase
      exact ⟨hphase.daemon, hphase.paired, hphase.stored⟩
    | _ =>
      rw [hpc] at hphase
      exact hphase
  · have hlate := h.late hc
    change Late ({ s with loading, pendingPairing } : Shared) s.restore
    cases hpc : s.restore with
    | _ =>
      rw [hpc] at hlate
      exact hlate

theorem Restoring.save (h : s.Restoring) {i n : Nat} (record : PairedDaemonRecord)
    (hconfirming : s.confirming = some ⟨i, n, .answered⟩) (halone : s.unpairs = []) :
    (s.save i n record).Restoring := by
  have hc := h.of_confirming hconfirming
  have hunsaved : ¬ s.Saved := by
    rintro ⟨d, hd, hstage⟩
    obtain rfl := Option.some.inj (hconfirming.symm.trans hd)
    cases hstage
  have hlate := h.late hc
  refine ⟨fun hno => (by cases hc.symm.trans hno), fun _ => ?_⟩
  change Late (s.save i n record) s.restore
  have hunpairs (hne : (s.save i n record).unpairs ≠ []) : False := hne halone
  cases hpc : s.restore with
  | loading => exact ⟨fun _ => .inr ⟨_, rfl, rfl⟩, fun hne => (hunpairs hne).elim⟩
  | restoring restored =>
    rw [hpc] at hlate
    refine ⟨?_, fun hne => (hunpairs hne).elim⟩
    rcases hlate.1 with hold | hold | ⟨-, hold⟩
    · exact .inl hold
    · exact .inr (.inl hold)
    · exact absurd hold hunsaved
  | retrying | reading | returned _ | finished => trivial

theorem Restoring.clearStore (h : s.Restoring) {i : Nat} (hi : i ∈ s.unpairs) :
    s.clearStore.Restoring := by
  have hc := h.of_unpairing hi
  have hne := List.ne_nil_of_mem hi
  have hlate := h.late hc
  refine ⟨fun hno => (by cases hc.symm.trans hno), fun _ => ?_⟩
  change Late s.clearStore s.restore
  cases hpc : s.restore with
  | loading => exact ⟨fun hsome => (hsome rfl).elim, fun _ => rfl⟩
  | restoring restored =>
    rw [hpc] at hlate
    exact ⟨.inl (hlate.2 hne), fun _ => hlate.2 hne⟩
  | retrying | reading | returned _ | finished => trivial

theorem Restoring.dropPairing (h : s.Restoring) {i : Nat} (hi : i ∈ s.unpairs)
    (hstore : s.store.daemon = none) : (s.dropPairing i).Restoring := by
  have hc := h.of_unpairing hi
  have hne := List.ne_nil_of_mem hi
  have hlate := h.late hc
  refine ⟨fun hno => (by cases hc.symm.trans hno), fun _ => ?_⟩
  change Late (s.dropPairing i) s.restore
  cases hpc : s.restore with
  | loading => exact ⟨fun hsome => absurd hstore hsome, fun _ => hstore⟩
  | restoring restored =>
    rw [hpc] at hlate
    exact ⟨.inl (hlate.2 hne), fun _ => hlate.2 hne⟩
  | retrying | reading | returned _ | finished => trivial

theorem getElem?_set_none {l : List (Option Nat)} {n m : Nat} {o : Option Nat}
    (h : (l.set n none)[m]? = some o) : l[m]? = some o ∨ m = n ∧ o = none := by
  rw [List.getElem?_set] at h
  split at h
  · rename_i hnm
    split at h
    · exact .inr ⟨hnm.symm, (Option.some.inj h).symm⟩
    · cases h
  · exact .inl h

theorem getElem?_set_over {l : List (Option Nat)} {n m : Nat} (h : l[m]? = some none) :
    (l.set n none)[m]? = some none := by
  rw [List.getElem?_set]
  split
  · rename_i hnm
    subst hnm
    rw [if_pos (List.getElem?_eq_some_iff.mp h).1]
  · exact h

theorem filter_ne {o : Option Nat} {n m : Nat} (h : o.filter (· ≠ n) = some m) :
    o = some m ∧ m ≠ n := by
  obtain ⟨ho, hne⟩ := Option.filter_eq_some_iff.mp h
  exact ⟨ho, of_decide_eq_true hne⟩

theorem Attempts.ne_of_running (h : s.Attempts) {n i : Nat}
    (hn : s.attempts[n]? = some (some i)) : s.pendingPairing ≠ some n ∧ s.savedBy ≠ some n ∧
      ∀ d, s.confirming = some d → d.attempt ≠ n := by
  refine ⟨fun hp => ?_, fun hs => ?_, fun d hd heq => ?_⟩
  · cases (h.pending n hp).2.symm.trans hn
  · cases (h.saved n hs).1.symm.trans hn
  · cases (h.confirming d hd).1.symm.trans (heq ▸ hn)

/-- A step that leaves the attempts alone, but may forget the pending one. -/
theorem Attempts.frame (h : s.Attempts) {s' : Shared}
    (hpending : ∀ n, s'.pendingPairing = some n → s.pendingPairing = some n)
    (hattempts : s'.attempts = s.attempts) (hattempt : s'.attempt = s.attempt)
    (hjob : s'.pairJob = s.pairJob) (hconfirming : s'.confirming = s.confirming)
    (hunpairs : s.unpairs = [] → s'.unpairs = [])
    (hsaved : ∀ n, s'.savedBy = some n → s.savedBy = some n)
    (hcancelled : s'.cancelled = s.cancelled)
    (hcancelledAttempts : s'.cancelledAttempts = s.cancelledAttempts) : s'.Attempts := by
  constructor
  · rw [hattempts, hattempt]
    exact fun n hn => h.pending n (hpending n hn)
  · rw [hattempts, hattempt]
    exact h.attempt
  · rw [hattempts, hattempt, hjob, hcancelled, hcancelledAttempts]
    exact h.running
  · intro d hd
    obtain ⟨hover, halone, hcurrent⟩ := h.confirming d (hconfirming ▸ hd)
    unfold Confirming.Fits
    rw [hattempts, hattempt, hjob, hcancelled, hcancelledAttempts]
    exact ⟨hover, hunpairs halone, hcurrent⟩
  · rw [hattempts, hattempt, hconfirming, hcancelledAttempts]
    exact fun n hn => h.saved n (hsaved n hn)
  · rw [hattempts, hattempt, hcancelledAttempts]
    exact h.cancelled

theorem Attempts.startPairing (h : s.Attempts) (i : Nat) (hpending : s.pendingPairing = none) :
    (s.startPairing i).Attempts := by
  have hold {n : Nat} {o : Option Nat} (hn : s.attempts[n]? = some o) : n < s.attempts.length :=
    (List.getElem?_eq_some_iff.mp hn).1
  have hkeep {n : Nat} {o : Option Nat} (hn : s.attempts[n]? = some o) :
      (s.startPairing i).attempts[n]? = some o := by
    change (s.attempts ++ [some i])[n]? = some o
    rw [List.getElem?_append_left (hold hn)]
    exact hn
  have hnew {n : Nat} (hn : n < s.attempts.length) : (s.startPairing i).attempt ≠ some n := by
    intro heq
    exact absurd (Option.some.inj heq) (by omega)
  constructor
  · intro n hn
    cases hpending.symm.trans hn
  · intro n hn
    obtain rfl := Option.some.inj hn
    change s.attempts.length < (s.attempts ++ [some i]).length
    rw [List.length_append]
    exact Nat.lt_succ_self _
  · intro n j hj
    change (s.attempts ++ [some i])[n]? = some (some j) at hj
    rcases Nat.lt_or_ge n s.attempts.length with hlt | hge
    · rw [List.getElem?_append_left hlt] at hj
      exact ⟨fun heq => absurd heq (hnew hlt), (h.running n j hj).2⟩
    · rw [List.getElem?_append_right hge] at hj
      rw [List.getElem?_singleton] at hj
      obtain ⟨hzero, hj⟩ := Option.ite_none_right_eq_some.mp hj
      refine ⟨fun _ => Option.some.inj hj, fun hmem => ?_⟩
      have hlt := (h.cancelled n hmem).1
      omega
  · intro d hd
    obtain ⟨hover, halone, -, hrest⟩ := h.confirming d hd
    exact ⟨hkeep hover, halone, fun heq => absurd heq (hnew (hold hover)), hrest⟩
  · intro n hn
    obtain ⟨hover, hkept, -⟩ := h.saved n hn
    exact ⟨hkeep hover, hkept, fun heq => absurd heq (hnew (hold hover))⟩
  · intro n hn
    have hlt := (h.cancelled n hn).1
    refine ⟨?_, hnew hlt⟩
    change n < (s.attempts ++ [some i]).length
    rw [List.length_append]
    exact Nat.lt_add_right 1 hlt

theorem Attempts.endAttempt (h : s.Attempts) (n : Nat) : (s.endAttempt n).Attempts := by
  have hlength : (s.endAttempt n).attempts.length = s.attempts.length := List.length_set
  constructor
  · intro m hm
    obtain ⟨hat, hover⟩ := h.pending m hm
    exact ⟨hat, getElem?_set_over hover⟩
  · intro m hm
    rw [hlength]
    exact h.attempt m hm
  · intro m j hj
    exact h.running m j ((getElem?_set_none hj).resolve_right fun hover => by cases hover.2)
  · intro d hd
    obtain ⟨hover, hrest⟩ := h.confirming d hd
    exact ⟨getElem?_set_over hover, hrest⟩
  · intro m hm
    obtain ⟨hover, hrest⟩ := h.saved m hm
    exact ⟨getElem?_set_over hover, hrest⟩
  · intro m hm
    rw [hlength]
    exact h.cancelled m hm

theorem Attempts.showSas (h : s.Attempts) {n i : Nat} (hn : s.attempts[n]? = some (some i))
    (hi : i ∉ s.cancelled) : (s.showSas n).Attempts := by
  have hlt := (List.getElem?_eq_some_iff.mp hn).1
  obtain ⟨-, hunsaved, hother⟩ := h.ne_of_running hn
  constructor
  · intro m hm
    obtain rfl := Option.some.inj hm
    refine ⟨rfl, ?_⟩
    change (s.attempts.set n none)[n]? = some none
    rw [List.getElem?_set, if_pos rfl, if_pos hlt]
  · intro m hm
    obtain rfl := Option.some.inj hm
    rw [show (s.showSas n).attempts.length = s.attempts.length from List.length_set]
    exact hlt
  · intro m j hj
    rcases getElem?_set_none hj with hj' | ⟨-, hno⟩
    · refine ⟨fun hm => ?_, (h.running m j hj').2⟩
      obtain rfl := Option.some.inj hm
      change (s.attempts.set n none)[n]? = _ at hj
      rw [List.getElem?_set, if_pos rfl, if_pos hlt] at hj
      cases hj
    · cases hno
  · intro d hd
    obtain ⟨hover, halone, -, hrest⟩ := h.confirming d hd
    refine ⟨getElem?_set_over hover, halone, fun hm => ?_, hrest⟩
    exact absurd (Option.some.inj hm).symm (hother d hd)
  · intro m hm
    obtain ⟨hover, hkept, -⟩ := h.saved m hm
    refine ⟨getElem?_set_over hover, hkept, fun heq => ?_⟩
    obtain rfl := Option.some.inj heq
    exact absurd hm hunsaved
  · intro m hm
    rw [show (s.showSas n).attempts.length = s.attempts.length from List.length_set]
    refine ⟨(h.cancelled m hm).1, fun heq => ?_⟩
    obtain rfl := Option.some.inj heq
    exact hi ((h.running n i hn).2 hm)

theorem Attempts.startConfirming (h : s.Attempts) (i : Nat) {n : Nat}
    (hn : s.pendingPairing = some n) (hfree : s.confirming = none) (halone : s.unpairs = []) :
    (s.startConfirming i n).Attempts := by
  obtain ⟨hat, hover⟩ := h.pending n hn
  have hlive : n ∉ s.cancelledAttempts := fun hmem => (h.cancelled n hmem).2 hat
  constructor
  · intro m hm
    obtain rfl := Option.some.inj (hn.symm.trans hm)
    exact ⟨rfl, hover⟩
  · intro m hm
    obtain rfl := Option.some.inj hm
    exact h.attempt n hat
  · intro m j hj
    refine ⟨fun hm => ?_, (h.running m j hj).2⟩
    obtain rfl := Option.some.inj hm
    cases hover.symm.trans hj
  · intro d hd
    obtain rfl := Option.some.inj hd
    exact ⟨hover, halone, fun _ => rfl, fun hmem => absurd hmem hlive, fun hne => (hne rfl).elim⟩
  · intro m hm
    obtain ⟨hover', hkept, hcurrent⟩ := h.saved m hm
    refine ⟨hover', hkept, fun heq => ?_⟩
    obtain rfl := Option.some.inj heq
    obtain ⟨d, hd, -⟩ := hcurrent hat
    cases hfree.symm.trans hd
  · intro m hm
    refine ⟨(h.cancelled m hm).1, fun heq => ?_⟩
    obtain rfl := Option.some.inj heq
    exact hlive hm

theorem Attempts.answer (h : s.Attempts) {i n : Nat} (hd : s.confirming = some ⟨i, n, .asked⟩)
    (hi : i ∉ s.cancelled) : (s.answer i n).Attempts := by
  obtain ⟨hover, halone, hcurrent, hcancelled, -⟩ := h.confirming _ hd
  constructor
  · exact h.pending
  · exact h.attempt
  · exact h.running
  · intro d hnew
    obtain rfl := Option.some.inj hnew
    exact ⟨hover, halone, hcurrent, hcancelled, fun _ => hi⟩
  · intro m hm
    obtain ⟨hover', hkept, hat⟩ := h.saved m hm
    refine ⟨hover', hkept, fun heq => ?_⟩
    obtain ⟨d, hold, hattempt, -⟩ := hat heq
    obtain rfl := Option.some.inj (hd.symm.trans hold)
    exact ⟨_, rfl, hattempt, fun heq => by cases heq⟩
  · exact h.cancelled

/-- An answered confirmation is not cancelled, so neither is its attempt. -/
theorem Attempts.save (h : s.Attempts) {i n : Nat} (record : PairedDaemonRecord)
    (hd : s.confirming = some ⟨i, n, .answered⟩) : (s.save i n record).Attempts := by
  obtain ⟨hover, halone, hcurrent, hcancelled, hkept⟩ := h.confirming _ hd
  have hlive : i ∉ s.cancelled := hkept fun heq => by cases heq
  constructor
  · exact h.pending
  · exact h.attempt
  · exact h.running
  · intro d hnew
    obtain rfl := Option.some.inj hnew
    exact ⟨hover, halone, hcurrent, hcancelled, fun _ => hlive⟩
  · intro m hm
    obtain rfl := Option.some.inj hm
    exact ⟨hover, fun hmem => hlive (hcancelled hmem), fun _ =>
      ⟨_, rfl, rfl, fun heq => by cases heq⟩⟩
  · exact h.cancelled

/-- A confirmation that is not answered has saved nothing. -/
theorem Attempts.endConfirming (h : s.Attempts) {i n : Nat}
    (hd : s.confirming = some ⟨i, n, .asked⟩) : s.endConfirming.Attempts := by
  constructor
  · exact h.pending
  · exact h.attempt
  · exact h.running
  · intro d hnew
    cases hnew
  · intro m hm
    obtain ⟨hover, hkept, hcurrent⟩ := h.saved m hm
    refine ⟨hover, hkept, fun heq => ?_⟩
    obtain ⟨d, hold, -, hstage⟩ := hcurrent heq
    obtain rfl := Option.some.inj (hd.symm.trans hold)
    exact absurd rfl hstage
  · exact h.cancelled

/-- The screen is not at an attempt that it shows as paired. -/
theorem Attempts.showPaired (h : s.Attempts) {i n : Nat} {stage : Stage}
    (hd : s.confirming = some ⟨i, n, stage⟩) : (s.showPaired n).Attempts := by
  constructor
  · intro m hm
    cases hm
  · intro m hm
    exact h.attempt m (filter_ne hm).1
  · intro m j hj
    obtain ⟨hcurrent, hrest⟩ := h.running m j hj
    exact ⟨fun hm => hcurrent (filter_ne hm).1, hrest⟩
  · intro d hnew
    cases hnew
  · intro m hm
    obtain ⟨hover, hkept, hcurrent⟩ := h.saved m hm
    refine ⟨hover, hkept, fun heq => ?_⟩
    obtain ⟨hat, hne⟩ := filter_ne heq
    obtain ⟨d, hold, hattempt, -⟩ := hcurrent hat
    obtain rfl := Option.some.inj (hd.symm.trans hold)
    exact absurd hattempt.symm hne
  · intro m hm
    exact ⟨(h.cancelled m hm).1, fun heq => (h.cancelled m hm).2 (filter_ne heq).1⟩

/-- The attempt that the screen is at is cancelled together with its job. -/
theorem Attempts.cancelPairing (h : s.Attempts) (i : Nat)
    (hready : ∀ d ∈ s.confirming, d.stage ≠ .asked → s.pairJob ≠ some d.job) :
    (s.cancelPairing i).Attempts := by
  have hnew {n j : Nat} (hat : s.attempt = some n → s.pairJob = some j)
      (hold : n ∈ s.cancelledAttempts → j ∈ s.cancelled)
      (hmem : n ∈ (s.cancelPairing i).cancelledAttempts) : j ∈ (s.cancelPairing i).cancelled := by
    rcases List.mem_append.mp hmem with hn | hn
    · exact List.mem_append_left _ (Option.mem_toList.mpr (hat (Option.mem_toList.mp hn)))
    · exact List.mem_append_right _ (hold hn)
  constructor
  · exact fun n hn => by cases hn
  · exact fun n hn => by cases hn
  · intro n j hj
    obtain ⟨hcurrent, hcancelled⟩ := h.running n j hj
    exact ⟨fun hat => (by cases hat), hnew hcurrent hcancelled⟩
  · intro d hd
    obtain ⟨hover, halone, hcurrent, hcancelled, hkept⟩ := h.confirming d hd
    refine ⟨hover, halone, fun hat => (by cases hat), hnew hcurrent hcancelled, ?_⟩
    intro hstage hmem
    rcases List.mem_append.mp hmem with hj | hj
    · exact hready d hd hstage (Option.mem_toList.mp hj)
    · exact hkept hstage hj
  · intro n hn
    obtain ⟨hover, hkept, hcurrent⟩ := h.saved n hn
    refine ⟨hover, fun hmem => ?_, fun hat => (by cases hat)⟩
    rcases List.mem_append.mp hmem with hat | hold
    · obtain ⟨d, hd, rfl, hstage⟩ := hcurrent (Option.mem_toList.mp hat)
      obtain ⟨-, -, hjob, -⟩ := h.confirming d hd
      exact hready d hd hstage (hjob (Option.mem_toList.mp hat))
    · exact hkept hold
  · intro n hn
    refine ⟨?_, fun hat => (by cases hat)⟩
    rcases List.mem_append.mp hn with hat | hold
    · exact h.attempt n (Option.mem_toList.mp hat)
    · exact (h.cancelled n hold).1

theorem Agrees.frame (h : s.Agrees) {s' : Shared} (hdaemon : s'.pairedDaemon = s.pairedDaemon)
    (hpaired : s'.paired = s.paired) (hsaved : s'.savedPairing = s.savedPairing)
    (hstore : s'.store = s.store) : s'.Agrees := by
  constructor
  · rw [hdaemon, hsaved]
    exact h.daemon
  · rw [hpaired, hsaved]
    exact h.paired
  · rw [hsaved, hstore]
    exact h.stored

theorem Settled.frame (h : s.Settled) {s' : Shared}
    (hrestore : s'.restoreCancelled = s.restoreCancelled)
    (hdaemon : s'.pairedDaemon = s.pairedDaemon) (hpaired : s'.paired = s.paired)
    (hsaved : s'.savedPairing = s.savedPairing) (hstore : s'.store = s.store) : s'.Settled := by
  rcases h with hc | ha
  · exact .inl (hrestore.trans hc)
  · exact .inr (ha.frame hdaemon hpaired hsaved hstore)

theorem Unpaired.agrees (h : s.Unpaired) (hsaved : s.savedPairing = none)
    (hstore : s.store.daemon = none) : s.Agrees := by
  constructor
  · rw [h.1, hsaved]
  · rw [h.2, hsaved]
    rfl
  · simp [hsaved, PairingStore.load, hstore]

/-- While nothing is stored, a restore has nothing to show. -/
theorem Untouched.agrees (h : s.Untouched)
    (hready : s.restore = .finished ∨ s.store.daemon = none) : s.Agrees := by
  have hphase := h.phase
  rcases hready with hfinished | hnone
  · rw [hfinished] at hphase
    exact hphase
  · have hload : s.store.load = none := by
      rw [PairingStore.load, hnone]
      rfl
    cases hpc : s.restore with
    | retrying | loading =>
      rw [hpc] at hphase
      exact hphase.2.2.agrees hphase.1 hnone
    | restoring restored =>
      rw [hpc] at hphase
      exact hphase.2.2.1.agrees hphase.1 hnone
    | reading =>
      rw [hpc] at hphase
      exact hphase.2.agrees (hphase.1.trans hload) hnone
    | returned paired =>
      rw [hpc] at hphase
      exact hphase.2.1.agrees (hphase.1.trans hload) hnone
    | finished =>
      rw [hpc] at hphase
      exact hphase

end Shared

end Shelly.Mobile.PairingScreen
