import Shelly.Daemon.LiveSteps

namespace Shelly.Daemon.Live

variable {T : Type*}

/-- The snapshot has the scrollback and the exit code that the session has now. -/
def upToDate (s : LiveSession T) (stored : StoredSession) : Bool :=
  decide ((stored.scrollbackStartSeq, stored.scrollback) = s.ring.snapshot) &&
    decide (stored.exitCode = s.exitCode)

def rowUpToDate (s : LiveSession T) : Bool := s.row.any fun row => row.any (upToDate s)

/-- This call of `persist` will still store what the session has now, or report a failure. -/
def SavePc.pending (s : LiveSession T) : SavePc → Bool
  | .checking | .capturing => true
  | .completing scrollbackStartSeq scrollback =>
    decide ((scrollbackStartSeq, scrollback) = s.ring.snapshot)
  | .saving stored => upToDate s stored
  | .returned ok => !ok

/-- The I/O thread will still set the flag, or persist the session itself. -/
def IoPc.pending (s : LiveSession T) : IoPc → Bool
  | .ingested .. | .rebuilding .. | .noting .. | .inspecting .. | .inferring .. | .settingState ..
  | .sending .. | .dirtying => true
  | .settling _ | .announcing _ | .reporting _ | .clearing => true
  | .persisting pc => pc.pending s
  | .reading | .exiting _ | .updating | .closing | .exited => false

def Task.pending (s : LiveSession T) : Task → Bool
  | .flush (.persisting pc) => pc.pending s
  | _ => false

/-- A call of `record_output` or of `mark_exited` is under way. -/
def IoPc.inFlight : IoPc → Bool
  | .reading | .closing | .exited => false
  | _ => true

def Task.inFlight : Task → Bool
  | .flush (.persisting _) => true
  | _ => false

/-- Nothing has to be stored, or it is stored, or the flag or the I/O thread will see to it. -/
def Settled (s : LiveSession T) : Prop :=
  s.killed = true ∨ s.row = none ∨ s.persistDirty = true ∨ rowUpToDate s = true ∨
    s.io.pending s = true

/-- An outdated snapshot is not stored over an up-to-date row that nothing else will write. -/
def unspoiled (p : Pool (LiveSession T) Task) : Move Task Choice Event → Bool
  | .advance i c =>
    (p.task i).all fun x => x.storing.all fun stored =>
      !c.ok || upToDate p.shared stored || p.shared.persistDirty || !rowUpToDate p.shared ||
        p.shared.io.pending p.shared ||
        !decide (p.Lacks fun j y => decide (j ≠ i) && y.pending p.shared)
  | _ => true

variable {E : Emulator T} {infer : StateInfer} {c : Choice} {s s' : LiveSession T}

/-- What is outdated depends on the scrollback and the exit code alone. -/
theorem upToDate_congr (hring : s'.ring = s.ring) (hexit : s'.exitCode = s.exitCode) :
    upToDate s' = upToDate s := by
  funext stored
  rw [upToDate, upToDate, hring, hexit]

theorem SavePc.pending_congr {pc : SavePc} (hring : s'.ring = s.ring)
    (hexit : s'.exitCode = s.exitCode) : pc.pending s' = pc.pending s := by
  cases pc with
  | completing => rw [pending, pending, hring]
  | saving => rw [pending, pending, upToDate_congr hring hexit]
  | checking | capturing | returned => rfl

theorem IoPc.pending_congr {pc : IoPc} (hring : s'.ring = s.ring)
    (hexit : s'.exitCode = s.exitCode) : pc.pending s' = pc.pending s := by
  cases pc with
  | persisting pc => exact SavePc.pending_congr hring hexit
  | _ => rfl

theorem IoPc.inFlight_of_pending {pc : IoPc} (h : pc.pending s = true) : pc.inFlight = true := by
  cases pc with
  | reading | closing | exited => cases h
  | _ => rfl

theorem Task.pending_congr {x : Task} (hring : s'.ring = s.ring)
    (hexit : s'.exitCode = s.exitCode) : x.pending s' = x.pending s := by
  cases x with
  | flush pc =>
    cases pc with
    | persisting pc => exact SavePc.pending_congr hring hexit
    | swapping | returned => rfl
  | input | idle | hook | resize | attach => rfl

theorem rowUpToDate_congr (hrow : s'.row = s.row) (hring : s'.ring = s.ring)
    (hexit : s'.exitCode = s.exitCode) : rowUpToDate s' = rowUpToDate s := by
  rw [rowUpToDate, rowUpToDate, hrow, upToDate_congr hring hexit]

theorem Settled.mono (h : Settled s) (hkilled : s.killed = true → s'.killed = true)
    (hrow : s'.row = s.row) (hdirty : s.persistDirty = true → s'.persistDirty = true)
    (hring : s'.ring = s.ring) (hexit : s'.exitCode = s.exitCode)
    (hio : s.io.pending s = true → s'.io.pending s' = true) : Settled s' := by
  rcases h with h | h | h | h | h
  · exact .inl (hkilled h)
  · exact .inr (.inl (hrow.trans h))
  · exact .inr (.inr (.inl (hdirty h)))
  · exact .inr (.inr (.inr (.inl ((rowUpToDate_congr hrow hring hexit).trans h))))
  · exact .inr (.inr (.inr (.inr (hio h))))

theorem Settled.congr (h : Settled s) (hkilled : s.killed = true → s'.killed = true)
    (hrow : s'.row = s.row) (hdirty : s.persistDirty = true → s'.persistDirty = true)
    (hring : s'.ring = s.ring) (hexit : s'.exitCode = s.exitCode) (hio : s'.io = s.io) :
    Settled s' :=
  h.mono hkilled hrow hdirty hring hexit <| by
    rw [hio, IoPc.pending_congr hring hexit]
    exact id

/-- What is stored is up to date, or takes the place of a row that need not be. -/
theorem Settled.stored (h : Settled s) (stored : StoredSession) :
    Settled { s with row := s.row.map fun _ => some stored } ∨
      upToDate s stored = false ∧ s.persistDirty = false ∧ rowUpToDate s = true ∧
        s.io.pending s = false := by
  by_cases hold : upToDate s stored = false ∧ s.persistDirty = false ∧ rowUpToDate s = true ∧
      s.io.pending s = false
  · exact .inr hold
  left
  simp only [not_and, Bool.not_eq_false] at hold
  rcases h with h | h | h | h | h
  · exact .inl h
  · exact .inr (.inl (by rw [h]; rfl))
  · exact .inr (.inr (.inl h))
  · cases hnew : upToDate s stored with
    | true =>
      refine .inr (.inr (.inr (.inl ?_)))
      obtain ⟨row, hrow, -⟩ := (Option.any_eq_true _ _).mp h
      rw [rowUpToDate, hrow]
      exact hnew
    | false =>
      cases hdirty : s.persistDirty with
      | true => exact .inr (.inr (.inl hdirty))
      | false => exact .inr (.inr (.inr (.inr (hold hnew hdirty h))))
  · exact .inr (.inr (.inr (.inr h)))

/-- A snapshot in the hands of the exiting I/O thread is up to date. -/
def ExitSnapshot (s : LiveSession T) : Prop :=
  ∀ pc, s.io = .persisting pc → (∀ ok, pc ≠ .returned ok) → pc.pending s = true

/-- One step of `persist`: it stays on its way until it returns, and where it returns that it has
succeeded there was nothing to store, or it is stored. -/
theorem saveStep_pending {pc pc' : SavePc} (hs : saveStep c pc s = some (s', pc'))
    (hpc : pc.pending s = true) :
    pc'.pending s' = true ∨
      pc' = .returned true ∧ (s.killed = true ∨ s.row = none ∨ rowUpToDate s' = true) := by
  cases pc with
  | checking =>
    cases hs
    cases hkilled : s.killed with
    | true => exact .inr ⟨rfl, .inl rfl⟩
    | false =>
      cases hrow : s.row with
      | none => exact .inr ⟨rfl, .inr (.inl rfl)⟩
      | some row => exact .inl rfl
  | capturing =>
    cases hs
    exact .inl (decide_eq_true rfl)
  | completing scrollbackStartSeq scrollback =>
    cases hs
    left
    rw [SavePc.pending, upToDate, Bool.and_eq_true]
    exact ⟨hpc, decide_eq_true rfl⟩
  | saving stored =>
    simp only [saveStep] at hs
    split at hs <;> cases hs
    · cases hrow : s.row with
      | none => exact .inr ⟨rfl, .inr (.inl rfl)⟩
      | some row =>
        refine .inr ⟨rfl, .inr (.inr ?_)⟩
        rw [rowUpToDate]
        exact hpc
    · exact .inl rfl
  | returned ok => cases hs

theorem saveStep_kept {pc pc' : SavePc} (hs : saveStep c pc s = some (s', pc')) :
    s'.killed = s.killed ∧ (s.row = none → s'.row = none) ∧ s'.ring = s.ring ∧
      s'.exitCode = s.exitCode ∧ ∀ ok, pc ≠ .returned ok := by
  cases pc with
  | checking | capturing | completing => cases hs; exact ⟨rfl, id, rfl, rfl, fun _ h => by cases h⟩
  | saving stored =>
    simp only [saveStep] at hs
    split at hs <;> cases hs
    · exact ⟨rfl, fun hrow => by rw [hrow]; rfl, rfl, rfl, fun _ h => by cases h⟩
    · exact ⟨rfl, id, rfl, rfl, fun _ h => by cases h⟩
  | returned ok => cases hs

/-- A step of a flush inside `persist` is a step of `persist`. -/
theorem flushStep_persisting {pc : SavePc} {r : LiveSession T × FlushPc}
    (hs : flushStep c (.persisting pc) s = some r) :
    (∃ ok, pc = .returned ok ∧
        r = ({ s with toSession := { s.toSession with persistDirty := s.persistDirty || !ok } },
          .returned)) ∨
      ∃ pc', saveStep c pc s = some (r.1, pc') ∧ r.2 = .persisting pc' := by
  have hsave : ∀ r', saveStep c pc s = some r' → r = (r'.1, .persisting r'.2) →
      ∃ pc', saveStep c pc s = some (r.1, pc') ∧ r.2 = .persisting pc' := by
    rintro ⟨t, pc'⟩ hsave rfl
    exact ⟨pc', hsave, rfl⟩
  cases pc with
  | returned ok => cases hs; exact .inl ⟨ok, rfl, rfl⟩
  | checking | capturing | completing => cases hs; exact .inr (hsave _ rfl rfl)
  | saving stored =>
    obtain ⟨r', hr', rfl⟩ := Option.map_eq_some_iff.mp hs
    exact .inr (hsave r' hr' rfl)

theorem advance_pending {x x' : Task} (hs : advance E c x s = some (s', x'))
    (hx : x.pending s = true) : Settled s' ∨ x'.pending s' = true := by
  cases x with
  | flush pc =>
    cases pc with
    | persisting pc =>
      obtain ⟨r, hflush, hr⟩ := Option.map_eq_some_iff.mp hs
      obtain ⟨rfl, rfl⟩ := Prod.mk.inj hr
      rcases flushStep_persisting hflush with ⟨ok, rfl, rfl⟩ | ⟨pc', hsave, hpc'⟩
      · cases ok with
        | true => cases hx
        | false => exact .inl (.inr (.inr (.inl (Bool.or_true _))))
      · obtain ⟨hkilled, hrow, -⟩ := saveStep_kept hsave
        rw [hpc']
        rcases saveStep_pending hsave hx with h | ⟨-, h | h | h⟩
        · exact .inr h
        · exact .inl (.inl (hkilled.trans h))
        · exact .inl (.inr (.inl (hrow h)))
        · exact .inl (.inr (.inr (.inr (.inl h))))
    | swapping | returned => cases hx
  | input | idle | hook | resize | attach => cases hx

/-- A task keeps what is settled, unless it stores an outdated snapshot over an up-to-date row. -/
theorem advance_settled {x x' : Task} (hs : advance E c x s = some (s', x')) (h : Settled s) :
    Settled s' ∨ x'.pending s' = true ∨
      ∃ stored, x.storing = some stored ∧ c.ok = true ∧ upToDate s stored = false ∧
        s.persistDirty = false ∧ rowUpToDate s = true ∧ s.io.pending s = false := by
  have heffect := advance_effect hs
  obtain ⟨hring, -, hexit, hio⟩ := heffect.kept
  cases x with
  | flush pc =>
    obtain ⟨r, hflush, hr⟩ := Option.map_eq_some_iff.mp hs
    obtain ⟨rfl, rfl⟩ := Prod.mk.inj hr
    cases pc with
    | swapping =>
      cases hflush
      cases hdirty : s.persistDirty with
      | true => exact .inr (.inl rfl)
      | false => exact .inl (h.congr id rfl (by rw [hdirty]; exact id) rfl rfl rfl)
    | persisting pc =>
      rcases flushStep_persisting hflush with ⟨ok, rfl, rfl⟩ | ⟨pc', hsave, hpc'⟩
      · exact .inl (h.congr id rfl (fun hdirty => by rw [hdirty]; rfl) rfl rfl rfl)
      · cases pc with
        | checking | capturing | completing => cases hsave; exact .inl h
        | saving stored =>
          simp only [saveStep] at hsave
          split at hsave
          · rename_i hok
            obtain ⟨hr, -⟩ := Prod.mk.inj (Option.some.inj hsave)
            rw [← hr]
            rcases h.stored stored with h | ⟨hold, hdirty, hrow, hpending⟩
            · exact .inl h
            · exact .inr (.inr ⟨stored, rfl, hok, hold, hdirty, hrow, hpending⟩)
          · obtain ⟨hr, -⟩ := Prod.mk.inj (Option.some.inj hsave)
            rw [← hr]
            exact .inl h
        | returned ok => cases hsave
    | returned => cases hflush
  | input | idle | hook | resize | attach =>
    left
    cases heffect with
    | setState now state line hx =>
      exact h.congr (by rw [LiveSession.setState_killed]; exact id) (LiveSession.setState_row ..)
        (by rw [LiveSession.setState_persistDirty]; exact id) hring hexit hio
    | same | enqueue | line | cache | resize | rebuild => exact h.congr id rfl id rfl rfl rfl
    | dirty dirty hx =>
      rcases hx with rfl | ⟨pc, hpc⟩
      · exact h.congr id rfl (fun _ => rfl) rfl rfl rfl
      · cases hpc
    | store stored hx => cases hx

/-- A step of the I/O thread inside `persist` is a step of `persist`. -/
theorem ioStep_persisting {pc : SavePc} (hio : s.io = .persisting pc)
    (hs : ioStep E infer c s = some s') :
    (∃ ok, pc = .returned ok ∧ s' = { s with
        toSession := { s.toSession with persistDirty := s.persistDirty || !ok }
        io := .updating }) ∨
      ∃ t pc', saveStep c pc s = some (t, pc') ∧ s' = { t with io := .persisting pc' } := by
  unfold ioStep at hs
  rw [hio] at hs
  cases pc with
  | returned ok => cases hs; exact .inl ⟨ok, rfl, rfl⟩
  | checking | capturing | completing => cases hs; exact .inr ⟨_, _, rfl, rfl⟩
  | saving stored =>
    obtain ⟨⟨t, pc'⟩, hsave, rfl⟩ := Option.map_eq_some_iff.mp hs
    exact .inr ⟨t, pc', hsave, rfl⟩

/-- The other steps of the I/O thread: they leave something pending, set the flag, or leave all
that is stored alone. -/
theorem ioStep_quiet (hio : ∀ pc, s.io ≠ .persisting pc) (hs : ioStep E infer c s = some s') :
    (∀ pc, s'.io = .persisting pc → pc = .checking) ∧
      (s'.io.pending s' = true ∨ s'.persistDirty = true ∨
        s.io.pending s = false ∧ s'.killed = s.killed ∧ s'.row = s.row ∧
          s'.persistDirty = s.persistDirty ∧ s'.exitCode = s.exitCode) := by
  unfold ioStep at hs
  cases hpc : s.io with
  | reading | exited => rw [hpc] at hs; cases hs
  | ingested bytes seq failure =>
    rw [hpc] at hs
    cases hs
    dsimp only
    split <;> exact ⟨fun _ h => (nomatch h), .inl rfl⟩
  | inspecting bytes seq =>
    rw [hpc] at hs
    dsimp only at hs
    split at hs <;> cases hs
    · exact ⟨fun _ h => (nomatch h), .inl rfl⟩
    · dsimp only
      split <;> exact ⟨fun _ h => (nomatch h), .inl rfl⟩
  | exiting exitCode =>
    rw [hpc] at hs
    dsimp only at hs
    split at hs <;> cases hs
    · exact ⟨fun _ h => (nomatch h), .inr (.inr ⟨rfl, rfl, rfl, rfl, rfl⟩)⟩
    · exact ⟨fun _ h => (nomatch h), .inl rfl⟩
  | dirtying => rw [hpc] at hs; cases hs; exact ⟨fun _ h => (nomatch h), .inr (.inl rfl)⟩
  | clearing =>
    rw [hpc] at hs
    cases hs
    exact ⟨fun _ h => (IoPc.persisting.inj h).symm, .inl rfl⟩
  | updating | closing =>
    rw [hpc] at hs
    cases hs
    exact ⟨fun _ h => (nomatch h), .inr (.inr ⟨rfl, rfl, rfl, rfl, rfl⟩)⟩
  | persisting pc => exact absurd hpc (hio pc)
  | _ => rw [hpc] at hs; cases hs; exact ⟨fun _ h => (nomatch h), .inl rfl⟩

/-- One step of the I/O thread. -/
theorem ioStep_settled (hs : ioStep E infer c s = some s') (h : Settled s) (hexit : ExitSnapshot s) :
    Settled s' := by
  by_cases hio : ∃ pc, s.io = .persisting pc
  · obtain ⟨pc, hio⟩ := hio
    rcases ioStep_persisting hio hs with ⟨ok, rfl, rfl⟩ | ⟨t, pc', hsave, rfl⟩
    · cases ok with
      | false => exact .inr (.inr (.inl (Bool.or_true _)))
      | true =>
        refine h.mono id rfl (fun hdirty => by rw [hdirty]; rfl) rfl rfl fun hpending => ?_
        rw [hio] at hpending
        cases hpending
    · obtain ⟨hkilled, hrow, -, -, hpc⟩ := saveStep_kept hsave
      rcases saveStep_pending hsave (hexit pc hio hpc) with h | ⟨-, h | h | h⟩
      · exact .inr (.inr (.inr (.inr h)))
      · exact .inl (hkilled.trans h)
      · exact .inr (.inl (hrow h))
      · exact .inr (.inr (.inr (.inl h)))
  · obtain ⟨hring, -⟩ := ioStep_kept hs
    rcases (ioStep_quiet (fun pc hpc => hio ⟨pc, hpc⟩) hs).2 with
      hpending | hdirty | ⟨hpending, hkilled, hrow, hdirty, hcode⟩
    · exact .inr (.inr (.inr (.inr hpending)))
    · exact .inr (.inr (.inl hdirty))
    · refine h.mono (hkilled.trans ·) hrow (hdirty.trans ·) hring hcode fun hp => ?_
      cases hpending.symm.trans hp

theorem ioStep_exitSnapshot (hs : ioStep E infer c s = some s') (hexit : ExitSnapshot s) :
    ExitSnapshot s' := by
  intro pc₁ hpc₁ hreturned
  by_cases hio : ∃ pc, s.io = .persisting pc
  · obtain ⟨pc, hio⟩ := hio
    rcases ioStep_persisting hio hs with ⟨ok, rfl, rfl⟩ | ⟨t, pc', hsave, rfl⟩
    · cases hpc₁
    · obtain rfl := IoPc.persisting.inj hpc₁
      rcases saveStep_pending hsave (hexit pc hio (saveStep_kept hsave).2.2.2.2) with h | ⟨rfl, -⟩
      · exact h
      · exact absurd rfl (hreturned true)
  · rw [(ioStep_quiet (fun pc hpc => hio ⟨pc, hpc⟩) hs).1 pc₁ hpc₁]
    rfl

/-- The exit code that the I/O thread sets is still to be stored. -/
theorem ioStep_exitCode (hs : ioStep E infer c s = some s') :
    Settled s' ∨ s'.exitCode = s.exitCode := by
  by_cases hio : ∃ pc, s.io = .persisting pc
  · obtain ⟨pc, hio⟩ := hio
    rcases ioStep_persisting hio hs with ⟨ok, rfl, rfl⟩ | ⟨t, pc', hsave, rfl⟩
    · exact .inr rfl
    · exact .inr (saveStep_kept hsave).2.2.2.1
  · rcases (ioStep_quiet (fun pc hpc => hio ⟨pc, hpc⟩) hs).2 with
      hpending | hdirty | ⟨-, -, -, -, hcode⟩
    · exact .inl (.inr (.inr (.inr (.inr hpending))))
    · exact .inl (.inr (.inr (.inl hdirty)))
    · exact .inr hcode

/-- What the I/O thread does, and a kill, keeps what is settled, and what a flush has in hand. -/
theorem event_settled {e : Event} {keep : Bool} (hs : event E infer e s = some (s', keep))
    (hexit : ExitSnapshot s) :
    keep = true ∧ ExitSnapshot s' ∧ (Settled s → Settled s') ∧
      ∀ y : Task, y.pending s = true → Settled s' ∨ y.pending s' = true := by
  have hkeeps : s'.ring = s.ring → s'.exitCode = s.exitCode →
      ∀ y : Task, y.pending s = true → Settled s' ∨ y.pending s' = true :=
    fun hring hcode y hy => .inr ((Task.pending_congr hring hcode).trans hy)
  cases e with
  | read bytes =>
    simp only [event, Option.ite_none_right_eq_some, Option.some.injEq, Prod.mk.injEq] at hs
    obtain ⟨-, rfl, rfl⟩ := hs
    have hsettled : Settled (s.recordOutput E bytes) := .inr (.inr (.inr (.inr rfl)))
    exact ⟨rfl, fun _ hio => (nomatch hio), fun _ => hsettled, fun _ _ => .inl hsettled⟩
  | drain =>
    simp only [event, Option.ite_none_right_eq_some, Option.some.injEq, Prod.mk.injEq] at hs
    obtain ⟨-, rfl, rfl⟩ := hs
    exact ⟨rfl, hexit, fun h => h.congr id rfl id rfl rfl rfl, hkeeps rfl rfl⟩
  | exit exitCode =>
    simp only [event, Option.ite_none_right_eq_some, Option.some.injEq, Prod.mk.injEq] at hs
    obtain ⟨hio, rfl, rfl⟩ := hs
    refine ⟨rfl, fun _ hio => (nomatch hio), fun h => ?_, hkeeps rfl rfl⟩
    refine h.mono id rfl id rfl rfl fun hpending => ?_
    rw [hio] at hpending
    cases hpending
  | proceed c =>
    obtain ⟨t, hstep, hr⟩ := Option.map_eq_some_iff.mp hs
    obtain ⟨rfl, rfl⟩ := Prod.mk.inj hr
    refine ⟨rfl, ioStep_exitSnapshot hstep hexit, fun h => ioStep_settled hstep h hexit, ?_⟩
    intro y hy
    rcases ioStep_exitCode hstep with h | hcode
    · exact .inl h
    · exact hkeeps (ioStep_kept hstep).1 hcode y hy
  | kill =>
    cases hs
    exact ⟨rfl, hexit, fun h => h.congr (fun _ => rfl) rfl id rfl rfl rfl, hkeeps rfl rfl⟩

/-- What is not settled, a flush is on its way to see to. -/
def Covered (p : Pool (LiveSession T) Task) : Prop :=
  p.Covered Settled (fun s x => x.pending s = true) ∧ ExitSnapshot p.shared

theorem covered_init {p : Pool (LiveSession T) Task} (h : (tasking E infer).machine.init p) :
    Covered p := by
  obtain ⟨⟨id, name, createdAt, commandKind, size, store, push, hs⟩, -⟩ := h
  rw [Covered, hs]
  exact ⟨.inl (.inr (.inr (.inl (congrArg (·.persistDirty) hs)))), fun _ hio => (nomatch hio)⟩

theorem covered_step {p q : Pool (LiveSession T) Task} {a : Move Task Choice Event}
    (hp : Covered p) (hc : unspoiled p a = true) (hs : (tasking E infer).machine.step a p = some q) :
    Covered q := by
  obtain ⟨hcovered, hexit⟩ := hp
  cases Tasking.stepped_of_step hs with
  | keep e s' hr =>
    obtain ⟨-, hexit', hsettled, hpending⟩ := event_settled hr hexit
    refine ⟨?_, hexit'⟩
    rcases hcovered with h | ⟨i, x, hx, hP⟩
    · exact .inl (hsettled h)
    · exact (hpending x hP).imp_right fun h => ⟨i, x, hx, h⟩
  | clear e s' hr => cases (event_settled hr hexit).1
  | drop i x hx hcancellable => cases hcancellable
  | spawn i x hx hi =>
    refine ⟨hcovered.imp_right ?_, hexit⟩
    rintro ⟨j, y, hy, hP⟩
    refine ⟨j, y, ?_, hP⟩
    rw [Pool.setTask_task, if_neg, hy]
    rintro rfl
    cases hi.symm.trans hy
  | advance i c x x' s' hx hr =>
    obtain ⟨hring, -, hcode, hio⟩ := (advance_effect hr).kept
    have hown : Settled s' ∨ x'.pending s' = true ∨
        ∃ j y, j ≠ i ∧ p.task j = some y ∧ y.pending p.shared = true := by
      rcases hcovered with h | ⟨j, y, hy, hP⟩
      · rcases advance_settled hr h with h | h | ⟨stored, hstoring, hok, hold, hdirty, hrow, hpending⟩
        · exact .inl h
        · exact .inr (.inl h)
        · simp only [unspoiled, hx, Option.all_some, hstoring, hok, hold, hdirty, hrow, hpending,
            Bool.not_true, Bool.or_false, Bool.false_or, Bool.not_eq_true'] at hc
          have hothers := of_decide_eq_false hc
          simp only [Pool.Lacks, not_forall] at hothers
          obtain ⟨j, y, hy, hnot⟩ := hothers
          rw [Bool.not_eq_false, Bool.and_eq_true, decide_eq_true_eq] at hnot
          exact .inr (.inr ⟨j, y, hnot.1, hy, hnot.2⟩)
      · by_cases hji : j = i
        · subst hji
          obtain rfl := Option.some.inj (hx.symm.trans hy)
          exact (advance_pending hr hP).imp_right .inl
        · exact .inr (.inr ⟨j, y, hji, hy, hP⟩)
    refine ⟨?_, fun pc hpc hreturned => ?_⟩
    · rcases hown with h | h | ⟨j, y, hji, hy, hP⟩
      · exact .inl h
      · exact .inr ⟨i, x', by rw [Pool.setTask_task, if_pos rfl], h⟩
      · refine .inr ⟨j, y, ?_, (Task.pending_congr hring hcode).trans hP⟩
        rw [Pool.setTask_task, if_neg hji]
        exact hy
    · rw [Pool.setTask_shared, Pool.setShared_shared] at hpc ⊢
      rw [SavePc.pending_congr hring hcode]
      exact hexit pc (hio ▸ hpc) hreturned

/-- While nothing is in flight, the row of a session that has a store and was not killed is up to
date, or the session is marked. -/
theorem persisted {p : Pool (LiveSession T) Task}
    (h : (tasking E infer).machine.ReachableWhen (fun p a => unspoiled p a = true) p)
    (hstore : p.shared.row ≠ none) (halive : p.shared.killed = false)
    (hio : p.shared.io.inFlight = false) (hflush : p.Lacks fun _ x => x.inFlight) :
    (∃ stored, p.shared.row = some (some stored) ∧
        (stored.scrollbackStartSeq, stored.scrollback) = p.shared.ring.snapshot ∧
        stored.exitCode = p.shared.exitCode) ∨ p.shared.persistDirty = true := by
  obtain ⟨hsettled | ⟨i, x, hx, hpending⟩, -⟩ := h.invariant (fun _ => covered_init)
    fun _ _ _ hp hc hs => covered_step hp hc hs
  · rcases hsettled with h | h | h | h | h
    · cases halive.symm.trans h
    · exact absurd h hstore
    · exact .inr h
    · left
      obtain ⟨row, hrow, h⟩ := (Option.any_eq_true _ _).mp h
      obtain ⟨stored, rfl, h⟩ := (Option.any_eq_true _ _).mp h
      obtain ⟨hsnapshot, hcode⟩ := Bool.and_eq_true_iff.mp h
      exact ⟨stored, hrow, of_decide_eq_true hsnapshot, of_decide_eq_true hcode⟩
    · cases hio.symm.trans (IoPc.inFlight_of_pending h)
  · cases x with
    | flush pc =>
      cases pc with
      | persisting pc => cases hflush i _ hx
      | swapping | returned => cases hpending
    | input | idle | hook | resize | attach => cases hpending

/-- A flush overlaps with a chunk, the exit stores the chunk and the exit code, and the flush at the
shutdown finds nothing to do. -/
theorem persisted_run :
    ∃ p : Pool (LiveSession Nat) Task, p.shared.exitCode = some 1 ∧ p.shared.stream = [97] ∧
      ((∃ stored, p.shared.row = some (some stored) ∧
          (stored.scrollbackStartSeq, stored.scrollback) = p.shared.ring.snapshot ∧
          stored.exitCode = p.shared.exitCode) ∨ p.shared.persistDirty = true) := by
  obtain ⟨p, hr, ⟨hstore, halive, hio, hflush⟩, hcode, hstream⟩ :=
    (tasking queryTerminal noInfer).machine.exists_reachable_of_exec
      (fun p a => unspoiled p a = true)
      (fun p => (p.shared.row ≠ none ∧ p.shared.killed = false ∧ p.shared.io.inFlight = false ∧
        p.Lacks fun _ x => x.inFlight) ∧ p.shared.exitCode = some 1 ∧ p.shared.stream = [97])
      (List.flatten [[.spawn 0 (.flush .swapping)], Move.repeated 4 0 ⟨0, true⟩,
        [.environment (.read [97])], List.replicate 6 (.environment (.proceed ⟨0, true⟩)),
        Move.repeated 2 0 ⟨0, true⟩,
        [.environment (.exit 1)], List.replicate 11 (.environment (.proceed ⟨0, true⟩)),
        [.spawn 1 (.flush .swapping), .advance 1 ⟨0, true⟩]])
      (opened_init queryTerminal noInfer .unknown) (by decide)
  exact ⟨p, hcode, hstream, persisted hr hstore halive hio hflush⟩

/-- A flush takes its snapshot before the exit and stores it after `mark_exited` has stored its own:
the row has no exit code, and nothing is marked. -/
theorem flush_forgets_exit :
    ¬ ∀ p : Pool (LiveSession Nat) Task, (tasking queryTerminal noInfer).machine.Reachable p →
      p.shared.row ≠ none → p.shared.killed = false → p.shared.io.inFlight = false →
      (p.Lacks fun _ x => x.inFlight) →
      (∃ stored, p.shared.row = some (some stored) ∧
          (stored.scrollbackStartSeq, stored.scrollback) = p.shared.ring.snapshot ∧
          stored.exitCode = p.shared.exitCode) ∨ p.shared.persistDirty = true := by
  intro hall
  obtain ⟨p, hr, ⟨hstore, halive, hio, hflush⟩, hcode, hold, hdirty⟩ :=
    (tasking queryTerminal noInfer).machine.exists_reachable_of_exec Machine.Any
      (fun p => (p.shared.row ≠ none ∧ p.shared.killed = false ∧ p.shared.io.inFlight = false ∧
        p.Lacks fun _ x => x.inFlight) ∧ p.shared.exitCode = some 1 ∧
        (p.shared.row.any fun row => row.any fun stored => stored.exitCode = none) = true ∧
        p.shared.persistDirty = false)
      (List.flatten [[.spawn 0 (.flush .swapping)], Move.repeated 4 0 ⟨0, true⟩,
        [.environment (.exit 1)], List.replicate 11 (.environment (.proceed ⟨0, true⟩)),
        Move.repeated 2 0 ⟨0, true⟩])
      (opened_init queryTerminal noInfer .unknown) (by decide)
  rcases hall p hr hstore halive hio hflush with ⟨stored, hrow, -, hstored⟩ | hmarked
  · rw [hrow] at hold
    have hnone : stored.exitCode = none := of_decide_eq_true hold
    cases (hnone.symm.trans hstored).trans hcode
  · cases hdirty.symm.trans hmarked

end Shelly.Daemon.Live
