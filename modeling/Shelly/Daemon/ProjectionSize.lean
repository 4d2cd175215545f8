import Shelly.Daemon.LiveSteps

namespace Shelly.Daemon

variable {T : Type*} {E : Emulator T} {infer : StateInfer}

namespace TerminalProjection

/-- The model inside has the size of the projection. -/
def Uniform (p : TerminalProjection T) : Prop := ∀ m, p.model = some m → m.size = p.size

variable {p : TerminalProjection T}

theorem uniform_new (size : ClientSize) : (new E size).Uniform := by
  rintro m ⟨⟩
  rfl

theorem advanceBytes_size {position : Nat} {bytes : List UInt8} {m m' : TerminalModel T}
    {r r' : Responder} (h : m.advanceBytes E position bytes r = (r', some m')) :
    m'.size = m.size := by
  induction bytes generalizing position m r with
  | nil =>
    cases h
    rfl
  | cons byte bytes ih =>
    simp only [TerminalModel.advanceBytes] at h
    split at h
    · cases h
    · exact (ih h).trans rfl

theorem ingest_size (position : Nat) (bytes : List UInt8) (r : Responder) :
    (p.ingest E position bytes r).2.1.size = p.size := by
  unfold ingest
  split
  · rfl
  · split <;> rfl

theorem Uniform.ingest (h : p.Uniform) (position : Nat) (bytes : List UInt8) (r : Responder) :
    (p.ingest E position bytes r).2.1.Uniform := by
  unfold TerminalProjection.ingest
  split
  · exact h
  · rename_i m hm
    split
    · rintro m' ⟨⟩
    · rename_i heq
      rintro m' ⟨⟩
      exact (advanceBytes_size heq).trans (h m hm)

theorem lastNonEmptyLine_size (maxChars : Nat) :
    (p.lastNonEmptyLine E maxChars).2.size = p.size := by
  unfold lastNonEmptyLine
  split
  · rfl
  · split
    · rfl
    · split <;> rfl

theorem resize_size (size : ClientSize) : (p.resize E size).2.size = size := by
  unfold resize
  split
  · rfl
  · split <;> rfl

theorem uniform_resize (size : ClientSize) : (p.resize E size).2.Uniform := by
  unfold resize
  split
  · rename_i hm
    intro m hm'
    cases hm.symm.trans hm'
  · split
    · rename_i heq
      rintro m' ⟨⟩
      obtain ⟨t, -, rfl⟩ := Option.map_eq_some_iff.mp heq
      rfl
    · rintro m' ⟨⟩

theorem rebuild_size (start : Nat) (scrollback : List UInt8) (r : Responder) :
    (p.rebuild E start scrollback r).2.1.size = p.size := by
  unfold rebuild
  split <;> rfl

theorem uniform_rebuild (start : Nat) (scrollback : List UInt8) (r : Responder) :
    (p.rebuild E start scrollback r).2.1.Uniform := by
  unfold rebuild
  split
  · rename_i heq
    rintro m' ⟨⟩
    exact advanceBytes_size heq
  · rintro m' ⟨⟩

end TerminalProjection

namespace Live

variable {c : Choice} {x x' : Task} {e : Event} {s s' : LiveSession T} {keep : Bool}

/-- Only a resize changes the size of the projection. -/
theorem advance_size (hx : ∀ size pc, x ≠ .resize size pc) (h : advance E c x s = some (s', x')) :
    s'.terminal.size = s.terminal.size := by
  cases x with
  | resize size pc => exact absurd rfl (hx size pc)
  | input pc =>
    obtain ⟨⟨t, pc'⟩, hs, hr⟩ := Option.map_eq_some_iff.mp h
    obtain ⟨rfl, -⟩ := Prod.mk.inj hr
    cases pc with
    | sending bytes => simp only [inputStep] at hs; split at hs <;> cases hs <;> rfl
    | checking => cases hs; rfl
    | setting => cases hs; simp
    | returned error => cases hs
  | idle pc =>
    obtain ⟨⟨t, pc'⟩, hs, hr⟩ := Option.map_eq_some_iff.mp h
    obtain ⟨rfl, -⟩ := Prod.mk.inj hr
    cases pc with
    | checking | measuring | comparing => cases hs; rfl
    | setting => cases hs; simp
    | stopped => cases hs
  | hook call pc =>
    obtain ⟨⟨t, pc'⟩, hs, hr⟩ := Option.map_eq_some_iff.mp h
    obtain ⟨rfl, -⟩ := Prod.mk.inj hr
    cases pc with
    | checking | caching | dirtying | reading => cases hs; rfl
    | lining => simp only [hookStep] at hs; split at hs <;> cases hs <;> rfl
    | setting => cases hs; simp
    | returned result => cases hs
  | attach lastSeenSeq pc =>
    obtain ⟨⟨t, pc'⟩, hs, hr⟩ := Option.map_eq_some_iff.mp h
    obtain ⟨rfl, -⟩ := Prod.mk.inj hr
    cases pc with
    | rendering =>
      simp only [attachStep] at hs
      split at hs
      · cases hs; rfl
      · split at hs
        · split at hs <;> cases hs <;> rfl
        · cases hs; rfl
    | rebuilding endSeq scrollback => cases hs; exact TerminalProjection.rebuild_size ..
    | rerendering endSeq scrollback => cases hs; rfl
    | returned result => cases hs
  | flush pc =>
    obtain ⟨⟨t, pc'⟩, hs, hr⟩ := Option.map_eq_some_iff.mp h
    obtain ⟨rfl, -⟩ := Prod.mk.inj hr
    rcases pc with _ | (_ | _ | _ | stored | ok) | _
    · cases hs; rfl
    · cases hs; rfl
    · cases hs; rfl
    · cases hs; rfl
    · obtain ⟨⟨t, pc'⟩, hsave, hr⟩ := Option.map_eq_some_iff.mp hs
      obtain ⟨rfl, -⟩ := Prod.mk.inj hr
      simp only [saveStep] at hsave
      split at hsave <;> cases hsave <;> rfl
    · cases hs; rfl
    · cases hs

theorem event_size (h : event E infer e s = some (s', keep)) :
    s'.terminal.size = s.terminal.size := by
  cases e with
  | read bytes =>
    obtain ⟨-, hr⟩ := Option.ite_none_right_eq_some.mp h
    obtain ⟨rfl, -⟩ := Prod.mk.inj (Option.some.inj hr)
    exact TerminalProjection.ingest_size ..
  | drain | exit =>
    obtain ⟨-, hr⟩ := Option.ite_none_right_eq_some.mp h
    cases hr
    rfl
  | kill => cases h; rfl
  | proceed c =>
    obtain ⟨t, hs, hr⟩ := Option.map_eq_some_iff.mp h
    obtain ⟨rfl, -⟩ := Prod.mk.inj hr
    unfold ioStep at hs
    cases hio : s.io with
    | reading | exited => rw [hio] at hs; cases hs
    | rebuilding bytes seq scrollback =>
      rw [hio] at hs
      cases hs
      exact TerminalProjection.rebuild_size ..
    | inspecting bytes seq =>
      rw [hio] at hs
      dsimp only at hs
      split at hs <;> cases hs
      · rfl
      · exact TerminalProjection.lastNonEmptyLine_size 80
    | exiting exitCode =>
      rw [hio] at hs
      dsimp only at hs
      split at hs <;> cases hs <;> rfl
    | settingState | reporting =>
      rw [hio] at hs
      cases hs
      split <;> simp [LiveSession.sendPush]
    | persisting pc =>
      rw [hio] at hs
      cases pc with
      | saving stored =>
        obtain ⟨⟨t, pc'⟩, hsave, rfl⟩ := Option.map_eq_some_iff.mp hs
        simp only [saveStep] at hsave
        split at hsave <;> cases hsave <;> rfl
      | checking | capturing | completing | returned => cases hs; rfl
    | _ => rw [hio] at hs; cases hs; rfl

/-- Nothing that happens to a session ends its tasks. -/
theorem event_keeps (h : event E infer e s = some (s', keep)) : keep = true := by
  cases e with
  | read | drain | exit =>
    obtain ⟨-, hr⟩ := Option.ite_none_right_eq_some.mp h
    exact (Prod.mk.inj (Option.some.inj hr)).2.symm
  | proceed c =>
    obtain ⟨t, -, hr⟩ := Option.map_eq_some_iff.mp h
    exact (Prod.mk.inj hr).2.symm
  | kill => exact (Prod.mk.inj (Option.some.inj h)).2.symm

theorem uniform_advance (hs : s.terminal.Uniform) (h : advance E c x s = some (s', x')) :
    s'.terminal.Uniform := by
  cases advance_effect h with
  | setState now state line hx => simpa using hs
  | resize size => exact TerminalProjection.uniform_resize size
  | rebuild scrollback hx => exact TerminalProjection.uniform_rebuild _ _ _
  | same | enqueue | line | cache | dirty | store => exact hs

theorem uniform_event (hs : s.terminal.Uniform) (h : event E infer e s = some (s', keep)) :
    s'.terminal.Uniform := by
  have hsize := event_size h
  cases e with
  | read bytes =>
    obtain ⟨-, hr⟩ := Option.ite_none_right_eq_some.mp h
    obtain ⟨rfl, -⟩ := Prod.mk.inj (Option.some.inj hr)
    exact hs.ingest _ _ _
  | drain | exit =>
    obtain ⟨-, hr⟩ := Option.ite_none_right_eq_some.mp h
    cases hr
    exact hs
  | kill => cases h; exact hs
  | proceed c =>
    obtain ⟨t, hstep, hr⟩ := Option.map_eq_some_iff.mp h
    obtain ⟨rfl, -⟩ := Prod.mk.inj hr
    rcases ioStep_model hstep with ⟨bytes, seq, scrollback, -, rfl⟩ | ⟨hmodel, -⟩
    · exact TerminalProjection.uniform_rebuild _ _ _
    · intro m hm
      rw [hmodel] at hm
      exact (hs m hm).trans hsize.symm

end Live
end Shelly.Daemon
