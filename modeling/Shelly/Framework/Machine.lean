import Mathlib.Order.Basic
import Mathlib.Data.Option.Basic

namespace Shelly

/-- A transition machine. An action is a partial function of the state: `none`
means that the action cannot be taken there. -/
structure Machine (σ α : Type*) where
  init : σ → Prop
  step : α → σ → Option σ

namespace Machine

variable {σ α : Type*} (M : Machine σ α)

/-- Runs whose every action satisfies the guard in the state it is taken in. -/
inductive Run (C : σ → α → Prop) (s : σ) : σ → Prop
  | refl : Run C s s
  | snoc {t u : σ} (a : α) : Run C s t → C t a → M.step a t = some u → Run C s u

/-- States reached from an initial state by a guarded run. -/
def ReachableWhen (C : σ → α → Prop) (t : σ) : Prop := ∃ s, M.init s ∧ M.Run C s t

/-- No condition on the actions. -/
def Any : σ → α → Prop := fun _ _ => True

instance (t : σ) (a : α) : Decidable (Any t a) := isTrue trivial

/-- States reached by an arbitrary run. -/
def Reachable (t : σ) : Prop := M.ReachableWhen Any t

variable {M} {C D : σ → α → Prop} {s t : σ}

theorem Run.mono (hCD : ∀ t a, C t a → D t a) (h : M.Run C s t) : M.Run D s t := by
  induction h with
  | refl => exact .refl
  | snoc a _ hc hs ih => exact .snoc a ih (hCD _ _ hc) hs

theorem Run.trans {u : σ} (h : M.Run C s t) (h' : M.Run C t u) : M.Run C s u := by
  induction h' with
  | refl => exact h
  | snoc a _ hc hs ih => exact .snoc a ih hc hs

theorem ReachableWhen.reachable (h : M.ReachableWhen C t) : M.Reachable t := by
  obtain ⟨s, hi, hr⟩ := h
  exact ⟨s, hi, hr.mono (fun _ _ _ => trivial)⟩

/-- What every guarded step preserves, every guarded run preserves. -/
theorem Run.invariant {I : σ → Prop}
    (hstep : ∀ t a u, I t → C t a → M.step a t = some u → I u)
    (h : M.Run C s t) (hs : I s) : I t := by
  induction h with
  | refl => exact hs
  | snoc a _ hc ht ih => exact hstep _ a _ ih hc ht

theorem ReachableWhen.invariant {I : σ → Prop} (hinit : ∀ s, M.init s → I s)
    (hstep : ∀ t a u, I t → C t a → M.step a t = some u → I u)
    (h : M.ReachableWhen C t) : I t := by
  obtain ⟨s, hi, hr⟩ := h
  exact hr.invariant hstep (hinit s hi)

/-- A quantity that no step lowers is at least its value at every earlier state. -/
theorem Run.monotone {β : Type*} [Preorder β] {f : σ → β}
    (hstep : ∀ t a u, M.step a t = some u → f t ≤ f u) (h : M.Run C s t) : f s ≤ f t := by
  induction h with
  | refl => exact le_refl _
  | snoc a _ _ ht ih => exact ih.trans (hstep _ a _ ht)

section Watched

variable {ω : Type*} {start : σ → ω} {update : α → σ → σ → ω → ω}

/-- The machine with a history variable beside its state, which records what happens and
decides nothing. -/
def watched (M : Machine σ α) (start : σ → ω) (update : α → σ → σ → ω → ω) :
    Machine (σ × ω) α where
  init p := M.init p.1 ∧ p.2 = start p.1
  step a p := (M.step a p.1).map fun t => (t, update a p.1 t p.2)

theorem watched_init (h : M.init s) : (M.watched start update).init (s, start s) := ⟨h, rfl⟩

theorem watched_step {p q : σ × ω} {a : α} (h : (M.watched start update).step a p = some q) :
    M.step a p.1 = some q.1 ∧ q.2 = update a p.1 q.1 p.2 := by
  obtain ⟨t, ht, rfl⟩ := Option.map_eq_some_iff.mp h
  exact ⟨ht, rfl⟩

/-- A watched run is a run. -/
theorem ReachableWhen.of_watched {p : σ × ω}
    (h : (M.watched start update).ReachableWhen (fun p a => C p.1 a) p) :
    M.ReachableWhen C p.1 := by
  obtain ⟨s, hi, hr⟩ := h
  refine ⟨s.1, hi.1, ?_⟩
  induction hr with
  | refl => exact .refl
  | snoc a _ hc hs ih => exact .snoc a ih hc (watched_step hs).1

/-- Every run can be watched. -/
theorem ReachableWhen.watched (start : σ → ω) (update : α → σ → σ → ω → ω)
    (h : M.ReachableWhen C t) :
    ∃ w, (M.watched start update).ReachableWhen (fun p a => C p.1 a) (t, w) := by
  obtain ⟨s, hi, hr⟩ := h
  induction hr with
  | refl => exact ⟨start s, (s, start s), ⟨hi, rfl⟩, .refl⟩
  | snoc a _ hc hs ih =>
    obtain ⟨w, p, hp, hrun⟩ := ih
    exact ⟨_, p, hp, .snoc a hrun hc (by simp only [Machine.watched, hs]; rfl)⟩

end Watched

section Exec

variable (M) (C) in
/-- Plays a list of actions, checking the guard at each one. -/
def exec [∀ (t : σ) (a : α), Decidable (C t a)] : List α → σ → Option σ
  | [], s => some s
  | a :: as, s => if C s a then (M.step a s).bind (exec as) else none

variable [∀ (t : σ) (a : α), Decidable (C t a)]

theorem exec_any_cons (a : α) (as : List α) :
    M.exec Any (a :: as) s = (M.step a s).bind (M.exec Any as) := if_pos trivial

theorem exec_run {as : List α} (h : M.exec C as s = some t) : M.Run C s t := by
  suffices key : ∀ r, M.Run C r s → M.Run C r t from key s .refl
  induction as generalizing s with
  | nil =>
    intro r hr
    simp only [exec, Option.some.injEq] at h
    exact h ▸ hr
  | cons a as ih =>
    intro r hr
    rw [exec] at h
    split at h
    · rename_i hc
      obtain ⟨u, hu, ht⟩ := Option.bind_eq_some_iff.mp h
      exact ih ht r (hr.snoc a hc hu)
    · cases h

variable (C) in
/-- A played trace shows that some reachable state has a decidable property. -/
theorem exists_reachable_of_exec (p : σ → Prop) [DecidablePred p] (as : List α) (hi : M.init s)
    (h : (M.exec C as s).any p = true) : ∃ t, M.ReachableWhen C t ∧ p t := by
  cases he : M.exec C as s with
  | none => simp [he] at h
  | some t => exact ⟨t, ⟨s, hi, exec_run he⟩, by simpa [he] using h⟩

variable (C) in
/-- A played trace with a stop on the way, from where on another guard is checked. -/
theorem exists_run_of_exec_guarded (D : σ → α → Prop) [∀ (t : σ) (a : α), Decidable (D t a)]
    (p q : σ → Prop) [DecidablePred p] [DecidablePred q] (as bs : List α) (hi : M.init s)
    (h : (M.exec C as s).any (fun t => p t ∧ (M.exec D bs t).any (fun u => q u) = true) = true) :
    ∃ t u, M.ReachableWhen C t ∧ p t ∧ M.Run D t u ∧ q u := by
  obtain ⟨t, ht, hp, hq⟩ := M.exists_reachable_of_exec C
    (fun t => p t ∧ (M.exec D bs t).any (fun u => q u) = true) as hi h
  cases he : M.exec D bs t with
  | none => simp [he] at hq
  | some u => exact ⟨t, u, ht, hp, exec_run he, by simpa [he] using hq⟩

variable (C) in
/-- A played trace with a stop on the way. -/
theorem exists_run_of_exec (p q : σ → Prop) [DecidablePred p] [DecidablePred q] (as bs : List α)
    (hi : M.init s)
    (h : (M.exec C as s).any (fun t => p t ∧ (M.exec C bs t).any (fun u => q u) = true) = true) :
    ∃ t u, M.ReachableWhen C t ∧ p t ∧ M.Run C t u ∧ q u :=
  M.exists_run_of_exec_guarded C C p q as bs hi h

end Exec

end Machine
end Shelly
