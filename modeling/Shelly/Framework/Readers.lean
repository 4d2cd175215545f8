import Shelly.Framework.Pool

namespace Shelly.Tasking

variable {σ τ κ ε υ : Type*}

/-- The same tasks, beside others that only read the shared state. -/
def beside (T : Tasking σ τ κ ε) (start : υ → Bool) (read : σ → υ → Option υ) :
    Tasking σ (τ ⊕ υ) κ ε where
  init := T.init
  start := Sum.elim T.start start
  cancellable := Sum.elim T.cancellable fun _ => false
  advance c i
    | .inl x, s => (T.advance c i x s).map fun r => (r.1, .inl r.2)
    | .inr y, s => (read s y).map fun y' => (s, .inr y')
  environment := T.environment

variable {T : Tasking σ τ κ ε} {start : υ → Bool} {read : σ → υ → Option υ}
  {C : Pool σ (τ ⊕ υ) → Move (τ ⊕ υ) κ ε → Prop} {G : σ → Prop} {L : σ → Nat → τ → Prop}
  {R : σ → Nat → υ → Prop}

/-- Tasks that do not disturb each other need not care who reads. What is left to show is that
a reader keeps its own property, and that the tasks and the surroundings keep it for him. -/
theorem Noninterference.beside (N : Noninterference T Machine.Any G L)
    (hfresh : ∀ p i y, C p (.spawn i (.inr y)) → G p.shared → start y = true → R p.shared i y)
    (hread : ∀ p i c y y', C p (.advance i c) → G p.shared → p.task i = some (.inr y) →
      R p.shared i y → read p.shared y = some y' → R p.shared i y')
    (hadvance : ∀ p i c x s' x', C p (.advance i c) → G p.shared → p.task i = some (.inl x) →
      L p.shared i x → T.advance c i x p.shared = some (s', x') →
      ∀ j y, p.task j = some (.inr y) → R p.shared j y → R s' j y)
    (henvironment : ∀ p e s', C p (.environment e) → G p.shared →
      T.environment e p.shared = some (s', true) → ∀ j y, p.task j = some (.inr y) →
      R p.shared j y → R s' j y) :
    Noninterference (T.beside start read) C G fun s i => Sum.elim (L s i) (R s i) where
  init := N.init
  fresh p i x hc hG hx := by
    cases x with
    | inl x => exact N.fresh (.empty p.shared) i x trivial hG hx
    | inr y => exact hfresh p i y hc hG hx
  own p i c x s' x' hc hG hi hL hr := by
    cases x with
    | inl x =>
      obtain ⟨⟨s₁, x₁⟩, hs, he⟩ := Option.map_eq_some_iff.mp hr
      obtain ⟨rfl, rfl⟩ := Prod.mk.inj he
      exact N.own ((Pool.empty p.shared).setTask i x) i c x _ _ trivial hG
        (Table.lookup_insert_self _ _ _) hL hs
    | inr y =>
      obtain ⟨y', hy, he⟩ := Option.map_eq_some_iff.mp hr
      obtain ⟨rfl, rfl⟩ := Prod.mk.inj he
      exact ⟨hG, hread p i c y y' hc hG hi hL hy⟩
  others p i c x s' x' hc hG hi hL hr j z hji hj hz := by
    cases x with
    | inl x =>
      obtain ⟨⟨s₁, x₁⟩, hs, he⟩ := Option.map_eq_some_iff.mp hr
      obtain ⟨rfl, rfl⟩ := Prod.mk.inj he
      cases z with
      | inl z =>
        -- The two tasks alone, since the others do not matter to them.
        let pair : Pool σ τ := ((Pool.empty p.shared).setTask j z).setTask i x
        have hpair : pair.task j = some z := by
          rw [Pool.setTask_task, if_neg hji, Pool.setTask_task, if_pos rfl]
        exact N.others pair i c x _ _ trivial hG (Table.lookup_insert_self _ _ _) hL hs j z hji
          hpair hz
      | inr z => exact hadvance p i c x _ _ hc hG hi hL hs j z hj hz
    | inr y =>
      obtain ⟨y', -, he⟩ := Option.map_eq_some_iff.mp hr
      obtain ⟨rfl, rfl⟩ := Prod.mk.inj he
      exact hz
  environment p e s' keep hc hG hr := by
    obtain ⟨hG', hkept⟩ := N.environment (.empty p.shared) e s' keep trivial hG hr
    refine ⟨hG', fun hk j z hj hz => ?_⟩
    subst hk
    cases z with
    | inl z =>
      exact (N.environment ((Pool.empty p.shared).setTask j z) e s' true trivial hG hr).2 rfl j z
        (Table.lookup_insert_self _ _ _) hz
    | inr z => exact henvironment p e s' hc hG hr j z hj hz

end Shelly.Tasking
