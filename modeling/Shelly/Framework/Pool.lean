import Shelly.Framework.Machine
import Shelly.Framework.Table

namespace Shelly

/-- Tasks running over one shared state. A finished task keeps its slot, so a
task number names one task for ever. -/
structure Pool (σ τ : Type*) where
  shared : σ
  tasks : Table Nat τ

/-- What can happen next: a new task starts, a task takes one atomic step, a task
is abandoned where it stands, or the surroundings act on the shared state. -/
inductive Move (τ κ ε : Type*)
  | spawn (i : Nat) (x : τ)
  | advance (i : Nat) (c : κ)
  | drop (i : Nat)
  | environment (e : ε)

/-- A task takes the same kind of step several times. -/
def Move.repeated {τ κ ε : Type*} (n i : Nat) (c : κ) : List (Move τ κ ε) :=
  List.replicate n (.advance i c)

/-- The programs of the tasks and the surroundings they run in. A task can be dropped
where it is `cancellable`. `environment` says for each of its actions whether the
tasks survive it. -/
structure Tasking (σ τ κ ε : Type*) where
  init : σ → Prop
  start : τ → Bool
  cancellable : τ → Bool
  advance : κ → Nat → τ → σ → Option (σ × τ)
  environment : ε → σ → Option (σ × Bool)

namespace Pool

variable {σ τ κ ε : Type*}

/-- No task is running. -/
def empty (s : σ) : Pool σ τ := ⟨s, .empty⟩

def task (p : Pool σ τ) (i : Nat) : Option τ := p.tasks.lookup i

def setTask (p : Pool σ τ) (i : Nat) (x : τ) : Pool σ τ :=
  { p with tasks := p.tasks.insert i x }

def dropTask (p : Pool σ τ) (i : Nat) : Pool σ τ := { p with tasks := p.tasks.erase i }

def setShared (p : Pool σ τ) (s : σ) : Pool σ τ := { p with shared := s }

/-- No task satisfies the test. -/
def Lacks (p : Pool σ τ) (q : Nat → τ → Bool) : Prop := ∀ i x, p.task i = some x → q i x = false

/-- Any two tasks are in the relation. -/
def Pairwise (R : τ → τ → Prop) (p : Pool σ τ) : Prop :=
  ∀ i j x y, i ≠ j → p.task i = some x → p.task j = some y → R x y

/-- It holds, or a task is on its way to see to it. -/
def Covered (A : σ → Prop) (P : σ → τ → Prop) (p : Pool σ τ) : Prop :=
  A p.shared ∨ ∃ i x, p.task i = some x ∧ P p.shared x

instance (p : Pool σ τ) (q : Nat → τ → Bool) : Decidable (p.Lacks q) :=
  decidable_of_iff (∀ e ∈ p.tasks.entries, q e.1 e.2 = false) <| by
    constructor
    · intro h i x hx
      exact h ⟨i, x⟩ (Table.mem_entries.mpr hx)
    · intro h e he
      exact h e.1 e.2 (Table.mem_entries.mp he)

@[simp] theorem setTask_shared (p : Pool σ τ) (i : Nat) (x : τ) :
    (p.setTask i x).shared = p.shared := rfl

@[simp] theorem dropTask_shared (p : Pool σ τ) (i : Nat) : (p.dropTask i).shared = p.shared := rfl

@[simp] theorem setShared_shared (p : Pool σ τ) (s : σ) : (p.setShared s).shared = s := rfl

@[simp] theorem setShared_task (p : Pool σ τ) (s : σ) (i : Nat) :
    (p.setShared s).task i = p.task i := rfl

@[simp] theorem empty_task (s : σ) (i : Nat) : (empty s : Pool σ τ).task i = none :=
  Table.lookup_empty i

theorem setTask_task (p : Pool σ τ) (i j : Nat) (x : τ) :
    (p.setTask i x).task j = if j = i then some x else p.task j := Table.lookup_insert _ _ _ _

theorem dropTask_task (p : Pool σ τ) (i j : Nat) :
    (p.dropTask i).task j = if j = i then none else p.task j := Table.lookup_erase _ _ _

/-- Some task has the property: a chosen one, or one of the others. -/
theorem exists_task_iff {p : Pool σ τ} {i : Nat} {x : τ} (h : p.task i = some x) (P : τ → Prop) :
    (∃ j y, p.task j = some y ∧ P y) ↔ P x ∨ ∃ j y, j ≠ i ∧ p.task j = some y ∧ P y := by
  constructor
  · rintro ⟨j, y, hy, hP⟩
    by_cases hji : j = i
    · subst hji
      obtain rfl := Option.some.inj (h.symm.trans hy)
      exact .inl hP
    · exact .inr ⟨j, y, hji, hy, hP⟩
  · rintro (hP | ⟨j, y, -, hy, hP⟩)
    · exact ⟨i, x, h, hP⟩
    · exact ⟨j, y, hy, hP⟩

theorem exists_setTask_iff {p : Pool σ τ} {i : Nat} {x : τ} (P : τ → Prop) :
    (∃ j y, (p.setTask i x).task j = some y ∧ P y) ↔
      P x ∨ ∃ j y, j ≠ i ∧ p.task j = some y ∧ P y := by
  have hi : (p.setTask i x).task i = some x := by rw [setTask_task, if_pos rfl]
  rw [exists_task_iff hi]
  have hothers (j : Nat) (hj : j ≠ i) : (p.setTask i x).task j = p.task j := by
    rw [setTask_task, if_neg hj]
  constructor
  · rintro (hP | ⟨j, y, hj, hy, hP⟩)
    · exact .inl hP
    · exact .inr ⟨j, y, hj, hothers j hj ▸ hy, hP⟩
  · rintro (hP | ⟨j, y, hj, hy, hP⟩)
    · exact .inl hP
    · exact .inr ⟨j, y, hj, (hothers j hj).trans hy, hP⟩

/-- A task that is new and lacks the property changes nothing about the others. -/
theorem exists_spawn_iff {p : Pool σ τ} {i : Nat} {x : τ} (h : p.task i = none) {P : τ → Prop}
    (hx : ¬ P x) :
    (∃ j y, (p.setTask i x).task j = some y ∧ P y) ↔ ∃ j y, p.task j = some y ∧ P y := by
  rw [exists_setTask_iff]
  constructor
  · rintro (hP | ⟨j, y, -, hy, hP⟩)
    · exact absurd hP hx
    · exact ⟨j, y, hy, hP⟩
  · rintro ⟨j, y, hy, hP⟩
    refine .inr ⟨j, y, ?_, hy, hP⟩
    rintro rfl
    cases h.symm.trans hy

end Pool

namespace Tasking

variable {σ τ κ ε : Type*} (T : Tasking σ τ κ ε)

/-- The machine that interleaves the tasks in every order. -/
def machine : Machine (Pool σ τ) (Move τ κ ε) where
  init p := T.init p.shared ∧ ∀ i, p.task i = none
  step
    | .spawn i x, p =>
      if T.start x && (p.task i).isNone then some (p.setTask i x) else none
    | .advance i c, p =>
      (p.task i).bind fun x =>
        (T.advance c i x p.shared).map fun r => (p.setShared r.1).setTask i r.2
    | .drop i, p => if (p.task i).any T.cancellable then some (p.dropTask i) else none
    | .environment e, p =>
      (T.environment e p.shared).map fun r =>
        if r.2 then p.setShared r.1 else Pool.empty r.1

variable {T}

theorem init_empty {s : σ} (h : T.init s) : T.machine.init (Pool.empty s) :=
  ⟨h, Pool.empty_task s⟩

/-- Everything a move can do. -/
inductive Stepped (T : Tasking σ τ κ ε) (p : Pool σ τ) : Move τ κ ε → Pool σ τ → Prop
  | spawn (i : Nat) (x : τ) : T.start x = true → p.task i = none →
      Stepped T p (.spawn i x) (p.setTask i x)
  | advance (i : Nat) (c : κ) (x x' : τ) (s' : σ) : p.task i = some x →
      T.advance c i x p.shared = some (s', x') →
      Stepped T p (.advance i c) ((p.setShared s').setTask i x')
  | drop (i : Nat) (x : τ) : p.task i = some x → T.cancellable x = true →
      Stepped T p (.drop i) (p.dropTask i)
  | keep (e : ε) (s' : σ) : T.environment e p.shared = some (s', true) →
      Stepped T p (.environment e) (p.setShared s')
  | clear (e : ε) (s' : σ) : T.environment e p.shared = some (s', false) →
      Stepped T p (.environment e) (Pool.empty s')

theorem stepped_of_step {p q : Pool σ τ} {a : Move τ κ ε}
    (h : T.machine.step a p = some q) : Stepped T p a q := by
  cases a with
  | spawn i x =>
    simp only [machine, Bool.and_eq_true, Option.isNone_iff_eq_none, Option.ite_none_right_eq_some,
      Option.some.injEq] at h
    obtain ⟨⟨hx, hi⟩, rfl⟩ := h
    exact .spawn i x hx hi
  | advance i c =>
    simp only [machine, Option.bind_eq_some_iff, Option.map_eq_some_iff] at h
    obtain ⟨x, hx, ⟨s', x'⟩, hr, rfl⟩ := h
    exact .advance i c x x' s' hx hr
  | drop i =>
    simp only [machine, Option.ite_none_right_eq_some, Option.some.injEq] at h
    obtain ⟨hi, rfl⟩ := h
    obtain ⟨x, hx, hc⟩ := (Option.any_eq_true _ _).mp hi
    exact .drop i x hx hc
  | environment e =>
    simp only [machine, Option.map_eq_some_iff] at h
    obtain ⟨⟨s', keep⟩, hr, rfl⟩ := h
    cases keep with
    | true => exact .keep e s' hr
    | false => exact .clear e s' hr

/-- A relation between the tasks survives a step when a fresh task is in it with every
other, and the task that moves with those that do not. -/
theorem pairwise_step {R : τ → τ → Prop} (hsymm : ∀ x y, R x y → R y x) {p q : Pool σ τ}
    {a : Move τ κ ε} (hp : p.Pairwise R) (hs : T.machine.step a p = some q)
    (hspawn : ∀ x y, T.start x = true → R x y)
    (hadvance : ∀ i c x s' x', a = .advance i c → p.task i = some x →
      T.advance c i x p.shared = some (s', x') →
      ∀ j y, j ≠ i → p.task j = some y → R x' y) : q.Pairwise R := by
  -- The new task `z` in slot `i`, against those that were there before.
  have hset {i : Nat} {z : τ} {s : σ} (hz : ∀ j y, j ≠ i → p.task j = some y → R z y) :
      ((p.setShared s).setTask i z).Pairwise R := by
    intro j k x y hjk hx hy
    rw [Pool.setTask_task] at hx hy
    split at hx <;> split at hy
    · exact absurd (‹j = i›.trans ‹k = i›.symm) hjk
    · obtain rfl := Option.some.inj hx
      exact hz k y ‹_› hy
    · obtain rfl := Option.some.inj hy
      exact hsymm _ _ (hz j x ‹_› hx)
    · exact hp j k x y hjk hx hy
  cases stepped_of_step hs with
  | spawn i x hx hi => exact hset (s := p.shared) fun j y _ _ => hspawn x y hx
  | advance i c x x' s' ht hr => exact hset (hadvance i c x s' x' rfl ht hr)
  | drop i x ht hx =>
    intro j k x y hjk hx hy
    rw [Pool.dropTask_task] at hx hy
    split at hx
    · cases hx
    · split at hy
      · cases hy
      · exact hp j k x y hjk hx hy
  | keep e s' hr => exact hp
  | clear e s' hr =>
    intro j k x y _ hx
    rw [Pool.empty_task] at hx
    cases hx

theorem pairwise_init {R : τ → τ → Prop} {p : Pool σ τ} (h : T.machine.init p) : p.Pairwise R :=
  fun i _ _ _ _ hx => by cases (h.2 i).symm.trans hx

/-- What is covered stays covered, if no task lets go of it and none is abandoned that is
on its way. -/
theorem covered_step {A : σ → Prop} {P : σ → τ → Prop} {p q : Pool σ τ} {a : Move τ κ ε}
    (hp : p.Covered A P) (hs : T.machine.step a p = some q)
    (hadvance : ∀ i c x s' x', a = .advance i c → p.task i = some x →
      T.advance c i x p.shared = some (s', x') →
      (A p.shared ∨ P p.shared x ∨ (∃ j y, j ≠ i ∧ p.task j = some y ∧ P p.shared y)) →
      A s' ∨ P s' x' ∨ ∃ j y, j ≠ i ∧ p.task j = some y ∧ P s' y)
    (hdrop : ∀ i x, a = .drop i → p.task i = some x → ¬ P p.shared x)
    (hkeep : ∀ e s', a = .environment e → T.environment e p.shared = some (s', true) →
      (A p.shared → A s') ∧ ∀ y, P p.shared y → P s' y)
    (hclear : ∀ e s', a = .environment e → T.environment e p.shared = some (s', false) → A s') :
    q.Covered A P := by
  cases stepped_of_step hs with
  | spawn i x hx hi =>
    refine hp.imp_right fun ⟨j, y, hy, hP⟩ => ⟨j, y, ?_, hP⟩
    rw [Pool.setTask_task, if_neg, hy]
    rintro rfl
    cases hi.symm.trans hy
  | advance i c x x' s' ht hr =>
    have hown : A s' ∨ P s' x' ∨ ∃ j y, j ≠ i ∧ p.task j = some y ∧ P s' y := by
      refine hadvance i c x s' x' rfl ht hr (hp.imp_right ?_)
      rintro ⟨j, y, hy, hP⟩
      by_cases hji : j = i
      · subst hji
        obtain rfl := Option.some.inj (ht.symm.trans hy)
        exact .inl hP
      · exact .inr ⟨j, y, hji, hy, hP⟩
    rcases hown with hA | hP | ⟨j, y, hji, hy, hP⟩
    · exact .inl hA
    · exact .inr ⟨i, x', by rw [Pool.setTask_task, if_pos rfl], hP⟩
    · refine .inr ⟨j, y, ?_, hP⟩
      rw [Pool.setTask_task, if_neg hji]
      exact hy
  | drop i x ht hx =>
    refine hp.imp_right fun ⟨j, y, hy, hP⟩ => ⟨j, y, ?_, hP⟩
    rw [Pool.dropTask_task, if_neg, hy]
    rintro rfl
    obtain rfl := Option.some.inj (ht.symm.trans hy)
    exact hdrop j x rfl ht hP
  | keep e s' hr =>
    obtain ⟨hA, hP⟩ := hkeep e s' rfl hr
    exact hp.imp hA fun ⟨j, y, hy, hy'⟩ => ⟨j, y, hy, hP y hy'⟩
  | clear e s' hr => exact .inl (hclear e s' rfl hr)

section Invariant

variable {C : Pool σ τ → Move τ κ ε → Prop}

/-- Interference freedom. `G` speaks of the shared state and `L` of one task
beside it. A step keeps `G`, leaves its own task in `L` and does not disturb the
`L` of the others; a fresh task is in `L` whatever the shared state. -/
structure Noninterference (T : Tasking σ τ κ ε) (C : Pool σ τ → Move τ κ ε → Prop)
    (G : σ → Prop) (L : σ → Nat → τ → Prop) : Prop where
  init : ∀ s, T.init s → G s
  fresh : ∀ p i x, C p (.spawn i x) → G p.shared → T.start x = true → L p.shared i x
  own : ∀ p i c x s' x', C p (.advance i c) → G p.shared → p.task i = some x →
    L p.shared i x → T.advance c i x p.shared = some (s', x') → G s' ∧ L s' i x'
  others : ∀ p i c x s' x', C p (.advance i c) → G p.shared → p.task i = some x →
    L p.shared i x → T.advance c i x p.shared = some (s', x') →
    ∀ j y, j ≠ i → p.task j = some y → L p.shared j y → L s' j y
  environment : ∀ p e s' keep, C p (.environment e) → G p.shared →
    T.environment e p.shared = some (s', keep) →
    G s' ∧ (keep = true → ∀ j y, p.task j = some y → L p.shared j y → L s' j y)

/-- The invariant of an interference-free tasking. -/
def Safe (G : σ → Prop) (L : σ → Nat → τ → Prop) (p : Pool σ τ) : Prop :=
  G p.shared ∧ ∀ i x, p.task i = some x → L p.shared i x

variable {G : σ → Prop} {L : σ → Nat → τ → Prop}

theorem Noninterference.step (N : Noninterference T C G L) {p q : Pool σ τ} {a : Move τ κ ε}
    (hp : Safe G L p) (hc : C p a) (hs : T.machine.step a p = some q) : Safe G L q := by
  cases stepped_of_step hs with
  | spawn i x hx hi =>
    refine ⟨hp.1, fun j y hy => ?_⟩
    rw [Pool.setTask_task] at hy
    split at hy
    · rename_i hji
      obtain rfl := Option.some.inj hy
      exact hji ▸ N.fresh p i x hc hp.1 hx
    · exact hp.2 j y hy
  | advance i c x x' s' hx hr =>
    obtain ⟨hG, hL⟩ := N.own p i c x s' x' hc hp.1 hx (hp.2 i x hx) hr
    refine ⟨hG, fun j y hy => ?_⟩
    rw [Pool.setTask_task] at hy
    split at hy
    · rename_i hji
      obtain rfl := Option.some.inj hy
      exact hji ▸ hL
    · rename_i hji
      exact N.others p i c x s' x' hc hp.1 hx (hp.2 i x hx) hr j y hji hy (hp.2 j y hy)
  | drop i x hx _ =>
    refine ⟨hp.1, fun j y hy => ?_⟩
    rw [Pool.dropTask_task] at hy
    split at hy
    · cases hy
    · exact hp.2 j y hy
  | keep e s' hr =>
    obtain ⟨hG, hL⟩ := N.environment p e s' true hc hp.1 hr
    exact ⟨hG, fun j y hy => hL rfl j y hy (hp.2 j y hy)⟩
  | clear e s' hr =>
    obtain ⟨hG, -⟩ := N.environment p e s' false hc hp.1 hr
    exact ⟨hG, fun j y hy => by rw [Pool.empty_task] at hy; cases hy⟩

theorem Noninterference.safe_init (N : Noninterference T C G L) {p : Pool σ τ}
    (h : T.machine.init p) : Safe G L p := by
  refine ⟨N.init _ h.1, fun i x hx => ?_⟩
  rw [h.2 i] at hx
  cases hx

theorem Noninterference.invariant (N : Noninterference T C G L) {p : Pool σ τ}
    (h : T.machine.ReachableWhen C p) : Safe G L p :=
  h.invariant (fun _ => N.safe_init) fun _ _ _ hp hc hs => N.step hp hc hs

/-- Interference freedom that rests on a relation `Q` between the tasks, which is an
invariant itself. -/
theorem Noninterference.invariant_with {Q : Pool σ τ → Prop}
    (N : Noninterference T (fun p a => C p a ∧ Q p) G L) (hinit : ∀ p, T.machine.init p → Q p)
    (hstep : ∀ p a q, Safe G L p → Q p → C p a → T.machine.step a p = some q → Q q)
    {p : Pool σ τ} (h : T.machine.ReachableWhen C p) : Safe G L p ∧ Q p :=
  h.invariant (I := fun p => Safe G L p ∧ Q p) (fun p hp => ⟨N.safe_init hp, hinit p hp⟩)
    fun p a q hp hc hs => ⟨N.step hp.1 ⟨hc, hp.2⟩ hs, hstep p a q hp.1 hp.2 hc hs⟩

end Invariant

end Tasking
end Shelly
