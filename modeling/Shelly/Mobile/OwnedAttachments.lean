import Shelly.Mobile.AttachmentOwners

namespace Shelly.Mobile.AttachmentOwners

open Custody

namespace State

variable {s s' : State}

def places (s : State) (y : Nat) : Nat :=
  held Controller.places s.controllers y + held Task.hands s.tasks y + s.destroyCalls.count y

def called (s : State) (y : Nat) : Nat :=
  held Controller.called s.controllers y + held Task.called s.tasks y + s.destroyCalls.count y

theorem places_affect (s : State) (e : Effects) (y : Nat) :
    (s.affect e).places y = s.places y + e.released.count y + e.destroyCalls.count y := by
  have hreleased : held Task.hands (e.released.map Task.releasing) y = e.released.count y := by
    rw [held_map]
    exact held_singletons e.released
  simp only [places, affect, held_append, List.count_append, hreleased]
  omega

theorem called_affect (s : State) (e : Effects) (y : Nat) :
    (s.affect e).called y = s.called y + e.destroyCalls.count y := by
  have hreleased : held Task.called (e.released.map Task.releasing) y = 0 := by
    rw [held_map]
    exact held_empty
  simp only [called, affect, held_append, List.count_append, hreleased]
  omega

/-- Every attachment that was obtained is in one place, what a detached controller still has will be
taken out, and what is destroyed was detached. -/
structure Kept (s : State) : Prop where
  places : ∀ y, s.places y = if y < s.obtained then 1 else 0
  tended : ∀ c ∈ s.controllers, c.Tended
  called : ∀ y, s.called y ≤ s.detachCalls.count y

theorem fresh_count (e : Effects) (n y : Nat) :
    (if y < n then 1 else 0) + (e.fresh n).count y =
      if y < n + e.attached.toNat then 1 else 0 := by
  unfold Effects.fresh
  cases e.attached with
  | false => simp
  | true =>
    rw [if_pos rfl, List.count_singleton, Bool.toNat_true]
    simp only [beq_iff_eq]
    split <;> split <;> split <;> omega

theorem Kept.create (h : s.Kept) : ({ s with tasks := s.tasks ++ [.requesting] } : State).Kept := by
  refine ⟨fun y => ?_, h.tended, fun y => ?_⟩
  · have hplaces := h.places y
    simp only [State.places, held_append, held_cons, held_nil, Task.hands,
      List.count_nil] at hplaces ⊢
    exact hplaces
  · have hcalled := h.called y
    simp only [State.called, held_append, held_cons, held_nil, Task.called,
      List.count_nil] at hcalled ⊢
    exact hcalled

theorem Kept.task {i : Nat} {o : Outcome} {x x' : Task} {e : Effects} {made : Option Controller}
    (h : s.Kept) (hx : s.tasks[i]? = some x) (hstep : x.step s.obtained o = some (x', e, made)) :
    ({ s with tasks := s.tasks.set i x', controllers := s.controllers ++ made.toList }.affect
      e).Kept := by
  refine ⟨fun y => ?_, fun c hc => ?_, fun y => ?_⟩
  · have hplaces := h.places y
    have hset := held_set Task.hands y hx x'
    have hbalance := Task.step_places hstep y
    rw [places_affect]
    change _ = if y < s.obtained + e.attached.toNat then 1 else 0
    rw [← fresh_count, ← hplaces]
    simp only [State.places, held_append]
    omega
  · rcases List.mem_append.mp hc with hold | hnew
    · exact h.tended c hold
    · exact (Task.step_made hstep hnew).1
  · have hcalled := h.called y
    have hset := held_set Task.called y hx x'
    have hbalance := Task.step_called hstep y
    rw [called_affect]
    change _ ≤ (s.detachCalls ++ e.detachCalls).count y
    rw [List.count_append]
    simp only [State.called, held_append] at hcalled ⊢
    omega

theorem Kept.controller {k : Nat} {a : ControllerAction} {c c' : Controller} {e : Effects}
    (h : s.Kept) (hc : s.controllers[k]? = some c) (hstep : c.step s.obtained a = some (c', e))
    (hreturned : a = .recover .cancelled → c.recovery.any RecoveryPc.returning = false) :
    ({ s with controllers := s.controllers.set k c' }.affect e).Kept := by
  refine ⟨fun y => ?_, fun d hd => ?_, fun y => ?_⟩
  · have hplaces := h.places y
    have hset := held_set Controller.places y hc c'
    have hbalance := Controller.step_places hstep hreturned y
    rw [places_affect]
    change _ = if y < s.obtained + e.attached.toNat then 1 else 0
    rw [← fresh_count, ← hplaces]
    simp only [State.places]
    omega
  · rcases List.mem_or_eq_of_mem_set hd with hold | rfl
    · exact h.tended d hold
    · exact (h.tended c (List.mem_of_getElem? hc)).step hstep
  · have hcalled := h.called y
    have hset := held_set Controller.called y hc c'
    have hbalance := Controller.step_called hstep y
    rw [called_affect]
    change _ ≤ (s.detachCalls ++ e.detachCalls).count y
    rw [List.count_append]
    simp only [State.called] at hcalled ⊢
    omega

theorem step_cases {a : Action} (h : step a s = some s') :
    (a = .create ∧ s' = { s with tasks := s.tasks ++ [.requesting] }) ∨
    (∃ i o x x' e made, a = .task i o ∧ s.tasks[i]? = some x ∧
      x.step s.obtained o = some (x', e, made) ∧
      s' = { s with
        tasks := s.tasks.set i x', controllers := s.controllers ++ made.toList }.affect e) ∨
    ∃ k b c c' e, a = .controller k b ∧ s.controllers[k]? = some c ∧
      c.step s.obtained b = some (c', e) ∧
      s' = { s with controllers := s.controllers.set k c' }.affect e := by
  cases a with
  | create => exact .inl ⟨rfl, (Option.some.inj h).symm⟩
  | task i o =>
    obtain ⟨x, hx, h⟩ := Option.bind_eq_some_iff.mp h
    obtain ⟨⟨x', e, made⟩, hstep, heq⟩ := Option.map_eq_some_iff.mp h
    exact .inr (.inl ⟨i, o, x, x', e, made, rfl, hx, hstep, heq.symm⟩)
  | controller k b =>
    obtain ⟨c, hc, h⟩ := Option.bind_eq_some_iff.mp h
    obtain ⟨⟨c', e⟩, hstep, heq⟩ := Option.map_eq_some_iff.mp h
    exact .inr (.inr ⟨k, b, c, c', e, rfl, hc, hstep, heq.symm⟩)

theorem recoveryOf_eq {k : Nat} {c : Controller} (h : s.controllers[k]? = some c) :
    s.recoveryOf k = c.recovery := by
  unfold recoveryOf
  rw [h]
  rfl

theorem Kept.step {a : Action} (h : s.Kept) (hreturned : Returned s a)
    (hs : State.step a s = some s') : s'.Kept := by
  rcases step_cases hs with ⟨-, rfl⟩ | ⟨i, o, x, x', e, made, rfl, hx, hstep, rfl⟩ |
    ⟨k, b, c, c', e, rfl, hc, hstep, rfl⟩
  · exact h.create
  · exact h.task hx hstep
  · refine h.controller hc hstep ?_
    rintro rfl
    rw [← recoveryOf_eq hc]
    exact hreturned

/-- No controller is being detached while its recovery detaches, and everything that is detached is
destroyed or about to be. -/
structure Once (s : State) : Prop where
  steady : ∀ c ∈ s.controllers, c.Steady
  called : ∀ y, s.called y = s.detachCalls.count y

theorem Once.create (h : s.Once) : ({ s with tasks := s.tasks ++ [.requesting] } : State).Once := by
  refine ⟨h.steady, fun y => ?_⟩
  have hcalled := h.called y
  simp only [State.called, held_append, held_cons, held_nil, Task.called,
    List.count_nil] at hcalled ⊢
  exact hcalled

theorem Once.task {i : Nat} {o : Outcome} {x x' : Task} {e : Effects} {made : Option Controller}
    (h : s.Once) (hx : s.tasks[i]? = some x) (hstep : x.step s.obtained o = some (x', e, made)) :
    ({ s with tasks := s.tasks.set i x', controllers := s.controllers ++ made.toList }.affect
      e).Once := by
  refine ⟨fun c hc => ?_, fun y => ?_⟩
  · rcases List.mem_append.mp hc with hold | hnew
    · exact h.steady c hold
    · exact (Task.step_made hstep hnew).2
  · have hcalled := h.called y
    have hset := held_set Task.called y hx x'
    have hbalance := Task.step_called hstep y
    rw [called_affect]
    change _ = (s.detachCalls ++ e.detachCalls).count y
    rw [List.count_append]
    simp only [State.called, held_append] at hcalled ⊢
    omega

theorem Once.controller {k : Nat} {a : ControllerAction} {c c' : Controller} {e : Effects}
    (h : s.Once) (hc : s.controllers[k]? = some c) (hstep : c.step s.obtained a = some (c', e))
    (hapart : a = .detach → c.recovery.any RecoveryPc.leaving = false) :
    ({ s with controllers := s.controllers.set k c' }.affect e).Once := by
  have hsteady := h.steady c (List.mem_of_getElem? hc)
  refine ⟨fun d hd => ?_, fun y => ?_⟩
  · rcases List.mem_or_eq_of_mem_set hd with hold | rfl
    · exact h.steady d hold
    · exact hsteady.step hstep hapart
  · have hcalled := h.called y
    have hset := held_set Controller.called y hc c'
    have hbalance : c'.called.count y + e.destroyCalls.count y =
        c.called.count y + e.detachCalls.count y := by
      rcases Controller.step_called hstep y with heq | ⟨-, a, hclearing, hgone⟩
      · exact heq
      · refine absurd (hsteady.current a ?_) hgone
        rw [hclearing]
        rfl
    rw [called_affect]
    change _ = (s.detachCalls ++ e.detachCalls).count y
    rw [List.count_append]
    simp only [State.called] at hcalled ⊢
    omega

theorem Once.step {a : Action} (h : s.Once) (hapart : Apart s a)
    (hs : State.step a s = some s') : s'.Once := by
  rcases step_cases hs with ⟨-, rfl⟩ | ⟨i, o, x, x', e, made, rfl, hx, hstep, rfl⟩ |
    ⟨k, b, c, c', e, rfl, hc, hstep, rfl⟩
  · exact h.create
  · exact h.task hx hstep
  · refine h.controller hc hstep ?_
    rintro rfl
    rw [← recoveryOf_eq hc]
    exact hapart

theorem Kept.owned (h : s.Kept) {a : Nat} (ha : a < s.obtained) : s.Owned a := by
  have hplaces := h.places a
  rw [if_pos ha] at hplaces
  have hsplit : held Controller.places s.controllers a =
      held Controller.current s.controllers a + held Controller.hands s.controllers a := by
    rw [← held_add]
    exact held_congr fun c hc => (h.tended c hc).count_places a
  unfold State.places at hplaces
  refine ⟨by omega, fun hdestroyed => ?_⟩
  have hpos := List.count_pos_iff.mpr hdestroyed
  have hcalled := h.called a
  unfold State.called at hcalled
  exact List.count_pos_iff.mp (by omega)

/-- Nothing is detached that is not the recovery's, a release's or destroyed. -/
theorem Once.detached_once (h : s.Once) (hk : s.Kept) {a : Nat} (ha : a ∈ s.destroyCalls) :
    s.detachCalls.count a = 1 := by
  have hcontroller : held Controller.called s.controllers a ≤
      held Controller.places s.controllers a := by
    refine held_le fun c hc => ?_
    have hcurrent := (h.steady c hc).current
    unfold Controller.called Controller.places
    cases hpc : c.recovery with
    | none => exact Nat.zero_le _
    | some pc =>
      cases pc with
      | clearing b =>
        rw [hcurrent b (by rw [hpc]; rfl)]
        exact Nat.le_refl _
      | destroying b =>
        rw [List.count_append]
        exact Nat.le_add_left _ _
      | _ => exact Nat.zero_le _
  have htask : held Task.called s.tasks a ≤ held Task.hands s.tasks a := by
    refine held_le fun x _ => ?_
    cases x <;> first | exact Nat.le_refl _ | exact Nat.zero_le _
  have hpos := List.count_pos_iff.mpr ha
  have hplaces := hk.places a
  have hcalled := h.called a
  unfold State.places at hplaces
  unfold State.called at hcalled
  split at hplaces <;> omega

end State

theorem kept_init {s : State} (h : machine.init s) : s.Kept := by
  obtain rfl := h
  exact ⟨fun y => rfl, fun c hc => (by cases hc), fun y => Nat.le_refl _⟩

theorem once_init {s : State} (h : machine.init s) : s.Once := by
  obtain rfl := h
  exact ⟨fun c hc => (by cases hc), fun y => rfl⟩

/-- When no recovery is cancelled between its attach and the return of it, every attachment has one
owner. It is detached only once when no controller is detached while its recovery detaches. -/
theorem attachments_owned {s : State} :
    (machine.ReachableWhen Returned s → ∀ a < s.obtained, s.Owned a) ∧
    (machine.ReachableWhen (fun s a => Returned s a ∧ Apart s a) s →
      ∀ a ∈ s.destroyCalls, s.detachCalls.count a = 1) := by
  constructor
  · intro h a ha
    exact State.Kept.owned (h.invariant (fun _ => kept_init) fun _ _ _ hk hc => hk.step hc) ha
  · intro h a ha
    have hboth := h.invariant (I := fun s => s.Kept ∧ s.Once)
      (fun _ hi => ⟨kept_init hi, once_init hi⟩)
      fun _ _ _ hk hc hs => ⟨hk.1.step hc.1 hs, hk.2.step hc.2 hs⟩
    exact hboth.2.detached_once hboth.1 ha

/-- A terminal is opened, its connection breaks, and the recovery is answered with a replacement. -/
def recovers : List Action :=
  [Action.create, .task 0 .ok, .task 0 .ok, .controller 0 .use, .controller 0 (.useFailed 0),
    .controller 0 (.enter 0)] ++ List.replicate 7 (Action.controller 0 (.recover .ok))

/-- The replacement is installed while the terminal is closed, and released. -/
theorem attachments_owned_close : ∃ s, machine.Reachable s ∧ s.obtained = 2 ∧
    s.destroyCalls = [0, 1] ∧ (∀ a < s.obtained, s.Owned a) ∧
    ∀ a ∈ s.destroyCalls, s.detachCalls.count a = 1 := by
  obtain ⟨s, hr, hobtained, hdestroyed⟩ := machine.exists_reachable_of_exec
    (fun s a => Returned s a ∧ Apart s a) (fun s => s.obtained = 2 ∧ s.destroyCalls = [0, 1])
    (List.flatten [recovers, [.controller 0 (.recover .ok), .controller 0 (.recover .ok),
      .controller 0 .detach, .controller 0 .take, .controller 0 (.recover .ok),
      .controller 0 (.recover .ok), .controller 0 (.recover .ok), .task 1 .ok, .task 1 .ok]])
    rfl (by decide)
  refine ⟨s, hr.reachable, hobtained, hdestroyed, attachments_owned.1 ?_, attachments_owned.2 hr⟩
  obtain ⟨t, hi, hrun⟩ := hr
  exact ⟨t, hi, hrun.mono fun _ _ hc => hc.1⟩

/-- The recovery is cancelled when its attach is answered and has not returned: the replacement is
open, and nobody has it. -/
theorem replacement_left_open : ¬ ∀ s, machine.Reachable s →
    (∀ a < s.obtained, s.Owned a) ∧ ∀ a ∈ s.destroyCalls, s.detachCalls.count a = 1 := by
  intro hall
  obtain ⟨s, hr, hobtained, hcount⟩ := machine.exists_reachable_of_exec Machine.Any
    (fun s => s.obtained = 2 ∧ held Controller.current s.controllers 1 +
      (held Controller.hands s.controllers 1 + held Task.hands s.tasks 1) +
      s.destroyCalls.count 1 = 0)
    (List.flatten [recovers, [.controller 0 (.recover .cancelled)]]) rfl (by decide)
  have howned := ((hall s hr).1 1 (by omega)).1
  omega

end Shelly.Mobile.AttachmentOwners
