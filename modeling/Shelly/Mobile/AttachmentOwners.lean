import Shelly.Framework.Custody
import Shelly.Framework.Machine

namespace Shelly.Mobile.AttachmentOwners

open Custody

/-- How a suspended call ends. -/
inductive Outcome
  | ok
  | failed
  | cancelled
  deriving DecidableEq

/-- Where the call of `recoverAttachment` stands that holds the mutex. An attachment is named by
its place among all that the repository ever gave out. -/
inductive RecoveryPc
  | entered (failed : Nat)
  | checked (failed : Nat)
  | detaching (failed : Nat)
  | clearing (failed : Nat)
  | destroying (failed : Nat)
  | looping
  | requested
  | obtained (replacement : Nat)
  | answered (replacement : Nat)
  | swapping (replacement : Nat)
  | installed (replacement : Nat)
  | withdrawing (replacement : Nat)
  deriving DecidableEq

/-- `detaching` says that `detach` is between its two halves. `uses` are the calls in flight of
`subscribe`, `sendInput` and `resize`, and the lags that are handled, each with the attachment it
took, `recovering` the calls of `recoverAttachment` that wait for the mutex. -/
structure Controller where
  attachedSession : Option Nat
  detached : Bool
  detaching : Bool
  uses : List Nat
  recovering : List Nat
  recovery : Option RecoveryPc
  deriving DecidableEq

/-- A creation of a controller, or the release of an attachment. -/
inductive Task
  | requesting
  | obtained (attached : Nat)
  | releasing (attachment : Nat)
  | destroying (attachment : Nat)
  | done
  deriving DecidableEq

/-- What a step does beside moving on: whether it is given an attachment, which releases it starts,
and which attachments it detaches and destroys. -/
structure Effects where
  attached : Bool := false
  released : List Nat := []
  detachCalls : List Nat := []
  destroyCalls : List Nat := []

/-- The last two fields are history. -/
structure State where
  obtained : Nat
  controllers : List Controller
  tasks : List Task
  detachCalls : List Nat
  destroyCalls : List Nat
  deriving DecidableEq

inductive ControllerAction
  | use
  | useEnded (a : Nat)
  | useFailed (a : Nat)
  | abandon (a : Nat)
  | enter (a : Nat)
  | recover (o : Outcome)
  | detach
  | take
  deriving DecidableEq

inductive Action
  | create
  | task (i : Nat) (o : Outcome)
  | controller (k : Nat) (a : ControllerAction)
  deriving DecidableEq

namespace Controller

def new (attached : Nat) : Controller := ⟨some attached, false, false, [], [], none⟩

variable (c : Controller)

/-- The recovery goes on at `pc`. -/
def goto (pc : RecoveryPc) : Controller := { c with recovery := some pc }

/-- The recovery returns or is cancelled, and the mutex is free. -/
def unlock : Controller := { c with recovery := none }

/-- One atomic step of the call that holds the mutex. A cancellation is not noticed while the failed
attachment is detached, where every error is caught. -/
def recover (next : Nat) (o : Outcome) : Option (Controller × Effects) :=
  c.recovery.map fun
  | .entered a =>
    (if c.attachedSession = some a then c.goto (.checked a) else c.unlock, {})
  | .checked a => (if o = .ok then c.goto (.detaching a) else c.unlock, {})
  | .detaching a => (c.goto (.clearing a), { detachCalls := [a] })
  | .clearing a =>
    if c.attachedSession = some a then
      ({ c with attachedSession := none }.goto (.destroying a), {})
    else (c.unlock, {})
  | .destroying a => (c.goto .looping, { destroyCalls := [a] })
  | .looping => (if c.detached ∨ o = .cancelled then c.unlock else c.goto .requested, {})
  | .requested =>
    match o with
    | .ok => (c.goto (.obtained next), { attached := true })
    | .failed => (c.goto .looping, {})
    | .cancelled => (c.unlock, {})
  | .obtained b => (if o = .cancelled then c.unlock else c.goto (.answered b), {})
  | .answered b =>
    if c.detached then (c.unlock, { released := [b] }) else (c.goto (.swapping b), {})
  | .swapping b =>
    if c.attachedSession = none then
      ({ c with attachedSession := some b }.goto (.installed b), {})
    else (c.unlock, { released := [b] })
  | .installed b =>
    if c.detached then (c.goto (.withdrawing b), {})
    else ({ c with uses := c.uses ++ c.attachedSession.toList }.unlock, {})
  | .withdrawing b =>
    if c.attachedSession = some b then
      ({ c with attachedSession := none }.unlock, { released := [b] })
    else (c.unlock, {})

def step (next : Nat) : ControllerAction → Controller → Option (Controller × Effects)
  | .use, c =>
    if c.detached then none
    else c.attachedSession.map fun a => ({ c with uses := c.uses ++ [a] }, {})
  | .useEnded a, c => if a ∈ c.uses then some ({ c with uses := c.uses.erase a }, {}) else none
  | .useFailed a, c =>
    if a ∈ c.uses then
      some ({ c with uses := c.uses.erase a, recovering := c.recovering ++ [a] }, {})
    else none
  | .abandon a, c =>
    if a ∈ c.recovering then some ({ c with recovering := c.recovering.erase a }, {}) else none
  | .enter a, c =>
    if a ∈ c.recovering ∧ c.recovery = none then
      let c' := { c with recovering := c.recovering.erase a }
      some (if c.detached then c' else c'.goto (.entered a), {})
    else none
  | .recover o, c => c.recover next o
  | .detach, c =>
    if c.detached then none else some ({ c with detached := true, detaching := true }, {})
  | .take, c =>
    if c.detaching then
      some ({ c with attachedSession := none, detaching := false },
        { released := c.attachedSession.toList })
    else none

end Controller

/-- A creation that is cancelled when it has its attachment releases it. -/
def Task.step (next : Nat) (o : Outcome) : Task → Option (Task × Effects × Option Controller)
  | .requesting => some <|
    if o = .ok then (.obtained next, { attached := true }, none) else (.done, {}, none)
  | .obtained a => some <|
    if o = .cancelled then (.releasing a, {}, none) else (.done, {}, some (.new a))
  | .releasing a => some (.destroying a, { detachCalls := [a] }, none)
  | .destroying a => some (.done, { destroyCalls := [a] }, none)
  | .done => none

namespace State

variable (s : State)

def affect (e : Effects) : State :=
  { s with
    obtained := s.obtained + e.attached.toNat
    tasks := s.tasks ++ e.released.map .releasing
    detachCalls := s.detachCalls ++ e.detachCalls
    destroyCalls := s.destroyCalls ++ e.destroyCalls }

def step : Action → State → Option State
  | .create, s => some { s with tasks := s.tasks ++ [.requesting] }
  | .task i o, s => s.tasks[i]?.bind fun x => (x.step s.obtained o).map fun (x', e, made) =>
    { s with tasks := s.tasks.set i x', controllers := s.controllers ++ made.toList }.affect e
  | .controller k a, s => s.controllers[k]?.bind fun c => (c.step s.obtained a).map fun (c', e) =>
    { s with controllers := s.controllers.set k c' }.affect e

end State

def machine : Machine State Action where
  init s := s = ⟨0, [], [], [], []⟩
  step := State.step

/-- The attachment that a recovery has in hand. Before it has cleared the failed one, that one is
the controller's. -/
def RecoveryPc.hands : RecoveryPc → List Nat
  | .destroying a => [a]
  | .obtained b | .answered b | .swapping b => [b]
  | _ => []

/-- An attachment that is detached and is still to be destroyed. -/
def RecoveryPc.called : RecoveryPc → List Nat
  | .clearing a | .destroying a => [a]
  | _ => []

def RecoveryPc.withdraws (a : Nat) : RecoveryPc → Bool
  | .installed b | .withdrawing b => b = a
  | _ => false

/-- An attach of the recovery is answered, and has not returned. -/
def RecoveryPc.returning : RecoveryPc → Bool
  | .obtained _ => true
  | _ => false

/-- The attachment that the recovery has checked to be the current one and not yet cleared. -/
def RecoveryPc.failing : RecoveryPc → Option Nat
  | .checked a | .detaching a | .clearing a => some a
  | _ => none

/-- The recovery is between its check and its compare-and-set. -/
def RecoveryPc.leaving : RecoveryPc → Bool
  | .entered _ | .checked _ | .detaching _ | .clearing _ => true
  | _ => false

def Task.hands : Task → List Nat
  | .obtained a | .releasing a | .destroying a => [a]
  | _ => []

def Task.called : Task → List Nat
  | .destroying a => [a]
  | _ => []

namespace Controller

variable (c : Controller)

/-- A detached controller's attachment that `detach` or the recovery is about to take out. -/
def leftBehind : List Nat :=
  if c.detached then
    c.attachedSession.toList.filter fun a => c.detaching || c.recovery.any (·.withdraws a)
  else []

/-- The attachment of a controller that is not detached. -/
def current : List Nat := if c.detached then [] else c.attachedSession.toList

def hands : List Nat := c.leftBehind ++ c.recovery.elim [] RecoveryPc.hands

def called : List Nat := c.recovery.elim [] RecoveryPc.called

end Controller

namespace State

variable (s : State)

/-- The attachment has one owner: a controller that is not detached, a running task that will
release it, or none because it is detached and destroyed. -/
def Owned (a : Nat) : Prop :=
  held Controller.current s.controllers a +
      (held Controller.hands s.controllers a + held Task.hands s.tasks a) +
      s.destroyCalls.count a = 1 ∧
    (a ∈ s.destroyCalls → a ∈ s.detachCalls)

def recoveryOf (k : Nat) : Option RecoveryPc := s.controllers[k]?.bind (·.recovery)

end State

/-- No recovery is cancelled while its attach is answered and has not returned. -/
def Returned (s : State) : Action → Prop
  | .controller k (.recover .cancelled) => (s.recoveryOf k).any RecoveryPc.returning = false
  | _ => True

/-- No controller is detached while its recovery is between its check and its compare-and-set. -/
def Apart (s : State) : Action → Prop
  | .controller k .detach => (s.recoveryOf k).any RecoveryPc.leaving = false
  | _ => True

instance : ∀ s a, Decidable (Returned s a)
  | s, .controller k (.recover .cancelled) =>
    inferInstanceAs (Decidable ((s.recoveryOf k).any RecoveryPc.returning = false))
  | _, .create | _, .task _ _ | _, .controller _ .use | _, .controller _ (.useEnded _)
  | _, .controller _ (.useFailed _) | _, .controller _ (.abandon _) | _, .controller _ (.enter _)
  | _, .controller _ .detach | _, .controller _ .take | _, .controller _ (.recover .ok)
  | _, .controller _ (.recover .failed) => isTrue trivial

instance : ∀ s a, Decidable (Apart s a)
  | s, .controller k .detach =>
    inferInstanceAs (Decidable ((s.recoveryOf k).any RecoveryPc.leaving = false))
  | _, .create | _, .task _ _ | _, .controller _ .use | _, .controller _ (.useEnded _)
  | _, .controller _ (.useFailed _) | _, .controller _ (.abandon _) | _, .controller _ (.enter _)
  | _, .controller _ .take | _, .controller _ (.recover _) => isTrue trivial

def Effects.fresh (e : Effects) (next : Nat) : List Nat := if e.attached then [next] else []

/-- Where an attachment of the controller can be. -/
def Controller.places (c : Controller) : List Nat :=
  c.attachedSession.toList ++ c.recovery.elim [] RecoveryPc.hands

namespace Controller

variable {c c' : Controller} {next : Nat} {e : Effects}

theorem places_goto (c : Controller) (pc : RecoveryPc) :
    (c.goto pc).places = c.attachedSession.toList ++ pc.hands := rfl

theorem places_unlock (c : Controller) : c.unlock.places = c.attachedSession.toList :=
  List.append_nil _

theorem places_of_recovery {pc : RecoveryPc} (h : c.recovery = some pc) :
    c.places = c.attachedSession.toList ++ pc.hands := by
  unfold places
  rw [h]
  rfl

/-- A step of the recovery moves attachments from one place to another, and loses none unless its
attach is answered in vain. -/
theorem recover_places {o : Outcome} (h : c.recover next o = some (c', e))
    (hreturned : o = .cancelled → c.recovery.any RecoveryPc.returning = false) (x : Nat) :
    c'.places.count x + e.released.count x + e.destroyCalls.count x =
      c.places.count x + (e.fresh next).count x := by
  obtain ⟨pc, hpc, heq⟩ := Option.map_eq_some_iff.mp h
  rw [places_of_recovery hpc, List.count_append]
  cases pc with
  | entered a | checked a | looping | detaching a =>
    obtain ⟨rfl, rfl⟩ := Prod.mk.inj heq
    first | split | skip
    all_goals simp [places_goto, places_unlock, RecoveryPc.hands, Effects.fresh]
  | destroying a =>
    obtain ⟨rfl, rfl⟩ := Prod.mk.inj heq
    simp [places_goto, RecoveryPc.hands, Effects.fresh]
  | clearing a =>
    simp only at heq
    split at heq
    · rename_i hcurrent
      obtain ⟨rfl, rfl⟩ := Prod.mk.inj heq
      simp [places_goto, RecoveryPc.hands, Effects.fresh, hcurrent]
    · obtain ⟨rfl, rfl⟩ := Prod.mk.inj heq
      simp [places_unlock, RecoveryPc.hands, Effects.fresh]
  | requested =>
    cases o with
    | ok | failed | cancelled =>
      obtain ⟨rfl, rfl⟩ := Prod.mk.inj heq
      simp [places_goto, places_unlock, RecoveryPc.hands, Effects.fresh]
  | obtained b =>
    obtain ⟨rfl, rfl⟩ := Prod.mk.inj heq
    have hback : o ≠ .cancelled := by
      intro ho
      have hnot := hreturned ho
      rw [hpc] at hnot
      cases hnot
    rw [if_neg hback]
    simp [places_goto, RecoveryPc.hands, Effects.fresh]
  | answered b =>
    simp only at heq
    split at heq
    all_goals
      obtain ⟨rfl, rfl⟩ := Prod.mk.inj heq
      simp [places_goto, places_unlock, RecoveryPc.hands, Effects.fresh]
  | swapping b =>
    simp only at heq
    split at heq
    · rename_i hcurrent
      obtain ⟨rfl, rfl⟩ := Prod.mk.inj heq
      simp [places_goto, RecoveryPc.hands, Effects.fresh, hcurrent]
    · obtain ⟨rfl, rfl⟩ := Prod.mk.inj heq
      simp [places_unlock, RecoveryPc.hands, Effects.fresh]
  | installed b =>
    simp only at heq
    split at heq
    all_goals
      obtain ⟨rfl, rfl⟩ := Prod.mk.inj heq
      simp [places_goto, places_unlock, RecoveryPc.hands, Effects.fresh]
  | withdrawing b =>
    simp only at heq
    split at heq
    · rename_i hcurrent
      obtain ⟨rfl, rfl⟩ := Prod.mk.inj heq
      simp [places_unlock, RecoveryPc.hands, Effects.fresh, hcurrent]
    · obtain ⟨rfl, rfl⟩ := Prod.mk.inj heq
      simp [places_unlock, RecoveryPc.hands, Effects.fresh]

theorem step_places {a : ControllerAction} (h : c.step next a = some (c', e))
    (hreturned : a = .recover .cancelled → c.recovery.any RecoveryPc.returning = false) (x : Nat) :
    c'.places.count x + e.released.count x + e.destroyCalls.count x =
      c.places.count x + (e.fresh next).count x := by
  cases a with
  | recover o => exact recover_places h (fun ho => hreturned (by rw [ho])) x
  | use =>
    obtain ⟨-, h⟩ := Option.ite_none_left_eq_some.mp h
    obtain ⟨a, -, heq⟩ := Option.map_eq_some_iff.mp h
    obtain ⟨rfl, rfl⟩ := Prod.mk.inj heq
    rfl
  | useEnded a | useFailed a | abandon a =>
    obtain ⟨-, heq⟩ := Option.ite_none_right_eq_some.mp h
    obtain ⟨rfl, rfl⟩ := Prod.mk.inj (Option.some.inj heq)
    rfl
  | enter a =>
    obtain ⟨⟨-, hfree⟩, heq⟩ := Option.ite_none_right_eq_some.mp h
    obtain ⟨rfl, rfl⟩ := Prod.mk.inj (Option.some.inj heq)
    split
    · rfl
    · simp [places, goto, hfree, RecoveryPc.hands, Effects.fresh]
  | detach =>
    obtain ⟨-, heq⟩ := Option.ite_none_left_eq_some.mp h
    obtain ⟨rfl, rfl⟩ := Prod.mk.inj (Option.some.inj heq)
    rfl
  | take =>
    obtain ⟨-, heq⟩ := Option.ite_none_right_eq_some.mp h
    obtain ⟨rfl, rfl⟩ := Prod.mk.inj (Option.some.inj heq)
    simp [places, Effects.fresh]
    omega

/-- What a detached controller still has is taken out by `detach` or by its recovery. -/
def Tended (c : Controller) : Prop :=
  c.detached = true → ∀ a, c.attachedSession = some a →
    c.detaching = true ∨ c.recovery.any (·.withdraws a) = true

theorem Tended.of_none (h : c'.attachedSession = none) : c'.Tended := by
  intro _ a ha
  cases h.symm.trans ha

theorem Tended.keep (h : c.Tended) (hcurrent : c'.attachedSession = c.attachedSession)
    (hdetached : c'.detached = c.detached) (hdetaching : c'.detaching = c.detaching)
    (hrecovery : ∀ a, c.attachedSession = some a → c.recovery.any (·.withdraws a) = true →
      c'.recovery.any (·.withdraws a) = true) : c'.Tended := by
  intro hd a ha
  rw [hdetached] at hd
  rw [hcurrent] at ha
  rw [hdetaching]
  exact (h hd a ha).imp_right (hrecovery a ha)

/-- The recovery has nothing to withdraw where it stands. -/
theorem Tended.goto (h : c.Tended) {pc : RecoveryPc} (hpc : c.recovery = some pc)
    (hidle : ∀ a, pc.withdraws a = false) (pc' : RecoveryPc) : (c.goto pc').Tended := by
  refine h.keep rfl rfl rfl fun a _ hold => ?_
  rw [hpc, Option.any_some, hidle a] at hold
  cases hold

theorem Tended.unlock (h : c.Tended) {pc : RecoveryPc} (hpc : c.recovery = some pc)
    (hidle : ∀ a, c.attachedSession = some a → pc.withdraws a = false) : c.unlock.Tended := by
  refine h.keep rfl rfl rfl fun a ha hold => ?_
  rw [hpc, Option.any_some, hidle a ha] at hold
  cases hold

theorem Tended.recover {o : Outcome} (ht : c.Tended) (h : c.recover next o = some (c', e)) :
    c'.Tended := by
  obtain ⟨pc, hpc, heq⟩ := Option.map_eq_some_iff.mp h
  cases pc with
  | entered a | checked a =>
    obtain ⟨rfl, -⟩ := Prod.mk.inj heq
    split
    · exact ht.goto hpc (fun _ => rfl) _
    · exact ht.unlock hpc fun _ _ => rfl
  | looping | obtained a =>
    obtain ⟨rfl, -⟩ := Prod.mk.inj heq
    split
    · exact ht.unlock hpc fun _ _ => rfl
    · exact ht.goto hpc (fun _ => rfl) _
  | detaching a | destroying a =>
    obtain ⟨rfl, -⟩ := Prod.mk.inj heq
    exact ht.goto hpc (fun _ => rfl) _
  | clearing a =>
    simp only at heq
    split at heq
    · obtain ⟨rfl, -⟩ := Prod.mk.inj heq
      exact .of_none rfl
    · obtain ⟨rfl, -⟩ := Prod.mk.inj heq
      exact ht.unlock hpc fun _ _ => rfl
  | requested =>
    cases o with
    | ok | failed =>
      obtain ⟨rfl, -⟩ := Prod.mk.inj heq
      exact ht.goto hpc (fun _ => rfl) _
    | cancelled =>
      obtain ⟨rfl, -⟩ := Prod.mk.inj heq
      exact ht.unlock hpc fun _ _ => rfl
  | answered b =>
    simp only at heq
    split at heq
    · obtain ⟨rfl, -⟩ := Prod.mk.inj heq
      exact ht.unlock hpc fun _ _ => rfl
    · obtain ⟨rfl, -⟩ := Prod.mk.inj heq
      exact ht.goto hpc (fun _ => rfl) _
  | swapping b =>
    simp only at heq
    split at heq
    · obtain ⟨rfl, -⟩ := Prod.mk.inj heq
      intro _ a ha
      exact .inr (decide_eq_true (Option.some.inj ha))
    · obtain ⟨rfl, -⟩ := Prod.mk.inj heq
      exact ht.unlock hpc fun _ _ => rfl
  | installed b =>
    simp only at heq
    split at heq
    · obtain ⟨rfl, -⟩ := Prod.mk.inj heq
      refine ht.keep rfl rfl rfl fun a _ hold => ?_
      rw [hpc] at hold
      exact hold
    · rename_i hlive
      obtain ⟨rfl, -⟩ := Prod.mk.inj heq
      exact fun hd => absurd hd hlive
  | withdrawing b =>
    simp only at heq
    split at heq
    · obtain ⟨rfl, -⟩ := Prod.mk.inj heq
      exact .of_none rfl
    · rename_i hother
      obtain ⟨rfl, -⟩ := Prod.mk.inj heq
      refine ht.unlock hpc fun a ha => decide_eq_false ?_
      rintro rfl
      exact hother ha

theorem Tended.step {a : ControllerAction} (ht : c.Tended) (h : c.step next a = some (c', e)) :
    c'.Tended := by
  cases a with
  | recover o => exact ht.recover h
  | use =>
    obtain ⟨-, h⟩ := Option.ite_none_left_eq_some.mp h
    obtain ⟨a, -, heq⟩ := Option.map_eq_some_iff.mp h
    obtain ⟨rfl, -⟩ := Prod.mk.inj heq
    exact ht
  | useEnded a | useFailed a | abandon a =>
    obtain ⟨-, heq⟩ := Option.ite_none_right_eq_some.mp h
    obtain ⟨rfl, -⟩ := Prod.mk.inj (Option.some.inj heq)
    exact ht
  | enter a =>
    obtain ⟨⟨-, hfree⟩, heq⟩ := Option.ite_none_right_eq_some.mp h
    obtain ⟨rfl, -⟩ := Prod.mk.inj (Option.some.inj heq)
    split
    · exact ht
    · refine ht.keep rfl rfl rfl fun a _ hold => ?_
      rw [hfree] at hold
      cases hold
  | detach =>
    obtain ⟨-, heq⟩ := Option.ite_none_left_eq_some.mp h
    obtain ⟨rfl, -⟩ := Prod.mk.inj (Option.some.inj heq)
    exact fun _ _ _ => .inl rfl
  | take =>
    obtain ⟨-, heq⟩ := Option.ite_none_right_eq_some.mp h
    obtain ⟨rfl, -⟩ := Prod.mk.inj (Option.some.inj heq)
    exact .of_none rfl

/-- An attachment of a tended controller is its current one or in hand. -/
theorem Tended.count_places (h : c.Tended) (x : Nat) :
    c.places.count x = (c.current ++ c.hands).count x := by
  unfold places current hands leftBehind
  cases hd : c.detached with
  | false => simp
  | true =>
    cases hcurrent : c.attachedSession with
    | none => simp
    | some a =>
      have htaken : (c.detaching || c.recovery.any (·.withdraws a)) = true := by
        rw [Bool.or_eq_true]
        exact h hd a hcurrent
      simp [htaken]

/-- What is destroyed was detached before. Only an attachment that was taken out while the recovery
detached it is detached without being destroyed by the recovery. -/
theorem recover_called {o : Outcome} (h : c.recover next o = some (c', e)) (x : Nat) :
    c'.called.count x + e.destroyCalls.count x = c.called.count x + e.detachCalls.count x ∨
      c'.called.count x + e.destroyCalls.count x ≤ c.called.count x + e.detachCalls.count x ∧
        ∃ a, c.recovery = some (.clearing a) ∧ c.attachedSession ≠ some a := by
  obtain ⟨pc, hpc, heq⟩ := Option.map_eq_some_iff.mp h
  have hcalled : c.called = pc.called := by
    unfold called
    rw [hpc]
    rfl
  have hgoto (c : Controller) (pc : RecoveryPc) : (c.goto pc).called = pc.called := rfl
  have hunlock (c : Controller) : c.unlock.called = [] := rfl
  rw [hcalled]
  cases pc with
  | entered a | checked a | looping | obtained a | detaching a | destroying a =>
    obtain ⟨rfl, rfl⟩ := Prod.mk.inj heq
    left
    first | split | skip
    all_goals simp [hgoto, hunlock, RecoveryPc.called]
  | clearing a =>
    simp only at heq
    split at heq
    · obtain ⟨rfl, rfl⟩ := Prod.mk.inj heq
      exact .inl rfl
    · rename_i hother
      obtain ⟨rfl, rfl⟩ := Prod.mk.inj heq
      exact .inr ⟨Nat.zero_le _, a, hpc, hother⟩
  | requested =>
    left
    cases o with
    | ok | failed | cancelled =>
      obtain ⟨rfl, rfl⟩ := Prod.mk.inj heq
      rfl
  | answered b | swapping b | installed b | withdrawing b =>
    left
    simp only at heq
    split at heq
    all_goals
      obtain ⟨rfl, rfl⟩ := Prod.mk.inj heq
      rfl

theorem step_called {a : ControllerAction} (h : c.step next a = some (c', e)) (x : Nat) :
    c'.called.count x + e.destroyCalls.count x = c.called.count x + e.detachCalls.count x ∨
      c'.called.count x + e.destroyCalls.count x ≤ c.called.count x + e.detachCalls.count x ∧
        ∃ a, c.recovery = some (.clearing a) ∧ c.attachedSession ≠ some a := by
  cases a with
  | recover o => exact recover_called h x
  | use =>
    obtain ⟨-, h⟩ := Option.ite_none_left_eq_some.mp h
    obtain ⟨a, -, heq⟩ := Option.map_eq_some_iff.mp h
    obtain ⟨rfl, rfl⟩ := Prod.mk.inj heq
    exact .inl rfl
  | useEnded a | useFailed a | abandon a | take =>
    obtain ⟨-, heq⟩ := Option.ite_none_right_eq_some.mp h
    obtain ⟨rfl, rfl⟩ := Prod.mk.inj (Option.some.inj heq)
    exact .inl rfl
  | enter a =>
    obtain ⟨⟨-, hfree⟩, heq⟩ := Option.ite_none_right_eq_some.mp h
    obtain ⟨rfl, rfl⟩ := Prod.mk.inj (Option.some.inj heq)
    left
    split
    · rfl
    · simp [called, goto, hfree, RecoveryPc.called]
  | detach =>
    obtain ⟨-, heq⟩ := Option.ite_none_left_eq_some.mp h
    obtain ⟨rfl, rfl⟩ := Prod.mk.inj (Option.some.inj heq)
    exact .inl rfl

/-- While no controller is detached between the check and the compare-and-set of its recovery, the
attachment that was checked stays the current one. -/
structure Steady (c : Controller) : Prop where
  detaching : c.detaching = true → c.detached = true
  live : c.recovery.any RecoveryPc.leaving = true → c.detached = false
  current : ∀ a, c.recovery.bind RecoveryPc.failing = some a → c.attachedSession = some a

theorem Steady.unlock {d : Controller} (hdetaching : d.detaching = true → d.detached = true) :
    d.unlock.Steady :=
  ⟨hdetaching, fun hleaving => (by cases hleaving), fun a ha => (by cases ha)⟩

/-- A recovery that has cleared its failed attachment is past its compare-and-set. -/
theorem Steady.past {d : Controller} (hdetaching : d.detaching = true → d.detached = true)
    {pc : RecoveryPc} (hleaving : pc.leaving = false) (hfailing : pc.failing = none) :
    (d.goto pc).Steady := by
  refine ⟨hdetaching, fun hold => ?_, fun a ha => ?_⟩
  · cases hleaving.symm.trans hold
  · cases hfailing.symm.trans ha

theorem Steady.recover {o : Outcome} (hs : c.Steady) (h : c.recover next o = some (c', e)) :
    c'.Steady := by
  obtain ⟨pc, hpc, heq⟩ := Option.map_eq_some_iff.mp h
  have hlive (hleaving : pc.leaving = true) : c.detached = false := by
    refine hs.live ?_
    rw [hpc]
    exact hleaving
  have hcurrent {a : Nat} (hfailing : pc.failing = some a) : c.attachedSession = some a := by
    refine hs.current a ?_
    rw [hpc]
    exact hfailing
  cases pc with
  | entered a =>
    obtain ⟨rfl, -⟩ := Prod.mk.inj heq
    split
    · rename_i hsame
      exact ⟨hs.detaching, fun _ => hlive rfl, fun b hb => hsame.trans hb⟩
    · exact .unlock hs.detaching
  | checked a =>
    obtain ⟨rfl, -⟩ := Prod.mk.inj heq
    split
    · exact ⟨hs.detaching, fun _ => hlive rfl, fun b hb => (hcurrent rfl).trans hb⟩
    · exact .unlock hs.detaching
  | detaching a =>
    obtain ⟨rfl, -⟩ := Prod.mk.inj heq
    exact ⟨hs.detaching, fun _ => hlive rfl, fun b hb => (hcurrent rfl).trans hb⟩
  | destroying a =>
    obtain ⟨rfl, -⟩ := Prod.mk.inj heq
    exact .past hs.detaching rfl rfl
  | looping | obtained a =>
    obtain ⟨rfl, -⟩ := Prod.mk.inj heq
    split
    · exact .unlock hs.detaching
    · exact .past hs.detaching rfl rfl
  | requested =>
    cases o with
    | ok | failed =>
      obtain ⟨rfl, -⟩ := Prod.mk.inj heq
      exact .past hs.detaching rfl rfl
    | cancelled =>
      obtain ⟨rfl, -⟩ := Prod.mk.inj heq
      exact .unlock hs.detaching
  | clearing a | swapping a =>
    simp only at heq
    split at heq
    · obtain ⟨rfl, -⟩ := Prod.mk.inj heq
      refine .past ?_ rfl rfl
      exact hs.detaching
    · obtain ⟨rfl, -⟩ := Prod.mk.inj heq
      exact .unlock hs.detaching
  | answered b =>
    simp only at heq
    split at heq
    · obtain ⟨rfl, -⟩ := Prod.mk.inj heq
      exact .unlock hs.detaching
    · obtain ⟨rfl, -⟩ := Prod.mk.inj heq
      exact .past hs.detaching rfl rfl
  | installed b =>
    simp only at heq
    split at heq
    · obtain ⟨rfl, -⟩ := Prod.mk.inj heq
      exact .past hs.detaching rfl rfl
    · obtain ⟨rfl, -⟩ := Prod.mk.inj heq
      exact .unlock hs.detaching
  | withdrawing b =>
    simp only at heq
    split at heq
    all_goals
      obtain ⟨rfl, -⟩ := Prod.mk.inj heq
      exact .unlock hs.detaching

theorem Steady.step {a : ControllerAction} (hs : c.Steady) (h : c.step next a = some (c', e))
    (hapart : a = .detach → c.recovery.any RecoveryPc.leaving = false) : c'.Steady := by
  cases a with
  | recover o => exact hs.recover h
  | use =>
    obtain ⟨-, h⟩ := Option.ite_none_left_eq_some.mp h
    obtain ⟨a, -, heq⟩ := Option.map_eq_some_iff.mp h
    obtain ⟨rfl, -⟩ := Prod.mk.inj heq
    exact ⟨hs.detaching, hs.live, hs.current⟩
  | useEnded a | useFailed a | abandon a =>
    obtain ⟨-, heq⟩ := Option.ite_none_right_eq_some.mp h
    obtain ⟨rfl, -⟩ := Prod.mk.inj (Option.some.inj heq)
    exact ⟨hs.detaching, hs.live, hs.current⟩
  | enter a =>
    obtain ⟨-, heq⟩ := Option.ite_none_right_eq_some.mp h
    obtain ⟨rfl, -⟩ := Prod.mk.inj (Option.some.inj heq)
    split
    · exact ⟨hs.detaching, hs.live, hs.current⟩
    · rename_i hlive
      exact ⟨hs.detaching, fun _ => Bool.eq_false_iff.mpr hlive, fun b hb => (by cases hb)⟩
  | detach =>
    obtain ⟨-, heq⟩ := Option.ite_none_left_eq_some.mp h
    obtain ⟨rfl, -⟩ := Prod.mk.inj (Option.some.inj heq)
    refine ⟨fun _ => rfl, fun hleaving => ?_, hs.current⟩
    cases (hapart rfl).symm.trans hleaving
  | take =>
    obtain ⟨htaking, heq⟩ := Option.ite_none_right_eq_some.mp h
    obtain ⟨rfl, -⟩ := Prod.mk.inj (Option.some.inj heq)
    have hgone (hleaving : c.recovery.any RecoveryPc.leaving = true) : False := by
      cases (hs.live hleaving).symm.trans (hs.detaching htaking)
    refine ⟨fun hd => (by cases hd), fun hleaving => absurd hleaving hgone, fun a ha => ?_⟩
    obtain ⟨pc, hpc, hfailing⟩ := Option.bind_eq_some_iff.mp ha
    refine absurd ?_ hgone
    rw [show c.recovery = some pc from hpc]
    cases pc <;> first | rfl | cases hfailing

end Controller

section Tasks

variable {x x' : Task} {next : Nat} {o : Outcome} {e : Effects} {made : Option Controller}

theorem Task.step_places (h : x.step next o = some (x', e, made)) (y : Nat) :
    x'.hands.count y + held Controller.places made.toList y + e.released.count y +
        e.destroyCalls.count y =
      x.hands.count y + (e.fresh next).count y := by
  cases x with
  | requesting | obtained a =>
    have heq := Option.some.inj h
    split at heq
    all_goals
      cases heq
      simp [Task.hands, Effects.fresh, Controller.places, Controller.new]
  | releasing a | destroying a =>
    cases Option.some.inj h
    simp [Task.hands, Effects.fresh]
  | done => cases h

theorem Task.step_called (h : x.step next o = some (x', e, made)) (y : Nat) :
    x'.called.count y + held Controller.called made.toList y + e.destroyCalls.count y =
      x.called.count y + e.detachCalls.count y := by
  cases x with
  | requesting | obtained a =>
    have heq := Option.some.inj h
    split at heq
    all_goals
      cases heq
      simp [Task.called, Controller.called, Controller.new]
  | releasing a | destroying a =>
    cases Option.some.inj h
    simp [Task.called]
  | done => cases h

/-- A controller that a creation makes is not detached and not recovering. -/
theorem Task.step_made (h : x.step next o = some (x', e, made)) {c : Controller}
    (hc : c ∈ made.toList) : c.Tended ∧ c.Steady := by
  have hnew (a : Nat) : (Controller.new a).Tended ∧ (Controller.new a).Steady :=
    ⟨fun hd => (by cases hd), fun hd => (by cases hd), fun hl => (by cases hl),
      fun _ hf => (by cases hf)⟩
  cases x with
  | requesting | obtained a =>
    have heq := Option.some.inj h
    split at heq
    all_goals
      cases heq
      first
      | cases hc; done
      | obtain rfl := List.mem_singleton.mp hc
        exact hnew a
  | releasing a | destroying a =>
    cases Option.some.inj h
    cases hc
  | done => cases h

end Tasks

end Shelly.Mobile.AttachmentOwners
