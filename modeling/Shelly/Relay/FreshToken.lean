import Mathlib.Data.Finset.Option
import Shelly.Relay.Endpoints

namespace Shelly.Relay

namespace FreshToken

/-- The history of the push in one slot. `stored` and `held` say for each token which registration
has written its row and its entry, as long as they are there. `checked` is the token of the push
once it has passed its ownership check; `accepted` are the registrations of this token that were
accepted since, and the last two fields those whose row and whose entry its cleanup has removed. -/
structure Watch where
  stored : String → Option Nat
  held : String → Option Nat
  checked : Option String
  accepted : Finset Nat
  rowsRemoved : Finset Nat
  entriesRemoved : Finset Nat

def hasRow (s : RelayState) (pushToken : String) : Bool :=
  s.store.any fun st => st.pushTokens.contains pushToken

def hasEntry (s : RelayState) (pushToken : String) : Bool := s.inner.tokens.contains pushToken

/-- The push goes on to the provider. -/
def delivers : RelayTask → Bool
  | .handle (.push _ .delivering) => true
  | _ => false

namespace Watch

def start : Watch := ⟨fun _ => none, fun _ => none, none, ∅, ∅, ∅⟩

/-- A new request has nothing to do with the one that was in its slot before. -/
def enter (i j : Nat) (w : Watch) : Watch :=
  if j = i then
    { w with checked := none, accepted := ∅, rowsRemoved := ∅, entriesRemoved := ∅ }
  else
    { w with
      stored := fun t => (w.stored t).filter fun k => k ≠ j
      rowsRemoved := w.rowsRemoved.erase j }

/-- A step of the push itself. -/
def own (c : RelayChoice) (s : RelayState) (x x' : RelayTask) (w : Watch) : Watch :=
  match x with
  | .handle (.push request .checking) =>
    if delivers x' then { w with checked := some request.recipientToken } else w
  | .handle (.push request (.removing (.invalidToken _) .row)) =>
    if s.stores c then
      { w with rowsRemoved := w.rowsRemoved ∪ (w.stored request.recipientToken).toFinset }
    else w
  | .handle (.push request (.removing (.invalidToken _) .memory)) =>
    { w with entriesRemoved := w.entriesRemoved ∪ (w.held request.recipientToken).toFinset }
  | _ => w

/-- A step of a registration in slot `j`, which is accepted when it has written its entry. -/
def write (j : Nat) (c : RelayChoice) (s : RelayState) (x : RelayTask) (w : Watch) : Watch :=
  match x with
  | .handle (.registerToken request (.saving _)) =>
    if s.stores c then { w with stored := Function.update w.stored request.pushToken (some j) }
    else w
  | .handle (.registerToken request (.inserting _)) =>
    { w with
      held := Function.update w.held request.pushToken (some j)
      accepted :=
        if w.checked = some request.pushToken then insert j w.accepted else w.accepted }
  | _ => w

/-- What is not there any more has been written by nobody. -/
def keep (s : RelayState) (w : Watch) : Watch :=
  { w with
    stored := fun t => if hasRow s t then w.stored t else none
    held := fun t => if hasEntry s t then w.held t else none }

def update (i : Nat) (a : Move RelayTask RelayChoice RelayEvent) (p q : Pool RelayState RelayTask)
    (w : Watch) : Watch :=
  match a with
  | .spawn j _ => w.enter i j
  | .advance j c =>
    match p.task j, q.task j with
    | some x, some x' =>
      let w := if j = i then w.own c p.shared x x' else w
      (w.write j c p.shared x).keep q.shared
    | _, _ => w
  | .environment .restart => .start
  | _ => w

/-- No registration that was accepted after the ownership check has lost its row or its entry to
the cleanup of the push. -/
def Spared (w : Watch) : Prop :=
  ∀ j ∈ w.accepted, j ∉ w.rowsRemoved ∧ j ∉ w.entriesRemoved

end Watch

/-- The relay with the history of the push in slot `i`. -/
def watchedRelay (ext : Externals) (i : Nat) :
    Machine (Pool RelayState RelayTask × Watch) (Move RelayTask RelayChoice RelayEvent) :=
  (relayTasking ext).machine.watched (fun _ => .start) (Watch.update i)

/-- The cleanup finds a row or an entry only while no registration of the token has been accepted
since the ownership check, and no registration is accepted whose row the cleanup has removed. -/
def uncontested (i : Nat) (p : Pool RelayState RelayTask × Watch) :
    Move RelayTask RelayChoice RelayEvent → Bool
  | .advance j c => (p.1.task j).all fun x =>
    match x with
    | .handle (.push request (.removing (.invalidToken _) .row)) =>
      decide (j ≠ i) || !p.1.shared.stores c || !hasRow p.1.shared request.recipientToken ||
        decide (p.2.accepted = ∅)
    | .handle (.push request (.removing (.invalidToken _) .memory)) =>
      decide (j ≠ i) || !hasEntry p.1.shared request.recipientToken || decide (p.2.accepted = ∅)
    | .handle (.registerToken request (.inserting _)) =>
      decide (p.2.checked ≠ some request.pushToken) || decide (j ∉ p.2.rowsRemoved)
    | _ => true
  | _ => true

/-- What holds of the history between any two steps. -/
structure Sound (p : Pool RelayState RelayTask) (w : Watch) : Prop where
  spared : w.Spared
  row : ∀ t j, w.stored t = some j → hasRow p.shared t = true
  entry : ∀ t j, w.held t = some j → hasEntry p.shared t = true
  answered : ∀ t j, w.held t = some j → p.task j = some (.returned .ok)
  removed : ∀ j ∈ w.entriesRemoved, p.task j = some (.returned .ok)

section Steps

variable {ext : Externals} {p : Pool RelayState RelayTask} {w : Watch} {i j : Nat} {c : RelayChoice}
  {x x' : RelayTask} {s' : RelayState}

/-- A cleanup that finds nothing of a fresh registration takes nothing from one. -/
theorem sound_own (h : Sound p w) (hx : p.task i = some x)
    (hguard : uncontested i (p, w) (.advance i c) = true) (x' : RelayTask) :
    Sound p (w.own c p.shared x x') := by
  unfold Watch.own
  split
  · next request =>
    split
    · exact ⟨h.spared, h.row, h.entry, h.answered, h.removed⟩
    · exact h
  · next request provider =>
    split
    · next hstores =>
      simp only [uncontested, hx, Option.all_some, hstores, ne_eq, not_true_eq_false, decide_false,
        Bool.not_true, Bool.false_or, Bool.or_eq_true, Bool.not_eq_true', decide_eq_true_eq]
        at hguard
      refine ⟨fun k hk => ⟨fun hrow => ?_, (h.spared k hk).2⟩, h.row, h.entry, h.answered,
        h.removed⟩
      rcases Finset.mem_union.mp hrow with hold | hnew
      · exact (h.spared k hk).1 hold
      · have hstored : w.stored request.recipientToken = some k := by simpa using hnew
        obtain hgone | hnone := hguard
        · rw [h.row _ _ hstored] at hgone
          cases hgone
        · rw [hnone] at hk
          exact absurd hk (Finset.notMem_empty k)
    · exact h
  · next request provider =>
    simp only [uncontested, hx, Option.all_some, ne_eq, not_true_eq_false, decide_false,
      Bool.false_or, Bool.or_eq_true, Bool.not_eq_true', decide_eq_true_eq] at hguard
    have hheld (k : Nat) (hk : k ∈ (w.held request.recipientToken).toFinset) :
        w.held request.recipientToken = some k := by simpa using hk
    refine ⟨fun k hk => ⟨(h.spared k hk).1, fun hentry => ?_⟩, h.row, h.entry, h.answered,
      fun k hk => ?_⟩
    · rcases Finset.mem_union.mp hentry with hold | hnew
      · exact (h.spared k hk).2 hold
      · obtain hgone | hnone := hguard
        · rw [h.entry _ _ (hheld k hnew)] at hgone
          cases hgone
        · rw [hnone] at hk
          exact absurd hk (Finset.notMem_empty k)
    · rcases Finset.mem_union.mp hk with hold | hnew
      · exact h.removed k hold
      · exact h.answered _ _ (hheld k hnew)
  · exact h

/-- An answered request takes no more steps. -/
theorem answered_advance {k : Nat} (hx : p.task j = some x)
    (hstep : relayAdvance ext c j x p.shared = some (s', x'))
    (hk : p.task k = some (.returned .ok)) :
    ((p.setShared s').setTask j x').task k = some (.returned .ok) := by
  have hne : k ≠ j := by
    rintro rfl
    obtain rfl := Option.some.inj (hx.symm.trans hk)
    cases hstep
  rw [Pool.setTask_task, if_neg hne]
  exact hk

theorem sound_keep {q : Pool RelayState RelayTask} (hspared : w.Spared)
    (hanswered : ∀ t k, w.held t = some k → q.task k = some (.returned .ok))
    (hremoved : ∀ k ∈ w.entriesRemoved, q.task k = some (.returned .ok)) :
    Sound q (w.keep q.shared) := by
  refine ⟨hspared, fun t k hk => ?_, fun t k hk => ?_, fun t k hk => ?_, hremoved⟩
  · simp only [Watch.keep, Option.ite_none_right_eq_some] at hk
    exact hk.1
  · simp only [Watch.keep, Option.ite_none_right_eq_some] at hk
    exact hk.1
  · simp only [Watch.keep, Option.ite_none_right_eq_some] at hk
    exact hanswered t k hk.2

/-- A registration whose row the cleanup has not removed is accepted with all it has written. -/
theorem sound_write (h : Sound p w) (hx : p.task j = some x)
    (hstep : relayAdvance ext c j x p.shared = some (s', x'))
    (hguard : ∀ request owner, x = .handle (.registerToken request (.inserting owner)) →
      w.checked = some request.pushToken → j ∉ w.rowsRemoved) :
    Sound ((p.setShared s').setTask j x') ((w.write j c p.shared x).keep s') := by
  have hremoved (k : Nat) (hk : k ∈ w.entriesRemoved) :=
    answered_advance hx hstep (h.removed k hk)
  have hanswered (t : String) (k : Nat) (hk : w.held t = some k) :=
    answered_advance hx hstep (h.answered t k hk)
  unfold Watch.write
  split
  · split
    · exact sound_keep h.spared hanswered hremoved
    · exact sound_keep h.spared hanswered hremoved
  · next request owner =>
    refine sound_keep ?_ (fun t k hk => ?_) hremoved
    · intro k hk
      dsimp only at hk ⊢
      split at hk
      · next hchecked =>
        rcases Finset.mem_insert.mp hk with rfl | hk
        · refine ⟨hguard request owner rfl hchecked, fun hentry => ?_⟩
          cases (h.removed k hentry).symm.trans hx
        · exact h.spared k hk
      · exact h.spared k hk
    · dsimp only at hk
      rw [Function.update_apply] at hk
      split at hk
      · obtain rfl := Option.some.inj hk
        rw [Pool.setTask_task, if_pos rfl]
        cases hstep
        rfl
      · exact hanswered t k hk
  · exact sound_keep h.spared hanswered hremoved

theorem sound_enter (h : Sound p w) (hj : p.task j = none) (i : Nat) :
    Sound (p.setTask j x) (w.enter i j) := by
  have hothers (k : Nat) (hk : p.task k = some (.returned .ok)) :
      (p.setTask j x).task k = some (.returned .ok) := by
    rw [Pool.setTask_task, if_neg]
    · exact hk
    · rintro rfl
      cases hj.symm.trans hk
  unfold Watch.enter
  split
  · refine ⟨fun k hk => absurd hk (Finset.notMem_empty k), h.row, h.entry,
      fun t k hk => hothers k (h.answered t k hk), fun k hk => absurd hk (Finset.notMem_empty k)⟩
  · refine ⟨fun k hk => ⟨fun hrow => ?_, (h.spared k hk).2⟩, fun t k hk => ?_, h.entry,
      fun t k hk => hothers k (h.answered t k hk), fun k hk => hothers k (h.removed k hk)⟩
    · exact (h.spared k hk).1 (Finset.mem_of_mem_erase hrow)
    · exact h.row t k (Option.filter_eq_some_iff.mp hk).1

theorem sound_start {q : Pool RelayState RelayTask} : Sound q .start := by
  refine ⟨fun k hk => ?_, fun t k hk => ?_, fun t k hk => ?_, fun t k hk => ?_, fun k hk => ?_⟩
  · cases Finset.notMem_empty k hk
  · cases hk
  · cases hk
  · cases hk
  · cases Finset.notMem_empty k hk

theorem sound_step {a : Move RelayTask RelayChoice RelayEvent} {q : Pool RelayState RelayTask}
    (h : Sound p w) (hguard : uncontested i (p, w) a = true)
    (hstep : (relayTasking ext).machine.step a p = some q) : Sound q (Watch.update i a p q w) := by
  cases Tasking.stepped_of_step hstep with
  | spawn j x _ hj => exact sound_enter h hj i
  | advance j c x x' s' hx hadvance =>
    have hx' : ((p.setShared s').setTask j x').task j = some x' := by
      rw [Pool.setTask_task, if_pos rfl]
    simp only [Watch.update, hx, hx']
    have hown : Sound p (if j = i then w.own c p.shared x x' else w) := by
      split
      · next hj =>
        subst hj
        exact sound_own h hx hguard x'
      · exact h
    refine sound_write hown hx hadvance fun request owner hregistering hchecked => ?_
    subst hregistering
    have hsame :
        (if j = i then
          w.own c p.shared (.handle (.registerToken request (.inserting owner))) x'
        else w) = w := by
      split
      · rfl
      · rfl
    rw [hsame] at hchecked ⊢
    simpa [uncontested, hx, hchecked] using hguard
  | drop j x hx hwaits =>
    have hothers (k : Nat) (hk : p.task k = some (.returned .ok)) :
        (p.dropTask j).task k = some (.returned .ok) := by
      rw [Pool.dropTask_task, if_neg]
      · exact hk
      · rintro rfl
        obtain rfl := Option.some.inj (hx.symm.trans hk)
        cases hwaits
    exact ⟨h.spared, h.row, h.entry, fun t k hk => hothers k (h.answered t k hk),
      fun k hk => hothers k (h.removed k hk)⟩
  | keep e s' hkept =>
    cases e with
    | tick ms =>
      simp only [relayTasking, relayEvent] at hkept
      split at hkept
      · cases hkept
        exact ⟨h.spared, h.row, h.entry, h.answered, h.removed⟩
      · cases hkept
    | restart =>
      obtain ⟨st, -, hloaded⟩ := Option.bind_eq_some_iff.mp hkept
      obtain ⟨r, -, hr⟩ := Option.map_eq_some_iff.mp hloaded
      cases hr
  | clear e s' hcleared =>
    cases e with
    | tick ms =>
      simp only [relayTasking, relayEvent] at hcleared
      split at hcleared
      · cases hcleared
      · cases hcleared
    | restart => exact sound_start

end Steps

section Traces

private def tokenHolder : String := "daemon-0123456789"

private def rotatedToken : String := "push-token-number-0"

private def rotation (nonce : String) : RegisterTokenRequest :=
  ⟨tokenHolder, .apns, rotatedToken, nonce, 1000⟩

/-- A daemon, two registrations of its token and a push to it. -/
private def rotationScript : Externals :=
  .playing ⟨[⟨tokenHolder, keyText 'A', none, none, none⟩],
    [rotation "nonce-000000000-0", rotation "nonce-000000000-1"], [],
    [⟨tokenHolder, rotatedToken, .apns, String.ofList (List.replicate 64 'a'), .buildFinished,
      "nonce-000000000-2", 1000⟩], []⟩

private def registering (i n : Nat) : List (Move RelayTask RelayChoice RelayEvent) :=
  arriving rotationScript i "/v1/push/register-token" [UInt8.ofNat n] (signedBy 'A') ::
    Move.repeated 10 i .fine

/-- The token is registered, and the push in slot 2 has passed its ownership check. -/
private def pushChecked : List (Move RelayTask RelayChoice RelayEvent) :=
  List.flatten [[arriving rotationScript 0 "/v1/pair" [0] none], Move.repeated 5 0 .fine,
    registering 1 0, [arriving rotationScript 2 "/v1/push" [0] (signedBy 'A')],
    Move.repeated 7 2 .fine]

/-- The provider calls the token invalid, and the cleanup has the database. -/
private def turnedDown : RelayChoice := ⟨true, false, .invalidToken "apns"⟩

end Traces

end FreshToken

end Shelly.Relay
