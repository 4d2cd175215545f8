import Shelly.Framework.Pool
import Shelly.Mobile.PairingStore

namespace Shelly.Mobile.PairingScreen

/-- Whose client the repository has: one of a pairing attempt, or one of the saved pairing. -/
inductive Client
  | attempt (n : Nat)
  | saved
  deriving DecidableEq

/-- Where the job stands that restores the saved pairing when the app starts. -/
inductive RestorePc
  | retrying
  | loading
  | restoring (restored : Option PairedDaemonRecord)
  | reading
  | returned (paired : Bool)
  | finished
  deriving DecidableEq

/-- How far a confirmation is. -/
inductive Stage
  | asked
  | answered
  | saved
  deriving DecidableEq

structure Confirming where
  job : Nat
  attempt : Nat
  stage : Stage
  deriving DecidableEq

/-- The store and the repository, the view model, and its jobs: which are cancelled, and which of
those that unpair are in flight. The rest is history: the pairing attempts, each with its job while
that pairs, the last attempt that the screen was at unless it was cancelled or shown as paired, the
confirmation in flight that the screen has not shown, the attempt whose record is in the store, and
the attempts that were cancelled before the screen showed them as paired. -/
structure Shared where
  store : PairingStore
  savedPairing : Option PairedDaemonRecord
  client : Option Client
  paired : Bool
  pairedDaemon : Option PairedDaemonRecord
  loading : Bool
  pendingPairing : Option Nat
  pairJob : Option Nat
  unpairJob : Option Nat
  restore : RestorePc
  restoreGeneration : Nat
  restoreCancelled : Bool
  cancelled : List Nat
  unpairs : List Nat
  attempts : List (Option Nat)
  attempt : Option Nat
  confirming : Option Confirming
  savedBy : Option Nat
  cancelledAttempts : List Nat
  deriving DecidableEq

inductive PairPc
  | called
  | joining (n : Nat) (job : Option Nat)
  | entering (n : Nat)
  | replacing (n : Nat)
  | pairing (n : Nat)
  | returned (n : Nat)
  | failed
  | done
  deriving DecidableEq

inductive ConfirmPc
  | called
  | entering (n : Nat)
  | confirming (n : Nat)
  | saving (n : Nat) (record : PairedDaemonRecord)
  | replacing (n : Nat) (record : PairedDaemonRecord)
  | returned (n : Nat)
  | loading
  | failed
  | done
  deriving DecidableEq

inductive CancelPc
  | called
  | entering (n : Nat)
  | discarding (n : Nat)
  | done
  deriving DecidableEq

inductive UnpairPc
  | called
  | cleaning
  | clearing
  | dropping
  | done
  deriving DecidableEq

/-- A call of the screen and the job it launches. -/
inductive PairingJob
  | pair (pc : PairPc)
  | confirm (pc : ConfirmPc)
  | cancel (pc : CancelPc)
  | unpair (pc : UnpairPc)
  deriving DecidableEq

inductive Event
  | restore
  | setLoading (loading : Bool)
  deriving DecidableEq

namespace Shared

/-- The app as it starts. -/
def initial (store : PairingStore) : Shared where
  store := store
  savedPairing := none
  client := none
  paired := false
  pairedDaemon := none
  loading := false
  pendingPairing := none
  pairJob := none
  unpairJob := none
  restore := .retrying
  restoreGeneration := 0
  restoreCancelled := false
  cancelled := []
  unpairs := []
  attempts := []
  attempt := none
  confirming := none
  savedBy := none
  cancelledAttempts := []

variable (s : Shared)

/-- The part of `runPairing` that runs in the call. -/
def startPairing (i : Nat) : Shared :=
  { s with
    restoreGeneration := s.restoreGeneration + 1
    restoreCancelled := true
    loading := true
    pairJob := some i
    attempts := s.attempts ++ [some i]
    attempt := some s.attempts.length }

def replaceClient (n : Nat) : Shared := { s with client := some (.attempt n) }

def discardPairingClient (n : Nat) : Shared :=
  if s.client = some (.attempt n) then { s with client := none } else s

/-- The job of the attempt fails or is cancelled. -/
def endAttempt (n : Nat) : Shared := { s with attempts := s.attempts.set n none }

/-- The screen shows the short authentication string of the attempt. -/
def showSas (n : Nat) : Shared :=
  { s with
    pendingPairing := some n
    loading := false
    attempts := s.attempts.set n none
    attempt := some n }

/-- The part of `confirmPairing` that runs in the call. -/
def startConfirming (i n : Nat) : Shared :=
  { s with
    loading := true
    pairJob := some i
    attempt := some n
    confirming := some ⟨i, n, .asked⟩ }

def answer (i n : Nat) : Shared := { s with confirming := some ⟨i, n, .answered⟩ }

def save (i n : Nat) (record : PairedDaemonRecord) : Shared :=
  { s with
    store := s.store.save record
    savedBy := some n
    confirming := some ⟨i, n, .saved⟩ }

def replacePairing (record : PairedDaemonRecord) : Shared :=
  { s with savedPairing := some record, client := some .saved }

/-- The confirmation fails or is cancelled. -/
def endConfirming : Shared := { s with confirming := none }

def showPaired (n : Nat) : Shared :=
  { s with
    pendingPairing := none
    paired := true
    pairedDaemon := s.savedPairing
    confirming := none
    attempt := s.attempt.filter (· ≠ n) }

/-- The part of `cancelPairing` that runs in the call. The job it launches, if any, is `i`. -/
def cancelPairing (i : Nat) : Shared :=
  { s with
    cancelled := s.pairJob.toList ++ s.cancelled
    pairJob := s.pendingPairing.map fun _ => i
    pendingPairing := none
    loading := false
    cancelledAttempts := s.attempt.toList ++ s.cancelledAttempts
    attempt := none }

/-- The part of `unpair` that runs in the call. -/
def startUnpairing (i : Nat) : Shared :=
  { s with
    restoreGeneration := s.restoreGeneration + 1
    restoreCancelled := true
    paired := false
    pairedDaemon := none
    loading := false
    unpairJob := some i
    unpairs := i :: s.unpairs }

def clearStore : Shared := { s with store := s.store.clear, savedBy := none }

def dropPairing (i : Nat) : Shared :=
  { s with savedPairing := none, client := none, unpairs := s.unpairs.filter (· ≠ i) }

/-- One step of the restore. Only its first call can be cancelled before it returns. -/
def restoreStep : Option Shared :=
  match s.restore with
  | .retrying => some { s with restore := if s.restoreCancelled then .finished else .loading }
  | .loading => some { s with restore := .restoring s.store.load }
  | .restoring restored =>
    if s.client = none ∧ s.savedPairing = none then
      some { s with
        savedPairing := restored
        client := restored.map fun _ => .saved
        restore := .reading }
    else some { s with restore := .reading }
  | .reading => some { s with restore := .returned s.savedPairing.isSome }
  | .returned paired =>
    if s.restoreCancelled ∨ s.restoreGeneration ≠ 0 then some { s with restore := .finished }
    else some { s with paired, pairedDaemon := s.savedPairing, restore := .finished }
  | .finished => none

end Shared

/-- The answer of a daemon, with what it was paired as, or an error. -/
abbrev Answer := Option PairedDaemonRecord

def pairStep (c : Answer) (i : Nat) (s : Shared) : PairPc → Option (Shared × PairPc)
  | .called =>
    if s.loading ∨ s.pendingPairing ≠ none then some (s, .done)
    else some (s.startPairing i, .joining s.attempts.length s.unpairJob)
  | .joining n job =>
    if i ∈ s.cancelled then some (s.endAttempt n, .failed)
    else if job.any (· ∈ s.unpairs) then none
    else some ({ s with unpairJob := none }, .entering n)
  | .entering n =>
    if i ∈ s.cancelled then some (s.endAttempt n, .failed) else some (s, .replacing n)
  | .replacing n => some (s.replaceClient n, .pairing n)
  | .pairing n =>
    if i ∈ s.cancelled ∨ c = none then some ((s.discardPairingClient n).endAttempt n, .failed)
    else some (s, .returned n)
  | .returned n =>
    if i ∈ s.cancelled then some (s.endAttempt n, .failed) else some (s.showSas n, .done)
  | .failed => some ({ s with loading := false }, .done)
  | .done => none

def confirmStep (c : Answer) (i : Nat) (s : Shared) : ConfirmPc → Option (Shared × ConfirmPc)
  | .called =>
    match s.pendingPairing with
    | none => some (s, .done)
    | some n => if s.loading then some (s, .done) else some (s.startConfirming i n, .entering n)
  | .entering n =>
    if i ∈ s.cancelled then some (s.endConfirming, .failed) else some (s, .confirming n)
  | .confirming n =>
    match c with
    | none => some ((s.discardPairingClient n).endConfirming, .failed)
    | some record =>
      if i ∈ s.cancelled then some ((s.discardPairingClient n).endConfirming, .failed)
      else some (s.answer i n, .saving n record)
  | .saving n record => some (s.save i n record, .replacing n record)
  | .replacing n record => some (s.replacePairing record, .returned n)
  | .returned n =>
    if i ∈ s.cancelled ∨ s.savedPairing = none then some (s.endConfirming, .failed)
    else some (s.showPaired n, .loading)
  | .loading =>
    some ({ s with
      loading := false
      pendingPairing := if c = none then none else s.pendingPairing }, .done)
  | .failed => some ({ s with loading := false, pendingPairing := none }, .done)
  | .done => none

def cancelStep (i : Nat) (s : Shared) : CancelPc → Option (Shared × CancelPc)
  | .called => some (s.cancelPairing i, s.pendingPairing.elim .done .entering)
  | .entering n => some (s, if i ∈ s.cancelled then .done else .discarding n)
  | .discarding n => some (s.discardPairingClient n, .done)
  | .done => none

def unpairStep (i : Nat) (s : Shared) : UnpairPc → Option (Shared × UnpairPc)
  | .called => some (s.startUnpairing i, .cleaning)
  | .cleaning => some (s, .clearing)
  | .clearing => some (s.clearStore, .dropping)
  | .dropping => some (s.dropPairing i, .done)
  | .done => none

def advance (c : Answer) (i : Nat) : PairingJob → Shared → Option (Shared × PairingJob)
  | .pair pc, s => (pairStep c i s pc).map fun r => (r.1, .pair r.2)
  | .confirm pc, s => (confirmStep c i s pc).map fun r => (r.1, .confirm r.2)
  | .cancel pc, s => (cancelStep i s pc).map fun r => (r.1, .cancel r.2)
  | .unpair pc, s => (unpairStep i s pc).map fun r => (r.1, .unpair r.2)

/-- Other work of the view model sets and resets `loading`, whatever the pairing does. -/
def tasking : Tasking Shared PairingJob Answer Event where
  init s := ∃ store, s = .initial store
  start
    | .pair .called | .confirm .called | .cancel .called | .unpair .called => true
    | _ => false
  cancellable _ := false
  advance := advance
  environment
    | .restore, s => s.restoreStep.map (·, true)
    | .setLoading loading, s => some ({ s with loading }, true)

def PairingJob.idle : PairingJob → Bool
  | .pair .called | .pair .done | .confirm .called | .confirm .done => true
  | .cancel .called | .cancel .done | .unpair .called | .unpair .done => true
  | _ => false

/-- The screen shows what the repository has, and that is what the store holds. -/
structure Shared.Agrees (s : Shared) : Prop where
  daemon : s.pairedDaemon = s.savedPairing
  paired : s.paired = s.savedPairing.isSome
  stored : s.savedPairing.map PairedDaemonRecord.readBack = s.store.load

/-- With no job in flight the screen, the repository and the store agree, and the record in the
store is not of an attempt that was cancelled. -/
structure Consistent (p : Pool Shared PairingJob) : Prop where
  agrees : (∀ i x, p.task i = some x → x.idle = true) → p.shared.restore = .finished →
    p.shared.Agrees
  cancelled : ∀ n ∈ p.shared.savedBy, n ∉ p.shared.cancelledAttempts

/-- The restore has read a record and not yet offered it to the repository. -/
def RestorePc.holds : RestorePc → Bool
  | .restoring (some _) => true
  | _ => false

/-- A pairing starts while a saved pairing is being restored only if there is none. A confirmation
starts when no other and no unpairing is in flight. A confirmation that is answered is not
cancelled, and an unpairing starts when no confirmation is in flight and no record is being
restored. -/
def Ready (s : Shared) : PairingJob → Prop
  | .pair .called => s.loading = true ∨ s.restoreCancelled = true ∨ s.restore = .finished ∨
      s.store.daemon = none
  | .confirm .called => s.pendingPairing = none ∨ s.loading = true ∨
      s.confirming = none ∧ s.unpairs = []
  | .cancel .called => ∀ d ∈ s.confirming, d.stage ≠ .asked → s.pairJob ≠ some d.job
  | .unpair .called => s.confirming = none ∧ s.restore.holds = false ∧
      (s.restore = .loading → s.store.daemon = none)
  | _ => True

instance : ∀ s x, Decidable (Ready s x)
  | s, .pair .called => inferInstanceAs (Decidable (s.loading = true ∨ s.restoreCancelled = true ∨
      s.restore = .finished ∨ s.store.daemon = none))
  | s, .confirm .called => inferInstanceAs (Decidable (s.pendingPairing = none ∨ s.loading = true ∨
      s.confirming = none ∧ s.unpairs = []))
  | s, .cancel .called => inferInstanceAs (Decidable
      (∀ d ∈ s.confirming, d.stage ≠ .asked → s.pairJob ≠ some d.job))
  | s, .unpair .called => inferInstanceAs (Decidable (s.confirming = none ∧
      s.restore.holds = false ∧ (s.restore = .loading → s.store.daemon = none)))
  | _, .pair (.joining _ _) | _, .pair (.entering _) | _, .pair (.replacing _)
  | _, .pair (.pairing _) | _, .pair (.returned _) | _, .pair .failed | _, .pair .done
  | _, .confirm (.entering _) | _, .confirm (.confirming _) | _, .confirm (.saving _ _)
  | _, .confirm (.replacing _ _) | _, .confirm (.returned _) | _, .confirm .loading
  | _, .confirm .failed | _, .confirm .done | _, .cancel (.entering _)
  | _, .cancel (.discarding _) | _, .cancel .done | _, .unpair .cleaning | _, .unpair .clearing
  | _, .unpair .dropping | _, .unpair .done => isTrue trivial

def Orderly (p : Pool Shared PairingJob) : Move PairingJob Answer Event → Prop
  | .advance i _ => ∀ x ∈ p.task i, Ready p.shared x
  | _ => True

instance : ∀ p a, Decidable (Orderly p a)
  | p, .advance i _ => inferInstanceAs (Decidable (∀ x ∈ p.task i, Ready p.shared x))
  | _, .spawn _ _ | _, .drop _ | _, .environment _ => isTrue trivial

end Shelly.Mobile.PairingScreen
