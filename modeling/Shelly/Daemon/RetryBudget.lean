import Mathlib.Logic.Basic

namespace Shelly.Daemon

/-- How a request to the relay fails: with an answer of the relay, without one, or otherwise. -/
inductive RelayError
  | http (path : String) (status : Nat) (body : String)
  | request (connect timeout : Bool)
  | message (text : String)
  | context (text : String) (error : RelayError)
  deriving DecidableEq

/-- Server errors, and the answers 408 and 429. -/
def isRetryableStatus (status : Nat) : Bool :=
  (500 ≤ status && status < 600) || status = 408 || status = 429

def isRetryableRelayError : RelayError → Bool
  | .http _ status _ => isRetryableStatus status
  | .request connect timeout => connect || timeout
  | .message _ => false
  | .context _ error => isRetryableRelayError error

/-- One call of the operation: how long it takes, and how it ends. -/
structure Attempt where
  duration : Nat
  result : Except RelayError Unit

/-- Awaits an attempt that begins now, at most until the deadline: how it ends, and when. -/
def timeoutAt (deadline : Nat) (elapsed : RelayError) (now : Nat) (attempt : Attempt) :
    Except RelayError Unit × Nat :=
  if now + attempt.duration ≤ deadline then (attempt.result, now + attempt.duration)
  else (.error elapsed, deadline)

/-- One round of the loop of `retry_relay_operation`: the result and the time when it returns, or
else the time when the next round begins. -/
def retryRound (operation : String) (attempt : Attempt) (delay : Option Nat) (deadline now : Nat) :
    (Except RelayError Unit × Nat) ⊕ Nat :=
  let exceeded := RelayError.message s!"push relay {operation} exceeded retry budget"
  if deadline < now then .inl (.error exceeded, now)
  else
    let remaining := deadline - now
    match timeoutAt deadline exceeded now attempt with
    | (.ok (), now) => .inl (.ok (), now)
    | (.error error, now) =>
      if isRetryableRelayError error then
        let spent := RelayError.context s!"push relay {operation} retry budget spent" error
        match delay with
        | none => .inl (.error spent, now)
        | some delay =>
          if remaining ≤ delay then .inl (.error spent, now) else .inr (now + delay)
      else .inl (.error error, now)

/-- The loop, for at most so many rounds. Round `k` begins now. -/
def retryLoop (operation : String) (attempts : Nat → Attempt) (delays : Nat → Option Nat)
    (deadline : Nat) : Nat → Nat → Nat → Option (Except RelayError Unit × Nat)
  | 0, _, _ => none
  | rounds + 1, k, now =>
    match retryRound operation (attempts k) (delays k) deadline now with
    | .inl returned => some returned
    | .inr now => retryLoop operation attempts delays deadline rounds (k + 1) now

/-- The operation is called at some time, and returns at another. -/
def RetryReturns (operation : String) (attempts : Nat → Attempt) (delays : Nat → Option Nat)
    (totalDelay called : Nat) (result : Except RelayError Unit) (returned : Nat) : Prop :=
  ∃ rounds, retryLoop operation attempts delays (called + totalDelay) rounds 0 called =
    some (result, returned)

section Rounds

variable {operation : String} {attempts : Nat → Attempt} {delays : Nat → Option Nat}
  {deadline totalDelay called rounds k now returned : Nat} {result : Except RelayError Unit}

/-- The attempt ends with an error that may be gone the next time. -/
def Attempt.retryable (attempt : Attempt) : Bool :=
  match attempt.result with
  | .ok () => false
  | .error error => isRetryableRelayError error

/-- The attempt is the last one if so much time remains when it begins: it is cut off, or it
succeeds or fails for good, or no delay is left, or not enough time for it. -/
def Attempt.Last (attempt : Attempt) (delay : Option Nat) (remaining : Nat) : Prop :=
  remaining < attempt.duration ∨ attempt.retryable = false ∨ ∀ d, delay = some d → remaining ≤ d

/-- When an attempt begins if all before it were retried, counted from the call: after their
durations and delays. -/
def startOf (attempts : Nat → Attempt) (delays : Nat → Option Nat) : Nat → Nat
  | 0 => 0
  | k + 1 => startOf attempts delays k + ((attempts k).duration + (delays k).getD 0)

theorem startOf_mono {j : Nat} (h : j ≤ k) : startOf attempts delays j ≤ startOf attempts delays k := by
  induction k with
  | zero =>
    obtain rfl : j = 0 := by omega
    exact Nat.le_refl _
  | succ k ih =>
    by_cases hj : j ≤ k
    · have hk := ih hj
      rw [startOf]
      omega
    · obtain rfl : j = k + 1 := by omega
      exact Nat.le_refl _

theorem retryRound_late (attempt : Attempt) (delay : Option Nat) (h : deadline < now) :
    retryRound operation attempt delay deadline now =
      .inl (.error (.message s!"push relay {operation} exceeded retry budget"), now) := if_pos h

/-- A last attempt returns by the deadline. -/
theorem retryRound_last {attempt : Attempt} {delay : Option Nat} (hnow : now ≤ deadline)
    (hlast : attempt.Last delay (deadline - now)) :
    ∃ result returned, returned ≤ deadline ∧
      retryRound operation attempt delay deadline now = .inl (result, returned) := by
  have hopen : ¬ deadline < now := by omega
  rw [retryRound]
  dsimp only
  rw [if_neg hopen, timeoutAt]
  by_cases hcut : now + attempt.duration ≤ deadline
  · rw [if_pos hcut]
    cases hresult : attempt.result with
    | ok _ => exact ⟨_, _, hcut, rfl⟩
    | error error =>
      dsimp only
      by_cases hretry : isRetryableRelayError error = true
      · rw [if_pos hretry]
        cases delay with
        | none => exact ⟨_, _, hcut, rfl⟩
        | some delay =>
          have hspent : deadline - now ≤ delay := by
            rcases hlast with hlong | hfinal | hdelays
            · omega
            · rw [Attempt.retryable, hresult] at hfinal
              exact absurd (hretry.symm.trans hfinal) (by decide)
            · exact hdelays delay rfl
          dsimp only
          rw [if_pos hspent]
          exact ⟨_, _, hcut, rfl⟩
      · rw [if_neg hretry]
        exact ⟨_, _, hcut, rfl⟩
  · rw [if_neg hcut]
    exact ⟨_, _, Nat.le_refl _, rfl⟩

/-- Any other attempt is followed by the next one after its duration and its delay. -/
theorem retryRound_retried {attempt : Attempt} {delay : Option Nat} (hnow : now ≤ deadline)
    (hlast : ¬ attempt.Last delay (deadline - now)) :
    retryRound operation attempt delay deadline now =
      .inr (now + (attempt.duration + delay.getD 0)) := by
  have hopen : ¬ deadline < now := by omega
  obtain ⟨hlong, hfinal, hdelays⟩ : ¬ deadline - now < attempt.duration ∧
      ¬ attempt.retryable = false ∧ ∃ d, delay = some d ∧ ¬ deadline - now ≤ d := by
    simpa only [Attempt.Last, not_or, not_forall, exists_prop] using hlast
  obtain ⟨delay, rfl, hshort⟩ := hdelays
  have hcut : now + attempt.duration ≤ deadline := by omega
  cases hresult : attempt.result with
  | ok _ =>
    rw [Attempt.retryable, hresult] at hfinal
    exact absurd rfl hfinal
  | error error =>
    have hretry : isRetryableRelayError error = true := by
      rw [Attempt.retryable, hresult] at hfinal
      simpa using hfinal
    rw [retryRound]
    dsimp only
    rw [if_neg hopen, timeoutAt, if_pos hcut, hresult]
    dsimp only
    rw [if_pos hretry, if_neg hshort, Option.getD_some, Nat.add_assoc]

theorem retryLoop_inl {r : Except RelayError Unit × Nat}
    (h : retryRound operation (attempts k) (delays k) deadline now = .inl r) :
    retryLoop operation attempts delays deadline (rounds + 1) k now = some r := by
  rw [retryLoop, h]

theorem retryLoop_inr {next : Nat}
    (h : retryRound operation (attempts k) (delays k) deadline now = .inr next) :
    retryLoop operation attempts delays deadline (rounds + 1) k now =
      retryLoop operation attempts delays deadline rounds (k + 1) next := by
  rw [retryLoop, h]

/-- More rounds change nothing. -/
theorem retryLoop_mono
    (h : retryLoop operation attempts delays deadline rounds k now = some (result, returned))
    (more : Nat) : retryLoop operation attempts delays deadline (rounds + more) k now =
      some (result, returned) := by
  induction rounds generalizing k now with
  | zero => cases h
  | succ rounds ih =>
    rw [Nat.succ_add]
    cases hround : retryRound operation (attempts k) (delays k) deadline now with
    | inl r =>
      rw [retryLoop_inl hround] at h ⊢
      exact h
    | inr next =>
      rw [retryLoop_inr hround] at h ⊢
      exact ih h

/-- There is one result, at one time. -/
theorem RetryReturns.unique {result' : Except RelayError Unit} {returned' : Nat}
    (h : RetryReturns operation attempts delays totalDelay called result returned)
    (h' : RetryReturns operation attempts delays totalDelay called result' returned') :
    result = result' ∧ returned = returned' := by
  obtain ⟨rounds, h⟩ := h
  obtain ⟨rounds', h'⟩ := h'
  have hboth := retryLoop_mono h rounds'
  have hboth' := retryLoop_mono h' rounds
  rw [Nat.add_comm rounds' rounds, hboth] at hboth'
  have hsame := Option.some.inj hboth'
  exact ⟨congrArg Prod.fst hsame, congrArg Prod.snd hsame⟩

/-- A loop that returns by the deadline has come to a last attempt that begins by the deadline. -/
theorem exists_last_of_retryLoop
    (h : retryLoop operation attempts delays (called + totalDelay) rounds k
      (called + startOf attempts delays k) = some (result, returned))
    (hreturned : returned ≤ called + totalDelay) :
    ∃ j, startOf attempts delays j ≤ totalDelay ∧
      (attempts j).Last (delays j) (totalDelay - startOf attempts delays j) := by
  induction rounds generalizing k with
  | zero => cases h
  | succ rounds ih =>
    by_cases hlate : called + totalDelay < called + startOf attempts delays k
    · rw [retryLoop_inl (retryRound_late _ _ hlate)] at h
      cases h
      omega
    · by_cases hlast : (attempts k).Last (delays k) (totalDelay - startOf attempts delays k)
      · exact ⟨k, by omega, hlast⟩
      · rw [← Nat.add_sub_add_left called] at hlast
        rw [retryLoop_inr (retryRound_retried (by omega) hlast), Nat.add_assoc] at h
        exact ih h

/-- A last attempt that begins by the deadline is reached, or one before it is the last. -/
theorem retryLoop_returns (hstart : startOf attempts delays k ≤ totalDelay)
    (hlast : (attempts k).Last (delays k) (totalDelay - startOf attempts delays k)) (n : Nat) :
    ∀ j, j + n = k → ∃ result returned, returned ≤ called + totalDelay ∧
      retryLoop operation attempts delays (called + totalDelay) (n + 1) j
        (called + startOf attempts delays j) = some (result, returned) := by
  induction n with
  | zero =>
    rintro j rfl
    rw [Nat.add_zero, ← Nat.add_sub_add_left called] at hlast
    rw [Nat.add_zero] at hstart
    obtain ⟨result, returned, hle, hround⟩ := retryRound_last 
      (by omega) hlast
    exact ⟨result, returned, hle, retryLoop_inl hround⟩
  | succ n ih =>
    rintro j hj
    have hbefore : startOf attempts delays j ≤ startOf attempts delays k :=
      startOf_mono (by omega)
    by_cases hthis : (attempts j).Last (delays j) (totalDelay - startOf attempts delays j)
    · rw [← Nat.add_sub_add_left called] at hthis
      obtain ⟨result, returned, hle, hround⟩ := retryRound_last 
        (by omega) hthis
      exact ⟨result, returned, hle, retryLoop_inl hround⟩
    · obtain ⟨result, returned, hle, hnext⟩ := ih (j + 1) (by omega)
      rw [← Nat.add_sub_add_left called] at hthis
      refine ⟨result, returned, hle, ?_⟩
      rw [retryLoop_inr (retryRound_retried (by omega) hthis), Nat.add_assoc]
      exact hnext

end Rounds

/-- The operation returns within its budget if and only if some attempt that begins within the
budget is the last one. -/
theorem retry_in_budget_iff (operation : String) (attempts : Nat → Attempt)
    (delays : Nat → Option Nat) (totalDelay called : Nat) :
    (∃ result returned, RetryReturns operation attempts delays totalDelay called result returned ∧
      returned ≤ called + totalDelay) ↔
    ∃ k, startOf attempts delays k ≤ totalDelay ∧
      (attempts k).Last (delays k) (totalDelay - startOf attempts delays k) := by
  constructor
  · rintro ⟨result, returned, ⟨rounds, h⟩, hreturned⟩
    exact exists_last_of_retryLoop (k := 0) h hreturned
  · rintro ⟨k, hstart, hlast⟩
    obtain ⟨result, returned, hle, h⟩ := retryLoop_returns hstart hlast k 0
      (by omega)
    exact ⟨result, returned, ⟨k + 1, h⟩, hle⟩

/-- The relay answers 503 after these seconds, and the delays double up to eight. -/
private def slowAttempts (k : Nat) : Attempt :=
  ⟨[1, 1, 1, 1, 1, 1, 5, 5].getD k 0, .error (.http "/v1/push" 503 "")⟩

private def doublingDelays (k : Nat) : Option Nat := some ([1, 2, 4].getD k 8)

/-- The last attempt begins after 50 seconds and takes five, and a delay of eight follows. -/
theorem retry_past_budget :
    ¬ ∀ (operation : String) (attempts : Nat → Attempt) (delays : Nat → Option Nat)
      (totalDelay called : Nat), ∃ result returned,
      RetryReturns operation attempts delays totalDelay called result returned ∧
        returned ≤ called + totalDelay := by
  intro h
  obtain ⟨result, returned, hreturns, hle⟩ := h "post relay JSON" slowAttempts doublingDelays 60 0
  have hlate : RetryReturns "post relay JSON" slowAttempts doublingDelays 60 0
      (.error (.message "push relay post relay JSON exceeded retry budget")) 63 := ⟨9, by rfl⟩
  obtain ⟨-, rfl⟩ := hlate.unique hreturns
  omega

end Shelly.Daemon
