import Mathlib.Tactic.Linarith
import Mathlib.Tactic.Ring

namespace Shelly.Mobile

/-- Kotlin's `Int` and `Long` wrap. -/
def wrapInt (n : Int) : Int := Int.bmod n (2 ^ 32)

def wrapLong (n : Int) : Int := Int.bmod n (2 ^ 64)

/-- The loop with the rounds that are left. A delay that has come to the cap ends it early. -/
def doubleDelay (capMillis : Int) : Nat → Int → Int
  | 0, delayMillis => min delayMillis capMillis
  | rounds + 1, delayMillis =>
    if capMillis ≤ delayMillis then capMillis
    else doubleDelay capMillis rounds (wrapLong (delayMillis * 2))

def sessionRetryBackoffMillis (attempt baseMillis capMillis : Int) : Int :=
  if baseMillis ≤ 0 ∨ capMillis ≤ 0 then 0
  else doubleDelay capMillis (max (wrapInt (attempt - 1)) 0).toNat baseMillis

/-- No doubling of the loop overflows. -/
def DoublesExactly (capMillis : Int) : Nat → Int → Prop
  | 0, _ => True
  | rounds + 1, delayMillis => delayMillis < capMillis →
    wrapLong (delayMillis * 2) = delayMillis * 2 ∧
      DoublesExactly capMillis rounds (wrapLong (delayMillis * 2))

/-- The delay before an attempt is the doubled base, up to the cap. -/
structure ExactBackoff (attempt baseMillis capMillis : Int) : Prop where
  value : sessionRetryBackoffMillis attempt baseMillis capMillis =
    min capMillis (baseMillis * 2 ^ (attempt - 1).toNat)
  doublings : DoublesExactly capMillis (attempt - 1).toNat baseMillis
  positive : 1 ≤ sessionRetryBackoffMillis attempt baseMillis capMillis
  capped : sessionRetryBackoffMillis attempt baseMillis capMillis ≤ capMillis
  monotone : ∀ earlier, 1 ≤ earlier → earlier ≤ attempt →
    sessionRetryBackoffMillis earlier baseMillis capMillis ≤
      sessionRetryBackoffMillis attempt baseMillis capMillis

/-- The doubled base is below 2^63 to the end, or from below the cap it comes to at least the cap
without going over 2^63. -/
def StaysInRange (capMillis : Int) (rounds : Nat) (delayMillis : Int) : Prop :=
  delayMillis * 2 ^ rounds < 2 ^ 63 ∨
    ∃ k ≤ rounds, capMillis ≤ delayMillis * 2 ^ k ∧ delayMillis * 2 ^ k < 2 ^ 63

section Loop

variable {capMillis delayMillis : Int} {rounds : Nat}

theorem wrapLong_eq_self {n : Int} (hlo : -2 ^ 63 ≤ n) (hhi : n < 2 ^ 63) : wrapLong n = n := by
  unfold wrapLong
  apply Int.bmod_eq_of_le <;> omega

theorem wrapLong_lt (n : Int) : wrapLong n < 2 ^ 63 := by
  have h := Int.bmod_lt (x := n) (m := 2 ^ 64) (by decide)
  unfold wrapLong
  omega

theorem mul_two_pow_succ (d : Int) (k : Nat) : d * 2 ^ (k + 1) = d * 2 * 2 ^ k := by
  rw [pow_succ]
  ring

theorem le_mul_two_pow {d : Int} (hd : 0 < d) (k : Nat) : d ≤ d * 2 ^ k := by
  have hone : (1 : Int) ≤ 2 ^ k := one_le_pow₀ (by decide)
  have hmul := Int.mul_le_mul_of_nonneg_left hone hd.le
  omega

theorem staysInRange_succ (hd : 0 < delayMillis) (hlow : delayMillis < capMillis) :
    StaysInRange capMillis (rounds + 1) delayMillis ↔
      delayMillis * 2 < 2 ^ 63 ∧ StaysInRange capMillis rounds (delayMillis * 2) := by
  unfold StaysInRange
  constructor
  · rintro (hend | ⟨k, hk, hcap, hlt⟩)
    · rw [mul_two_pow_succ] at hend
      have hle := le_mul_two_pow (show 0 < delayMillis * 2 by omega) rounds
      exact ⟨by omega, .inl hend⟩
    · cases k with
      | zero =>
        rw [pow_zero, mul_one] at hcap
        omega
      | succ k =>
        rw [mul_two_pow_succ] at hcap hlt
        have hle := le_mul_two_pow (show 0 < delayMillis * 2 by omega) k
        exact ⟨by omega, .inr ⟨k, by omega, hcap, hlt⟩⟩
  · rintro ⟨-, hend | ⟨k, hk, hcap, hlt⟩⟩
    · left
      rwa [mul_two_pow_succ]
    · refine .inr ⟨k + 1, by omega, ?_⟩
      rw [mul_two_pow_succ]
      exact ⟨hcap, hlt⟩

/-- The loop doubles without an overflow as long as the unbounded values do. -/
theorem doublesExactly_iff (hd : 0 < delayMillis) (hd' : delayMillis < 2 ^ 63) :
    DoublesExactly capMillis rounds delayMillis ↔ StaysInRange capMillis rounds delayMillis := by
  induction rounds generalizing delayMillis with
  | zero =>
    have hend : delayMillis * 2 ^ 0 < 2 ^ 63 := by
      rw [pow_zero, mul_one]
      exact hd'
    exact ⟨fun _ => .inl hend, fun _ => trivial⟩
  | succ rounds ih =>
    by_cases hlow : delayMillis < capMillis
    · rw [staysInRange_succ hd hlow]
      constructor
      · intro h
        obtain ⟨hexact, hrest⟩ := h hlow
        have hlt := wrapLong_lt (delayMillis * 2)
        rw [hexact] at hlt hrest
        exact ⟨hlt, (ih (by omega) hlt).mp hrest⟩
      · rintro ⟨hlt, hrest⟩ -
        have hexact : wrapLong (delayMillis * 2) = delayMillis * 2 :=
          wrapLong_eq_self (by omega) hlt
        refine ⟨hexact, ?_⟩
        rw [hexact]
        exact (ih (by omega) hlt).mpr hrest
    · have hstart : capMillis ≤ delayMillis * 2 ^ 0 ∧ delayMillis * 2 ^ 0 < 2 ^ 63 := by
        rw [pow_zero, mul_one]
        exact ⟨by omega, hd'⟩
      exact ⟨fun _ => .inr ⟨0, Nat.zero_le _, hstart⟩, fun _ h => absurd h hlow⟩

theorem doubleDelay_eq (hd : 0 < delayMillis)
    (h : DoublesExactly capMillis rounds delayMillis) :
    doubleDelay capMillis rounds delayMillis = min capMillis (delayMillis * 2 ^ rounds) := by
  induction rounds generalizing delayMillis with
  | zero =>
    rw [pow_zero, mul_one]
    exact min_comm _ _
  | succ rounds ih =>
    rw [doubleDelay]
    split
    · rename_i hcap
      have hle := le_mul_two_pow hd (rounds + 1)
      exact (min_eq_left (by omega)).symm
    · rename_i hcap
      obtain ⟨hexact, hrest⟩ := h (by omega)
      rw [hexact] at hrest ⊢
      rw [ih (by omega) hrest, mul_two_pow_succ]

theorem DoublesExactly.mono {fewer : Nat} (hle : fewer ≤ rounds)
    (h : DoublesExactly capMillis rounds delayMillis) :
    DoublesExactly capMillis fewer delayMillis := by
  induction rounds generalizing fewer delayMillis with
  | zero =>
    obtain rfl : fewer = 0 := by omega
    trivial
  | succ rounds ih =>
    cases fewer with
    | zero => trivial
    | succ fewer =>
      intro hlow
      obtain ⟨hexact, hrest⟩ := h hlow
      exact ⟨hexact, ih (by omega) hrest⟩

end Loop

section Backoff

variable {attempt baseMillis capMillis : Int}

/-- The number of rounds is one less than the attempt. -/
theorem sessionRetryBackoffMillis_eq (hattempt : 1 ≤ attempt) (hattempt' : attempt < 2 ^ 31)
    (hbase : 0 < baseMillis) (hcap : 0 < capMillis) :
    sessionRetryBackoffMillis attempt baseMillis capMillis =
      doubleDelay capMillis (attempt - 1).toNat baseMillis := by
  have hwrap : wrapInt (attempt - 1) = attempt - 1 := by
    unfold wrapInt
    apply Int.bmod_eq_of_le <;> omega
  have hmax : max (attempt - 1) 0 = attempt - 1 := max_eq_left (by omega)
  unfold sessionRetryBackoffMillis
  rw [if_neg (by omega), hwrap, hmax]

/-- The backoff is exact, does not overflow and never decreases if and only if the doubled base is
below 2^63 to the end or does not jump from below the cap over 2^63. -/
theorem backoff_exact_iff (hattempt : 1 ≤ attempt) (hattempt' : attempt < 2 ^ 31)
    (hbase : 0 < baseMillis) (hbase' : baseMillis < 2 ^ 63) (hcap : 0 < capMillis) :
    ExactBackoff attempt baseMillis capMillis ↔
      StaysInRange capMillis (attempt - 1).toNat baseMillis := by
  rw [← doublesExactly_iff hbase hbase']
  refine ⟨fun h => h.doublings, fun h => ?_⟩
  have hvalue := (sessionRetryBackoffMillis_eq hattempt hattempt' hbase hcap).trans
    (doubleDelay_eq hbase h)
  have hle := le_mul_two_pow hbase (attempt - 1).toNat
  refine ⟨hvalue, h, ?_, ?_, fun earlier hearlier hle => ?_⟩
  · rw [hvalue]
    exact le_min hcap (by omega)
  · rw [hvalue]
    exact min_le_left _ _
  · have hrounds : (earlier - 1).toNat ≤ (attempt - 1).toNat := by omega
    rw [hvalue, sessionRetryBackoffMillis_eq hearlier (by omega) hbase hcap,
      doubleDelay_eq hbase (h.mono hrounds)]
    have hpow : (2 : Int) ^ (earlier - 1).toNat ≤ 2 ^ (attempt - 1).toNat :=
      pow_le_pow_right₀ (by decide) hrounds
    exact min_le_min_left _ (Int.mul_le_mul_of_nonneg_left hpow hbase.le)

/-- A cap in the lower half of the range is never jumped over. -/
theorem staysInRange_of_le {rounds : Nat} {delayMillis : Int} (hd : 0 < delayMillis)
    (hd' : delayMillis < 2 ^ 63) (hcap : capMillis ≤ 2 ^ 62) :
    StaysInRange capMillis rounds delayMillis := by
  rw [← doublesExactly_iff hd hd']
  induction rounds generalizing delayMillis with
  | zero => trivial
  | succ rounds ih =>
    intro hlow
    have hexact : wrapLong (delayMillis * 2) = delayMillis * 2 :=
      wrapLong_eq_self (by omega) (by omega)
    refine ⟨hexact, ?_⟩
    rw [hexact]
    exact ih (by omega) (by omega)

/-- A base of 750 ms and a cap of 30 s. -/
theorem backoff_exact_ninth : ExactBackoff 9 750 30000 :=
  (backoff_exact_iff (by decide) (by decide) (by decide) (by decide) (by decide)).mpr
    (staysInRange_of_le (by decide) (by decide) (by decide))

/-- From 2^62, below the cap, the doubled delay wraps to a negative one. -/
theorem backoff_overflows :
    ¬ ∀ attempt baseMillis capMillis : Int, 1 ≤ attempt → attempt < 2 ^ 31 →
      0 < baseMillis → baseMillis < 2 ^ 63 → 0 < capMillis → capMillis < 2 ^ 63 →
      ExactBackoff attempt baseMillis capMillis := by
  intro hall
  have h := hall 2 (2 ^ 62) (2 ^ 63 - 1) (by decide) (by decide) (by decide) (by decide)
    (by decide) (by decide)
  have hwrapped : sessionRetryBackoffMillis 2 (2 ^ 62) (2 ^ 63 - 1) = -2 ^ 63 := by decide
  have hpositive := h.positive
  rw [hwrapped] at hpositive
  omega

end Backoff

end Shelly.Mobile
