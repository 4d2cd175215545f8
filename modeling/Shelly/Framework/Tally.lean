import Mathlib.Data.List.Count
import Mathlib.Data.List.Perm.Basic

namespace Shelly

section Tally

variable {δ κ : Type*} [DecidableEq κ] (of : δ → κ) (number : δ → Nat)

/-- Tickets, the newest first, that several counters have given out. Each counter numbers its own
from one on. -/
inductive Numbered : List δ → Prop
  | nil : Numbered []
  | cons {d : δ} {ds : List δ} : Numbered ds → number d = ds.countP (of · = of d) + 1 →
      Numbered (d :: ds)

variable {of number} {ds : List δ}

/-- Of the tickets of one counter those within a limit are the first ones, and no others. -/
theorem Numbered.countP_within (h : Numbered of number ds) (limit : Nat) (k : κ) :
    ds.countP (fun d => of d = k ∧ number d ≤ limit) = min limit (ds.countP (of · = k)) := by
  induction h with
  | nil => simp
  | @cons d ds _ hnumber ih =>
    by_cases hk : of d = k
    · rw [hk] at hnumber
      simp only [List.countP_cons, ih, hk, hnumber, true_and, decide_true, if_true,
        decide_eq_true_eq]
      split <;> omega
    · simp only [List.countP_cons, ih, hk, false_and, decide_false, Bool.false_eq_true, if_false,
        Nat.add_zero]

/-- So many counters let no more through than their limits together. -/
theorem Numbered.countP_le_mul (h : Numbered of number ds) (limit : Nat) (ks : List κ)
    (p : δ → Bool) (hks : ∀ d ∈ ds, p d = true → of d ∈ ks) :
    ds.countP (fun d => p d && decide (number d ≤ limit)) ≤ limit * ks.length := by
  induction ks generalizing p with
  | nil =>
    have hnone : ds.countP (fun d => p d && decide (number d ≤ limit)) = 0 := by
      refine List.countP_eq_zero.mpr fun d hd hpd => ?_
      obtain ⟨hp, -⟩ := Bool.and_eq_true_iff.mp hpd
      cases hks d hd hp
    rw [hnone]
    exact Nat.zero_le _
  | cons k ks ih =>
    have hfirst : ds.countP (fun d => (p d && decide (number d ≤ limit)) && decide (of d = k)) ≤
        limit := by
      calc ds.countP (fun d => (p d && decide (number d ≤ limit)) && decide (of d = k))
          ≤ ds.countP (fun d => of d = k ∧ number d ≤ limit) := by
            refine List.countP_mono_left fun d _ hpd => ?_
            obtain ⟨hpd, hof⟩ := Bool.and_eq_true_iff.mp hpd
            obtain ⟨-, hlimit⟩ := Bool.and_eq_true_iff.mp hpd
            exact decide_eq_true ⟨of_decide_eq_true hof, of_decide_eq_true hlimit⟩
        _ = min limit (ds.countP (of · = k)) := h.countP_within limit k
        _ ≤ limit := Nat.min_le_left _ _
    have hrest := ih (fun d => p d && !decide (of d = k)) fun d hd hpd => by
      obtain ⟨hp, hof⟩ := Bool.and_eq_true_iff.mp hpd
      have hne : of d ≠ k := by simpa using hof
      exact (List.mem_cons.mp (hks d hd hp)).resolve_left hne
    have hsplit := List.countP_eq_countP_filter_add ds
      (fun d => p d && decide (number d ≤ limit)) (fun d => decide (of d = k))
    rw [List.countP_filter, List.countP_filter] at hsplit
    have hsame : ds.countP (fun d => (p d && decide (number d ≤ limit)) && !decide (of d = k)) =
        ds.countP (fun d => (p d && !decide (of d = k)) && decide (number d ≤ limit)) := by
      refine List.countP_congr fun d _ => ?_
      rw [Bool.and_right_comm]
    rw [hsplit, hsame, List.length_cons, Nat.mul_succ, Nat.add_comm]
    exact Nat.add_le_add hrest hfirst

end Tally

end Shelly
