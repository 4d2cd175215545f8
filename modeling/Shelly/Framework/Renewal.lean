import Mathlib.Algebra.Order.Group.Nat
import Mathlib.Data.List.Basic

namespace Shelly

section Spaced

variable {τ : Type*} [AddCommMonoid τ] [PartialOrder τ] [IsOrderedAddMonoid τ] {gap : τ}

/-- Times, the newest first, each at least a gap after every earlier one. -/
def Spaced (gap : τ) (times : List τ) : Prop :=
  times.Pairwise fun later earlier => earlier + gap ≤ later

theorem Spaced.nsmul_add_le {start newest : τ} {times : List τ} (h : Spaced gap (newest :: times))
    (hstart : ∀ t ∈ newest :: times, start ≤ t) : times.length • gap + start ≤ newest := by
  induction times generalizing newest with
  | nil =>
    rw [List.length_nil, zero_nsmul, zero_add]
    exact hstart newest List.mem_cons_self
  | cons t times ih =>
    have hgap : t + gap ≤ newest := List.rel_of_pairwise_cons h List.mem_cons_self
    have hrest : times.length • gap + start ≤ t :=
      ih h.of_cons fun u hu => hstart u (List.mem_cons_of_mem newest hu)
    calc (t :: times).length • gap + start
        = times.length • gap + start + gap := by
          rw [List.length_cons, succ_nsmul, add_right_comm]
      _ ≤ t + gap := add_le_add_left hrest gap
      _ ≤ newest := hgap

/-- So many of them fit between two moments. -/
theorem Spaced.length_le {gap start stop : Nat} {times : List Nat} (h : Spaced gap times)
    (hgap : 0 < gap) (hwithin : ∀ t ∈ times, start ≤ t ∧ t ≤ stop) :
    times.length ≤ (stop - start) / gap + 1 := by
  cases times with
  | nil => exact Nat.zero_le _
  | cons newest times =>
    have hspan := h.nsmul_add_le fun t ht => (hwithin t ht).1
    have hstop := (hwithin newest List.mem_cons_self).2
    rw [Nat.nsmul_eq_mul] at hspan
    have hfits : times.length ≤ (stop - start) / gap := by
      rw [Nat.le_div_iff_mul_le hgap]
      omega
    exact Nat.succ_le_succ hfits

end Spaced

/-- Something that was obtained at one reading of a clock and is good for use until another. -/
structure Renewal (α : Type*) where
  value : α
  takenAt : Nat
  refreshAt : Nat
  deriving DecidableEq

/-- What was obtained one after the other, the newest first: nothing is obtained while what was
obtained before it is good for use. -/
structure Renewed {α : Type*} (rs : List (Renewal α)) : Prop where
  lasts : ∀ r ∈ rs, r.takenAt ≤ r.refreshAt
  apart : rs.Pairwise fun later earlier => earlier.refreshAt ≤ later.takenAt

namespace Renewed

variable {α : Type*} {r : Renewal α} {rs : List (Renewal α)}

theorem nil : Renewed ([] : List (Renewal α)) := ⟨nofun, .nil⟩

/-- It is enough to look at the newest. -/
theorem renew (h : Renewed rs) (hlasts : r.takenAt ≤ r.refreshAt)
    (hout : ∀ newest ∈ rs.head?, newest.refreshAt ≤ r.takenAt) : Renewed (r :: rs) := by
  refine ⟨List.forall_mem_cons.mpr ⟨hlasts, h.lasts⟩, List.pairwise_cons.mpr ⟨?_, h.apart⟩⟩
  intro e he
  cases rs with
  | nil => cases he
  | cons newest rs =>
    have hnewest : newest.refreshAt ≤ r.takenAt := hout newest rfl
    have hstays : newest.takenAt ≤ newest.refreshAt := h.lasts newest List.mem_cons_self
    rcases List.mem_cons.mp he with rfl | he
    · exact hnewest
    · have hearlier : e.refreshAt ≤ newest.takenAt := List.rel_of_pairwise_cons h.apart he
      exact hearlier.trans (hstays.trans hnewest)

/-- Those that last at least a gap come at most once in a gap. -/
theorem length_filter_le (h : Renewed rs) (p : Renewal α → Bool) {gap start stop : Nat}
    (hgap : 0 < gap) (hwithin : ∀ r ∈ rs, p r = true → start ≤ r.takenAt ∧ r.takenAt ≤ stop)
    (hlasts : ∀ r ∈ rs, p r = true → ∀ t ≤ stop, r.refreshAt ≤ t → r.takenAt + gap ≤ t) :
    (rs.filter p).length ≤ (stop - start) / gap + 1 := by
  have hchosen (e : Renewal α) (he : e ∈ rs.filter p) : e ∈ rs ∧ p e = true :=
    List.mem_filter.mp he
  have hspaced : Spaced gap ((rs.filter p).map (·.takenAt)) := by
    refine List.pairwise_map.mpr ?_
    have hpairs := h.apart.sublist (List.filter_sublist (p := p))
    refine hpairs.imp_of_mem ?_
    intro later earlier hlater hearlier hnext
    obtain ⟨hmem, hp⟩ := hchosen later hlater
    obtain ⟨hmem', hp'⟩ := hchosen earlier hearlier
    exact hlasts earlier hmem' hp' later.takenAt (hwithin later hmem hp).2 hnext
  rw [← List.length_map (·.takenAt)]
  refine hspaced.length_le hgap ?_
  intro t ht
  obtain ⟨e, he, rfl⟩ := List.mem_map.mp ht
  exact hwithin e (hchosen e he).1 (hchosen e he).2

end Renewed

end Shelly
