import Mathlib.Data.List.Basic

namespace Shelly

/-- A stream to read from: what will still arrive, and how much each call would move. -/
structure Source where
  bytes : List UInt8
  grant : Nat → Nat
  calls : Nat

/-- A stream to write to: what was taken, and how much each call would take. -/
structure Sink where
  bytes : List UInt8
  grant : Nat → Nat
  calls : Nat

/-- What a call moves of so many bytes: at least one, if there is one. -/
def moved (grant available : Nat) : Nat := min (max 1 grant) available

theorem moved_le (grant available : Nat) : moved grant available ≤ available := Nat.min_le_right _ _

theorem moved_pos {grant available : Nat} (h : 0 < available) : 0 < moved grant available := by
  unfold moved
  omega

namespace Source

/-- One call with a buffer of length `n`. It gives nothing only at the end of the stream. -/
def read (s : Source) (n : Nat) : List UInt8 × Source :=
  let k := moved (s.grant s.calls) (min n s.bytes.length)
  (s.bytes.take k, { s with bytes := s.bytes.drop k, calls := s.calls + 1 })

theorem length_read_le (s : Source) (n : Nat) : (s.read n).1.length ≤ n := by
  have hle := moved_le (s.grant s.calls) (min n s.bytes.length)
  simp only [read, List.length_take]
  omega

/-- Calls again until the buffer of length `n` is full. -/
def readExact (s : Source) (n : Nat) : Option (List UInt8) × Source :=
  if n = 0 then (some [], s)
  else
    let got := (s.read n).1
    if got = [] then (none, (s.read n).2)
    else
      let r := (s.read n).2.readExact (n - got.length)
      (r.1.map (got ++ ·), r.2)
termination_by n
decreasing_by
  have hpos : 0 < (s.read n).1.length := List.length_pos_iff.mpr ‹_›
  omega

theorem length_readExact {n : Nat} {s : Source} {got : List UInt8}
    (h : (s.readExact n).1 = some got) : got.length = n := by
  induction n using Nat.strongRecOn generalizing s got with
  | _ n ih =>
    rw [readExact] at h
    by_cases hzero : n = 0
    · rw [if_pos hzero] at h
      obtain rfl := Option.some.inj h
      exact hzero.symm
    · rw [if_neg hzero] at h
      by_cases hgot : (s.read n).1 = []
      · simp only [if_pos hgot] at h
        cases h
      · simp only [if_neg hgot] at h
        obtain ⟨others, hothers, rfl⟩ := Option.map_eq_some_iff.mp h
        have hpos := List.length_pos_iff.mpr hgot
        have hle := s.length_read_le n
        have hlength := ih _ (by omega) hothers
        rw [List.length_append, hlength]
        omega

theorem read_append {n : Nat} {s : Source} {first rest : List UInt8}
    (hbytes : s.bytes = first ++ rest) (hn : first.length = n) (hpos : 0 < n) :
    ∃ k, 0 < k ∧ k ≤ n ∧ s.read n =
      (first.take k, { s with bytes := first.drop k ++ rest, calls := s.calls + 1 }) := by
  have hmin : min n s.bytes.length = n := by
    rw [hbytes, List.length_append]
    omega
  have hle := moved_le (s.grant s.calls) n
  refine ⟨moved (s.grant s.calls) n, moved_pos hpos, hle, ?_⟩
  rw [read, hmin, hbytes, List.take_append_of_le_length (by omega),
    List.drop_append_of_le_length (by omega)]

/-- However the bytes arrive, the buffer is filled with the next ones if there are enough. -/
theorem readExact_append {n : Nat} {s : Source} {first rest : List UInt8}
    (hbytes : s.bytes = first ++ rest) (hn : first.length = n) :
    ∃ calls, s.readExact n = (some first, { s with bytes := rest, calls }) := by
  induction n using Nat.strongRecOn generalizing s first with
  | _ n ih =>
    by_cases hzero : n = 0
    · obtain rfl : first = [] := List.length_eq_zero_iff.mp (hn.trans hzero)
      refine ⟨s.calls, ?_⟩
      rw [readExact, if_pos hzero, ← List.nil_append rest, ← hbytes]
    · obtain ⟨k, hk, hkn, hread⟩ := read_append hbytes hn (Nat.pos_of_ne_zero hzero)
      have htake : (first.take k).length = k := by
        rw [List.length_take]
        omega
      have hgot : first.take k ≠ [] := List.length_pos_iff.mp (by omega)
      obtain ⟨calls, hrest⟩ := ih (n - k) (by omega)
        (s := { s with bytes := first.drop k ++ rest, calls := s.calls + 1 })
        rfl (by rw [List.length_drop, hn])
      refine ⟨calls, ?_⟩
      rw [readExact, if_neg hzero]
      simp only [hread, if_neg hgot, htake, hrest, Option.map_some, List.take_append_drop]

end Source

namespace Sink

/-- One call with these bytes. -/
def write (s : Sink) (offered : List UInt8) : Nat × Sink :=
  let k := moved (s.grant s.calls) offered.length
  (k, { s with bytes := s.bytes ++ offered.take k, calls := s.calls + 1 })

theorem write_fst_le (s : Sink) (offered : List UInt8) : (s.write offered).1 ≤ offered.length :=
  moved_le _ _

theorem write_fst_pos (s : Sink) {offered : List UInt8} (h : offered ≠ []) :
    0 < (s.write offered).1 := moved_pos (List.length_pos_iff.mpr h)

end Sink

end Shelly
