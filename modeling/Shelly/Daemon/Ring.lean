import Shelly.Framework.Channel
import Shelly.Framework.Word

namespace Shelly.Daemon

/-- The last bytes a session wrote, numbered by their place in its whole output. -/
structure PtyRingBuffer where
  capacity : Nat
  startSeq : Nat
  nextSeq : Nat
  data : List UInt8
  deriving DecidableEq

namespace PtyRingBuffer

def new (capacity : Nat) : PtyRingBuffer := ⟨capacity, 0, 0, []⟩

def push (r : PtyRingBuffer) (bytes : List UInt8) : Nat × PtyRingBuffer :=
  let originalStart := r.nextSeq
  if bytes.isEmpty then
    (originalStart, r)
  else
    match checkedAdd r.nextSeq bytes.length with
    | none =>
      -- The counter is exhausted: every later replay misses.
      (originalStart, { r with nextSeq := u64Max, startSeq := u64Max, data := [] })
    | some nextSeq =>
      let kept :=
        if r.capacity < bytes.length then bytes.drop (bytes.length - r.capacity) else bytes
      let overflow := r.data.length + kept.length - r.capacity
      let data := r.data.drop overflow ++ kept
      (originalStart, { r with nextSeq, data, startSeq := nextSeq - data.length })

def replayFrom (r : PtyRingBuffer) (seq : Nat) : Option (Nat × List UInt8) :=
  if seq < r.startSeq ∨ r.nextSeq < seq then none
  else some (seq, r.data.drop (seq - r.startSeq))

def snapshot (r : PtyRingBuffer) : Nat × List UInt8 := (r.startSeq, r.data)

def endSeq (r : PtyRingBuffer) : Nat := r.nextSeq

/-- The buffer holds the end of the stream. -/
structure Mirrors (stream : List UInt8) (r : PtyRingBuffer) : Prop where
  nextSeq : r.nextSeq = stream.length
  startSeq : r.startSeq ≤ stream.length
  data : r.data = stream.drop r.startSeq

theorem new_mirrors (capacity : Nat) : Mirrors [] (new capacity) := ⟨rfl, Nat.le_refl 0, rfl⟩

theorem push_fst (r : PtyRingBuffer) (bytes : List UInt8) : (r.push bytes).1 = r.nextSeq := by
  unfold push
  split
  · rfl
  · split <;> rfl

/-- The end of what the buffer held followed by the end of the new bytes is an end
of the longer stream. -/
private theorem drop_append_kept (stream bytes : List UInt8) (start capacity : Nat)
    (hs : start ≤ stream.length) :
    let kept := if capacity < bytes.length then bytes.drop (bytes.length - capacity) else bytes
    let data := (stream.drop start).drop ((stream.drop start).length + kept.length - capacity) ++ kept
    data.length ≤ (stream ++ bytes).length ∧
      data = (stream ++ bytes).drop ((stream ++ bytes).length - data.length) := by
  intro kept data
  obtain ⟨n, hn, hdata⟩ : ∃ n ≤ (stream ++ bytes).length, data = (stream ++ bytes).drop n := by
    by_cases hc : capacity < bytes.length
    · have hkept : kept = bytes.drop (bytes.length - capacity) := if_pos hc
      refine ⟨stream.length + (bytes.length - capacity), by rw [List.length_append]; omega, ?_⟩
      have hlen : kept.length = capacity := by rw [hkept, List.length_drop]; omega
      have hnone : (stream.drop start).drop
          ((stream.drop start).length + kept.length - capacity) = [] :=
        List.drop_eq_nil_of_le (by omega)
      change (stream.drop start).drop _ ++ kept = _
      rw [hnone, hkept, List.nil_append, List.drop_append,
        List.drop_eq_nil_of_le (by omega : stream.length ≤ _), List.nil_append]
      congr 1
      omega
    · have hkept : kept = bytes := if_neg hc
      refine ⟨start + min ((stream.drop start).length + bytes.length - capacity)
        (stream.length - start), by rw [List.length_append]; omega, ?_⟩
      change (stream.drop start).drop _ ++ kept = _
      rw [hkept, List.drop_append_of_le_length (by omega), List.drop_drop]
      congr 1
      rcases Nat.le_total ((stream.drop start).length + bytes.length - capacity)
        (stream.length - start) with h | h
      · rw [Nat.min_eq_left h]
      · rw [Nat.min_eq_right h, List.drop_eq_nil_of_le (by omega),
          List.drop_eq_nil_of_le (by omega)]
  have hlen : data.length = (stream ++ bytes).length - n := by rw [hdata, List.length_drop]
  refine ⟨by omega, ?_⟩
  rw [hlen, Nat.sub_sub_self hn]
  exact hdata

theorem Mirrors.pushed {stream : List UInt8} {r : PtyRingBuffer} (h : Mirrors stream r)
    (bytes : List UInt8) (hmax : (stream ++ bytes).length ≤ u64Max) :
    Mirrors (stream ++ bytes) (r.push bytes).2 := by
  rw [List.length_append] at hmax
  unfold push
  split
  · rename_i hempty
    rw [List.isEmpty_iff.mp hempty, List.append_nil]
    exact h
  · rw [h.nextSeq, checkedAdd_of_le hmax, h.data]
    obtain ⟨hle, hdata⟩ := drop_append_kept stream bytes r.startSeq r.capacity h.startSeq
    rw [List.length_append] at hle hdata
    exact ⟨(List.length_append).symm, by rw [List.length_append]; exact Nat.sub_le _ _, hdata⟩

theorem Mirrors.replayed {stream : List UInt8} {r : PtyRingBuffer} (h : Mirrors stream r)
    {seq start : Nat} {replay : List UInt8} (hr : r.replayFrom seq = some (start, replay)) :
    start = seq ∧ seq ≤ stream.length ∧ replay = stream.drop seq := by
  unfold replayFrom at hr
  split at hr
  · cases hr
  · rename_i hwindow
    rw [not_or, Nat.not_lt, Nat.not_lt, h.nextSeq] at hwindow
    obtain ⟨rfl, rfl⟩ := Prod.mk.inj (Option.some.inj hr)
    refine ⟨rfl, hwindow.2, ?_⟩
    rw [h.data, List.drop_drop, Nat.add_sub_cancel' hwindow.1]

end PtyRingBuffer
end Shelly.Daemon
