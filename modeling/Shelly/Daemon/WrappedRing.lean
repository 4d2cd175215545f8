import Mathlib.Data.List.Induction
import Shelly.Framework.Deque
import Shelly.Daemon.Ring

namespace Shelly.Daemon

/-- The ring buffer over the store in which its bytes go around. -/
structure WrappedRing where
  capacity : Nat
  startSeq : Nat
  nextSeq : Nat
  data : Deque UInt8

namespace WrappedRing

def new (capacity : Nat) : WrappedRing := ⟨capacity, 0, 0, .new⟩

def push (r : WrappedRing) (allocator : Allocator UInt8) (bytes : List UInt8) :
    Nat × WrappedRing :=
  let originalStart := r.nextSeq
  if bytes.isEmpty then
    (originalStart, r)
  else
    match checkedAdd r.nextSeq bytes.length with
    | none =>
      (originalStart, { r with nextSeq := u64Max, startSeq := u64Max, data := r.data.clear })
    | some nextSeq =>
      let bytes :=
        if r.capacity < bytes.length then bytes.drop (bytes.length - r.capacity) else bytes
      let overflow := r.data.len + bytes.length - r.capacity
      let data := if 0 < overflow then r.data.drain overflow else r.data
      let data := data.extend allocator bytes
      (originalStart, { r with nextSeq, data, startSeq := nextSeq - data.len })

def replayFrom (r : WrappedRing) (seq : Nat) : Option (Nat × List UInt8) :=
  if seq < r.startSeq ∨ r.nextSeq < seq then none
  else
    let offset := seq - r.startSeq
    let (first, second) := r.data.asSlices
    some (seq,
      if offset < first.length then first.drop offset ++ second
      else second.drop (offset - first.length))

def snapshot (r : WrappedRing) : Nat × List UInt8 :=
  let (first, second) := r.data.asSlices
  (r.startSeq, first ++ second)

def endSeq (r : WrappedRing) : Nat := r.nextSeq

/-- The ring as one run of bytes, wherever its store goes around. -/
def flat (r : WrappedRing) : PtyRingBuffer := ⟨r.capacity, r.startSeq, r.nextSeq, r.data.contents⟩

theorem push_flat (r : WrappedRing) (allocator : Allocator UInt8) (bytes : List UInt8) :
    (r.push allocator bytes).1 = (r.flat.push bytes).1 ∧
      (r.push allocator bytes).2.flat = (r.flat.push bytes).2 := by
  have hnext : r.flat.nextSeq = r.nextSeq := rfl
  unfold push PtyRingBuffer.push
  rw [hnext]
  by_cases hempty : bytes.isEmpty
  · rw [if_pos hempty, if_pos hempty]
    exact ⟨rfl, rfl⟩
  · rw [if_neg hempty, if_neg hempty]
    cases checkedAdd r.nextSeq bytes.length with
    | none =>
      refine ⟨rfl, ?_⟩
      simp only [flat, Deque.contents_clear]
    | some nextSeq =>
      refine ⟨rfl, ?_⟩
      have hdrain (n : Nat) : (if 0 < n then r.data.drain n else r.data).contents =
          r.data.contents.drop n := by
        by_cases hn : 0 < n
        · rw [if_pos hn]
          exact Deque.contents_drain r.data n
        · rw [if_neg hn, Nat.eq_zero_of_not_pos hn, List.drop_zero]
      simp only [flat, ← Deque.length_contents, Deque.contents_extend, hdrain]
      rfl

theorem snapshot_flat (r : WrappedRing) : r.snapshot = r.flat.snapshot := rfl

/-- Dropping from the two slices one after the other drops from the whole. -/
theorem replayFrom_flat (r : WrappedRing) (seq : Nat) : r.replayFrom seq = r.flat.replayFrom seq := by
  unfold replayFrom PtyRingBuffer.replayFrom
  change _ = if seq < r.startSeq ∨ r.nextSeq < seq then none
    else some (seq, (r.data.asSlices.1 ++ r.data.asSlices.2).drop (seq - r.startSeq))
  by_cases hwindow : seq < r.startSeq ∨ r.nextSeq < seq
  · rw [if_pos hwindow, if_pos hwindow]
  · simp only [if_neg hwindow]
    by_cases hfirst : seq - r.startSeq < r.data.asSlices.1.length
    · rw [if_pos hfirst, List.drop_append_of_le_length (Nat.le_of_lt hfirst)]
    · have hfront : r.data.asSlices.1.drop (seq - r.startSeq) = [] :=
        List.drop_eq_nil_of_le (Nat.le_of_not_lt hfirst)
      rw [if_neg hfirst, List.drop_append, hfront, List.nil_append]

/-- The chunks pushed one after the other, each with the memory it was given. -/
def pushAll (pushes : List (Allocator UInt8 × List UInt8)) (r : WrappedRing) : WrappedRing :=
  pushes.foldl (fun r p => (r.push p.1 p.2).2) r

/-- Every byte pushed. -/
def output (pushes : List (Allocator UInt8 × List UInt8)) : List UInt8 :=
  pushes.flatMap fun p => p.2

/-- The window is as long as the capacity and the stream allow, and it ends at the end of
the stream. -/
structure Holds (capacity : Nat) (stream : List UInt8) (r : PtyRingBuffer) : Prop where
  mirrors : r.Mirrors stream
  bounded : r.capacity = capacity
  length : r.data.length = min capacity stream.length

theorem Holds.startSeq {capacity : Nat} {stream : List UInt8} {r : PtyRingBuffer}
    (h : Holds capacity stream r) : r.startSeq = stream.length - min capacity stream.length := by
  have hdata := congrArg List.length h.mirrors.data
  have hstart := h.mirrors.startSeq
  rw [h.length, List.length_drop] at hdata
  omega

/-- A replay never starts behind the bytes that are kept. -/
theorem Holds.offset_le {capacity seq : Nat} {stream : List UInt8} {r : PtyRingBuffer}
    (h : Holds capacity stream r) (hseq : seq ≤ r.nextSeq) :
    seq - r.startSeq ≤ r.data.length := by
  have hstart := h.startSeq
  have hlength := h.length
  rw [h.mirrors.nextSeq] at hseq
  omega

theorem Holds.pushed {capacity : Nat} {stream bytes : List UInt8} {r : PtyRingBuffer}
    (h : Holds capacity stream r) (hmax : (stream ++ bytes).length ≤ u64Max) :
    Holds capacity (stream ++ bytes) (r.push bytes).2 := by
  refine ⟨h.mirrors.pushed bytes hmax, ?_, ?_⟩
  · unfold PtyRingBuffer.push
    split
    · exact h.bounded
    · split <;> exact h.bounded
  · rw [List.length_append] at hmax ⊢
    unfold PtyRingBuffer.push
    by_cases hempty : bytes.isEmpty
    · rw [if_pos hempty, List.isEmpty_iff.mp hempty]
      exact h.length
    · rw [if_neg hempty, h.mirrors.nextSeq, checkedAdd_of_le hmax]
      have hlength := h.length
      simp only [h.bounded]
      by_cases hlarge : capacity < bytes.length
      · simp only [if_pos hlarge, List.length_append, List.length_drop]
        omega
      · simp only [if_neg hlarge, List.length_append, List.length_drop]
        omega

theorem holds_pushAll (capacity : Nat) (pushes : List (Allocator UInt8 × List UInt8))
    (hmax : (output pushes).length ≤ u64Max) :
    Holds capacity (output pushes) (pushAll pushes (new capacity)).flat := by
  induction pushes using List.reverseRecOn with
  | nil => exact ⟨PtyRingBuffer.new_mirrors capacity, rfl, (Nat.min_zero capacity).symm⟩
  | append_singleton pushes p ih =>
    have hout : output (pushes ++ [p]) = output pushes ++ p.2 := by
      simp only [output, List.flatMap_append, List.flatMap_cons, List.flatMap_nil, List.append_nil]
    have hall : pushAll (pushes ++ [p]) (new capacity) =
        ((pushAll pushes (new capacity)).push p.1 p.2).2 := by
      simp only [pushAll, List.foldl_append, List.foldl_cons, List.foldl_nil]
    rw [hout] at hmax ⊢
    rw [hall, (push_flat _ p.1 p.2).2]
    rw [List.length_append] at hmax
    have hbefore := ih (Nat.le_trans (Nat.le_add_right _ _) hmax)
    exact hbefore.pushed (by rw [List.length_append]; exact hmax)

/-- What the pushes, the snapshot and the replay return after any pushes that the counter
can number: the next push the number of bytes before it, the snapshot the end of the stream
that fits, and the replay what follows a number inside the window, both ends included. -/
theorem ring_follows_stream (capacity : Nat) (pushes : List (Allocator UInt8 × List UInt8))
    (hmax : (output pushes).length < 2 ^ 64) :
    let r := pushAll pushes (new capacity)
    let total := (output pushes).length
    let kept := min capacity total
    (∀ allocator bytes, (r.push allocator bytes).1 = total) ∧
      r.snapshot = (total - kept, (output pushes).drop (total - kept)) ∧
      r.endSeq = total ∧
      ∀ seq, r.replayFrom seq =
        if total - kept ≤ seq ∧ seq ≤ total then some (seq, (output pushes).drop seq) else none := by
  intro r total kept
  have h : Holds capacity (output pushes) r.flat :=
    holds_pushAll capacity pushes (Nat.le_sub_one_of_lt hmax)
  have hstart : r.flat.startSeq = total - kept := h.startSeq
  have hnext : r.flat.nextSeq = total := h.mirrors.nextSeq
  have hdata : r.flat.data = (output pushes).drop (total - kept) := by
    rw [← hstart]
    exact h.mirrors.data
  refine ⟨?_, ?_, hnext, ?_⟩
  · intro allocator bytes
    rw [(push_flat r allocator bytes).1, PtyRingBuffer.push_fst]
    exact hnext
  · rw [snapshot_flat, PtyRingBuffer.snapshot, hstart, hdata]
  · intro seq
    rw [replayFrom_flat, PtyRingBuffer.replayFrom, hstart, hnext, hdata]
    by_cases hwindow : total - kept ≤ seq ∧ seq ≤ total
    · rw [if_neg (by omega), if_pos hwindow, List.drop_drop, Nat.add_sub_cancel' hwindow.1]
    · rw [if_pos (by omega), if_neg hwindow]

/-- An allocator that hands out zeroed cells. -/
def zeroed : Allocator UInt8 where
  fresh n := List.replicate n 0
  enough _ := Nat.le_of_eq List.length_replicate.symm

theorem ring_follows_stream_wrapped :
    (output [(zeroed, [1, 2, 3, 4]), (zeroed, [5, 6])]).length < 2 ^ 64 ∧
      (pushAll [(zeroed, [1, 2, 3, 4]), (zeroed, [5, 6])] (new 4)).data.asSlices =
        ([3, 4], [5, 6]) ∧
      (pushAll [(zeroed, [1, 2, 3, 4]), (zeroed, [5, 6])] (new 4)).snapshot =
        (2, [3, 4, 5, 6]) ∧
      (pushAll [(zeroed, [1, 2, 3, 4]), (zeroed, [5, 6])] (new 4)).replayFrom 3 =
        some (3, [4, 5, 6]) := by
  have hmax : (output [(zeroed, [1, 2, 3, 4]), (zeroed, [5, 6])]).length < 2 ^ 64 := by decide
  obtain ⟨-, hsnapshot, -, hreplay⟩ :=
    ring_follows_stream 4 [(zeroed, [1, 2, 3, 4]), (zeroed, [5, 6])] hmax
  exact ⟨hmax, by decide, hsnapshot, (hreplay 3).trans (by decide)⟩

end WrappedRing
end Shelly.Daemon
