import Mathlib.Data.List.Basic

namespace Shelly.Cli

structure DetachState where
  prefixByte : UInt8
  prefixHeld : Bool
  deriving DecidableEq

structure DetachAction where
  bytes : List UInt8
  shouldDetach : Bool
  deriving DecidableEq

def isDetachKey (byte : UInt8) : Bool := byte = 0x64 || byte = 0x44

namespace DetachState

def new (prefixByte : UInt8) : DetachState := ⟨prefixByte, false⟩

/-- The loop of `consume`, with the bytes that are to be sent so far. -/
def consumeLoop (s : DetachState) (bytes : List UInt8) : List UInt8 → DetachAction × DetachState
  | [] => (⟨bytes, false⟩, s)
  | byte :: input =>
    if s.prefixHeld then
      if isDetachKey byte then (⟨bytes, true⟩, { s with prefixHeld := false })
      else consumeLoop { s with prefixHeld := false } (bytes ++ [s.prefixByte, byte]) input
    else if byte = s.prefixByte then consumeLoop { s with prefixHeld := true } bytes input
    else consumeLoop s (bytes ++ [byte]) input

def consume (s : DetachState) (input : List UInt8) : DetachAction × DetachState :=
  s.consumeLoop [] input

/-- One chunk after the other, until one detaches. -/
def consumeChunks (s : DetachState) : List (List UInt8) → DetachAction × DetachState
  | [] => (⟨[], false⟩, s)
  | chunk :: chunks =>
    let (action, s') := s.consume chunk
    if action.shouldDetach then (action, s')
    else
      let (rest, s'') := s'.consumeChunks chunks
      (⟨action.bytes ++ rest.bytes, rest.shouldDetach⟩, s'')

/-- The prefix byte that is kept back. -/
def held (s : DetachState) : List UInt8 := if s.prefixHeld then [s.prefixByte] else []

end DetachState

/-- A prefix byte that is not the second byte of an earlier pair begins a pair with its
successor. `second` says that the first byte of the stream ends a pair. -/
def startsPair (prefixByte : UInt8) (second : Bool) (stream : List UInt8) : Nat → Bool
  | 0 => !second && stream[0]? == some prefixByte && decide (1 < stream.length)
  | i + 1 => !startsPair prefixByte second stream i && stream[i + 1]? == some prefixByte &&
    decide (i + 2 < stream.length)

/-- A pair whose second byte is a detach key. -/
def detachesAt (prefixByte : UInt8) (second : Bool) (stream : List UInt8) (i : Nat) : Bool :=
  startsPair prefixByte second stream i && stream[i + 1]?.any isDetachKey

section Pairs

variable {p byte next : UInt8} {second : Bool} {stream : List UInt8} {i : Nat}

theorem startsPair_zero (p : UInt8) (second : Bool) (stream : List UInt8) :
    startsPair p second stream 0 =
      (!second && stream[0]? == some p && decide (1 < stream.length)) := rfl

theorem startsPair_succ (p : UInt8) (second : Bool) (stream : List UInt8) (i : Nat) :
    startsPair p second stream (i + 1) =
      (!startsPair p second stream i && stream[i + 1]? == some p &&
        decide (i + 2 < stream.length)) := rfl

/-- What follows the first byte is paired by whether that byte begins a pair. -/
theorem startsPair_cons (p byte : UInt8) (second : Bool) (stream : List UInt8) (i : Nat) :
    startsPair p second (byte :: stream) (i + 1) =
      startsPair p (startsPair p second (byte :: stream) 0) stream i := by
  have hlength (k : Nat) : decide (k + 1 < (byte :: stream).length) = decide (k < stream.length) :=
    decide_eq_decide.mpr (by rw [List.length_cons]; omega)
  induction i with
  | zero =>
    have hone : decide (0 + 2 < (byte :: stream).length) = decide (1 < stream.length) := hlength 1
    rw [startsPair_succ p second (byte :: stream) 0, hone, List.getElem?_cons_succ,
      startsPair_zero p _ stream]
  | succ i ih =>
    rw [startsPair_succ p second (byte :: stream) (i + 1), ih, hlength, List.getElem?_cons_succ,
      startsPair_succ]

theorem detachesAt_cons (p byte : UInt8) (second : Bool) (stream : List UInt8) (i : Nat) :
    detachesAt p second (byte :: stream) (i + 1) =
      detachesAt p (startsPair p second (byte :: stream) 0) stream i := by
  rw [detachesAt, detachesAt, startsPair_cons, List.getElem?_cons_succ]

theorem detachesAt_of_ne (h : byte ≠ p) (i : Nat) :
    detachesAt p false (byte :: stream) (i + 1) = detachesAt p false stream i := by
  have hstart : startsPair p false (byte :: stream) 0 = false := by simp [startsPair_zero, h]
  rw [detachesAt_cons, hstart]

/-- Nothing but a prefix byte begins a pair. -/
theorem not_detachesAt_of_ne (h : byte ≠ p) : detachesAt p false (byte :: stream) 0 = false := by
  simp [detachesAt, startsPair_zero, h]

/-- After a pair the pairing begins anew. -/
theorem detachesAt_pair (p next : UInt8) (stream : List UInt8) (i : Nat) :
    detachesAt p false (p :: next :: stream) (i + 2) = detachesAt p false stream i := by
  have hfirst : startsPair p false (p :: next :: stream) 0 = true := by simp [startsPair_zero]
  have hsecond : startsPair p true (next :: stream) 0 = false := by simp [startsPair_zero]
  rw [detachesAt_cons, hfirst, detachesAt_cons, hsecond]

theorem detachesAt_pair_zero (p next : UInt8) (stream : List UInt8) :
    detachesAt p false (p :: next :: stream) 0 = isDetachKey next := by
  simp [detachesAt, startsPair_zero]

theorem not_detachesAt_pair_one (p next : UInt8) (stream : List UInt8) :
    detachesAt p false (p :: next :: stream) 1 = false := by
  have hfirst : startsPair p false (p :: next :: stream) 0 = true := by simp [startsPair_zero]
  rw [detachesAt_cons, hfirst]
  simp [detachesAt, startsPair]

theorem not_detachesAt_nil (i : Nat) : detachesAt p second [] i = false := by
  simp [detachesAt]

theorem not_detachesAt_single (i : Nat) : detachesAt p second [byte] i = false := by
  simp [detachesAt]

end Pairs

section Loop

open DetachState

variable {s s' : DetachState} {action : DetachAction} {bytes input : List UInt8}

/-- What the loop has sent and where it stands say which part of the stream it has dealt
with: all of it before the first pair that detaches, or all of it. -/
structure Dealt (prefixByte : UInt8) (bytes stream : List UInt8) (action : DetachAction)
    (s : DetachState) : Prop where
  sent : action.shouldDetach = false →
    action.bytes ++ s.held = bytes ++ stream ∧ ∀ i, detachesAt prefixByte false stream i = false
  detached : action.shouldDetach = true → ∃ i, detachesAt prefixByte false stream i = true ∧
    (∀ j < i, detachesAt prefixByte false stream j = false) ∧ action.bytes = bytes ++ stream.take i

theorem Dealt.byte {p byte : UInt8} {stream : List UInt8} (hbyte : byte ≠ p)
    (h : Dealt p (bytes ++ [byte]) stream action s) : Dealt p bytes (byte :: stream) action s where
  sent hstays := by
    obtain ⟨hbytes, hnone⟩ := h.sent hstays
    refine ⟨by rw [hbytes, List.append_assoc, List.singleton_append], fun i => ?_⟩
    cases i with
    | zero => exact not_detachesAt_of_ne hbyte
    | succ i => rw [detachesAt_of_ne hbyte, hnone]
  detached hdetach := by
    obtain ⟨i, hi, hfirst, hbytes⟩ := h.detached hdetach
    refine ⟨i + 1, by rwa [detachesAt_of_ne hbyte], fun j hj => ?_, ?_⟩
    · cases j with
      | zero => exact not_detachesAt_of_ne hbyte
      | succ j => rw [detachesAt_of_ne hbyte, hfirst j (Nat.lt_of_succ_lt_succ hj)]
    · rw [hbytes, List.take_succ_cons, List.append_assoc, List.singleton_append]

theorem Dealt.pair {p next : UInt8} {stream : List UInt8} (hnext : isDetachKey next = false)
    (h : Dealt p (bytes ++ [p, next]) stream action s) :
    Dealt p bytes (p :: next :: stream) action s := by
  have hnone : ∀ i < 2, detachesAt p false (p :: next :: stream) i = false := by
    intro i hi
    obtain rfl | rfl : i = 0 ∨ i = 1 := by omega
    · rw [detachesAt_pair_zero, hnext]
    · exact not_detachesAt_pair_one p next stream
  constructor
  · intro hstays
    obtain ⟨hbytes, hrest⟩ := h.sent hstays
    refine ⟨by rw [hbytes, List.append_assoc]; rfl, fun i => ?_⟩
    by_cases hi : i < 2
    · exact hnone i hi
    · obtain ⟨k, rfl⟩ := Nat.exists_eq_add_of_le' (Nat.le_of_not_lt hi)
      rw [detachesAt_pair, hrest]
  · intro hdetach
    obtain ⟨i, hi, hfirst, hbytes⟩ := h.detached hdetach
    refine ⟨i + 2, by rwa [detachesAt_pair], fun j hj => ?_, ?_⟩
    · by_cases hj2 : j < 2
      · exact hnone j hj2
      · obtain ⟨k, rfl⟩ := Nat.exists_eq_add_of_le' (Nat.le_of_not_lt hj2)
        rw [detachesAt_pair, hfirst k (by omega)]
    · rw [hbytes, List.append_assoc]
      rfl

@[simp] theorem consumeLoop_nil (s : DetachState) (bytes : List UInt8) :
    s.consumeLoop bytes [] = (⟨bytes, false⟩, s) := rfl

theorem consumeLoop_cons (s : DetachState) (bytes : List UInt8) (byte : UInt8)
    (input : List UInt8) :
    s.consumeLoop bytes (byte :: input) =
      if s.prefixHeld then
        if isDetachKey byte then (⟨bytes, true⟩, { s with prefixHeld := false })
        else consumeLoop { s with prefixHeld := false } (bytes ++ [s.prefixByte, byte]) input
      else if byte = s.prefixByte then consumeLoop { s with prefixHeld := true } bytes input
      else consumeLoop s (bytes ++ [byte]) input := rfl

/-- A stream is dealt with from either state, a byte that is kept back standing first in it. -/
theorem consumeLoop_dealt (s : DetachState) (bytes input : List UInt8) :
    Dealt s.prefixByte bytes (s.held ++ input) (s.consumeLoop bytes input).1
      (s.consumeLoop bytes input).2 := by
  induction input generalizing s bytes with
  | nil =>
    refine ⟨fun _ => ⟨by rw [consumeLoop_nil, List.append_nil], fun i => ?_⟩, (fun h => by cases h)⟩
    cases hheld : s.prefixHeld with
    | true => simp only [held, hheld, if_true, List.append_nil, not_detachesAt_single]
    | false =>
      simp only [held, hheld, Bool.false_eq_true, if_false, List.append_nil, not_detachesAt_nil]
  | cons byte input ih =>
    obtain ⟨p, prefixHeld⟩ := s
    cases prefixHeld with
    | true =>
      -- The byte that was kept back begins a pair with this one.
      cases hkey : isDetachKey byte with
      | true =>
        simp only [consumeLoop_cons, hkey, if_true]
        refine ⟨(fun h => by cases h), fun _ => ⟨0, ?_, (fun j hj => by cases hj), ?_⟩⟩
        · exact (detachesAt_pair_zero p byte input).trans hkey
        · rw [List.take_zero, List.append_nil]
      | false =>
        simp only [consumeLoop_cons, hkey, if_true, Bool.false_eq_true, if_false]
        exact (ih ⟨p, false⟩ (bytes ++ [p, byte])).pair hkey
    | false =>
      by_cases hbyte : byte = p
      · subst hbyte
        simp only [consumeLoop_cons, if_true, Bool.false_eq_true, if_false]
        exact ih ⟨byte, true⟩ bytes
      · simp only [consumeLoop_cons, hbyte, Bool.false_eq_true, if_false]
        exact (ih ⟨p, false⟩ (bytes ++ [byte])).byte hbyte

/-- What was sent before stays in front. -/
theorem consumeLoop_bytes (s : DetachState) (bytes input : List UInt8) :
    s.consumeLoop bytes input = (⟨bytes ++ (s.consume input).1.bytes,
      (s.consume input).1.shouldDetach⟩, (s.consume input).2) := by
  unfold consume
  induction input generalizing s bytes with
  | nil => simp only [consumeLoop_nil, List.append_nil]
  | cons byte input ih =>
    rw [consumeLoop_cons, consumeLoop_cons]
    split
    · split
      · simp only [List.append_nil]
      · rw [ih, ih _ ([] ++ [s.prefixByte, byte])]
        simp only [List.nil_append, List.append_assoc]
    · split
      · exact ih _ bytes
      · rw [ih, ih _ ([] ++ [byte])]
        simp only [List.nil_append, List.append_assoc]

/-- A stream that is cut goes on where the first part has led, unless that detaches. -/
theorem consumeLoop_append (s : DetachState) (bytes first rest : List UInt8) :
    s.consumeLoop bytes (first ++ rest) =
      if (s.consumeLoop bytes first).1.shouldDetach then s.consumeLoop bytes first
      else (s.consumeLoop bytes first).2.consumeLoop (s.consumeLoop bytes first).1.bytes rest := by
  induction first generalizing s bytes with
  | nil => simp only [List.nil_append, consumeLoop_nil, Bool.false_eq_true, if_false]
  | cons byte first ih =>
    simp only [List.cons_append, consumeLoop_cons]
    split
    · split
      · rw [if_pos rfl]
      · exact ih _ _
    · split
      · exact ih _ _
      · exact ih _ _

theorem consume_append (s : DetachState) (first rest : List UInt8) :
    s.consume (first ++ rest) =
      if (s.consume first).1.shouldDetach then s.consume first
      else (s.consume first).2.consumeLoop (s.consume first).1.bytes rest :=
  consumeLoop_append s [] first rest

theorem consumeChunks_eq (s : DetachState) (chunks : List (List UInt8)) :
    s.consumeChunks chunks = s.consume chunks.flatten := by
  induction chunks generalizing s with
  | nil => rfl
  | cons chunk chunks ih =>
    simp only [consumeChunks, List.flatten_cons, consume_append]
    by_cases hdetach : (s.consume chunk).1.shouldDetach = true
    · rw [if_pos hdetach, if_pos hdetach]
    · rw [if_neg hdetach, if_neg hdetach, ih, consumeLoop_bytes]

/-- However the input is cut, it is sent up to the first pair that detaches. -/
theorem detach_chunking (prefixByte : UInt8) (chunks : List (List UInt8)) :
    (new prefixByte).consumeChunks chunks = (new prefixByte).consume chunks.flatten ∧
    (((new prefixByte).consumeChunks chunks).1.shouldDetach = false →
      ((new prefixByte).consumeChunks chunks).1.bytes ++
        ((new prefixByte).consumeChunks chunks).2.held = chunks.flatten) ∧
    (((new prefixByte).consumeChunks chunks).1.shouldDetach = true ↔
      ∃ i, detachesAt prefixByte false chunks.flatten i = true) ∧
    ∀ i, detachesAt prefixByte false chunks.flatten i = true →
      (∀ j < i, detachesAt prefixByte false chunks.flatten j = false) →
      ((new prefixByte).consumeChunks chunks).1.bytes = chunks.flatten.take i := by
  have hdealt := consumeLoop_dealt (new prefixByte) [] chunks.flatten
  rw [consumeChunks_eq]
  refine ⟨rfl, fun hstays => (hdealt.sent hstays).1, ⟨fun hdetach => ?_, ?_⟩, ?_⟩
  · obtain ⟨i, hi, -, -⟩ := hdealt.detached hdetach
    exact ⟨i, hi⟩
  · rintro ⟨i, hi⟩
    by_contra hstays
    have hnone := (hdealt.sent (eq_false_of_ne_true hstays)).2 i
    exact Bool.false_ne_true (hnone.symm.trans hi)
  · intro i hi hfirst
    cases hdetach : ((new prefixByte).consume chunks.flatten).1.shouldDetach with
    | false =>
      have hnone := (hdealt.sent hdetach).2 i
      exact (Bool.false_ne_true (hnone.symm.trans hi)).elim
    | true =>
      obtain ⟨k, hk, hbefore, hbytes⟩ := hdealt.detached hdetach
      have hle : ¬ k < i := fun h => Bool.false_ne_true ((hfirst k h).symm.trans hk)
      have hge : ¬ i < k := fun h => Bool.false_ne_true ((hbefore i h).symm.trans hi)
      obtain rfl : k = i := by omega
      exact hbytes

end Loop

example : ((DetachState.new 2).consumeChunks [[97, 2], [2, 98, 2], [68, 99]]).1 =
    ⟨[97, 2, 2, 98], true⟩ := by decide

end Shelly.Cli
