import Shelly.Framework.Machine
import Shelly.Daemon.Session

namespace Shelly.Daemon

namespace PtyRingBuffer

/-- The window ends at the next number, which is a 64-bit number. -/
structure Windowed (r : PtyRingBuffer) : Prop where
  ends : r.startSeq + r.data.length = r.nextSeq
  le : r.nextSeq ≤ u64Max

/-- What a push leaves behind that found no number for its last byte. -/
structure Poisoned (r : PtyRingBuffer) : Prop where
  startSeq : r.startSeq = u64Max
  nextSeq : r.nextSeq = u64Max
  data : r.data = []

theorem push_exhausted {r : PtyRingBuffer} {bytes : List UInt8} (h : r.Windowed)
    (hfull : checkedAdd r.nextSeq bytes.length = none) : (r.push bytes).2.Poisoned := by
  have hne : ¬bytes.isEmpty := by
    intro hempty
    rw [List.isEmpty_iff.mp hempty, List.length_nil, checkedAdd_of_le h.le] at hfull
    cases hfull
  unfold push
  rw [if_neg hne, hfull]
  exact ⟨rfl, rfl, rfl⟩

theorem Windowed.pushed {r : PtyRingBuffer} (h : r.Windowed) (bytes : List UInt8) :
    (r.push bytes).2.Windowed := by
  obtain ⟨hends, hle⟩ := h
  unfold push
  by_cases hempty : bytes.isEmpty
  · rw [if_pos hempty]
    exact ⟨hends, hle⟩
  · rw [if_neg hempty]
    by_cases hmax : r.nextSeq + bytes.length ≤ u64Max
    · rw [checkedAdd_of_le hmax]
      refine ⟨?_, hmax⟩
      by_cases hlarge : r.capacity < bytes.length
      · simp only [if_pos hlarge, List.length_append, List.length_drop]
        omega
      · simp only [if_neg hlarge, List.length_append, List.length_drop]
        omega
    · have hnone : checkedAdd r.nextSeq bytes.length = none := if_neg hmax
      rw [hnone]
      exact ⟨Nat.add_zero _, Nat.le_refl _⟩

/-- No later push brings the counter back. -/
theorem Poisoned.pushed {r : PtyRingBuffer} (h : r.Poisoned) (bytes : List UInt8) :
    (r.push bytes).2.Poisoned := by
  by_cases hempty : bytes = []
  · rw [hempty]
    exact h
  · apply push_exhausted
    · constructor
      · rw [h.startSeq, h.data, h.nextSeq]
        rfl
      · exact Nat.le_of_eq h.nextSeq
    · have hpos := List.length_pos_iff.mpr hempty
      apply if_neg
      rw [h.nextSeq]
      omega

theorem Poisoned.replayFrom_iff {r : PtyRingBuffer} (h : r.Poisoned) {seq : Nat}
    (hseq : seq ≤ u64Max) : r.replayFrom seq = none ↔ seq ≠ u64Max := by
  unfold replayFrom
  rw [h.startSeq, h.nextSeq]
  constructor
  · intro hnone heq
    rw [if_neg (by omega)] at hnone
    cases hnone
  · intro hne
    exact if_pos (by omega)

end PtyRingBuffer

/-- Whichever way an attach is answered, it is answered up to the end of the ring. -/
theorem Session.attachBytes_end {s : Session} (h : s.ring.Windowed) (lastSeenSeq : Option Nat)
    (screen : List UInt8) : (s.attachBytes lastSeenSeq screen).1 = s.ring.nextSeq := by
  unfold attachBytes
  cases hr : lastSeenSeq.bind s.ring.replayFrom with
  | none => rfl
  | some r =>
    obtain ⟨seq, -, hreplay⟩ := Option.bind_eq_some_iff.mp hr
    have hends := h.ends
    have hle := h.le
    unfold PtyRingBuffer.replayFrom at hreplay
    split at hreplay
    · cases hreplay
    · obtain rfl := Option.some.inj hreplay
      change saturatingAdd seq (s.ring.data.drop (seq - s.ring.startSeq)).length = _
      rw [List.length_drop, saturatingAdd_of_le (by omega)]
      omega

namespace Exhaustion

/-- A client with a running forwarder. The first field is history: the end of the ring at
the attach. -/
structure AttachedClient where
  endAtAttach : Nat
  attachedSeq : Nat
  deriving DecidableEq

/-- A session and the clients attached to it. `exhausted` is history: whether a push found
no number for its last byte. -/
structure State where
  session : Session
  exhausted : Bool
  clients : List AttachedClient
  deriving DecidableEq

inductive Action
  | record (bytes : List UInt8)
  | attach (lastSeenSeq : Option Nat) (screen : List UInt8)
  | detach (client : AttachedClient)
  deriving DecidableEq

namespace State

def record (s : State) (bytes : List UInt8) : State :=
  { s with
    session := (s.session.pushOutput bytes).2
    exhausted := s.exhausted || (checkedAdd s.session.ring.nextSeq bytes.length).isNone }

/-- The event that recording the bytes would broadcast. -/
def event (s : State) (bytes : List UInt8) : ServerToClientMsg :=
  .output s.session.id (s.session.pushOutput bytes).1 bytes

def attach (s : State) (lastSeenSeq : Option Nat) (screen : List UInt8) : State :=
  let client := ⟨s.session.ring.endSeq, (s.session.attachBytes lastSeenSeq screen).1⟩
  { s with clients := client :: s.clients }

end State

def step : Action → State → Option State
  | .record bytes, s => some (s.record bytes)
  | .attach lastSeenSeq screen, s => some (s.attach lastSeenSeq screen)
  | .detach client, s => some { s with clients := s.clients.erase client }

/-- The session may have written any amount before. -/
def machine : Machine State Action where
  init s := s.session.ring.Windowed ∧ s.exhausted = false ∧ s.clients = []
  step := step

/-- The window is one, it is poisoned once the counter is exhausted, and every client was
answered up to the end of the ring of its time. -/
structure Inv (s : State) : Prop where
  windowed : s.session.ring.Windowed
  poisoned : s.exhausted = true → s.session.ring.Poisoned
  answered : ∀ c ∈ s.clients, c.attachedSeq = c.endAtAttach ∧ c.endAtAttach ≤ u64Max

theorem Inv.record {s : State} (h : Inv s) (bytes : List UInt8) : Inv (s.record bytes) where
  windowed := h.windowed.pushed bytes
  poisoned he := by
    rcases Bool.or_eq_true_iff.mp he with hbefore | hnow
    · exact (h.poisoned hbefore).pushed bytes
    · exact PtyRingBuffer.push_exhausted h.windowed (Option.isNone_iff_eq_none.mp hnow)
  answered := h.answered

theorem Inv.attach {s : State} (h : Inv s) (lastSeenSeq : Option Nat) (screen : List UInt8) :
    Inv (s.attach lastSeenSeq screen) where
  windowed := h.windowed
  poisoned := h.poisoned
  answered c hc := by
    rcases List.mem_cons.mp hc with rfl | hc
    · exact ⟨Session.attachBytes_end h.windowed lastSeenSeq screen, h.windowed.le⟩
    · exact h.answered c hc

theorem Inv.detach {s : State} (h : Inv s) (client : AttachedClient) :
    Inv { s with clients := s.clients.erase client } where
  windowed := h.windowed
  poisoned := h.poisoned
  answered c hc := h.answered c (List.mem_of_mem_erase hc)

theorem reachable_inv {s : State} (h : machine.Reachable s) : Inv s := by
  refine h.invariant ?_ ?_
  · rintro s ⟨hwindowed, hfresh, hnone⟩
    refine ⟨hwindowed, fun he => ?_, fun c hc => ?_⟩
    · rw [hfresh] at he
      cases he
    · rw [hnone] at hc
      cases hc
  · intro s a t hs _ ht
    cases a with
    | record bytes =>
      obtain rfl := Option.some.inj ht
      exact hs.record bytes
    | attach lastSeenSeq screen =>
      obtain rfl := Option.some.inj ht
      exact hs.attach lastSeenSeq screen
    | detach client =>
      obtain rfl := Option.some.inj ht
      exact hs.detach client

/-- Every output of an exhausted session carries the largest number. -/
theorem event_suppressed_iff {s : State} (h : s.session.ring.Poisoned) (bytes : List UInt8)
    (attachedSeq : Nat) :
    outputWasReplayed (s.event bytes) attachedSeq = false ↔ attachedSeq < u64Max := by
  have hseq : (s.session.pushOutput bytes).1 = u64Max := by
    change saturatingAdd (s.session.ring.push bytes).1 bytes.length = u64Max
    rw [PtyRingBuffer.push_fst, h.nextSeq]
    exact Nat.min_eq_right (Nat.le_add_right _ _)
  change decide ((s.session.pushOutput bytes).1 ≤ attachedSeq) = false ↔ _
  rw [hseq, decide_eq_false_iff_not, Nat.not_le]

/-- Once the counter is exhausted, a replay misses for every number but the largest one, and
a client is still given every later output exactly when the ring ended below the largest
number at its attach. -/
theorem exhausted_falls_back_iff {s : State} (h : machine.Reachable s)
    (he : s.exhausted = true) :
    (∀ seq ≤ u64Max, s.session.ring.replayFrom seq = none ↔ seq ≠ u64Max) ∧
      ∀ c ∈ s.clients, ∀ bytes,
        outputWasReplayed (s.event bytes) c.attachedSeq = false ↔ c.endAtAttach ≠ u64Max := by
  have hinv := reachable_inv h
  have hpoisoned := hinv.poisoned he
  refine ⟨fun seq hseq => hpoisoned.replayFrom_iff hseq, fun c hc bytes => ?_⟩
  obtain ⟨hanswered, hle⟩ := hinv.answered c hc
  rw [event_suppressed_iff hpoisoned bytes, hanswered]
  exact Nat.lt_iff_le_and_ne.trans (and_iff_right hle)

/-- A session that can number one more byte. -/
def lastNumber : State where
  session := { Session.spawn 1 "build" 0 with
    ring := ⟨4, u64Max - 5, u64Max - 1, [1, 2, 3, 4]⟩ }
  exhausted := false
  clients := []

def exhaustingRun : List Action :=
  [.attach none [1, 2, 3, 4], .record [5, 6], .attach (some u64Max) [], .record [7]]

theorem exhausting_run :
    ∃ s, machine.exec Machine.Any exhaustingRun lastNumber = some s ∧ s.exhausted = true ∧
      s.clients = [⟨u64Max, u64Max⟩, ⟨u64Max - 1, u64Max - 1⟩] := by
  refine ⟨_, rfl, ?_, ?_⟩ <;> decide

theorem lastNumber_init : machine.init lastNumber :=
  ⟨⟨by decide, by decide⟩, rfl, rfl⟩

theorem exhausted_falls_back_run : ∃ s, machine.Reachable s ∧ s.exhausted = true ∧
    s.session.ring.replayFrom 0 = none ∧
    ∀ bytes, outputWasReplayed (s.event bytes) (u64Max - 1) = false := by
  obtain ⟨s, hrun, he, hclients⟩ := exhausting_run
  have hreach : machine.Reachable s := ⟨lastNumber, lastNumber_init, Machine.exec_run hrun⟩
  obtain ⟨hmiss, hforward⟩ := exhausted_falls_back_iff hreach he
  refine ⟨s, hreach, he, (hmiss 0 (Nat.zero_le _)).mpr (by decide), fun bytes => ?_⟩
  exact (hforward ⟨u64Max - 1, u64Max - 1⟩ (by rw [hclients]; decide) bytes).mpr
    (by decide)

/-- The poisoned window still contains one number, and the client that resumed from it is
given no later output. -/
theorem exhausted_still_replays : machine.init lastNumber ∧
    ∃ s, machine.exec Machine.Any exhaustingRun lastNumber = some s ∧ s.exhausted = true ∧
      s.session.ring.replayFrom u64Max = some (u64Max, []) ∧
      ∃ c ∈ s.clients, ∀ bytes, outputWasReplayed (s.event bytes) c.attachedSeq = true := by
  obtain ⟨s, hrun, he, hclients⟩ := exhausting_run
  have hreach : machine.Reachable s := ⟨lastNumber, lastNumber_init, Machine.exec_run hrun⟩
  have hpoisoned := (reachable_inv hreach).poisoned he
  refine ⟨lastNumber_init, s, hrun, he, ?_, ⟨u64Max, u64Max⟩, by rw [hclients]; decide,
    fun bytes => ?_⟩
  · unfold PtyRingBuffer.replayFrom
    rw [hpoisoned.startSeq, hpoisoned.nextSeq, hpoisoned.data, if_neg (by omega), List.drop_nil]
  · rw [← Bool.not_eq_false, event_suppressed_iff hpoisoned]
    exact Nat.lt_irrefl _

end Exhaustion
end Shelly.Daemon
