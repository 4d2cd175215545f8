import Shelly.Daemon.Ring
import Shelly.Protocol.Messages

namespace Shelly.Daemon

def ringCapacity : Nat := 256 * 1024

def subscriberCapacity : Nat := 1024

structure SessionSummary where
  id : SessionId
  name : String
  createdAt : Nat
  lastActivity : Nat
  deriving DecidableEq

/-- What is kept of a session that no longer runs. -/
structure StoredSession where
  summary : SessionSummary
  scrollbackStartSeq : Nat
  scrollback : List UInt8
  exitCode : Option Int
  deriving DecidableEq

/-- A session with its own child process. Each field has its own lock. -/
structure Session where
  id : SessionId
  name : String
  createdAt : Nat
  lastActivity : Nat
  exitCode : Option Int
  ring : PtyRingBuffer
  subscribers : Broadcast ServerToClientMsg
  persistDirty : Bool
  killed : Bool
  deriving DecidableEq

namespace Session

def spawn (id : SessionId) (name : String) (createdAt : Nat) : Session where
  id := id
  name := name
  createdAt := createdAt
  lastActivity := createdAt
  exitCode := none
  ring := .new ringCapacity
  subscribers := .channel subscriberCapacity
  persistDirty := true
  killed := false

/-- The replay after a sequence number inside the window. Otherwise the rendered
screen, which stands for everything up to the end. -/
def attachBytes (s : Session) (lastSeenSeq : Option Nat) (screen : List UInt8) :
    Nat × List UInt8 :=
  match lastSeenSeq.bind s.ring.replayFrom with
  | some (startSeq, replay) => (saturatingAdd startSeq replay.length, replay)
  | none => (s.ring.endSeq, screen)

/-- Whether an attach from this number is answered by a replay. -/
def replays (s : Session) (lastSeenSeq : Option Nat) : Bool :=
  (lastSeenSeq.bind s.ring.replayFrom).isSome

/-- The locked part of recording output: the number after the chunk. -/
def pushOutput (s : Session) (bytes : List UInt8) : Nat × Session :=
  let (start, ring) := s.ring.push bytes
  (saturatingAdd start bytes.length, { s with ring })

def send (s : Session) (m : ServerToClientMsg) : Session :=
  { s with subscribers := s.subscribers.send m }

def cachedSummary (s : Session) : SessionSummary :=
  ⟨s.id, s.name, s.createdAt, s.lastActivity⟩

def storedSnapshot (s : Session) : StoredSession where
  summary := s.cachedSummary
  scrollbackStartSeq := s.ring.snapshot.1
  scrollback := s.ring.snapshot.2
  exitCode := s.exitCode

@[simp] theorem send_ring (s : Session) (m : ServerToClientMsg) : (s.send m).ring = s.ring := rfl

@[simp] theorem send_exitCode (s : Session) (m : ServerToClientMsg) :
    (s.send m).exitCode = s.exitCode := rfl

@[simp] theorem send_sent (s : Session) (m : ServerToClientMsg) :
    (s.send m).subscribers.sent = s.subscribers.sent ++ [m] := rfl

@[simp] theorem pushOutput_subscribers (s : Session) (bytes : List UInt8) :
    (s.pushOutput bytes).2.subscribers = s.subscribers := rfl

@[simp] theorem pushOutput_exitCode (s : Session) (bytes : List UInt8) :
    (s.pushOutput bytes).2.exitCode = s.exitCode := rfl

variable {s : Session} {stream : List UInt8}

theorem pushOutput_mirrors (h : s.ring.Mirrors stream) (bytes : List UInt8)
    (hmax : (stream ++ bytes).length ≤ u64Max) :
    (s.pushOutput bytes).1 = (stream ++ bytes).length ∧
      (s.pushOutput bytes).2.ring.Mirrors (stream ++ bytes) := by
  refine ⟨?_, h.pushed bytes hmax⟩
  change saturatingAdd (s.ring.push bytes).1 bytes.length = _
  rw [List.length_append] at hmax ⊢
  rw [PtyRingBuffer.push_fst, h.nextSeq]
  exact saturatingAdd_of_le hmax

/-- Both kinds of attach end at the end of the stream, and a replay is the part
of the stream after the requested number. -/
theorem attachBytes_spec (h : s.ring.Mirrors stream) (hmax : stream.length ≤ u64Max)
    (lastSeenSeq : Option Nat) (screen : List UInt8) :
    (s.attachBytes lastSeenSeq screen).1 = stream.length ∧
      (s.replays lastSeenSeq = true → ∃ seq, lastSeenSeq = some seq ∧ seq ≤ stream.length ∧
        (s.attachBytes lastSeenSeq screen).2 = stream.extract seq stream.length) := by
  unfold attachBytes replays
  cases hr : lastSeenSeq.bind s.ring.replayFrom with
  | none => exact ⟨h.nextSeq, fun hf => by cases hf⟩
  | some r =>
    obtain ⟨seq, hseq, hreplay⟩ := Option.bind_eq_some_iff.mp hr
    obtain ⟨start, replay⟩ := r
    obtain ⟨hstart, hle, hbytes⟩ := h.replayed hreplay
    have hlen : start + replay.length = stream.length := by
      rw [hstart, hbytes, List.length_drop, Nat.add_sub_cancel' hle]
    refine ⟨?_, fun _ => ⟨seq, hseq, hle, ?_⟩⟩
    · exact (saturatingAdd_of_le (by omega)).trans hlen
    · rw [extract_length_eq_drop]
      exact hbytes

end Session

def maxTerminalDimension : Nat := 1000

def invalidClientSize (size : ClientSize) : Option ServerToClientMsg :=
  if size.rows ≠ 0 ∧ size.cols ≠ 0 ∧ size.rows ≤ maxTerminalDimension ∧
      size.cols ≤ maxTerminalDimension then none
  else some (.error .invalidRequest
    s!"terminal size must have rows and cols in 1..={maxTerminalDimension}; got rows={size.rows}, cols={size.cols}")

def sessionNotFound (sessionId : SessionId) : ServerToClientMsg :=
  .error .notFound s!"session not found: {sessionId}"

/-- A broadcast chunk that the reply to the attach already contained. -/
def outputWasReplayed (event : ServerToClientMsg) (attachedSeq : Nat) : Bool :=
  match event with
  | .output _ seq _ => seq ≤ attachedSeq
  | _ => false

end Shelly.Daemon
