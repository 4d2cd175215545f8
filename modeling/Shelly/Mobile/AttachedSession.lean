import Shelly.Daemon.Session

namespace Shelly.Mobile

/-- A session at the daemon. `stream` is history: every byte the child wrote. -/
structure Host where
  session : Daemon.Session
  stream : List UInt8
  deriving DecidableEq

/-- What an attach is answered with. `replayedFrom` is history: the number that the answer is a
replay from, if it is one. -/
structure Reply where
  replayedFrom : Option Nat
  seq : Nat
  initialBytes : List UInt8
  deriving DecidableEq

namespace Host

def record (h : Host) (bytes : List UInt8) : Host :=
  ⟨(h.session.pushOutput bytes).2, h.stream ++ bytes⟩

/-- A session that has ended is answered from its store, whatever the number. -/
def attach (h : Host) (live : Bool) (lastSeenSeq : Option Nat) (screen : List UInt8) : Reply :=
  let asked := if live then lastSeenSeq else none
  let (seq, initialBytes) := h.session.attachBytes asked screen
  ⟨if h.session.replays asked then asked else none, seq, initialBytes⟩

/-- A replay starts at the number that was asked for. -/
theorem replayedFrom_eq {h : Host} {live : Bool} {seq base : Nat} {screen : List UInt8}
    (hbase : (h.attach live (some seq) screen).replayedFrom = some base) : base = seq := by
  obtain ⟨-, hbase⟩ := Option.ite_none_right_eq_some.mp hbase
  cases live with
  | true => exact (Option.some.inj hbase).symm
  | false => cases hbase

/-- The ring holds the end of the stream, and no sequence number has overflowed. -/
structure Sound (h : Host) : Prop where
  ring : h.session.ring.Mirrors h.stream
  stream : h.stream.length ≤ u64Max

theorem Sound.record {h : Host} {bytes : List UInt8} (hh : h.Sound)
    (hmax : (h.stream ++ bytes).length ≤ u64Max) : (h.record bytes).Sound :=
  ⟨(Daemon.Session.pushOutput_mirrors hh.ring bytes hmax).2, hmax⟩

theorem Sound.attach_seq {h : Host} (hh : h.Sound) (live : Bool) (lastSeenSeq : Option Nat)
    (screen : List UInt8) : (h.attach live lastSeenSeq screen).seq = h.stream.length :=
  (Daemon.Session.attachBytes_spec hh.ring hh.stream _ screen).1

/-- A replay is the part of the stream after the number. -/
theorem Sound.attach_replay {h : Host} (hh : h.Sound) {live : Bool} {lastSeenSeq : Option Nat}
    {screen : List UInt8} {seq : Nat}
    (hr : (h.attach live lastSeenSeq screen).replayedFrom = some seq) :
    lastSeenSeq = some seq ∧ seq ≤ h.stream.length ∧
      (h.attach live lastSeenSeq screen).initialBytes = h.stream.extract seq h.stream.length := by
  obtain ⟨hasked, hr⟩ := Option.ite_none_right_eq_some.mp hr
  obtain ⟨seq', hseq, hle, hbytes⟩ :=
    (Daemon.Session.attachBytes_spec hh.ring hh.stream _ screen).2 hasked
  obtain rfl := Option.some.inj (hseq.symm.trans hr)
  cases live with
  | true => exact ⟨hseq, hle, hbytes⟩
  | false => cases hr

end Host

/-- Where a call of `subscribe` stands. -/
inductive Subscription
  | launched
  | delivering (bytes : List UInt8)
  | takingRecv
  | reading
  | writing (seq : Nat) (bytes : List UInt8)
  | lagging
  | exiting
  | failed
  | ended
  deriving DecidableEq

/-- A live attachment with the one call of `subscribe` that it gets. `incoming` is what has arrived
on its stream, `forwarded` how far the daemon has sent the output. Two fields are history: the reply
that it was made from, and the number that a recovery has read from it. -/
structure AttachedSession where
  reply : Reply
  readSeq : Option Nat
  initialBytes : Option (List UInt8)
  lastSeenSeq : Nat
  recvTaken : Bool
  destroyed : Bool
  subscription : Option Subscription
  incoming : List ServerToClientMsg
  forwarded : Nat
  forwarding : Bool
  deriving DecidableEq

namespace AttachedSession

def new (reply : Reply) : AttachedSession where
  reply := reply
  readSeq := none
  initialBytes := some reply.initialBytes
  lastSeenSeq := reply.seq
  recvTaken := false
  destroyed := false
  subscription := none
  incoming := []
  forwarded := reply.seq
  forwarding := true

variable (x : AttachedSession)

def goto (pc : Subscription) : AttachedSession := { x with subscription := some pc }

/-- An attachment is subscribed to once. -/
def launch : AttachedSession := if x.subscription = none then x.goto .launched else x

/-- The call returns and gives the receive stream back. -/
def replaceRecv (pc : Subscription) : AttachedSession :=
  { x with recvTaken := false, subscription := some pc }

/-- The number of an output is stored before its bytes reach the sink. -/
def dispatchStreamMessage : ServerToClientMsg → AttachedSession
  | .output _ seq bytes => { x with lastSeenSeq := seq, subscription := some (.writing seq bytes) }
  | .lag _ _ => x.goto .lagging
  | .sessionExited _ _ => x.goto .exiting
  | .error _ _ => x.replaceRecv .failed
  | _ => x

/-- One atomic step of `subscribe` outside of the sink. -/
def subscribe : Option AttachedSession :=
  match x.subscription with
  | some .launched =>
    some (if x.destroyed then x.goto .failed
      else match x.initialBytes with
        | some bytes => { x with initialBytes := none, subscription := some (.delivering bytes) }
        | none => x.goto .takingRecv)
  | some .takingRecv =>
    some (if x.recvTaken then x.goto .failed
      else { x with recvTaken := true, subscription := some .reading })
  | some .reading =>
    match x.incoming with
    | m :: rest => some ({ x with incoming := rest }.dispatchStreamMessage m)
    | [] => none
  | _ => none

/-- The stream ends with an error. -/
def breakOff : Option AttachedSession :=
  if x.subscription = some .reading then some (x.goto .failed) else none

/-- The daemon sends the next bytes of the output. -/
def forward (h : Host) (n : Nat) : Option AttachedSession :=
  let seq := x.forwarded + n
  if x.forwarding = true ∧ 0 < n ∧ seq ≤ h.stream.length then
    some { x with
      incoming := x.incoming ++ [.output h.session.id seq (h.stream.extract x.forwarded seq)]
      forwarded := seq }
  else none

/-- The daemon sends something else, and nothing after a lag or an exit. -/
def arrive (m : ServerToClientMsg) : Option AttachedSession :=
  match m with
  | .output _ _ _ => none
  | .lag _ _ | .sessionExited _ _ =>
    if x.forwarding then some { x with incoming := x.incoming ++ [m], forwarding := false }
    else none
  | _ => if x.forwarding then some { x with incoming := x.incoming ++ [m] } else none

/-- The bytes that the subscription holds on their way to the sink. -/
def held : List UInt8 :=
  match x.subscription with
  | some (.delivering bytes) | some (.writing _ bytes) => bytes
  | _ => []

/-- The bytes that have arrived and have not been written. -/
def pending : List UInt8 := x.initialBytes.getD [] ++ x.held

end AttachedSession

end Shelly.Mobile
