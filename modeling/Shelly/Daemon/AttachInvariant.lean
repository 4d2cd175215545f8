import Shelly.Daemon.Attach

namespace Shelly.Daemon.Attach

/-- Where a client stands in the stream, and whether it was told to start over. -/
structure Cursor where
  seq : Nat
  lagged : Bool

/-- What one message does to a client that stands at a cursor. `fin` holds of the
offsets at which the session may be said to have exited. -/
inductive Delivers (id : SessionId) (stream : List UInt8) (fin : Nat → Prop) :
    Cursor → ServerToClientMsg → Cursor → Prop
  | output {c seq : Nat} : c ≤ seq → seq ≤ stream.length →
      Delivers id stream fin ⟨c, false⟩ (.output id seq (stream.extract c seq)) ⟨seq, false⟩
  | agentStateChanged {c : Nat} {state : AgentState} {line : Option String} :
      Delivers id stream fin ⟨c, false⟩ (.agentStateChanged id state line) ⟨c, false⟩
  | sessionExited {c : Nat} {exitCode : Int} : fin c →
      Delivers id stream fin ⟨c, false⟩ (.sessionExited id exitCode) ⟨c, false⟩
  | lag {c skipped : Nat} : Delivers id stream fin ⟨c, false⟩ (.lag id skipped) ⟨c, true⟩
  | error {x : Cursor} {code : ErrorCode} {message : String} :
      Delivers id stream fin x (.error code message) x

theorem Delivers.mono {id : SessionId} {stream more : List UInt8} {fin fin' : Nat → Prop}
    (hfin : ∀ c, fin c → fin' c) {x y : Cursor} {m : ServerToClientMsg}
    (h : Delivers id stream fin x m y) : Delivers id (stream ++ more) fin' x m y := by
  cases h with
  | @output c seq hc hs =>
    have hlen : stream.length ≤ (stream ++ more).length := by
      rw [List.length_append]
      exact Nat.le_add_right _ _
    rw [← extract_append_left (m := more) hs]
    exact .output hc (Nat.le_trans hs hlen)
  | agentStateChanged => exact .agentStateChanged
  | sessionExited hf => exact .sessionExited (hfin _ hf)
  | lag => exact .lag
  | error => exact .error

/-- Only error replies. -/
def Errors (ms : List ServerToClientMsg) : Prop :=
  ∀ m ∈ ms, ∃ code message, m = .error code message

theorem errors_nil : Errors [] := fun _ hm => by cases hm

theorem Errors.snoc {ms : List ServerToClientMsg} (h : Errors ms) (code : ErrorCode)
    (message : String) : Errors (ms ++ [.error code message]) := by
  intro m hm
  rcases List.mem_append.mp hm with hm | hm
  · exact h m hm
  · exact ⟨code, message, List.mem_singleton.mp hm⟩

theorem Errors.tail {m : ServerToClientMsg} {ms : List ServerToClientMsg} (h : Errors (m :: ms)) :
    Errors ms := fun n hn => h n (List.mem_cons_of_mem m hn)

/-- After a lag notice nothing but error replies follows. -/
theorem errors_of_lagged {id : SessionId} {stream : List UInt8} {fin : Nat → Prop}
    {ms : List ServerToClientMsg} {c : Nat} {y : Cursor}
    (h : Trail (Delivers id stream fin) ⟨c, true⟩ ms y) : Errors ms := by
  induction ms with
  | nil => exact errors_nil
  | cons m ms ih =>
    obtain ⟨z, hm, hms⟩ := Trail.cons_iff.mp h
    cases hm with
    | @error _ code message =>
      intro n hn
      rcases List.mem_cons.mp hn with rfl | hn
      · exact ⟨code, message, rfl⟩
      · exact ih hms n hn

/-- A client that was told to start over is not caught up by what follows. -/
theorem not_caught_up_of_lagged {id : SessionId} {stream : List UInt8} {fin : Nat → Prop}
    {ms : List ServerToClientMsg} {c d : Nat} :
    ¬ Trail (Delivers id stream fin) ⟨c, true⟩ ms ⟨d, false⟩ := by
  intro h
  induction ms with
  | nil => cases Trail.nil_iff.mp h
  | cons m ms ih =>
    obtain ⟨z, hm, hms⟩ := Trail.cons_iff.mp h
    cases hm
    exact ih hms

namespace State

/-- The offset up to which output was broadcast. -/
def sentEnd (s : State) : Nat :=
  match s.pty with
  | .recorded _ bytes => s.stream.length - bytes.length
  | _ => s.stream.length

/-- In strict runs the client may be told of the exit only at the end of the
stream. -/
def Final (strict : Bool) (s : State) (c : Nat) : Prop :=
  strict = true → s.session.exitCode.isSome = true ∧ c = s.stream.length

abbrev Feed (strict : Bool) (s : State) :
    Cursor → List ServerToClientMsg → Cursor → Prop :=
  Trail (Delivers s.session.id s.stream (s.Final strict))

/-- What a receiver at `rx` will still forward after an attach that ended at `a`. -/
def tail (s : State) (rx a : Nat) : List ServerToClientMsg :=
  (s.session.subscribers.sent.drop rx).filter fun m => !outputWasReplayed m a

/-- Some events and then everything the receiver will still forward lead from `d`
to the end of the broadcast output, or to `a` if that is further. -/
structure Window (strict : Bool) (s : State) (d : Nat) (events : List ServerToClientMsg)
    (rx a : Nat) : Prop where
  rx_le : rx ≤ s.session.subscribers.sent.length
  seq_le : a ≤ s.stream.length
  boundary : a ≤ s.sentEnd ∨ a = s.stream.length
  feed : s.Feed strict ⟨d, false⟩ (events ++ s.tail rx a) ⟨max a s.sentEnd, false⟩

/-- Who continues the stream at `d` once the messages in flight are read. -/
inductive Source (strict : Bool) (s : State) (d : Nat) : Handler → Forwarder → Prop
  | idle : Source strict s d .idle .stopped
  | receiving {rx a : Nat} : s.Window strict d [] rx a →
      Source strict s d .idle (.receiving rx a)
  | writing {rx a : Nat} {event : ServerToClientMsg} : s.Window strict d [event] rx a →
      Source strict s d .idle (.writing rx a event false)
  | lagging {rx a skipped : Nat} :
      Source strict s d .idle (.writing rx a (.lag s.session.id skipped) true)
  | checkingExit {rx : Nat} : s.Window strict d [] rx d →
      Source strict s d (.checkingExit rx d) .stopped
  | exiting {exitCode : Int} : s.Final strict d →
      Source strict s d (.replying [.sessionExited s.session.id exitCode]) .stopped

/-- The messages in flight and then their source continue the stream at `c`. -/
inductive Upstream (strict : Bool) (s : State) (c : Nat) (wire : List ServerToClientMsg) : Prop
  | flowing (d : Nat) : s.Feed strict ⟨c, false⟩ wire ⟨d, false⟩ →
      s.Source strict d s.handler s.forwarder → Upstream strict s c wire
  | lagged (d : Nat) : s.Feed strict ⟨c, false⟩ wire ⟨d, true⟩ →
      s.handler = .idle → s.forwarder = .stopped → Upstream strict s c wire

/-- An attach reply that fits what the client asked for. -/
structure Answers (s : State) (initialBytes : List UInt8) (seq : Nat) : Prop where
  seq_le : seq ≤ s.stream.length
  replay : s.replayed = true → ∃ start, s.client.lastSeenSeq = some start ∧ start ≤ seq ∧
    initialBytes = s.stream.extract start seq

/-- How far an attach request is while its reply is not yet on the wire. -/
inductive Asked (strict : Bool) (s : State) : Handler → Option (ClientSize × Option Nat) → Prop
  | requested (size : ClientSize) : Asked strict s .idle (some (size, s.client.lastSeenSeq))
  | attaching : Asked strict s (.attaching s.client.lastSeenSeq) none
  | subscribed {rx : Nat} : rx ≤ s.session.subscribers.sent.length →
      Asked strict s (.subscribed s.client.lastSeenSeq rx) none
  | attached {rx seq : Nat} {initialBytes : List UInt8} : s.Answers initialBytes seq →
      s.Window strict seq [] rx seq → Asked strict s (.attached rx initialBytes seq) none
  | restored {seq : Nat} {initialBytes : List UInt8} {exitCode : Int} :
      s.Answers initialBytes seq → s.Final strict seq →
      Asked strict s (.replying [.attached s.session.id initialBytes seq,
        .sessionExited s.session.id exitCode]) none
  | refused (code : ErrorCode) (message : String) :
      Asked strict s (.replying [.error code message]) none
  | answered : Asked strict s .idle none

/-- Where the exchange between client and daemon stands. -/
inductive Conversation (strict : Bool) (s : State) : Prop
  | sending (phase : s.client.phase = .sending) (request : s.request = none)
      (handler : s.handler = .idle) (forwarder : s.forwarder = .stopped) (wire : Errors s.wire)
  | asked (phase : s.client.phase = .awaiting) (forwarder : s.forwarder = .stopped)
      (wire : Errors s.wire) (asked : s.Asked strict s.handler s.request)
  | answered (phase : s.client.phase = .awaiting) (request : s.request = none)
      (errors rest : List ServerToClientMsg) (initialBytes : List UInt8) (seq : Nat)
      (wire : s.wire = errors ++ .attached s.session.id initialBytes seq :: rest)
      (quiet : Errors errors) (answers : s.Answers initialBytes seq)
      (upstream : s.Upstream strict seq rest)
  | streaming (phase : s.client.phase = .attached) (request : s.request = none) (seq : Nat)
      (reached : s.client.lastSeenSeq = some seq) (upstream : s.Upstream strict seq s.wire)
  | ended (outcome : AttachOutcome) (phase : s.client.phase = .ended outcome)
      (final : ∀ exitCode, outcome = .sessionExited exitCode →
        ∃ seq, s.client.lastSeenSeq = some seq ∧ s.Final strict seq)

/-- What the daemon's own records say about the stream. -/
structure Recorded (s : State) : Prop where
  mirrors : s.session.ring.Mirrors s.stream
  reading : s.pty = .reading → s.session.exitCode = none
  recorded : ∀ seq bytes, s.pty = .recorded seq bytes →
    s.session.exitCode = none ∧ seq = s.stream.length ∧ bytes.length ≤ s.stream.length ∧
      bytes = s.stream.extract (s.stream.length - bytes.length) s.stream.length
  exiting : ∀ exitCode, s.pty = .exiting exitCode → s.session.exitCode.isSome = true
  exited : s.pty = .exited → s.session.exitCode.isSome = true
  output : ∀ id seq bytes, .output id seq bytes ∈ s.session.subscribers.sent → seq ≤ s.sentEnd
  still : ∀ m ∈ s.session.subscribers.sent, (∃ id seq bytes, m = .output id seq bytes) ∨
    (∃ state line, m = .agentStateChanged s.session.id state line) ∨
    (∃ exitCode, m = .sessionExited s.session.id exitCode ∧ s.session.exitCode.isSome = true)
  restored : ∀ stored, s.restored = some stored → s.session.exitCode.isSome = true ∧
    stored.scrollbackStartSeq + stored.scrollback.length = s.stream.length

/-- Everything delivered so far is in order. -/
structure Delivered (s : State) : Prop where
  attachment : ∀ t, s.client.attachment = some t → t.Contiguous s.stream s.client.lastSeenSeq
  resumed : ∀ t, s.client.resumed = some t → t.Contiguous s.stream s.client.lastSeenSeq

structure Inv (strict : Bool) (s : State) : Prop where
  recorded : s.Recorded
  delivered : s.Delivered
  conversation : s.Conversation strict

variable {strict : Bool} {s s' : State}

/-- The stream may have grown, and an exit once announced stays final. -/
structure Extends (strict : Bool) (s s' : State) : Prop where
  id : s'.session.id = s.session.id
  stream : ∃ more, s'.stream = s.stream ++ more
  final : ∀ c, s.Final strict c → s'.Final strict c

theorem Extends.stream_le (g : Extends strict s s') : s.stream.length ≤ s'.stream.length := by
  obtain ⟨more, hmore⟩ := g.stream
  rw [hmore, List.length_append]
  exact Nat.le_add_right _ _

theorem Extends.delivers (g : Extends strict s s') {x y : Cursor} {m : ServerToClientMsg}
    (h : Delivers s.session.id s.stream (s.Final strict) x m y) :
    Delivers s'.session.id s'.stream (s'.Final strict) x m y := by
  obtain ⟨more, hmore⟩ := g.stream
  rw [g.id, hmore]
  exact h.mono g.final

theorem Extends.feed (g : Extends strict s s') {x y : Cursor} {ms : List ServerToClientMsg}
    (h : s.Feed strict x ms y) : s'.Feed strict x ms y := h.mono fun _ _ _ => g.delivers

/-- The session and the stream may move on; what a receiver will still forward stays
in order. -/
structure Grows (strict : Bool) (s s' : State) : Prop extends Extends strict s s' where
  sent : s.session.subscribers.sent.length ≤ s'.session.subscribers.sent.length
  window : ∀ {d : Nat} {events : List ServerToClientMsg} {rx a : Nat},
    s.Window strict d events rx a → s'.Window strict d events rx a

theorem Grows.source (g : Grows strict s s') {d : Nat} {h : Handler} {f : Forwarder}
    (hs : s.Source strict d h f) : s'.Source strict d h f := by
  cases hs with
  | idle => exact .idle
  | receiving w => exact .receiving (g.window w)
  | writing w => exact .writing (g.window w)
  | lagging => rw [← g.id]; exact .lagging
  | checkingExit w => exact .checkingExit (g.window w)
  | exiting hf => rw [← g.id]; exact .exiting (g.final _ hf)

theorem Source.stop {d : Nat} {h : Handler} {f : Forwarder} (hs : s.Source strict d h f) :
    s.Source strict d h .stopped := by
  cases hs with
  | idle | receiving | writing | lagging => exact .idle
  | checkingExit w => exact .checkingExit w
  | exiting hf => exact .exiting hf

theorem Grows.answers (g : Grows strict s s') (hc : s'.client = s.client)
    (hr : s'.replayed = s.replayed) {bytes : List UInt8} {seq : Nat} (h : s.Answers bytes seq) : s'.Answers bytes seq := by
  obtain ⟨more, hmore⟩ := g.stream
  refine ⟨Nat.le_trans h.seq_le g.stream_le, fun hreplayed => ?_⟩
  obtain ⟨start, hstart, hle, hbytes⟩ := h.replay (hr ▸ hreplayed)
  refine ⟨start, by rw [hc]; exact hstart, hle, ?_⟩
  rw [hmore, extract_append_left h.seq_le]
  exact hbytes

theorem Grows.asked (g : Grows strict s s') (hc : s'.client = s.client)
    (hr : s'.replayed = s.replayed) {h : Handler} {r : Option (ClientSize × Option Nat)} (ha : s.Asked strict h r) : s'.Asked strict h r := by
  cases ha with
  | requested size => rw [← hc]; exact .requested size
  | attaching => rw [← hc]; exact .attaching
  | subscribed hrx => rw [← hc]; exact .subscribed (Nat.le_trans hrx g.sent)
  | attached hans w => exact .attached (g.answers hc hr hans) (g.window w)
  | restored hans hf => rw [← g.id]; exact .restored (g.answers hc hr hans) (g.final _ hf)
  | refused code message => exact .refused code message
  | answered => exact .answered

theorem Grows.delivered (g : Grows strict s s') (hc : s'.client = s.client) (h : s.Delivered) :
    s'.Delivered := by
  obtain ⟨more, hmore⟩ := g.stream
  have contiguous (t : Transcript) (ht : t.Contiguous s.stream s.client.lastSeenSeq) :
      t.Contiguous s'.stream s'.client.lastSeenSeq := by
    obtain ⟨seq, hseq, hstart, hle, hbytes⟩ := ht
    refine ⟨seq, by rw [hc]; exact hseq, hstart, Nat.le_trans hle g.stream_le, ?_⟩
    rw [hmore, extract_append_left hle]
    exact hbytes
  exact ⟨fun t ht => contiguous t (h.attachment t (hc ▸ ht)),
    fun t ht => contiguous t (h.resumed t (hc ▸ ht))⟩

/-- A step after which the messages in flight are the old ones and `ms`. Once the
attach reply is on its way the step need only keep what follows in order. -/
theorem Conversation.push {m : List ServerToClientMsg} (h : s.Conversation strict)
    (g : Grows strict s s') (hc : s'.client = s.client) (hwire : s'.wire = s.wire ++ m)
    (hup : ∀ c w, s.request = none → s.Upstream strict c w →
      s'.request = none ∧ s'.replayed = s.replayed ∧ s'.Upstream strict c (w ++ m))
    (hsending : s.client.phase = .sending → s.request = none → s.handler = .idle →
      s.forwarder = .stopped → Errors s.wire → s'.Conversation strict)
    (hasked : s.client.phase = .awaiting → s.forwarder = .stopped → Errors s.wire →
      s.Asked strict s.handler s.request → s'.Conversation strict) : s'.Conversation strict := by
  cases h with
  | sending hp hr hh hf hw => exact hsending hp hr hh hf hw
  | asked hp hf hw ha => exact hasked hp hf hw ha
  | answered hp hr errors rest bytes seq hw hq hans h =>
    obtain ⟨hr', hrep, hup'⟩ := hup _ _ hr h
    refine .answered (by rw [hc]; exact hp) hr' errors (rest ++ m) bytes seq ?_ hq
      (g.answers hc hrep hans) hup'
    rw [hwire, hw, g.id, List.append_assoc, List.cons_append]
  | streaming hp hr seq hseq h =>
    obtain ⟨hr', -, hup'⟩ := hup _ _ hr h
    refine .streaming (by rw [hc]; exact hp) hr' seq (by rw [hc]; exact hseq) ?_
    rw [hwire]
    exact hup'
  | ended outcome hp hfin =>
    refine .ended outcome (by rw [hc]; exact hp) fun exitCode ho => ?_
    obtain ⟨seq, hseq, hf⟩ := hfin exitCode ho
    exact ⟨seq, by rw [hc]; exact hseq, g.final _ hf⟩

/-- Nothing but the session moved. -/
structure SameConnection (s s' : State) : Prop where
  client : s'.client = s.client
  wire : s'.wire = s.wire
  handler : s'.handler = s.handler
  forwarder : s'.forwarder = s.forwarder
  request : s'.request = s.request
  replayed : s'.replayed = s.replayed

theorem Conversation.grows (h : s.Conversation strict) (g : Grows strict s s')
    (e : SameConnection s s') : s'.Conversation strict := by
  refine h.push (m := []) g e.client (by rw [e.wire, List.append_nil]) ?_ ?_ ?_
  · intro c w hr hup
    refine ⟨e.request.trans hr, e.replayed, ?_⟩
    rw [List.append_nil]
    cases hup with
    | flowing d hfeed hs =>
      refine .flowing d (g.feed hfeed) ?_
      rw [e.handler, e.forwarder]
      exact g.source hs
    | lagged d hfeed hh hf =>
      exact .lagged d (g.feed hfeed) (e.handler.trans hh) (e.forwarder.trans hf)
  · intro hp hr hh hf hw
    exact .sending (by rw [e.client]; exact hp) (e.request.trans hr) (e.handler.trans hh)
      (e.forwarder.trans hf) (by rw [e.wire]; exact hw)
  · intro hp hf hw ha
    refine .asked (by rw [e.client]; exact hp) (e.forwarder.trans hf) (by rw [e.wire]; exact hw) ?_
    rw [e.handler, e.request]
    exact g.asked e.client e.replayed ha

section Session

theorem tail_send {m : ServerToClientMsg} {rx : Nat} (a : Nat)
    (hsent : s'.session.subscribers.sent = s.session.subscribers.sent ++ [m])
    (hrx : rx ≤ s.session.subscribers.sent.length) :
    s'.tail rx a = s.tail rx a ++ if outputWasReplayed m a then [] else [m] := by
  unfold tail
  rw [hsent, List.drop_append_of_le_length hrx, List.filter_append]
  cases h : outputWasReplayed m a <;> simp [h]

/-- A broadcast lengthens what the receivers will forward, unless they skip it. -/
theorem Window.send {m : ServerToClientMsg} (g : Extends strict s s')
    (hstream : s'.stream = s.stream)
    (hsent : s'.session.subscribers.sent = s.session.subscribers.sent ++ [m])
    (hend : s.sentEnd ≤ s'.sentEnd)
    (hstep : ∀ a, a ≤ s.stream.length → (a ≤ s.sentEnd ∨ a = s.stream.length) →
      if outputWasReplayed m a then max a s.sentEnd = max a s'.sentEnd
      else Delivers s'.session.id s'.stream (s'.Final strict) ⟨max a s.sentEnd, false⟩ m
        ⟨max a s'.sentEnd, false⟩)
    {d rx a : Nat} {events : List ServerToClientMsg} (h : s.Window strict d events rx a) :
    s'.Window strict d events rx a := by
  have hstep := hstep a h.seq_le h.boundary
  refine ⟨?_, ?_, ?_, ?_⟩
  · rw [hsent, List.length_append]
    exact Nat.le_add_right_of_le h.rx_le
  · rw [hstream]
    exact h.seq_le
  · rw [hstream]
    exact h.boundary.imp (fun hle => Nat.le_trans hle hend) id
  · have hfeed := g.feed h.feed
    rw [tail_send a hsent h.rx_le, ← List.append_assoc]
    cases hr : outputWasReplayed m a with
    | true =>
      rw [if_pos hr] at hstep
      rw [if_pos rfl, List.append_nil, ← hstep]
      exact hfeed
    | false =>
      rw [if_neg (by rw [hr]; exact Bool.false_ne_true)] at hstep
      rw [if_neg Bool.false_ne_true]
      exact hfeed.snoc hstep

theorem sentEnd_le (s : State) : s.sentEnd ≤ s.stream.length := by
  unfold sentEnd
  split
  · exact Nat.sub_le _ _
  · exact Nat.le_refl _

theorem sentEnd_of_not_recorded (h : ∀ seq bytes, s.pty ≠ .recorded seq bytes) :
    s.sentEnd = s.stream.length := by
  unfold sentEnd
  split
  · rename_i seq bytes hp
    exact absurd hp (h seq bytes)
  · rfl

/-- While the session runs nothing may be final yet. -/
theorem final_of_running (h : s.session.exitCode = none) {c : Nat} (hf : s.Final strict c) :
    s'.Final strict c := fun hs => by
  have hex := (hf hs).1
  rw [h] at hex
  cases hex

/-- A session step keeps the daemon's records true and leaves the connection alone. -/
def SessionStep (strict : Bool) (s s' : State) : Prop :=
  s.Recorded → s'.stream.length ≤ u64Max →
    s'.Recorded ∧ Grows strict s s' ∧ SameConnection s s'

theorem sessionStep_record (bytes : List UInt8) (hp : s.pty = .reading) :
    SessionStep strict s
      { s with
        session := (s.session.pushOutput bytes).2
        stream := s.stream ++ bytes
        pty := .recorded (s.session.pushOutput bytes).1 bytes } := by
  intro r hmax
  obtain ⟨hseq, hmirrors⟩ := Session.pushOutput_mirrors r.mirrors bytes hmax
  have hnone := r.reading hp
  have hsent : s.sentEnd = s.stream.length :=
    sentEnd_of_not_recorded (by rw [hp]; exact fun _ _ h => by cases h)
  have hlen : (s.stream ++ bytes).length - bytes.length = s.stream.length := by
    rw [List.length_append, Nat.add_sub_cancel]
  refine ⟨⟨hmirrors, ?_, ?_, ?_, ?_, ?_, r.still, ?_⟩, ⟨⟨rfl, ⟨bytes, rfl⟩, ?_⟩, ?_, ?_⟩,
    ⟨rfl, rfl, rfl, rfl, rfl, rfl⟩⟩
  · exact fun h => by cases h
  · intro seq chunk h
    cases h
    refine ⟨hnone, hseq, ?_, ?_⟩
    · change bytes.length ≤ (s.stream ++ bytes).length
      rw [List.length_append]
      exact Nat.le_add_left _ _
    · change bytes = (s.stream ++ bytes).extract ((s.stream ++ bytes).length - bytes.length) _
      rw [hlen, List.length_append, extract_length_append]
  · exact fun _ h => by cases h
  · exact fun h => by cases h
  · intro id seq chunk hm
    have hle := r.output id seq chunk hm
    change seq ≤ (s.stream ++ bytes).length - bytes.length
    rw [hlen, ← hsent]
    exact hle
  · intro stored hstored
    have hex := (r.restored stored hstored).1
    rw [hnone] at hex
    cases hex
  · exact fun c hf => final_of_running hnone hf
  · exact Nat.le_refl _
  · intro d events rx a w
    have g : Extends strict s
        { s with
          session := (s.session.pushOutput bytes).2
          stream := s.stream ++ bytes
          pty := .recorded (s.session.pushOutput bytes).1 bytes } :=
      ⟨rfl, ⟨bytes, rfl⟩, fun c hf => final_of_running hnone hf⟩
    refine ⟨w.rx_le, Nat.le_trans w.seq_le g.stream_le, .inl ?_, ?_⟩
    · change a ≤ (s.stream ++ bytes).length - bytes.length
      rw [hlen]
      exact w.seq_le
    · have hfeed := g.feed w.feed
      rw [hsent, ← hlen] at hfeed
      exact hfeed

theorem sessionStep_broadcastOutput {seq : Nat} {bytes : List UInt8}
    (hp : s.pty = .recorded seq bytes) :
    SessionStep strict s
      { s with session := s.session.send (.output s.session.id seq bytes), pty := .reading } := by
  intro r hmax
  obtain ⟨hnone, hseq, hlen, hbytes⟩ := r.recorded seq bytes hp
  have hend : s.sentEnd = s.stream.length - bytes.length := by
    unfold sentEnd
    rw [hp]
  have g : Extends strict s
      { s with session := s.session.send (.output s.session.id seq bytes), pty := .reading } :=
    ⟨rfl, ⟨[], (List.append_nil _).symm⟩, fun c hf => final_of_running hnone hf⟩
  refine ⟨⟨r.mirrors, fun _ => hnone, ?_, ?_, ?_, ?_, ?_, r.restored⟩,
    ⟨g, ?_, ?_⟩, ⟨rfl, rfl, rfl, rfl, rfl, rfl⟩⟩
  · exact fun _ _ h => by cases h
  · exact fun _ h => by cases h
  · exact fun h => by cases h
  · intro id n chunk hm
    rcases List.mem_append.mp hm with hm | hm
    · exact Nat.le_trans (r.output id n chunk hm) s.sentEnd_le
    · cases List.mem_singleton.mp hm
      exact Nat.le_of_eq hseq
  · intro m hm
    rcases List.mem_append.mp hm with hm | hm
    · exact r.still m hm
    · exact .inl ⟨_, _, _, List.mem_singleton.mp hm⟩
  · change _ ≤ (s.session.subscribers.sent ++ _).length
    rw [List.length_append]
    exact Nat.le_add_right _ _
  · intro d events rx a w
    refine w.send g rfl rfl s.sentEnd_le fun a ha hb => ?_
    change if decide (seq ≤ a) = true then max a s.sentEnd = max a s.stream.length
      else Delivers _ _ _ ⟨max a s.sentEnd, false⟩ _ ⟨max a s.stream.length, false⟩
    rw [hseq]
    split_ifs with hle
    · have hlast : a = s.stream.length := Nat.le_antisymm ha (of_decide_eq_true hle)
      rw [hlast, Nat.max_eq_left s.sentEnd_le, Nat.max_self]
    · have hlt : a < s.stream.length := Nat.lt_of_not_le fun h => hle (decide_eq_true h)
      have hsent : a ≤ s.sentEnd := hb.resolve_right (Nat.ne_of_lt hlt)
      rw [Nat.max_eq_right hsent, Nat.max_eq_right ha]
      have hdelivers := @Delivers.output s.session.id s.stream
        (Final strict { s with
          session := s.session.send (.output s.session.id seq bytes), pty := .reading })
        s.sentEnd s.stream.length s.sentEnd_le (Nat.le_refl _)
      rw [hend, ← hbytes] at hdelivers
      rw [hend]
      exact hdelivers

theorem sessionStep_markExited (exitCode : Int) (hp : s.pty = .reading) :
    SessionStep strict s
      { s with session := { s.session with exitCode := some exitCode }, pty := .exiting exitCode } := by
  intro r hmax
  have hnone := r.reading hp
  have hnot : ∀ seq bytes, s.pty ≠ .recorded seq bytes := by
    rw [hp]
    exact fun _ _ h => by cases h
  have hend := sentEnd_of_not_recorded hnot
  have g : Extends strict s
      { s with
        session := { s.session with exitCode := some exitCode }, pty := .exiting exitCode } :=
    ⟨rfl, ⟨[], (List.append_nil _).symm⟩, fun c hf => final_of_running hnone hf⟩
  refine ⟨⟨r.mirrors, ?_, ?_, fun _ _ => rfl, ?_, ?_, ?_, ?_⟩,
    ⟨g, Nat.le_refl _, ?_⟩, ⟨rfl, rfl, rfl, rfl, rfl, rfl⟩⟩
  · exact fun h => by cases h
  · exact fun _ _ h => by cases h
  · exact fun h => by cases h
  · intro id n chunk hm
    exact Nat.le_trans (r.output id n chunk hm) s.sentEnd_le
  · intro m hm
    refine (r.still m hm).imp id (Or.imp id ?_)
    exact fun ⟨code, hcode, _⟩ => ⟨code, hcode, rfl⟩
  · exact fun stored hstored => ⟨rfl, (r.restored stored hstored).2⟩
  · intro d events rx a w
    have hfeed := g.feed w.feed
    rw [hend] at hfeed
    exact ⟨w.rx_le, w.seq_le, .inl w.seq_le, hfeed⟩

theorem sessionStep_broadcastExit {exitCode : Int} (hp : s.pty = .exiting exitCode) :
    SessionStep strict s
      { s with
        session := s.session.send (.sessionExited s.session.id exitCode), pty := .exited } := by
  intro r hmax
  have hex := r.exiting exitCode hp
  have hnot : ∀ seq bytes, s.pty ≠ .recorded seq bytes := by
    rw [hp]
    exact fun _ _ h => by cases h
  have hend := sentEnd_of_not_recorded hnot
  have g : Extends strict s
      { s with
        session := s.session.send (.sessionExited s.session.id exitCode), pty := .exited } :=
    ⟨rfl, ⟨[], (List.append_nil _).symm⟩, fun c hf => hf⟩
  refine ⟨⟨r.mirrors, ?_, ?_, ?_, fun _ => hex, ?_, ?_, r.restored⟩,
    ⟨g, ?_, ?_⟩, ⟨rfl, rfl, rfl, rfl, rfl, rfl⟩⟩
  · exact fun h => by cases h
  · exact fun _ _ h => by cases h
  · exact fun _ h => by cases h
  · intro id n chunk hm
    rcases List.mem_append.mp hm with hm | hm
    · exact Nat.le_trans (r.output id n chunk hm) s.sentEnd_le
    · cases List.mem_singleton.mp hm
  · intro m hm
    rcases List.mem_append.mp hm with hm | hm
    · exact r.still m hm
    · exact .inr (.inr ⟨exitCode, List.mem_singleton.mp hm, hex⟩)
  · change _ ≤ (s.session.subscribers.sent ++ _).length
    rw [List.length_append]
    exact Nat.le_add_right _ _
  · intro d events rx a w
    refine w.send g rfl rfl s.sentEnd_le fun a ha hb => ?_
    change if false = true then _ else Delivers _ _ _ ⟨max a s.sentEnd, false⟩ _
      ⟨max a s.stream.length, false⟩
    rw [if_neg Bool.false_ne_true, hend]
    refine .sessionExited fun _ => ⟨hex, ?_⟩
    exact Nat.max_eq_right ha

theorem sessionStep_setState (state : AgentState) (line : Option String) :
    SessionStep strict s
      { s with session := s.session.send (.agentStateChanged s.session.id state line) } := by
  intro r hmax
  have g : Extends strict s
      { s with session := s.session.send (.agentStateChanged s.session.id state line) } :=
    ⟨rfl, ⟨[], (List.append_nil _).symm⟩, fun c hf => hf⟩
  refine ⟨⟨r.mirrors, r.reading, r.recorded, r.exiting, r.exited, ?_, ?_, r.restored⟩,
    ⟨g, ?_, ?_⟩, ⟨rfl, rfl, rfl, rfl, rfl, rfl⟩⟩
  · intro id n chunk hm
    rcases List.mem_append.mp hm with hm | hm
    · exact r.output id n chunk hm
    · cases List.mem_singleton.mp hm
  · intro m hm
    rcases List.mem_append.mp hm with hm | hm
    · exact r.still m hm
    · exact .inr (.inl ⟨state, line, List.mem_singleton.mp hm⟩)
  · change _ ≤ (s.session.subscribers.sent ++ _).length
    rw [List.length_append]
    exact Nat.le_add_right _ _
  · intro d events rx a w
    refine w.send g rfl rfl (Nat.le_refl _) fun a ha hb => ?_
    change if false = true then _ else Delivers _ _ _ ⟨max a s.sentEnd, false⟩ _
      ⟨max a s.sentEnd, false⟩
    rw [if_neg Bool.false_ne_true]
    exact .agentStateChanged

/-- The registry may change as it likes, as long as what it restores is the whole
output of an exited session. -/
theorem sessionStep_registry (live : Bool) (restored : Option StoredSession)
    (h : s.Recorded → ∀ stored, restored = some stored → s.session.exitCode.isSome = true ∧
      stored.scrollbackStartSeq + stored.scrollback.length = s.stream.length) :
    SessionStep strict s { s with live, restored } := by
  intro r hmax
  exact ⟨⟨r.mirrors, r.reading, r.recorded, r.exiting, r.exited, r.output, r.still, h r⟩,
    ⟨⟨rfl, ⟨[], (List.append_nil _).symm⟩, fun c hf => hf⟩, Nat.le_refl _,
      fun w => ⟨w.rx_le, w.seq_le, w.boundary, w.feed⟩⟩, ⟨rfl, rfl, rfl, rfl, rfl, rfl⟩⟩

theorem storedSnapshot_end (r : s.Recorded) :
    s.session.storedSnapshot.scrollbackStartSeq + s.session.storedSnapshot.scrollback.length =
      s.stream.length := by
  change s.session.ring.startSeq + s.session.ring.data.length = _
  rw [r.mirrors.data, List.length_drop, Nat.add_sub_cancel' r.mirrors.startSeq]

theorem inv_of_sessionStep (i : s.Inv strict) (hstep : SessionStep strict s s')
    (hmax : s'.stream.length ≤ u64Max) : s'.Inv strict := by
  obtain ⟨hrecorded, hgrows, hsame⟩ := hstep i.recorded hmax
  exact ⟨hrecorded, hgrows.delivered hsame.client i.delivered, i.conversation.grows hgrows hsame⟩

end Session

end State
end Shelly.Daemon.Attach
