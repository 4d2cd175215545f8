import Shelly.Daemon.AttachInvariant

namespace Shelly.Daemon.Attach

namespace State

variable {strict : Bool} {s s' : State}

section Connection

/-- A step of the connection: the session stays. -/
structure Keeps (s s' : State) : Prop where
  session : s'.session = s.session
  stream : s'.stream = s.stream
  pty : s'.pty = s.pty
  restored : s'.restored = s.restored

theorem Keeps.sentEnd (k : Keeps s s') : s'.sentEnd = s.sentEnd := by
  unfold State.sentEnd
  rw [k.pty, k.stream]

theorem Keeps.recorded (k : Keeps s s') (r : s.Recorded) : s'.Recorded := by
  have hend := k.sentEnd
  obtain ⟨hsession, hstream, hpty, hrestored⟩ := k
  constructor
  · rw [hsession, hstream]; exact r.mirrors
  · rw [hsession, hpty]; exact r.reading
  · rw [hsession, hpty, hstream]; exact r.recorded
  · rw [hsession, hpty]; exact r.exiting
  · rw [hsession, hpty]; exact r.exited
  · rw [hsession, hend]; exact r.output
  · rw [hsession]; exact r.still
  · rw [hsession, hrestored, hstream]; exact r.restored

theorem Keeps.grows (k : Keeps s s') (strict : Bool) : Grows strict s s' := by
  have g : Extends strict s s' := by
    refine ⟨by rw [k.session], ⟨[], by rw [k.stream, List.append_nil]⟩, fun c hf => ?_⟩
    unfold Final
    rw [k.session, k.stream]
    exact hf
  refine ⟨g, Nat.le_of_eq (by rw [k.session]), fun {d events rx a} w => ?_⟩
  have htail : s'.tail rx a = s.tail rx a := by
    unfold tail
    rw [k.session]
  refine ⟨?_, ?_, ?_, ?_⟩
  · rw [k.session]; exact w.rx_le
  · rw [k.stream]; exact w.seq_le
  · rw [k.sentEnd, k.stream]; exact w.boundary
  · rw [k.sentEnd, htail]; exact g.feed w.feed

/-- Once the reply is on its way the handler only checks for an exit. -/
theorem Upstream.handler {c : Nat} {w : List ServerToClientMsg} (h : s.Upstream strict c w) :
    s.handler = .idle ∨ (∃ rx d, s.handler = .checkingExit rx d) ∨
      ∃ exitCode, s.handler = .replying [.sessionExited s.session.id exitCode] := by
  cases h with
  | flowing d hfeed hs =>
    generalize s.handler = h, s.forwarder = f at hs ⊢
    cases hs with
    | idle | receiving | writing | lagging => exact .inl rfl
    | checkingExit => exact .inr (.inl ⟨_, _, rfl⟩)
    | exiting => exact .inr (.inr ⟨_, rfl⟩)
  | lagged d hfeed hh hf => exact .inl hh

theorem inv_push {m : List ServerToClientMsg} (i : s.Inv strict) (k : Keeps s s')
    (hc : s'.client = s.client) (hwire : s'.wire = s.wire ++ m)
    (hup : ∀ c w, s.request = none → s.Upstream strict c w →
      s'.request = none ∧ s'.replayed = s.replayed ∧ s'.Upstream strict c (w ++ m))
    (hsending : s.client.phase = .sending → s.request = none → s.handler = .idle →
      s.forwarder = .stopped → Errors s.wire → s'.Conversation strict)
    (hasked : s.client.phase = .awaiting → s.forwarder = .stopped → Errors s.wire →
      s.Asked strict s.handler s.request → s'.Conversation strict) : s'.Inv strict :=
  ⟨k.recorded i.recorded, (k.grows strict).delivered hc i.delivered,
    i.conversation.push (k.grows strict) hc hwire hup hsending hasked⟩

theorem inv_lookUp {size : ClientSize} {lastSeenSeq : Option Nat}
    (i : s.Inv strict) (hmax : s.stream.length ≤ u64Max)
    (hh : s.handler = .idle) (hr : s.request = some (size, lastSeenSeq)) :
    (s.lookUp size lastSeenSeq).Inv strict := by
  have hk : Keeps s (s.lookUp size lastSeenSeq) ∧ (s.lookUp size lastSeenSeq).client = s.client ∧ (s.lookUp size lastSeenSeq).wire = s.wire ∧
      (s.lookUp size lastSeenSeq).forwarder = s.forwarder := by
    unfold lookUp
    dsimp only
    repeat' split
    all_goals exact ⟨⟨rfl, rfl, rfl, rfl⟩, rfl, rfl, rfl⟩
  obtain ⟨k, hclient, hwire, hforwarder⟩ := hk
  refine inv_push (m := []) i k hclient (by rw [hwire, List.append_nil]) ?_ ?_ ?_
  · intro c w hnone
    rw [hr] at hnone
    cases hnone
  · intro _ hnone
    rw [hr] at hnone
    cases hnone
  · intro hp hf hw ha
    rw [hh, hr] at ha
    obtain rfl : lastSeenSeq = s.client.lastSeenSeq := by cases ha; rfl
    refine .asked (by rw [hclient]; exact hp) (hforwarder.trans hf) (by rw [hwire]; exact hw) ?_
    unfold lookUp
    dsimp only
    split
    · rename_i error he
      obtain ⟨message, rfl⟩ : ∃ message, error = .error .invalidRequest message := by
        unfold invalidClientSize at he
        split at he
        · cases he
        · exact ⟨_, (Option.some.inj he).symm⟩
      exact .refused _ _
    · split
      · exact .attaching
      · split
        · rename_i stored hstored
          obtain ⟨hex, hlen⟩ := i.recorded.restored stored hstored
          have hseq : saturatingAdd stored.scrollbackStartSeq stored.scrollback.length =
              s.stream.length := by
            rw [saturatingAdd_of_le (by omega), hlen]
          rw [hseq]
          exact .restored ⟨Nat.le_refl _, fun h => by cases h⟩ fun _ => ⟨hex, rfl⟩
        · exact .refused _ _

theorem inv_subscribe {lastSeenSeq : Option Nat} (failure : Option String)
    (i : s.Inv strict) (hh : s.handler = .attaching lastSeenSeq) :
    (s.subscribe lastSeenSeq failure).Inv strict := by
  have hk : Keeps s (s.subscribe lastSeenSeq failure) ∧
      (s.subscribe lastSeenSeq failure).client = s.client ∧
      (s.subscribe lastSeenSeq failure).wire = s.wire ∧
      (s.subscribe lastSeenSeq failure).forwarder = s.forwarder ∧
      (s.subscribe lastSeenSeq failure).request = s.request := by
    cases failure <;> exact ⟨⟨rfl, rfl, rfl, rfl⟩, rfl, rfl, rfl, rfl⟩
  obtain ⟨k, hclient, hwire, hforwarder, hrequest⟩ := hk
  refine inv_push (m := []) i k hclient (by rw [hwire, List.append_nil]) ?_ ?_ ?_
  · intro c w _ hup
    rcases hup.handler with hi | ⟨rx, d, hi⟩ | ⟨code, hi⟩ <;> cases hh.symm.trans hi
  · intro _ _ hi
    cases hh.symm.trans hi
  · intro hp hf hw ha
    refine .asked (by rw [hclient]; exact hp) (hforwarder.trans hf) (by rw [hwire]; exact hw) ?_
    rw [hrequest]
    rw [hh] at ha
    generalize s.request = req at ha
    cases ha with
    | attaching =>
      cases failure with
      | none => exact .subscribed (Nat.le_refl _)
      | some failure => exact .refused _ _

/-- Everything that was sent before the snapshot is part of it. -/
theorem window_attachBytes (r : s.Recorded) {rx : Nat}
    (hrx : rx ≤ s.session.subscribers.sent.length) :
    s.Window strict s.stream.length [] rx s.stream.length := by
  refine ⟨hrx, Nat.le_refl _, .inr rfl, ?_⟩
  rw [Nat.max_eq_left s.sentEnd_le, List.nil_append]
  refine Trail.of_still fun m hm => ?_
  obtain ⟨hm, hskip⟩ := List.mem_filter.mp hm
  have hmem : m ∈ s.session.subscribers.sent := List.mem_of_mem_drop hm
  rcases r.still m hmem with ⟨id, seq, bytes, rfl⟩ | ⟨state, line, rfl⟩ | ⟨code, rfl, hex⟩
  · have hle : seq ≤ s.stream.length := Nat.le_trans (r.output id seq bytes hmem) s.sentEnd_le
    simp only [outputWasReplayed, hle, decide_true, Bool.not_true, Bool.false_eq_true] at hskip
  · exact .agentStateChanged
  · exact .sessionExited fun _ => ⟨hex, rfl⟩

theorem inv_attachBytes {lastSeenSeq : Option Nat} {rx : Nat} (screen : List UInt8)
    (i : s.Inv strict) (hmax : s.stream.length ≤ u64Max)
    (hh : s.handler = .subscribed lastSeenSeq rx) :
    (s.attachBytes lastSeenSeq rx screen).Inv strict := by
  have k : Keeps s (s.attachBytes lastSeenSeq rx screen) := ⟨rfl, rfl, rfl, rfl⟩
  refine inv_push (m := []) i k rfl (List.append_nil _).symm ?_ ?_ ?_
  · intro c w _ hup
    rcases hup.handler with hi | ⟨rx', d, hi⟩ | ⟨code, hi⟩ <;> cases hh.symm.trans hi
  · intro _ _ hi
    cases hh.symm.trans hi
  · intro hp hf hw ha
    refine .asked hp hf hw ?_
    obtain ⟨hseq, hreplay⟩ := Session.attachBytes_spec i.recorded.mirrors hmax lastSeenSeq screen
    change Asked strict _ (.attached rx (s.session.attachBytes lastSeenSeq screen).2
      (s.session.attachBytes lastSeenSeq screen).1) s.request
    rw [hh] at ha
    generalize s.request = req at ha
    cases ha with
    | subscribed hrx =>
      rw [hseq]
      refine .attached ⟨Nat.le_refl _, fun hr => ?_⟩ ((k.grows strict).window (window_attachBytes i.recorded hrx))
      obtain ⟨start, hstart, hle, hbytes⟩ := hreplay hr
      exact ⟨start, hstart, hle, hbytes⟩

theorem inv_writeAttached {rx seq : Nat} {initialBytes : List UInt8}
    (i : s.Inv strict) (hh : s.handler = .attached rx initialBytes seq) :
    Inv strict
      { s.write (.attached s.session.id initialBytes seq) with handler := .checkingExit rx seq } := by
  have k : Keeps s
      { s.write (.attached s.session.id initialBytes seq) with
        handler := .checkingExit rx seq } := ⟨rfl, rfl, rfl, rfl⟩
  refine inv_push i k rfl rfl ?_ ?_ ?_
  · intro c w _ hup
    rcases hup.handler with hi | ⟨rx', d, hi⟩ | ⟨code, hi⟩ <;> cases hh.symm.trans hi
  · intro _ _ hi
    cases hh.symm.trans hi
  · intro hp hf hw ha
    rw [hh] at ha
    generalize hreq : s.request = req at ha
    cases ha with
    | attached hans w =>
      refine .answered hp hreq s.wire [] initialBytes seq rfl hw ((k.grows strict).answers rfl rfl hans)
        (.flowing seq (.nil _) ?_)
      change Source strict _ seq (.checkingExit rx seq) s.forwarder
      rw [hf]
      exact .checkingExit ((k.grows strict).window w)

/-- The exit check either ends the attach or starts the forwarder. In strict runs
an exit is only found when nothing was written since the snapshot. -/
theorem inv_checkExit {rx seq : Nat} (i : s.Inv strict)
    (hh : s.handler = .checkingExit rx seq)
    (hstrict : strict = true → s.session.exitCode.isSome = true → seq = s.stream.length) :
    (s.checkExit rx seq).Inv strict := by
  have hk : Keeps s (s.checkExit rx seq) ∧ (s.checkExit rx seq).client = s.client ∧ (s.checkExit rx seq).wire = s.wire ∧
      (s.checkExit rx seq).request = s.request ∧
      (s.checkExit rx seq).replayed = s.replayed := by
    unfold checkExit
    split <;> exact ⟨⟨rfl, rfl, rfl, rfl⟩, rfl, rfl, rfl, rfl⟩
  obtain ⟨k, hclient, hwire, hrequest, hreplayed⟩ := hk
  refine inv_push (m := []) i k hclient (by rw [hwire, List.append_nil]) ?_ ?_ ?_
  · intro c w hnone hup
    refine ⟨hrequest.trans hnone, hreplayed, ?_⟩
    rw [List.append_nil]
    cases hup with
    | lagged d _ hi _ => cases hh.symm.trans hi
    | flowing d hfeed hs =>
      refine .flowing d ((k.grows strict).feed hfeed) ?_
      rw [hh] at hs
      generalize hf : s.forwarder = f at hs
      cases hs with
      | checkingExit w =>
        have w' := (k.grows strict).window w
        unfold checkExit at w' ⊢
        split
        · rename_i code hcode
          refine hf ▸ .exiting fun hs => ?_
          have hex : s.session.exitCode.isSome = true := by rw [hcode]; rfl
          exact ⟨hex, hstrict hs hex⟩
        · rename_i hcode
          rw [hcode] at w'
          exact .receiving w'
  · intro _ _ hi
    cases hh.symm.trans hi
  · intro _ _ _ ha
    rw [hh] at ha
    cases ha

theorem inv_writeReply {m : ServerToClientMsg} {ms : List ServerToClientMsg}
    (i : s.Inv strict) (hh : s.handler = .replying (m :: ms)) :
    Inv strict
      { s.write m with handler := if ms = [] then .idle else .replying ms } := by
  have k : Keeps s { s.write m with handler := if ms = [] then .idle else .replying ms } :=
    ⟨rfl, rfl, rfl, rfl⟩
  refine inv_push i k rfl rfl ?_ ?_ ?_
  · intro c w hnone hup
    refine ⟨hnone, rfl, ?_⟩
    cases hup with
    | lagged d _ hi _ => cases hh.symm.trans hi
    | flowing d hfeed hs =>
      rw [hh] at hs
      generalize hf : s.forwarder = f at hs
      cases hs with
      | exiting hfin =>
        refine .flowing d (((k.grows strict).feed hfeed).snoc (.sessionExited ((k.grows strict).final _ hfin))) ?_
        change Source strict _ d .idle s.forwarder
        rw [hf]
        exact .idle
  · intro _ _ hi
    cases hh.symm.trans hi
  · intro hp hf hw ha
    rw [hh] at ha
    generalize hreq : s.request = req at ha
    cases ha with
    | restored hans hfin =>
      refine .answered hp hreq s.wire [] _ _ rfl hw ((k.grows strict).answers rfl rfl hans) (.flowing _ (.nil _) ?_)
      change Source strict _ _ (.replying [.sessionExited s.session.id _]) s.forwarder
      rw [hf]
      exact .exiting ((k.grows strict).final _ hfin)
    | refused code message =>
      refine .asked hp hf (hw.snoc code message) ?_
      change Asked strict _ .idle s.request
      rw [hreq]
      exact .answered

/-- An idle handler may answer another request of the client with an error. -/
theorem inv_answer (code : ErrorCode) (message : String)
    (i : s.Inv strict) : (s.write (.error code message)).Inv strict := by
  have k : Keeps s (s.write (.error code message)) := ⟨rfl, rfl, rfl, rfl⟩
  refine inv_push i k rfl rfl ?_ ?_ ?_
  · intro c w hnone hup
    refine ⟨hnone, rfl, ?_⟩
    cases hup with
    | lagged d hfeed hi hf => exact .lagged d (((k.grows strict).feed hfeed).snoc .error) hi hf
    | flowing d hfeed hs =>
      refine .flowing d (((k.grows strict).feed hfeed).snoc .error) ?_
      exact (k.grows strict).source hs
  · exact fun hp hr hi hf hw => .sending hp hr hi hf (hw.snoc code message)
  · intro hp hf hw ha
    exact .asked hp hf (hw.snoc code message) ((k.grows strict).asked rfl rfl ha)

theorem inv_receive {rx a : Nat} (i : s.Inv strict)
    (hf : s.forwarder = .receiving rx a) (hr : s.receive rx a = some s') :
    s'.Inv strict := by
  have hk : Keeps s s' ∧ s'.client = s.client ∧ s'.wire = s.wire ∧ s'.request = s.request ∧ s'.replayed = s.replayed ∧
      s'.handler = s.handler := by
    obtain ⟨⟨received, rx'⟩, -, rfl⟩ := Option.map_eq_some_iff.mp hr
    cases received with
    | message event =>
      dsimp only
      split <;> exact ⟨⟨rfl, rfl, rfl, rfl⟩, rfl, rfl, rfl, rfl, rfl⟩
    | lagged skipped => exact ⟨⟨rfl, rfl, rfl, rfl⟩, rfl, rfl, rfl, rfl, rfl⟩
  obtain ⟨k, hclient, hwire, hrequest, hreplayed, hhandler⟩ := hk
  refine inv_push (m := []) i k hclient (by rw [hwire, List.append_nil]) ?_ ?_ ?_
  · intro c w hnone hup
    refine ⟨hrequest.trans hnone, hreplayed, ?_⟩
    rw [List.append_nil]
    cases hup with
    | lagged d _ _ hstop => cases hf.symm.trans hstop
    | flowing d hfeed hs =>
      refine .flowing d ((k.grows strict).feed hfeed) ?_
      rw [hhandler]
      rw [hf] at hs
      generalize s.handler = h at hs ⊢
      cases hs with
      | receiving w =>
        obtain ⟨⟨received, rx'⟩, hrecv, rfl⟩ := Option.map_eq_some_iff.mp hr
        cases received with
        | lagged skipped => exact .lagging
        | message event =>
          obtain ⟨rfl, hdrop⟩ := Broadcast.drop_of_recv_message hrecv
          have hlt : rx + 1 ≤ s.session.subscribers.sent.length := by
            have hlen := congrArg List.length hdrop
            rw [List.length_drop, List.length_cons] at hlen
            omega
          have htail : s.tail rx a =
              if outputWasReplayed event a then s.tail (rx + 1) a
              else event :: s.tail (rx + 1) a := by
            unfold tail
            rw [hdrop, List.filter_cons]
            cases outputWasReplayed event a <;> rfl
          have hfeed' := w.feed
          rw [htail] at hfeed'
          dsimp only at k ⊢
          split
          · rename_i hskip
            rw [if_pos hskip] at hfeed' k
            exact .receiving ((k.grows strict).window ⟨hlt, w.seq_le, w.boundary, hfeed'⟩)
          · rename_i hskip
            rw [if_neg hskip] at hfeed' k
            exact .writing ((k.grows strict).window ⟨hlt, w.seq_le, w.boundary, hfeed'⟩)
  · intro _ _ _ hstop
    cases hf.symm.trans hstop
  · intro _ hstop
    cases hf.symm.trans hstop

theorem inv_forward {rx a : Nat} {event : ServerToClientMsg} {terminal : Bool}
    (i : s.Inv strict) (hf : s.forwarder = .writing rx a event terminal) :
    Inv strict
      { s.write event with forwarder := if terminal then .stopped else .receiving rx a } := by
  have k : Keeps s
      { s.write event with forwarder := if terminal then .stopped else .receiving rx a } :=
    ⟨rfl, rfl, rfl, rfl⟩
  refine inv_push i k rfl rfl ?_ ?_ ?_
  · intro c w hnone hup
    refine ⟨hnone, rfl, ?_⟩
    cases hup with
    | lagged d _ _ hstop => cases hf.symm.trans hstop
    | flowing d hfeed hs =>
      rw [hf] at hs
      generalize hh : s.handler = h at hs
      cases hs with
      | lagging => exact .lagged d (((k.grows strict).feed hfeed).snoc .lag) hh rfl
      | writing w =>
        obtain ⟨hrx, hseq, hboundary, hevents⟩ := w
        obtain ⟨⟨e, lagged⟩, hevent, hrest⟩ := Trail.cons_iff.mp hevents
        have hnot : lagged = false := by
          cases lagged with
          | false => rfl
          | true => exact absurd hrest not_caught_up_of_lagged
        subst hnot
        refine .flowing e (((k.grows strict).feed hfeed).snoc ((k.grows strict).delivers hevent)) ?_
        change Source strict _ e s.handler (.receiving rx a)
        rw [hh]
        exact .receiving ((k.grows strict).window ⟨hrx, hseq, hboundary, hrest⟩)
  · intro _ _ _ hstop
    cases hf.symm.trans hstop
  · intro _ hstop
    cases hf.symm.trans hstop

theorem inv_stopForwarder (i : s.Inv strict) :
    Inv strict { s with forwarder := .stopped } := by
  have k : Keeps s { s with forwarder := .stopped } := ⟨rfl, rfl, rfl, rfl⟩
  refine inv_push (m := []) i k rfl (List.append_nil _).symm ?_ ?_ ?_
  · intro c w hnone hup
    refine ⟨hnone, rfl, ?_⟩
    rw [List.append_nil]
    cases hup with
    | lagged d hfeed hh _ => exact .lagged d ((k.grows strict).feed hfeed) hh rfl
    | flowing d hfeed hs =>
      exact .flowing d ((k.grows strict).feed hfeed) ((k.grows strict).source hs.stop)
  · exact fun hp hr hh _ hw => .sending hp hr hh rfl hw
  · intro hp _ hw ha
    exact .asked hp rfl hw ((k.grows strict).asked rfl rfl ha)

theorem Upstream.keeps (k : Keeps s s') (hh : s'.handler = s.handler)
    (hf : s'.forwarder = s.forwarder) {c : Nat} {w : List ServerToClientMsg}
    (h : s.Upstream strict c w) : s'.Upstream strict c w := by
  cases h with
  | flowing d hfeed hs =>
    refine .flowing d ((k.grows strict).feed hfeed) ?_
    rw [hh, hf]
    exact (k.grows strict).source hs
  | lagged d hfeed hi hstop =>
    exact .lagged d ((k.grows strict).feed hfeed) (hh.trans hi) (hf.trans hstop)

end Connection

section Client

/-- The state after the client has read a message and become `c`. -/
abbrev taken (s : State) (c : Client) (rest : List ServerToClientMsg) : State :=
  { s with wire := rest, client := c }

theorem taken_keeps (s : State) (c : Client) (rest : List ServerToClientMsg) :
    Keeps s (s.taken c rest) := ⟨rfl, rfl, rfl, rfl⟩

theorem contiguous_append {t : Transcript} {stream bytes : List UInt8} {c seq : Nat}
    (ht : t.Contiguous stream (some c)) (hc : c ≤ seq) (hs : seq ≤ stream.length)
    (hbytes : bytes = stream.extract c seq) :
    (t.append bytes).Contiguous stream (some seq) := by
  obtain ⟨c', hc', hstart, hle, ht⟩ := ht
  obtain rfl := Option.some.inj hc'
  refine ⟨seq, rfl, Nat.le_trans hstart hc, hs, ?_⟩
  change t.bytes ++ bytes = _
  rw [ht, hbytes]
  exact extract_append_extract hstart hc

theorem delivered_of_same {c : Client} {rest : List ServerToClientMsg} (d : s.Delivered)
    (hl : c.lastSeenSeq = s.client.lastSeenSeq) (ha : c.attachment = s.client.attachment)
    (hr : c.resumed = s.client.resumed) : (s.taken c rest).Delivered := by
  constructor
  · change ∀ t, c.attachment = some t → t.Contiguous s.stream c.lastSeenSeq
    rw [ha, hl]
    exact d.attachment
  · change ∀ t, c.resumed = some t → t.Contiguous s.stream c.lastSeenSeq
    rw [hr, hl]
    exact d.resumed

/-- An attach reply opens a new attachment and continues the transcript. -/
theorem delivered_attach {bytes : List UInt8} {seq : Nat} {rest : List ServerToClientMsg}
    (d : s.Delivered) (a : s.Answers bytes seq) :
    (s.taken (s.client.attach s.replayed bytes seq) rest).Delivered := by
  cases hr : s.replayed with
  | false =>
    constructor
    · intro t ht
      cases ht
    · intro t ht
      cases ht
      exact ⟨seq, rfl, Nat.le_refl _, a.seq_le, by rw [extract_self]⟩
  | true =>
    obtain ⟨start, hstart, hle, hbytes⟩ := a.replay hr
    have fresh : Transcript.Contiguous ⟨start, bytes⟩ s.stream (some seq) :=
      ⟨seq, rfl, hle, a.seq_le, hbytes⟩
    have hmap : s.client.lastSeenSeq.map (fun start => (⟨start, bytes⟩ : Transcript)) =
        some ⟨start, bytes⟩ := by rw [hstart]; rfl
    constructor
    · intro t ht
      change s.client.lastSeenSeq.map (fun start => (⟨start, bytes⟩ : Transcript)) = some t at ht
      rw [hmap] at ht
      exact Option.some.inj ht ▸ fresh
    · intro t ht
      change (s.client.attach true bytes seq).resumed = some t at ht
      simp only [Client.attach, if_true] at ht
      cases hres : s.client.resumed with
      | none =>
        simp only [hres] at ht
        rw [hmap] at ht
        exact Option.some.inj ht ▸ fresh
      | some t₀ =>
        simp only [hres] at ht
        have hold := d.resumed t₀ hres
        rw [hstart] at hold
        exact Option.some.inj ht ▸ contiguous_append hold hle a.seq_le hbytes

theorem delivered_output {c seq : Nat} {bytes : List UInt8} {rest : List ServerToClientMsg}
    (d : s.Delivered) (hl : s.client.lastSeenSeq = some c) (hc : c ≤ seq)
    (hs : seq ≤ s.stream.length) (hbytes : bytes = s.stream.extract c seq) :
    (s.taken { s.client with
        lastSeenSeq := some seq
        attachment := s.client.attachment.map (·.append bytes)
        resumed := s.client.resumed.map (·.append bytes) } rest).Delivered := by
  have attachment := d.attachment
  have resumed := d.resumed
  rw [hl] at attachment resumed
  constructor
  · intro t ht
    obtain ⟨t₀, ht₀, rfl⟩ := Option.map_eq_some_iff.mp ht
    exact contiguous_append (attachment t₀ ht₀) hc hs hbytes
  · intro t ht
    obtain ⟨t₀, ht₀, rfl⟩ := Option.map_eq_some_iff.mp ht
    exact contiguous_append (resumed t₀ ht₀) hc hs hbytes

/-- Once the client is done only the outcome matters. -/
theorem conversation_finish {outcome : AttachOutcome} {rest : List ServerToClientMsg}
    (hfin : ∀ exitCode, outcome = .sessionExited exitCode →
      ∃ seq, s.client.lastSeenSeq = some seq ∧ s.Final strict seq) :
    (s.taken (s.client.finish outcome) rest).Conversation strict := by
  refine .ended outcome rfl fun exitCode ho => ?_
  obtain ⟨seq, hseq, hf⟩ := hfin exitCode ho
  exact ⟨seq, hseq, hf⟩

/-- The attached client takes one message that leads to a cursor. -/
theorem handleServerMessage_spec {c : Nat} {y : Cursor} {m : ServerToClientMsg}
    {rest : List ServerToClientMsg} (d : s.Delivered) (hp : s.client.phase = .attached)
    (hreq : s.request = none) (hl : s.client.lastSeenSeq = some c)
    (hm : Delivers s.session.id s.stream (s.Final strict) ⟨c, false⟩ m y)
    (hflow : y.lagged = false → s.Upstream strict y.seq rest)
    (hlag : y.lagged = true → s.handler = .idle ∧ s.forwarder = .stopped ∧ Errors rest) :
    (s.taken (s.client.handleServerMessage s.session.id m) rest).Delivered ∧
      (s.taken (s.client.handleServerMessage s.session.id m) rest).Conversation strict := by
  cases hm with
  | @output _ seq hc hs =>
    rw [Client.handleServerMessage, if_pos rfl]
    refine ⟨delivered_output d hl hc hs rfl, .streaming hp hreq seq rfl ?_⟩
    exact (hflow rfl).keeps (taken_keeps s _ rest) rfl rfl
  | agentStateChanged =>
    refine ⟨delivered_of_same d rfl rfl rfl, .streaming hp hreq c hl ?_⟩
    exact (hflow rfl).keeps (taken_keeps s _ rest) rfl rfl
  | sessionExited hf =>
    rw [Client.handleServerMessage, if_pos rfl]
    exact ⟨delivered_of_same d rfl rfl rfl, conversation_finish fun _ _ => ⟨c, hl, hf⟩⟩
  | lag =>
    obtain ⟨hh, hstop, herrors⟩ := hlag rfl
    rw [Client.handleServerMessage, if_pos rfl]
    exact ⟨delivered_of_same d rfl rfl rfl, .sending rfl hreq hh hstop herrors⟩
  | error =>
    exact ⟨delivered_of_same d rfl rfl rfl, conversation_finish fun _ ho => by cases ho⟩

theorem inv_read {m : ServerToClientMsg} {rest : List ServerToClientMsg}
    (i : s.Inv strict) (hw : s.wire = m :: rest) (h : s.read m rest = some s') :
    s'.Inv strict := by
  obtain ⟨r, d, conv⟩ := i
  -- A client that waits for a reply and gets an error is done.
  have refused (he : ∃ code message, m = .error code message)
      (hp : s.client.phase = .awaiting) : s'.Inv strict := by
    obtain ⟨code, message, rfl⟩ := he
    unfold read at h
    rw [hp] at h
    obtain rfl := Option.some.inj h
    have hd : (s.taken (s.client.finish (.daemonError message)) rest).Delivered :=
      delivered_of_same d rfl rfl rfl
    have hc : (s.taken (s.client.finish (.daemonError message)) rest).Conversation strict :=
      conversation_finish fun _ ho => by cases ho
    exact ⟨(taken_keeps s _ rest).recorded r, hd, hc⟩
  cases conv with
  | sending hp => unfold read at h; rw [hp] at h; cases h
  | ended outcome hp => unfold read at h; rw [hp] at h; cases h
  | asked hp hf hq ha => exact refused ((hw ▸ hq) m List.mem_cons_self) hp
  | answered hp hr errors more bytes seq hwire hq hans hup =>
    cases errors with
    | cons e errors =>
      rw [hw] at hwire
      obtain ⟨rfl, -⟩ := List.cons_eq_cons.mp hwire
      exact refused (hq m List.mem_cons_self) hp
    | nil =>
      rw [hw] at hwire
      obtain ⟨rfl, rfl⟩ := List.cons_eq_cons.mp hwire
      unfold read at h
      rw [hp] at h
      dsimp only at h
      rw [Client.handleAttachReply, if_pos rfl] at h
      obtain rfl := Option.some.inj h
      exact ⟨(taken_keeps s _ rest).recorded r, delivered_attach d hans,
        .streaming rfl hr seq rfl (hup.keeps (taken_keeps s _ rest) rfl rfl)⟩
  | streaming hp hr c hl hup =>
    unfold read at h
    rw [hp] at h
    obtain rfl := Option.some.inj h
    have key : ∃ y, Delivers s.session.id s.stream (s.Final strict) ⟨c, false⟩ m y ∧
        (y.lagged = false → s.Upstream strict y.seq rest) ∧
        (y.lagged = true → s.handler = .idle ∧ s.forwarder = .stopped ∧ Errors rest) := by
      rw [hw] at hup
      cases hup with
      | flowing e hfeed hs =>
        obtain ⟨⟨n, lagged⟩, hm, hrest⟩ := Trail.cons_iff.mp hfeed
        refine ⟨⟨n, lagged⟩, hm, fun hl => ?_, fun hl => ?_⟩ <;> cases hl
        · exact .flowing e hrest hs
        · exact absurd hrest not_caught_up_of_lagged
      | lagged e hfeed hh hf =>
        obtain ⟨⟨n, lagged⟩, hm, hrest⟩ := Trail.cons_iff.mp hfeed
        refine ⟨⟨n, lagged⟩, hm, fun hl => ?_, fun hl => ?_⟩ <;> cases hl
        · exact .lagged e hrest hh hf
        · exact ⟨hh, hf, errors_of_lagged hrest⟩
    obtain ⟨y, hm, hflow, hlag⟩ := key
    obtain ⟨hdelivered, hconv⟩ := handleServerMessage_spec d hp hr hl hm hflow hlag
    exact ⟨(taken_keeps s _ rest).recorded r, hdelivered, hconv⟩

theorem inv_sendAttach (size : ClientSize) (i : s.Inv strict)
    (hp : s.client.phase = .sending) :
    Inv strict
      { s with
        client := { s.client with phase := .awaiting }
        request := some (size, s.client.lastSeenSeq) } := by
  have k : Keeps s
      { s with
        client := { s.client with phase := .awaiting }
        request := some (size, s.client.lastSeenSeq) } := ⟨rfl, rfl, rfl, rfl⟩
  refine ⟨k.recorded i.recorded, ⟨i.delivered.attachment, i.delivered.resumed⟩, ?_⟩
  cases i.conversation with
  | sending _ hr hh hf hw =>
    refine .asked rfl hf hw ?_
    change Asked strict _ s.handler _
    rw [hh]
    exact .requested size
  | asked hp' => cases hp.symm.trans hp'
  | answered hp' => cases hp.symm.trans hp'
  | streaming hp' => cases hp.symm.trans hp'
  | ended _ hp' => cases hp.symm.trans hp'

theorem inv_leave (i : s.Inv strict) :
    Inv strict { s with client := s.client.finish .detached } := by
  have k : Keeps s { s with client := s.client.finish .detached } := ⟨rfl, rfl, rfl, rfl⟩
  exact ⟨k.recorded i.recorded, ⟨i.delivered.attachment, i.delivered.resumed⟩,
    .ended .detached rfl fun _ ho => by cases ho⟩

end Client

end State
end Shelly.Daemon.Attach
