import Shelly.Daemon.LiveSteps

namespace Shelly.Daemon

variable {T : Type*}

def PtyWriteSender.refuses (w : PtyWriteSender) : Bool :=
  w.closed || decide (ptyWriteQueueCapacity ≤ w.queue.length)

/-- What is put into the queue found room there. -/
theorem PtyWriteSender.open_of_trySend {w w' : PtyWriteSender} {bytes : List UInt8}
    (hbytes : bytes ≠ []) (h : w.trySend bytes = .ok w') : w.refuses = false := by
  rw [trySend, if_neg hbytes] at h
  split at h
  · cases h
  · rename_i hclosed
    split at h
    · rename_i hroom
      rw [refuses, Bool.or_eq_false_iff, decide_eq_false_iff_not, Nat.not_le]
      exact ⟨eq_false_of_ne_true hclosed, hroom⟩
    · cases h

/-- The place of a byte, if what it raises is to be answered. -/
def TermEvent.queried (size : ClientSize) (position : Nat) (events : List TermEvent) : List Nat :=
  if events.any fun event => (event.response size).any (· ≠ []) then [position] else []

/-- The places of the bytes that complete a query. -/
def Emulator.queried (E : Emulator T) (size : ClientSize) : Nat → List UInt8 → T → List Nat
  | _, [], _ => []
  | position, byte :: bytes, terminal =>
    TermEvent.queried size position (E.advance terminal byte).1 ++
      (E.advance terminal byte).2.elim [] (queried E size (position + 1) bytes)

/-- The query that is answered. -/
def Answer.query (a : Answer) : Nat × Nat := (a.position, a.index)

def Answer.Before (a b : Answer) : Prop :=
  a.position < b.position ∨ a.position = b.position ∧ a.index < b.index

theorem Answer.Before.ne {a b : Answer} (h : a.Before b) : a.query ≠ b.query := by
  intro heq
  obtain ⟨hposition, hindex⟩ := Prod.mk.inj heq
  rcases h with h | ⟨-, h⟩ <;> omega

/-- What reading adds to the history: replies, in the order of the stream, at places where there is
something to answer; a reply is marked if its place had been read before. -/
structure Replies (places : List Nat) (r r' : Responder) (new : List Answer) : Prop where
  answers : r'.answers = r.answers ++ new
  kept : ∀ n ∈ r.read, n ∈ r'.read
  sorted : new.Pairwise Answer.Before
  place : ∀ a ∈ new, a.position ∈ places
  again : ∀ a ∈ new, a.again = true → a.position ∈ r.read
  refused : r.sender.refuses = true → new = []
  closed : r.sender.refuses = true → r'.sender.refuses = true

theorem Replies.append {here places : List Nat} {position : Nat} {r r₁ r₂ : Responder}
    {first rest : List Answer} (h₁ : Replies here r r₁ first)
    (h₂ : Replies places (r₁.note position) r₂ rest) (hread : r₁.read = r.read)
    (hhere : ∀ n ∈ here, n = position) (hplaces : ∀ n ∈ places, position < n) :
    Replies (here ++ places) r r₂ (first ++ rest) where
  answers := by rw [h₂.answers, Responder.note, h₁.answers, List.append_assoc]
  kept n hn := h₂.kept n (List.mem_append_left _ (h₁.kept n hn))
  sorted := by
    refine List.pairwise_append.mpr ⟨h₁.sorted, h₂.sorted, fun a ha b hb => .inl ?_⟩
    rw [hhere _ (h₁.place a ha)]
    exact hplaces _ (h₂.place b hb)
  place a ha := by
    rcases List.mem_append.mp ha with ha | ha
    · exact List.mem_append_left _ (h₁.place a ha)
    · exact List.mem_append_right _ (h₂.place a ha)
  again a ha hagain := by
    rcases List.mem_append.mp ha with ha | ha
    · exact h₁.again a ha hagain
    · have hlater := hplaces _ (h₂.place a ha)
      rcases List.mem_append.mp (h₂.again a ha hagain) with hn | hn
      · exact hread ▸ hn
      · exact absurd (List.mem_singleton.mp hn) (Nat.ne_of_gt hlater)
  refused hrefuses := by
    rw [h₁.refused hrefuses, h₂.refused (h₁.closed hrefuses)]
    rfl
  closed hrefuses := h₂.closed (h₁.closed hrefuses)

namespace Responder

variable (r : Responder) (size : ClientSize) (position index : Nat) (events : List TermEvent)

theorem respond_cases (bytes : List UInt8) :
    r.respond position index bytes = r ∨
      bytes ≠ [] ∧ r.sender.refuses = false ∧
        (r.respond position index bytes).answers =
          r.answers ++ [⟨position, index, decide (position ∈ r.read)⟩] ∧
        (r.respond position index bytes).read = r.read := by
  unfold respond
  split
  · rename_i sender hsend
    split
    · exact .inl rfl
    · rename_i hbytes
      exact .inr ⟨hbytes, PtyWriteSender.open_of_trySend hbytes hsend, rfl, rfl⟩
  · exact .inl rfl

/-- What one byte raises is answered in its order. -/
private theorem sendEvents_spec :
    ∃ new, Replies [position] r (r.sendEvents size position index events) new ∧
      (r.sendEvents size position index events).read = r.read ∧
      (∀ a ∈ new, index ≤ a.index) ∧
      ((events.any fun event => (event.response size).any (· ≠ [])) = false → new = []) := by
  induction events generalizing r index with
  | nil =>
    exact ⟨[], ⟨(List.append_nil _).symm, fun _ => id, .nil, by simp, by simp, fun _ => rfl, id⟩,
      rfl, by simp, fun _ => rfl⟩
  | cons event events ih =>
    rw [sendEvents]
    set r₁ := (event.response size).elim r (r.respond position index) with hr₁
    obtain ⟨new, hnew, hread, hindex, hnone⟩ := ih r₁ (index + 1)
    have hcases : r₁ = r ∨ (event.response size).any (· ≠ []) = true ∧ r.sender.refuses = false ∧
        r₁.answers = r.answers ++ [⟨position, index, decide (position ∈ r.read)⟩] ∧
        r₁.read = r.read := by
      cases hresponse : event.response size with
      | none =>
        rw [hresponse] at hr₁
        exact .inl hr₁
      | some bytes =>
        rw [hresponse] at hr₁
        rcases respond_cases r position index bytes with hsame | ⟨hbytes, hrest⟩
        · exact .inl (hr₁.trans hsame)
        · rw [hr₁]
          exact .inr ⟨by simpa using hbytes, hrest⟩
    rcases hcases with hsame | ⟨hsome, hopen, hanswers, hread₁⟩
    · rw [hsame] at hnew hread ⊢
      refine ⟨new, hnew, hread, fun a ha => Nat.le_of_succ_le (hindex a ha), fun h => hnone ?_⟩
      rw [List.any_cons, Bool.or_eq_false_iff] at h
      exact h.2
    · refine ⟨⟨position, index, decide (position ∈ r.read)⟩ :: new, ?_, hread.trans hread₁, ?_, ?_⟩
      · refine ⟨?_, fun n hn => hnew.kept n (hread₁ ▸ hn), ?_, ?_, ?_, ?_, ?_⟩
        · rw [hnew.answers, hanswers, List.append_assoc]
          rfl
        · refine List.pairwise_cons.mpr ⟨fun a ha => .inr ⟨?_, hindex a ha⟩, hnew.sorted⟩
          exact (List.mem_singleton.mp (hnew.place a ha)).symm
        · exact List.forall_mem_cons.mpr ⟨List.mem_singleton_self _, hnew.place⟩
        · refine List.forall_mem_cons.mpr ⟨of_decide_eq_true, ?_⟩
          rw [← hread₁]
          exact hnew.again
        · rw [hopen]
          exact fun h => nomatch h
        · rw [hopen]
          exact fun h => nomatch h
      · exact List.forall_mem_cons.mpr
          ⟨Nat.le_refl _, fun a ha => Nat.le_of_succ_le (hindex a ha)⟩
      · intro h
        rw [List.any_cons, hsome] at h
        cases h

theorem sendEvents_replies :
    ∃ new, Replies (TermEvent.queried size position events) r
        (r.sendEvents size position index events) new ∧
      (r.sendEvents size position index events).read = r.read := by
  obtain ⟨new, hnew, hread, -, hnone⟩ := sendEvents_spec r size position index events
  refine ⟨new, { hnew with place := fun a ha => ?_ }, hread⟩
  unfold TermEvent.queried
  split
  · exact hnew.place a ha
  · rename_i hany
    rw [hnone (eq_false_of_ne_true hany)] at ha
    cases ha

end Responder

theorem TermEvent.eq_of_queried {size : ClientSize} {position n : Nat} {events : List TermEvent}
    (h : n ∈ queried size position events) : n = position := by
  unfold queried at h
  split at h
  · exact List.mem_singleton.mp h
  · cases h

theorem Emulator.le_of_queried {E : Emulator T} {size : ClientSize} {position n : Nat}
    {bytes : List UInt8} {terminal : T} (h : n ∈ E.queried size position bytes terminal) :
    position ≤ n := by
  induction bytes generalizing position terminal with
  | nil => cases h
  | cons byte bytes ih =>
    rcases List.mem_append.mp h with h | h
    · exact Nat.le_of_eq (TermEvent.eq_of_queried h).symm
    · cases hnext : (E.advance terminal byte).2 with
      | none => rw [hnext] at h; cases h
      | some terminal' => rw [hnext] at h; exact Nat.le_of_succ_le (ih h)

/-- What a model reads is answered in the order of the stream. -/
theorem TerminalModel.advanceBytes_replies (E : Emulator T) (position : Nat) (bytes : List UInt8)
    (m : TerminalModel T) (r : Responder) :
    ∃ new, Replies (E.queried m.size position bytes m.terminal) r
        (m.advanceBytes E position bytes r).1 new ∧
      (∀ a ∈ new, a.position ∈ (m.advanceBytes E position bytes r).1.read) ∧
      ∀ n ∈ (m.advanceBytes E position bytes r).1.read,
        n ∈ r.read ∨ position ≤ n ∧ n < position + bytes.length := by
  induction bytes generalizing position m r with
  | nil =>
    exact ⟨[], ⟨(List.append_nil _).symm, fun _ => id, .nil, by simp, by simp, fun _ => rfl, id⟩,
      by simp, fun n hn => .inl hn⟩
  | cons byte bytes ih =>
    obtain ⟨first, hfirst, hread⟩ :=
      r.sendEvents_replies m.size position 0 (E.advance m.terminal byte).1
    set r₁ := r.sendEvents m.size position 0 (E.advance m.terminal byte).1 with hr₁
    have hnote : ∀ n, n ∈ (r₁.note position).read →
        n ∈ r.read ∨ position ≤ n ∧ n < position + (byte :: bytes).length := by
      intro n hn
      rcases List.mem_append.mp hn with hn | hn
      · exact .inl (hread ▸ hn)
      · rw [List.mem_singleton.mp hn, List.length_cons]
        omega
    have hplaced : ∀ a ∈ first, a.position ∈ (r₁.note position).read := fun a ha =>
      List.mem_append_right _
        (List.mem_singleton.mpr (TermEvent.eq_of_queried (hfirst.place a ha)))
    simp only [advanceBytes, Emulator.queried]
    cases hnext : (E.advance m.terminal byte).2 with
    | none =>
      refine ⟨first, { hfirst with
        kept := fun n hn => List.mem_append_left _ (hfirst.kept n hn)
        place := fun a ha => List.mem_append_left _ (hfirst.place a ha) }, hplaced, hnote⟩
    | some terminal =>
      obtain ⟨rest, hrest, hplacedRest, hbound⟩ := ih (position + 1)
        { m with
          terminal
          title := (E.advance m.terminal byte).1.foldl
            (fun title event => event.setTitle title) m.title
          ingested := m.ingested ++ [byte]
          reached := position + 1 } (r₁.note position)
      refine ⟨first ++ rest, hfirst.append hrest hread (fun _ => TermEvent.eq_of_queried)
        (fun _ hn => Emulator.le_of_queried hn), fun a ha => ?_, fun n hn => ?_⟩
      · rcases List.mem_append.mp ha with ha | ha
        · exact hrest.kept _ (hplaced a ha)
        · exact hplacedRest a ha
      · rcases hbound n hn with hn | ⟨hge, hlt⟩
        · exact hnote n hn
        · rw [List.length_cons]
          omega

/-- Every query has at most one reply, and none for a byte that had been read before. -/
structure Responder.Once (r : Responder) : Prop where
  nodup : (r.answers.map Answer.query).Nodup
  first : ∀ a ∈ r.answers, a.again = false
  read : ∀ a ∈ r.answers, a.position ∈ r.read

theorem Responder.Once.replied {places : List Nat} {r r' : Responder} {new : List Answer}
    (h : r.Once) (hr : Replies places r r' new) (hread : ∀ a ∈ new, a.position ∈ r'.read)
    (hnew : r.sender.refuses = true ∨ ∀ n ∈ places, n ∉ r.read) : r'.Once := by
  have hunread : ∀ a ∈ new, a.position ∉ r.read := by
    intro a ha
    rcases hnew with hrefuses | hplaces
    · rw [hr.refused hrefuses] at ha
      cases ha
    · exact hplaces _ (hr.place a ha)
  refine ⟨?_, fun a ha => ?_, fun a ha => ?_⟩
  · rw [hr.answers, List.map_append, List.nodup_append]
    refine ⟨h.nodup, ?_, ?_⟩
    · exact List.pairwise_map.mpr (hr.sorted.imp Answer.Before.ne)
    · intro q hq q' hq' heq
      obtain ⟨a, ha, rfl⟩ := List.mem_map.mp hq
      obtain ⟨b, hb, rfl⟩ := List.mem_map.mp hq'
      refine hunread b hb ?_
      have hsame : a.position = b.position := congrArg Prod.fst heq
      rw [← hsame]
      exact h.read a ha
  · rw [hr.answers] at ha
    rcases List.mem_append.mp ha with ha | ha
    · exact h.first a ha
    · exact eq_false_of_ne_true fun hagain => hunread a ha (hr.again a ha hagain)
  · rw [hr.answers] at ha
    rcases List.mem_append.mp ha with ha | ha
    · exact hr.kept _ (h.read a ha)
    · exact hread a ha

/-- The buffer holds nothing that lies beyond the end of the stream. -/
def PtyRingBuffer.Within (length : Nat) (r : PtyRingBuffer) : Prop :=
  r.nextSeq ≤ length ∧ r.startSeq + r.data.length ≤ r.nextSeq

theorem PtyRingBuffer.Within.pushed {length : Nat} {r : PtyRingBuffer} (h : r.Within length)
    (bytes : List UInt8) : (r.push bytes).2.Within (length + bytes.length) := by
  obtain ⟨hnext, hdata⟩ := h
  unfold push checkedAdd
  split
  · exact ⟨Nat.le_trans hnext (Nat.le_add_right _ _), hdata⟩
  · by_cases hroom : r.nextSeq + bytes.length ≤ u64Max
    · rw [if_pos hroom]
      refine ⟨Nat.add_le_add_right hnext _, ?_⟩
      dsimp only
      rw [List.length_append, List.length_drop]
      split
      · rw [List.length_drop]
        omega
      · omega
    · rw [if_neg hroom]
      refine ⟨?_, Nat.le_refl _⟩
      dsimp only
      omega

namespace Live

variable {E : Emulator T} {infer : StateInfer} {c : Choice} {s s' : LiveSession T}

structure Answered (s : LiveSession T) : Prop where
  once : s.responder.Once
  reached : ∀ n ∈ s.responder.read, n < s.stream.length
  ring : s.ring.Within s.stream.length
  rebuilding : ∀ bytes seq scrollback, s.io = .rebuilding bytes seq scrollback →
    scrollback.1 + scrollback.2.length ≤ s.stream.length

/-- A scrollback in the hands of a task ends within the stream. -/
def ScrollbackOk (s : LiveSession T) (_ : Nat) (x : Task) : Prop :=
  ∀ scrollback, x.scrollback = some scrollback →
    scrollback.1 + scrollback.2.length ≤ s.stream.length

/-- A rebuild from this scrollback queues no reply for a byte that was read before: there is none to
give, or the queue takes none. -/
def harmless (E : Emulator T) (s : LiveSession T) (scrollback : Nat × List UInt8) : Bool :=
  s.responder.sender.refuses ||
    (E.queried s.terminal.size scrollback.1 scrollback.2 (E.new s.terminal.size)).all
      fun n => decide (n ∉ s.responder.read)

/-- The projection is rebuilt only where that is harmless. -/
def unqueried (E : Emulator T) (p : Pool (LiveSession T) Task) : Move Task Choice Event → Bool
  | .advance i _ => (p.task i).all fun x => x.scrollback.all (harmless E p.shared)
  | .environment (.proceed _) =>
    match p.shared.io with
    | .rebuilding _ _ scrollback => harmless E p.shared scrollback
    | _ => true
  | _ => true

/-- A task reads the scrollback that it is about to use. -/
theorem advance_scrollback {x x' : Task} {scrollback : Nat × List UInt8}
    (h : advance E c x s = some (s', x')) (hx : x'.scrollback = some scrollback) :
    scrollback = s.ring.snapshot := by
  cases x with
  | input | idle | hook | flush =>
    obtain ⟨r, -, hr⟩ := Option.map_eq_some_iff.mp h
    obtain ⟨-, rfl⟩ := Prod.mk.inj hr
    cases hx
  | resize size pc =>
    obtain ⟨⟨t, pc'⟩, hs, hr⟩ := Option.map_eq_some_iff.mp h
    obtain ⟨-, rfl⟩ := Prod.mk.inj hr
    cases pc with
    | capturing => cases hs; cases hx; rfl
    | asking =>
      cases hs
      cases hok : c.ok <;> rw [hok] at hx <;> cases hx
    | resizing =>
      obtain ⟨-, hpc⟩ := Prod.mk.inj (Option.some.inj hs)
      rcases ite_eq_or_eq ((s.terminal.resize E size).1.isSome = true) ResizePc.capturing
        (.returned true) with heq | heq <;> cases hpc.symm.trans heq <;> cases hx
    | rebuilding => cases hs; cases hx
    | returned => cases hs
  | attach lastSeenSeq pc =>
    obtain ⟨⟨t, pc'⟩, hs, hr⟩ := Option.map_eq_some_iff.mp h
    obtain ⟨-, rfl⟩ := Prod.mk.inj hr
    cases pc with
    | rendering =>
      simp only [attachStep] at hs
      split at hs
      · cases hs; cases hx
      · split at hs
        · split at hs <;> cases hs
          · cases hx; rfl
          · cases hx
        · cases hs; cases hx
    | rebuilding | rerendering => cases hs; cases hx
    | returned => cases hs

namespace Answered

theorem snapshot (h : Answered s) :
    s.ring.snapshot.1 + s.ring.snapshot.2.length ≤ s.stream.length :=
  Nat.le_trans h.ring.2 h.ring.1

/-- Nothing new lies before the end of the stream, so a chunk is read for the first time. -/
theorem recorded (h : Answered s) (bytes : List UInt8) : Answered (s.recordOutput E bytes) := by
  have hring : (s.recordOutput E bytes).ring.Within (s.recordOutput E bytes).stream.length := by
    change (s.ring.push bytes).2.Within (s.stream ++ bytes).length
    rw [List.length_append]
    exact h.ring.pushed bytes
  have hkept : s.responder.Once ∧ ∀ n ∈ s.responder.read, n < (s.stream ++ bytes).length := by
    refine ⟨h.once, fun n hn => ?_⟩
    rw [List.length_append]
    exact Nat.lt_of_lt_of_le (h.reached n hn) (Nat.le_add_right _ _)
  have hresponder : (s.recordOutput E bytes).responder.Once ∧
      ∀ n ∈ (s.recordOutput E bytes).responder.read, n < (s.stream ++ bytes).length := by
    change (s.terminal.ingest E s.stream.length bytes s.responder).2.2.Once ∧
      ∀ n ∈ (s.terminal.ingest E s.stream.length bytes s.responder).2.2.read, _
    unfold TerminalProjection.ingest
    cases hmodel : s.terminal.model with
    | none => exact hkept
    | some m =>
      obtain ⟨new, hr, hread, hbound⟩ :=
        m.advanceBytes_replies E s.stream.length bytes s.responder
      have honce := h.once.replied hr hread (.inr fun n hn hold =>
        absurd (h.reached n hold) (Nat.not_lt_of_le (Emulator.le_of_queried hn)))
      have hreached : ∀ n ∈ (m.advanceBytes E s.stream.length bytes s.responder).1.read,
          n < (s.stream ++ bytes).length := by
        intro n hn
        rcases hbound n hn with hn | ⟨-, hlt⟩
        · exact hkept.2 n hn
        · rwa [List.length_append]
      dsimp only
      split
      · rename_i hm
        rw [hm] at honce hreached
        exact ⟨honce, hreached⟩
      · rename_i hm
        rw [hm] at honce hreached
        exact ⟨honce, hreached⟩
  exact ⟨hresponder.1, hresponder.2, hring, fun _ _ _ hio => nomatch hio⟩

theorem rebuilt (h : Answered s) {scrollback : Nat × List UInt8}
    (hbound : scrollback.1 + scrollback.2.length ≤ s.stream.length)
    (hharmless : harmless E s scrollback = true) :
    (s.rebuildTerminalProjection E scrollback).responder.Once ∧
      ∀ n ∈ (s.rebuildTerminalProjection E scrollback).responder.read, n < s.stream.length := by
  obtain ⟨new, hr, hread, hplace⟩ :=
    (TerminalModel.new E s.terminal.size scrollback.1).advanceBytes_replies E scrollback.1
      scrollback.2 s.responder
  have hnew : s.responder.sender.refuses = true ∨
      ∀ n ∈ E.queried s.terminal.size scrollback.1 scrollback.2 (E.new s.terminal.size),
        n ∉ s.responder.read := by
    rcases Bool.or_eq_true_iff.mp hharmless with hrefuses | hall
    · exact .inl hrefuses
    · exact .inr fun n hn => of_decide_eq_true (List.all_eq_true.mp hall n hn)
  have honce := h.once.replied hr hread hnew
  have hreached : ∀ n ∈ ((TerminalModel.new E s.terminal.size scrollback.1).advanceBytes E
      scrollback.1 scrollback.2 s.responder).1.read, n < s.stream.length := by
    intro n hn
    rcases hplace n hn with hn | ⟨-, hlt⟩
    · exact h.reached n hn
    · exact Nat.lt_of_lt_of_le hlt hbound
  change (s.terminal.rebuild E scrollback.1 scrollback.2 s.responder).2.2.Once ∧
    ∀ n ∈ (s.terminal.rebuild E scrollback.1 scrollback.2 s.responder).2.2.read, _
  unfold TerminalProjection.rebuild
  split
  · rename_i hm
    rw [hm] at honce hreached
    exact ⟨honce, hreached⟩
  · rename_i hm
    rw [hm] at honce hreached
    exact ⟨honce, hreached⟩

theorem of_kept (h : Answered s) (hring : s'.ring = s.ring) (hstream : s'.stream = s.stream)
    (hanswers : s'.responder.answers = s.responder.answers)
    (hread : s'.responder.read = s.responder.read)
    (hio : ∀ bytes seq scrollback, s'.io = .rebuilding bytes seq scrollback →
      scrollback.1 + scrollback.2.length ≤ s.stream.length) : Answered s' where
  once := by
    obtain ⟨hnodup, hfirst, hplace⟩ := h.once
    exact ⟨hanswers ▸ hnodup, hanswers ▸ hfirst, by rw [hanswers, hread]; exact hplace⟩
  reached := by rw [hread, hstream]; exact h.reached
  ring := by rw [hring, hstream]; exact h.ring
  rebuilding := by rw [hstream]; exact hio

/-- One step of the I/O thread. -/
theorem io (h : Answered s) (hs : ioStep E infer c s = some s')
    (hharmless : ∀ bytes seq scrollback, s.io = .rebuilding bytes seq scrollback →
      harmless E s scrollback = true) : Answered s' := by
  obtain ⟨hring, hstream⟩ := ioStep_kept hs
  rcases ioStep_model hs with ⟨bytes, seq, scrollback, hio, rfl⟩ | ⟨-, hanswers, hread, hio⟩
  · obtain ⟨honce, hreached⟩ :=
      h.rebuilt (h.rebuilding bytes seq scrollback hio) (hharmless bytes seq scrollback hio)
    exact ⟨honce, hreached, h.ring, fun _ _ _ hr => nomatch hr⟩
  · refine h.of_kept hring hstream hanswers hread fun bytes seq scrollback hr => ?_
    rw [hio bytes seq scrollback hr, hring]
    exact h.snapshot

/-- One step of a task. -/
theorem advance {x x' : Task} (h : Answered s) (hs : advance E c x s = some (s', x'))
    (hx : ScrollbackOk s 0 x)
    (hharmless : ∀ scrollback, x.scrollback = some scrollback → harmless E s scrollback = true) :
    Answered s' := by
  have heffect := advance_effect hs
  obtain ⟨hring, hstream, -, hio⟩ := heffect.kept
  have hrebuilding : ∀ bytes seq scrollback, s'.io = .rebuilding bytes seq scrollback →
      scrollback.1 + scrollback.2.length ≤ s.stream.length := by
    rw [hio]
    exact h.rebuilding
  cases heffect with
  | setState now state line hx =>
    exact h.of_kept hring hstream (by rw [LiveSession.setState_responder])
      (by rw [LiveSession.setState_responder]) hrebuilding
  | same | enqueue | line | dirty | store | cache | resize =>
    exact h.of_kept hring hstream rfl rfl hrebuilding
  | rebuild scrollback hsome =>
    obtain ⟨honce, hreached⟩ := h.rebuilt (hx scrollback hsome) (hharmless scrollback hsome)
    exact ⟨honce, hreached, h.ring, h.rebuilding⟩

/-- One step of the I/O thread, of reading or of a kill: the stream only grows. -/
theorem event {e : Event} {keep : Bool} (h : Answered s) (hs : event E infer e s = some (s', keep))
    (hharmless : ∀ c bytes seq scrollback, e = .proceed c →
      s.io = .rebuilding bytes seq scrollback → harmless E s scrollback = true) :
    Answered s' ∧ s.stream.length ≤ s'.stream.length := by
  cases e with
  | read bytes =>
    simp only [Live.event, Option.ite_none_right_eq_some, Option.some.injEq, Prod.mk.injEq] at hs
    obtain ⟨-, rfl, -⟩ := hs
    refine ⟨h.recorded bytes, ?_⟩
    change _ ≤ (s.stream ++ bytes).length
    rw [List.length_append]
    exact Nat.le_add_right _ _
  | drain =>
    simp only [Live.event, Option.ite_none_right_eq_some, Option.some.injEq, Prod.mk.injEq] at hs
    obtain ⟨-, rfl, -⟩ := hs
    exact ⟨h.of_kept rfl rfl rfl rfl h.rebuilding, Nat.le_refl _⟩
  | exit exitCode =>
    simp only [Live.event, Option.ite_none_right_eq_some, Option.some.injEq, Prod.mk.injEq] at hs
    obtain ⟨-, rfl, -⟩ := hs
    exact ⟨⟨h.once, h.reached, h.ring, fun _ _ _ hr => nomatch hr⟩, Nat.le_refl _⟩
  | proceed c =>
    obtain ⟨t, hio, hr⟩ := Option.map_eq_some_iff.mp hs
    obtain ⟨rfl, -⟩ := Prod.mk.inj hr
    refine ⟨h.io hio fun bytes seq scrollback => hharmless c bytes seq scrollback rfl, ?_⟩
    exact Nat.le_of_eq (congrArg _ (ioStep_kept hio).2).symm
  | kill =>
    cases hs
    exact ⟨⟨h.once, h.reached, h.ring, h.rebuilding⟩, Nat.le_refl _⟩

end Answered

theorem answered_noninterference :
    (tasking E infer).Noninterference (fun p a => unqueried E p a = true) Answered ScrollbackOk where
  init s hs := by
    obtain ⟨id, name, createdAt, commandKind, size, store, push, rfl⟩ := hs
    refine ⟨⟨List.nodup_nil, ?_, ?_⟩, ?_, ⟨Nat.le_refl _, Nat.le_refl _⟩, ?_⟩
    · exact fun _ ha => nomatch ha
    · exact fun _ ha => nomatch ha
    · exact fun _ hn => nomatch hn
    · exact fun _ _ _ hio => nomatch hio
  fresh p i x _ _ hx := by
    intro scrollback hsome
    cases x with
    | attach lastSeenSeq pc =>
      cases pc with
      | rebuilding => cases hx
      | rendering | rerendering | returned => cases hsome
    | resize size pc =>
      cases pc with
      | rebuilding => cases hx
      | asking | resizing | capturing | returned => cases hsome
    | input | idle | hook | flush => cases hsome
  own p i c x s' x' hc h ht hok hs := by
    have hharmless : ∀ scrollback, x.scrollback = some scrollback →
        harmless E p.shared scrollback = true := by
      intro scrollback hsome
      simp only [unqueried, ht, Option.all_some, hsome] at hc
      exact hc
    refine ⟨h.advance hs hok hharmless, fun scrollback hsome => ?_⟩
    rw [(advance_effect hs).kept.2.1, advance_scrollback hs hsome]
    exact h.snapshot
  others p i c x s' x' _ _ _ _ hs j y _ _ hok := by
    intro scrollback hsome
    rw [(advance_effect hs).kept.2.1]
    exact hok scrollback hsome
  environment p e s' keep hc h hs := by
    obtain ⟨h', hgrown⟩ := h.event hs <| by
      rintro c bytes seq scrollback rfl hio
      simp only [unqueried, hio] at hc
      exact hc
    exact ⟨h', fun _ _ _ _ hok scrollback hsome => Nat.le_trans (hok scrollback hsome) hgrown⟩

/-- No query has two replies in the queue's history, and no reply was queued for a byte that a
terminal model had read before. -/
theorem answered_once {p : Pool (LiveSession T) Task}
    (h : (tasking E infer).machine.ReachableWhen (fun p a => unqueried E p a = true) p) :
    (p.shared.responder.answers.map Answer.query).Nodup ∧
      ∀ a ∈ p.shared.responder.answers, a.again = false := by
  obtain ⟨hanswered, -⟩ := answered_noninterference.invariant h
  exact ⟨hanswered.once.nodup, hanswered.once.first⟩

/-- A resize panics and rebuilds the projection before the child asks for anything. -/
theorem answered_once_run :
    ∃ p : Pool (LiveSession Nat) Task, p.shared.responder.answers.length = 1 ∧
      p.task 0 = some (.resize ⟨1, 24⟩ (.returned true)) ∧
      (p.shared.responder.answers.map Answer.query).Nodup ∧
      ∀ a ∈ p.shared.responder.answers, a.again = false := by
  obtain ⟨p, hr, hcount, hresized⟩ :=
    (tasking queryTerminal noInfer).machine.exists_reachable_of_exec
      (fun p a => unqueried queryTerminal p a = true)
      (fun p => p.shared.responder.answers.length = 1 ∧
        p.task 0 = some (.resize ⟨1, 24⟩ (.returned true)))
      (List.flatten [[.environment (.read [97])],
        List.replicate 6 (.environment (.proceed ⟨0, true⟩)),
        [.spawn 0 (.resize ⟨1, 24⟩ .asking)], Move.repeated 4 0 ⟨0, true⟩,
        [.environment (.read cursorQuery)]])
      (opened_init queryTerminal noInfer .unknown) (by decide)
  exact ⟨p, hcount, hresized, answered_once hr⟩

/-- The rebuild after a resize that panics reads the child's query once more and answers it once
more. -/
theorem rebuild_answers_again :
    ¬ ∀ p : Pool (LiveSession Nat) Task, (tasking queryTerminal noInfer).machine.Reachable p →
      (p.shared.responder.answers.map Answer.query).Nodup ∧
        ∀ a ∈ p.shared.responder.answers, a.again = false := by
  intro hall
  obtain ⟨p, hr, hanswers⟩ :=
    (tasking queryTerminal noInfer).machine.exists_reachable_of_exec Machine.Any
      (fun p => p.shared.responder.answers = [⟨3, 0, false⟩, ⟨3, 0, true⟩])
      (List.flatten [[.environment (.read cursorQuery), .spawn 0 (.resize ⟨1, 24⟩ .asking)],
        Move.repeated 4 0 ⟨0, true⟩])
      (opened_init queryTerminal noInfer .unknown) (by decide)
  obtain ⟨hnodup, -⟩ := hall p hr
  rw [hanswers] at hnodup
  exact absurd hnodup (by decide)

end Live
end Shelly.Daemon
