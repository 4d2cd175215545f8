import Shelly.Daemon.LiveSteps

namespace Shelly.Daemon

variable {T : Type*} {E : Emulator T}

/-- A model that has come to the end of the bytes has read them all. -/
theorem TerminalModel.advanceBytes_ingested {position : Nat} {bytes : List UInt8}
    {m m' : TerminalModel T} {r r' : Responder} (hm : m.reached = position)
    (h : m.advanceBytes E position bytes r = (r', some m')) :
    m'.ingested = m.ingested ++ bytes ∧ m'.reached = position + bytes.length := by
  induction bytes generalizing position m r with
  | nil =>
    cases h
    exact ⟨(List.append_nil _).symm, hm⟩
  | cons byte bytes ih =>
    simp only [advanceBytes] at h
    split at h
    · cases h
    · obtain ⟨hingested, hreached⟩ := ih (by rfl) h
      refine ⟨?_, ?_⟩
      · rw [hingested]
        exact List.append_assoc _ _ _
      · rw [hreached, List.length_cons]
        omega

theorem TerminalProjection.rebuild_ingested {p : TerminalProjection T} {start : Nat}
    {scrollback : List UInt8} {r : Responder} {m : TerminalModel T}
    (h : (p.rebuild E start scrollback r).2.1.model = some m) :
    m.ingested = scrollback ∧ m.reached = start + scrollback.length := by
  unfold rebuild at h
  split at h
  · rename_i hr
    cases h
    exact TerminalModel.advanceBytes_ingested (by rfl) hr
  · cases h

theorem TerminalProjection.ingest_ingested {p : TerminalProjection T} {position : Nat}
    {bytes : List UInt8} {r : Responder} {m' : TerminalModel T}
    (hp : ∀ m, p.model = some m → m.reached = position)
    (h : (p.ingest E position bytes r).2.1.model = some m') :
    ∃ m, p.model = some m ∧ m'.ingested = m.ingested ++ bytes ∧
      m'.reached = position + bytes.length := by
  unfold ingest at h
  split at h
  · rename_i hnone
    rw [hnone] at h
    cases h
  · rename_i m hm
    split at h
    · cases h
    · rename_i hr
      cases h
      exact ⟨m, hm, TerminalModel.advanceBytes_ingested (hp m hm) hr⟩

theorem TerminalProjection.resize_ingested {p : TerminalProjection T} {size : ClientSize}
    {m' : TerminalModel T} (h : (p.resize E size).2.model = some m') :
    ∃ m, p.model = some m ∧ m'.ingested = m.ingested ∧ m'.reached = m.reached := by
  unfold resize at h
  split at h
  · rename_i hnone
    cases hnone.symm.trans h
  · rename_i m hm
    split at h
    · rename_i hresize
      cases h
      obtain ⟨terminal, -, rfl⟩ := Option.map_eq_some_iff.mp hresize
      exact ⟨m, hm, rfl, rfl⟩
    · cases h

namespace Live

variable {infer : StateInfer} {c : Choice} {s s' : LiveSession T}

/-- The projection has read the end of the stream, up to its end. -/
def Caught (stream : List UInt8) (m : TerminalModel T) : Prop :=
  (∃ k, m.ingested = stream.drop k) ∧ m.reached = stream.length

structure InStep (s : LiveSession T) : Prop where
  mirrors : s.ring.Mirrors s.stream
  model : ∀ m, s.terminal.model = some m → Caught s.stream m
  rebuilding : ∀ bytes seq scrollback, s.io = .rebuilding bytes seq scrollback →
    scrollback = s.ring.snapshot

/-- The bytes are a part of the stream that ends there. -/
def EndsAt (stream : List UInt8) (endSeq : Nat) (bytes : List UInt8) : Prop :=
  endSeq ≤ stream.length ∧ ∃ k, bytes = stream.extract k endSeq

/-- What a cold attach has in hand ends where it says. -/
def AttachOk (stream : List UInt8) : AttachPc → Prop
  | .rendering => True
  | .rebuilding endSeq scrollback => EndsAt stream endSeq scrollback.2
  | .rerendering endSeq scrollback => EndsAt stream endSeq scrollback.2
  | .returned result => result.cold = true → EndsAt stream result.endSeq result.ingested

def TaskOk (s : LiveSession T) (_ : Nat) : Task → Prop
  | .attach _ pc => AttachOk s.stream pc
  | _ => True

/-- A task that is about to render once more what it has rebuilt: the end it has noted. -/
def Task.rerendering : Task → Option Nat
  | .attach _ (.rerendering endSeq _) => some endSeq
  | _ => none

/-- A task rebuilds the projection, and renders it again, only while the ring is as it was when the
task read it; and the stream stays within its counter. -/
def undelayed (p : Pool (LiveSession T) Task) : Move Task Choice Event → Bool
  | .advance i _ =>
    (p.task i).all fun x =>
      (x.scrollback.all fun scrollback => scrollback == p.shared.ring.snapshot) &&
        x.rerendering.all fun endSeq => endSeq == p.shared.ring.endSeq
  | .environment (.read bytes) => decide (p.shared.stream.length + bytes.length ≤ u64Max)
  | _ => true

theorem EndsAt.mono {stream more bytes : List UInt8} {endSeq : Nat} (h : EndsAt stream endSeq bytes) :
    EndsAt (stream ++ more) endSeq bytes := by
  obtain ⟨hle, k, hk⟩ := h
  refine ⟨by rw [List.length_append]; omega, k, ?_⟩
  rw [extract_append_left hle]
  exact hk

theorem AttachOk.mono {stream more : List UInt8} {pc : AttachPc} (h : AttachOk stream pc) :
    AttachOk (stream ++ more) pc := by
  cases pc with
  | rendering => trivial
  | rebuilding | rerendering => exact EndsAt.mono h
  | returned result => exact fun hcold => (h hcold).mono

namespace InStep

theorem snapshot_endsAt (h : InStep s) : EndsAt s.stream s.stream.length s.ring.snapshot.2 :=
  ⟨Nat.le_refl _, s.ring.startSeq, by rw [extract_length_eq_drop]; exact h.mirrors.data⟩

/-- What is rebuilt from the present ring is up to date. -/
theorem rebuilt (h : InStep s) {m : TerminalModel T}
    (hm : (s.rebuildTerminalProjection E s.ring.snapshot).terminal.model = some m) :
    Caught s.stream m := by
  obtain ⟨hingested, hreached⟩ := TerminalProjection.rebuild_ingested hm
  have hdata : s.ring.snapshot.2 = s.stream.drop s.ring.startSeq := h.mirrors.data
  refine ⟨⟨s.ring.startSeq, hingested.trans hdata⟩, ?_⟩
  rw [hreached, hdata, List.length_drop]
  exact Nat.add_sub_cancel' h.mirrors.startSeq

theorem recorded (h : InStep s) (bytes : List UInt8)
    (hmax : s.stream.length + bytes.length ≤ u64Max) : InStep (s.recordOutput E bytes) where
  mirrors := h.mirrors.pushed bytes (by rwa [List.length_append])
  model m hm := by
    obtain ⟨m₀, hm₀, hingested, hreached⟩ :=
      TerminalProjection.ingest_ingested (fun m hm => (h.model m hm).2) hm
    obtain ⟨⟨k, hk⟩, -⟩ := h.model m₀ hm₀
    refine ⟨⟨min k s.stream.length, ?_⟩, ?_⟩
    · change m.ingested = (s.stream ++ bytes).drop (min k s.stream.length)
      rw [List.drop_append_of_le_length (Nat.min_le_right _ _), hingested, hk]
      congr 1
      rcases Nat.le_total k s.stream.length with hle | hle
      · rw [Nat.min_eq_left hle]
      · rw [Nat.min_eq_right hle, List.drop_eq_nil_of_le hle, List.drop_eq_nil_of_le (Nat.le_refl _)]
    · rw [hreached]
      exact (List.length_append).symm
  rebuilding _ _ _ hio := by cases hio

theorem of_kept (h : InStep s) (hring : s'.ring = s.ring) (hstream : s'.stream = s.stream)
    (hmodel : ∀ m', s'.terminal.model = some m' → Caught s.stream m')
    (hio : ∀ bytes seq scrollback, s'.io = .rebuilding bytes seq scrollback →
      scrollback = s'.ring.snapshot) : InStep s' where
  mirrors := by rw [hring, hstream]; exact h.mirrors
  model m' hm' := by rw [hstream]; exact hmodel m' hm'
  rebuilding := hio

/-- One step of the I/O thread. -/
theorem io (h : InStep s) (hs : ioStep E infer c s = some s') : InStep s' := by
  obtain ⟨hring, hstream⟩ := ioStep_kept hs
  rcases ioStep_model hs with ⟨bytes, seq, scrollback, hio, rfl⟩ | ⟨hmodel, -, -, hio⟩
  · refine h.of_kept hring hstream (fun m' hm' => ?_) (fun _ _ _ hr => by cases hr)
    rw [h.rebuilding bytes seq scrollback hio] at hm'
    exact h.rebuilt hm'
  · refine h.of_kept hring hstream (fun m' hm' => ?_) hio
    rw [hmodel] at hm'
    exact h.model m' hm'

/-- One step of a task. -/
theorem advance {x x' : Task} (h : InStep s) (hs : advance E c x s = some (s', x'))
    (hcurrent : ∀ scrollback, x.scrollback = some scrollback → scrollback = s.ring.snapshot) :
    InStep s' := by
  have heffect := advance_effect hs
  obtain ⟨hring, hstream, -, hio⟩ := heffect.kept
  have hrebuilding : ∀ bytes seq scrollback, s'.io = .rebuilding bytes seq scrollback →
      scrollback = s'.ring.snapshot := by
    rw [hio, hring]
    exact h.rebuilding
  refine h.of_kept hring hstream (fun m' hm' => ?_) hrebuilding
  cases heffect with
  | setState now state line hx =>
    rw [LiveSession.setState_terminal] at hm'
    exact h.model m' hm'
  | same | enqueue | line | dirty | store | cache => exact h.model m' hm'
  | resize size =>
    obtain ⟨m, hm, hingested, hreached⟩ := TerminalProjection.resize_ingested hm'
    obtain ⟨⟨k, hk⟩, hend⟩ := h.model m hm
    exact ⟨⟨k, hingested.trans hk⟩, hreached.trans hend⟩
  | rebuild scrollback hx =>
    rw [hcurrent scrollback hx] at hm'
    exact h.rebuilt hm'

theorem rendered_endsAt (h : InStep s) {endSeq : Nat} {raw : List UInt8}
    (hend : endSeq = s.stream.length) (hraw : EndsAt s.stream endSeq raw) :
    EndsAt s.stream (rendered E s endSeq raw).endSeq (rendered E s endSeq raw).ingested := by
  unfold rendered
  split
  · cases hm : s.terminal.model with
    | none => exact hraw
    | some m =>
      obtain ⟨⟨k, hk⟩, -⟩ := h.model m hm
      exact ⟨hend ▸ Nat.le_refl _, k, by rw [hend, extract_length_eq_drop]; exact hk⟩
  · exact hraw

/-- One step of an attach. -/
theorem attach (h : InStep s) {lastSeenSeq : Option Nat} {pc pc' : AttachPc}
    (hs : attachStep E lastSeenSeq pc s = some (s', pc')) (hok : AttachOk s.stream pc)
    (hcurrent : ∀ endSeq scrollback, pc = .rerendering endSeq scrollback →
      endSeq = s.ring.endSeq) : AttachOk s.stream pc' := by
  have hend : s.ring.endSeq = s.stream.length := h.mirrors.nextSeq
  have hsnapshot : EndsAt s.stream s.ring.endSeq s.ring.snapshot.2 := hend ▸ h.snapshot_endsAt
  cases pc with
  | rendering =>
    simp only [attachStep] at hs
    split at hs
    · cases hs
      exact fun hcold => by cases hcold
    · split at hs
      · split at hs <;> cases hs
        · exact hsnapshot
        · exact fun _ => h.rendered_endsAt hend hsnapshot
      · cases hs
        exact fun _ => h.rendered_endsAt hend hsnapshot
  | rebuilding endSeq scrollback =>
    cases hs
    exact hok
  | rerendering endSeq scrollback =>
    cases hs
    exact fun _ => h.rendered_endsAt ((hcurrent endSeq scrollback rfl).trans hend) hok
  | returned result => cases hs

end InStep

theorem taskOk_of_grown {i : Nat} {y : Task} {more : List UInt8} (h : TaskOk s i y)
    (hstream : s'.stream = s.stream ++ more) : TaskOk s' i y := by
  cases y with
  | attach lastSeenSeq pc =>
    simp only [TaskOk, hstream]
    exact AttachOk.mono h
  | input | idle | hook | resize | flush => trivial

/-- One step of the I/O thread, of reading or of a kill: the stream only grows. -/
theorem event_inStep {e : Event} {keep : Bool} (h : InStep s)
    (hmax : ∀ bytes, e = .read bytes → s.stream.length + bytes.length ≤ u64Max)
    (hs : event E infer e s = some (s', keep)) :
    InStep s' ∧ ∃ more, s'.stream = s.stream ++ more := by
  cases e with
  | read bytes =>
    simp only [event, Option.ite_none_right_eq_some, Option.some.injEq, Prod.mk.injEq] at hs
    obtain ⟨-, rfl, -⟩ := hs
    exact ⟨h.recorded bytes (hmax bytes rfl), bytes, rfl⟩
  | drain =>
    simp only [event, Option.ite_none_right_eq_some, Option.some.injEq, Prod.mk.injEq] at hs
    obtain ⟨-, rfl, -⟩ := hs
    exact ⟨⟨h.mirrors, h.model, h.rebuilding⟩, [], (List.append_nil _).symm⟩
  | exit exitCode =>
    simp only [event, Option.ite_none_right_eq_some, Option.some.injEq, Prod.mk.injEq] at hs
    obtain ⟨-, rfl, -⟩ := hs
    exact ⟨⟨h.mirrors, h.model, fun _ _ _ hr => nomatch hr⟩, [], (List.append_nil _).symm⟩
  | proceed c =>
    obtain ⟨t, hio, hr⟩ := Option.map_eq_some_iff.mp hs
    obtain ⟨rfl, -⟩ := Prod.mk.inj hr
    exact ⟨h.io hio, [], (ioStep_kept hio).2.trans (List.append_nil _).symm⟩
  | kill =>
    cases hs
    exact ⟨⟨h.mirrors, h.model, h.rebuilding⟩, [], (List.append_nil _).symm⟩

theorem inStep_noninterference :
    (tasking E infer).Noninterference (fun p a => undelayed p a = true) InStep TaskOk where
  init s hs := by
    obtain ⟨id, name, createdAt, commandKind, size, store, push, rfl⟩ := hs
    refine ⟨PtyRingBuffer.new_mirrors _, fun m hm => ?_, fun _ _ _ hio => nomatch hio⟩
    cases hm
    exact ⟨⟨0, rfl⟩, rfl⟩
  fresh p i x _ _ hx := by
    cases x with
    | attach lastSeenSeq pc =>
      cases pc with
      | rendering => trivial
      | rebuilding | rerendering | returned => cases hx
    | input | idle | hook | resize | flush => trivial
  own p i c x s' x' hc h ht hok hs := by
    simp only [undelayed, ht, Option.all_some, Bool.and_eq_true] at hc
    have hcurrent : ∀ scrollback, x.scrollback = some scrollback →
        scrollback = p.shared.ring.snapshot := by
      intro scrollback hx
      have hsame := hc.1
      rw [hx] at hsame
      exact beq_iff_eq.mp hsame
    refine ⟨h.advance hs hcurrent, ?_⟩
    have hstream := (advance_effect hs).kept.2.1
    cases x with
    | attach lastSeenSeq pc =>
      obtain ⟨⟨t, pc'⟩, hattach, hr⟩ := Option.map_eq_some_iff.mp hs
      obtain ⟨rfl, rfl⟩ := Prod.mk.inj hr
      change AttachOk t.stream pc'
      rw [show t.stream = p.shared.stream from hstream]
      refine h.attach hattach hok fun endSeq scrollback hpc => ?_
      have hsame := hc.2
      rw [hpc] at hsame
      exact beq_iff_eq.mp hsame
    | input | idle | hook | resize | flush =>
      obtain ⟨r, -, hr⟩ := Option.map_eq_some_iff.mp hs
      obtain ⟨-, rfl⟩ := Prod.mk.inj hr
      trivial
  others p i c x s' x' _ _ _ _ hs j y _ _ hok :=
    taskOk_of_grown hok ((advance_effect hs).kept.2.1.trans (List.append_nil _).symm)
  environment p e s' keep hc h hs := by
    have hmax : ∀ bytes, e = .read bytes → p.shared.stream.length + bytes.length ≤ u64Max := by
      rintro bytes rfl
      exact of_decide_eq_true hc
    obtain ⟨h', more, hmore⟩ := event_inStep h hmax hs
    exact ⟨h', fun _ _ _ _ hok => taskOk_of_grown hok hmore⟩

/-- Every cold attach is given what a model rendered that had read a part of the stream up to the
number it is given, and no step replaces a model by one that has read less far. -/
theorem projection_in_step {p : Pool (LiveSession T) Task}
    (h : (tasking E infer).machine.ReachableWhen (fun p a => undelayed p a = true) p) :
    (∀ i lastSeenSeq result, p.task i = some (.attach lastSeenSeq (.returned result)) →
      result.cold = true → EndsAt p.shared.stream result.endSeq result.ingested) ∧
    ∀ a q, undelayed p a = true → (tasking E infer).machine.step a p = some q →
      ∀ m m', p.shared.terminal.model = some m → q.shared.terminal.model = some m' →
        m.reached ≤ m'.reached := by
  have hsafe := inStep_noninterference.invariant h
  refine ⟨fun i lastSeenSeq result ht => hsafe.2 i _ ht, fun a q ha hs m m' hm hm' => ?_⟩
  have hsafe' := inStep_noninterference.step hsafe ha hs
  rw [(hsafe.1.model m hm).2, (hsafe'.1.model m' hm').2]
  cases Tasking.stepped_of_step hs with
  | spawn | drop => exact Nat.le_refl _
  | advance i c x x' s' ht hr => exact Nat.le_of_eq (congrArg _ (advance_effect hr).kept.2.1).symm
  | keep e s' hr | clear e s' hr =>
    have hmax : ∀ bytes, e = .read bytes → p.shared.stream.length + bytes.length ≤ u64Max := by
      rintro bytes rfl
      exact of_decide_eq_true ha
    obtain ⟨-, more, hmore⟩ := event_inStep hsafe.1 hmax hr
    change _ ≤ s'.stream.length
    rw [hmore, List.length_append]
    exact Nat.le_add_right _ _

/-- The I/O thread records a chunk. -/
private def record (bytes : List UInt8) (steps : Nat) : List (Move Task Choice Event) :=
  .environment (.read bytes) :: List.replicate steps (.environment (.proceed ⟨0, true⟩))

/-- What an attach from the start has returned. -/
private def coldResult : Task → Option Attached
  | .attach none (.returned result) => some result
  | _ => none

private theorem eq_of_coldResult {x : Task} {result : Attached} (h : coldResult x = some result) :
    x = .attach none (.returned result) := by
  unfold coldResult at h
  split at h
  · rw [Option.some.inj h]
  · cases h

/-- A resize panics; the attach finds no model and rebuilds it. -/
theorem projection_in_step_run :
    ∃ p : Pool (LiveSession Nat) Task, p.shared.stream = [97, 98] ∧
      (∃ bytes ingested, p.task 1 = some (.attach none (.returned ⟨2, bytes, true, ingested⟩)) ∧
        EndsAt p.shared.stream 2 ingested) ∧
      ∀ a q, undelayed p a = true → (tasking queryTerminal noInfer).machine.step a p = some q →
        ∀ m m', p.shared.terminal.model = some m → q.shared.terminal.model = some m' →
          m.reached ≤ m'.reached := by
  obtain ⟨p, hr, hstream, hattached⟩ :=
    (tasking queryTerminal noInfer).machine.exists_reachable_of_exec
      (fun p a => undelayed p a = true)
      (fun p => p.shared.stream = [97, 98] ∧ ((p.task 1).bind coldResult).any fun result =>
        result.endSeq == 2 && result.cold)
      (List.flatten [record [97, 98] 6, [.spawn 0 (.resize ⟨1, 24⟩ .asking)],
        Move.repeated 2 0 ⟨0, true⟩, [.spawn 1 (.attach none .rendering)],
        Move.repeated 3 1 ⟨0, true⟩])
      (opened_init queryTerminal noInfer .unknown) (by decide)
  obtain ⟨hends, hkeeps⟩ := projection_in_step hr
  refine ⟨p, hstream, ?_, hkeeps⟩
  obtain ⟨result, hreturned, hresult⟩ := (Option.any_eq_true _ _).mp hattached
  obtain ⟨x, hx, hcoldResult⟩ := Option.bind_eq_some_iff.mp hreturned
  obtain rfl := eq_of_coldResult hcoldResult
  obtain ⟨hend, hcold⟩ := Bool.and_eq_true_iff.mp hresult
  have hs := hends 1 none result hx hcold
  obtain ⟨endSeq, bytes, cold, ingested⟩ := result
  obtain rfl : endSeq = 2 := beq_iff_eq.mp hend
  obtain rfl : cold = true := hcold
  exact ⟨bytes, ingested, hx, hs⟩

private theorem gap_not_extract {endSeq k : Nat} (h : endSeq ≤ 3) :
    [97, 98, 99].extract k endSeq ≠ ([97, 99] : List UInt8) := by
  intro hk
  have hlength := congrArg List.length hk
  simp only [List.extract_eq_take_drop, List.length_take, List.length_drop, List.length_cons,
    List.length_nil] at hlength
  obtain ⟨rfl, rfl⟩ | ⟨rfl, rfl⟩ : k = 0 ∧ endSeq = 2 ∨ k = 1 ∧ endSeq = 3 := by omega
  · exact absurd hk (by decide)
  · exact absurd hk (by decide)

/-- A resize has read the scrollback before the I/O thread recorded more and rebuilt the model: the
model it puts back has read less, and goes on without what lies between. -/
theorem projection_falls_behind :
    ¬ ∀ p : Pool (LiveSession Nat) Task, (tasking queryTerminal noInfer).machine.Reachable p →
      (∀ i lastSeenSeq result, p.task i = some (.attach lastSeenSeq (.returned result)) →
        result.cold = true → EndsAt p.shared.stream result.endSeq result.ingested) ∧
      ∀ a q, (tasking queryTerminal noInfer).machine.step a p = some q →
        ∀ m m', p.shared.terminal.model = some m → q.shared.terminal.model = some m' →
          m.reached ≤ m'.reached := by
  intro hall
  obtain ⟨p, hr, hstream, hattached⟩ :=
    (tasking queryTerminal noInfer).machine.exists_reachable_of_exec Machine.Any
      (fun p => p.shared.stream = [97, 98, 99] ∧ ((p.task 1).bind coldResult).any fun result =>
        result.cold && result.ingested == [97, 99])
      (List.flatten [record [97] 6, [.spawn 0 (.resize ⟨1, 24⟩ .asking)],
        Move.repeated 3 0 ⟨0, true⟩,
        record [98] 7, Move.repeated 1 0 ⟨0, true⟩, record [99] 6,
        [.spawn 1 (.attach none .rendering), .advance 1 ⟨0, true⟩]])
      (opened_init queryTerminal noInfer .unknown) (by decide)
  obtain ⟨result, hreturned, hresult⟩ := (Option.any_eq_true _ _).mp hattached
  obtain ⟨x, hx, hcoldResult⟩ := Option.bind_eq_some_iff.mp hreturned
  obtain rfl := eq_of_coldResult hcoldResult
  obtain ⟨hcold, hingested⟩ := Bool.and_eq_true_iff.mp hresult
  obtain ⟨hle, k, hk⟩ := (hall p hr).1 1 none result hx hcold
  rw [beq_iff_eq.mp hingested, hstream] at hk
  rw [hstream] at hle
  exact absurd hk.symm (gap_not_extract hle)

end Live
end Shelly.Daemon
