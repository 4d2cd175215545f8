import Shelly.Daemon.Eviction

namespace Shelly.Daemon

namespace PtyRingBuffer

/-- The buffer holds as much of the end of the stream as it has room for. -/
structure Tail (stream : List UInt8) (r : PtyRingBuffer) : Prop extends Mirrors stream r where
  full : r.startSeq = stream.length - r.capacity

theorem new_tail (capacity : Nat) : Tail [] (new capacity) :=
  ⟨new_mirrors capacity, (Nat.zero_sub _).symm⟩

theorem push_capacity (r : PtyRingBuffer) (bytes : List UInt8) :
    (r.push bytes).2.capacity = r.capacity := by
  unfold push
  split
  · rfl
  · split <;> rfl

theorem Tail.pushed {stream : List UInt8} {r : PtyRingBuffer} (h : Tail stream r)
    (bytes : List UInt8) (hmax : (stream ++ bytes).length ≤ u64Max) :
    Tail (stream ++ bytes) (r.push bytes).2 := by
  refine ⟨h.toMirrors.pushed bytes hmax, ?_⟩
  have hlen : r.data.length = min r.capacity stream.length := by
    rw [h.data, List.length_drop, h.full]
    omega
  rw [push_capacity]
  rw [List.length_append] at hmax ⊢
  unfold push
  split
  · rename_i hempty
    rw [List.isEmpty_iff.mp hempty]
    exact h.full
  · rw [h.nextSeq, checkedAdd_of_le hmax]
    simp only [List.length_append, List.length_drop]
    split
    · simp only [List.length_drop]
      omega
    · omega

end PtyRingBuffer

namespace Eviction

variable {T : Type*} {E : Emulator T} {infer : StateInfer}

section Session

/-- The last update tells of the exit, when `mark_exited` has finished; no other one does. -/
def Told (s : LiveSession T) : Prop :=
  ∃ before, true ∉ before ∧
    s.summaryUpdates.sent = before ++ if s.io.finished then [true] else []

/-- A receiver that has not missed the exit. -/
def Awaits (s : LiveSession T) (next : Nat) : Prop :=
  next ≤ s.summaryUpdates.sent.length ∧
    (s.io.finished = true → next < s.summaryUpdates.sent.length)

/-- What a step of the session does to what an observer knows of it. -/
structure Later (s s' : LiveSession T) : Prop where
  id : s'.id = s.id
  exitCode : ∀ exitCode, s.exitCode = some exitCode → s'.exitCode = some exitCode
  ring : s.exitCode.isSome = true → s'.ring = s.ring
  killed : s'.killed = s.killed
  capacity : s'.summaryUpdates.capacity = s.summaryUpdates.capacity
  told : Told s → Told s'
  awaits : ∀ next, Awaits s next → Awaits s' next
  length : s.summaryUpdates.sent.length ≤ s'.summaryUpdates.sent.length

variable {s s' : LiveSession T}

theorem Later.of_same (hid : s'.id = s.id)
    (hexit : ∀ exitCode, s.exitCode = some exitCode → s'.exitCode = some exitCode)
    (hring : s.exitCode.isSome = true → s'.ring = s.ring) (hkilled : s'.killed = s.killed)
    (hupdates : s'.summaryUpdates = s.summaryUpdates) (hfinished : s'.io.finished = s.io.finished) :
    Later s s' := by
  refine ⟨hid, hexit, hring, hkilled, by rw [hupdates], ?_, ?_, by rw [hupdates]⟩
  · unfold Told
    rw [hupdates, hfinished]
    exact fun h => h
  · unfold Awaits
    rw [hupdates, hfinished]
    exact fun _ h => h

theorem Later.trans {s'' : LiveSession T} (h : Later s s') (h' : Later s' s'') : Later s s'' := by
  refine ⟨h'.id.trans h.id, fun code hcode => h'.exitCode code (h.exitCode code hcode),
    fun hexit => ?_, h'.killed.trans h.killed, h'.capacity.trans h.capacity,
    fun ht => h'.told (h.told ht), fun next ha => h'.awaits next (h.awaits next ha),
    h.length.trans h'.length⟩
  obtain ⟨code, hcode⟩ := Option.isSome_iff_exists.mp hexit
  exact (h'.ring (Option.isSome_iff_exists.mpr ⟨code, h.exitCode code hcode⟩)).trans (h.ring hexit)

theorem setState_summaryUpdates (s : LiveSession T) (now : Nat) (state : AgentState)
    (line : Option String) : (s.setState now state line).summaryUpdates = s.summaryUpdates ∨
      (s.setState now state line).summaryUpdates = s.summaryUpdates.send false := by
  unfold LiveSession.setState LiveSession.sendPush
  split
  · exact .inl rfl
  · dsimp only
    split_ifs <;> exact .inr rfl

/-- An update before the exit. -/
theorem later_setState (now : Nat) (state : AgentState) (line : Option String)
    (hfinished : s.io.finished = false) : Later s (s.setState now state line) := by
  rcases setState_summaryUpdates s now state line with hupdates | hupdates
  · exact .of_same (by simp) (by simp) (by simp) (by simp) hupdates (by simp)
  · refine ⟨by simp, by simp, by simp, by simp, by rw [hupdates]; rfl, ?_, ?_, ?_⟩
    · rintro ⟨before, hbefore, hsent⟩
      refine ⟨before ++ [false], by simpa using hbefore, ?_⟩
      rw [hupdates, LiveSession.setState_io, hfinished, Broadcast.send_sent, hsent, hfinished]
      simp
    · rintro next ⟨hle, -⟩
      unfold Awaits
      rw [hupdates, LiveSession.setState_io, hfinished, Broadcast.send_sent, List.length_append]
      exact ⟨hle.trans (Nat.le_add_right _ _), fun h => nomatch h⟩
    · rw [hupdates, Broadcast.send_sent, List.length_append]
      exact Nat.le_add_right _ _

theorem later_ioStep {c : Live.Choice} (hf : Live.Final s) (h : Live.ioStep E infer c s = some s') :
    Later s s' := by
  have hok := hf.1
  unfold Live.ioStep at h
  cases hio : s.io with
  | reading | exited => rw [hio] at h; cases h
  | ingested bytes seq failure =>
    rw [hio] at h
    cases h
    refine .of_same rfl (fun _ => id) (fun _ => rfl) rfl rfl ?_
    rw [hio]
    dsimp only
    split <;> rfl
  | inspecting bytes seq =>
    rw [hio] at h
    dsimp only at h
    split at h <;> cases h
    · exact .of_same rfl (fun _ => id) (fun _ => rfl) rfl rfl (by rw [hio]; rfl)
    · refine .of_same rfl (fun _ => id) (fun _ => rfl) rfl rfl ?_
      rw [hio]
      dsimp only
      split <;> rfl
  | settingState bytes seq state line =>
    rw [hio] at h
    cases h
    have hset : Later s (if state = .idle then s else s.setState c.now state line) := by
      split
      · exact .of_same rfl (fun _ => id) (fun _ => rfl) rfl rfl rfl
      · exact later_setState c.now state line (by rw [hio]; rfl)
    refine hset.trans (.of_same rfl (fun _ => id) (fun _ => rfl) rfl rfl ?_)
    have hsame : (if state = .idle then s else s.setState c.now state line).io = s.io := by
      split
      · rfl
      · exact LiveSession.setState_io s c.now state line
    rw [hsame, hio]
    rfl
  | exiting exitCode =>
    rw [hio] at h hok
    dsimp only at h
    split at h <;> cases h <;> rename_i hexit
    · rw [hok.1] at hexit
      cases hexit
    · refine .of_same rfl (fun code hcode => ?_) (fun hcode => absurd hcode hexit) rfl rfl
        (by rw [hio]; rfl)
      cases hok.1.symm.trans hcode
  | reporting exitCode =>
    rw [hio] at h
    cases h
    split <;> exact .of_same rfl (fun _ => id) (fun _ => rfl) rfl rfl (by rw [hio]; rfl)
  | persisting pc =>
    rw [hio] at h
    cases pc with
    | saving stored =>
      obtain ⟨⟨t, pc'⟩, hsave, rfl⟩ := Option.map_eq_some_iff.mp h
      simp only [Live.saveStep] at hsave
      split at hsave <;> cases hsave <;>
        exact .of_same rfl (fun _ => id) (fun _ => rfl) rfl rfl (by rw [hio]; rfl)
    | checking | capturing | completing | returned =>
      cases h
      exact .of_same rfl (fun _ => id) (fun _ => rfl) rfl rfl (by rw [hio]; rfl)
  | updating =>
    rw [hio] at h
    cases h
    refine ⟨rfl, fun _ => id, fun _ => rfl, rfl, rfl, ?_, ?_, ?_⟩
    · rintro ⟨before, hbefore, hsent⟩
      rw [hio] at hsent
      have hbefore' : s.summaryUpdates.sent = before := hsent.trans (List.append_nil before)
      exact ⟨before, hbefore, congrArg (· ++ [true]) hbefore'⟩
    · rintro next ⟨hle, -⟩
      rw [Awaits, Broadcast.send_sent, List.length_append]
      exact ⟨hle.trans (Nat.le_add_right _ _), fun _ => Nat.lt_succ_of_le hle⟩
    · rw [Broadcast.send_sent, List.length_append]
      exact Nat.le_add_right _ _
  | _ =>
    rw [hio] at h
    cases h
    exact .of_same rfl (fun _ => id) (fun _ => rfl) rfl rfl (by rw [hio]; rfl)

theorem later_event {e : Live.Event} {keep : Bool} (hf : Live.Final s) (he : e ≠ .kill)
    (h : Live.event E infer e s = some (s', keep)) : Later s s' := by
  cases e with
  | read bytes =>
    obtain ⟨⟨hio, -⟩, hr⟩ := Option.ite_none_right_eq_some.mp h
    obtain ⟨rfl, -⟩ := Prod.mk.inj (Option.some.inj hr)
    have hrunning := hf.1
    rw [hio] at hrunning
    refine .of_same rfl (fun code hcode => ?_) (fun hexit => ?_) rfl rfl (by rw [hio]; rfl)
    · cases hrunning.1.symm.trans hcode
    · rw [hrunning.1] at hexit
      cases hexit
  | drain =>
    obtain ⟨hio, hr⟩ := Option.ite_none_right_eq_some.mp h
    cases hr
    exact .of_same rfl (fun _ => id) (fun _ => rfl) rfl rfl rfl
  | exit exitCode =>
    obtain ⟨hio, hr⟩ := Option.ite_none_right_eq_some.mp h
    cases hr
    exact .of_same rfl (fun _ => id) (fun _ => rfl) rfl rfl (by rw [hio]; rfl)
  | proceed c =>
    obtain ⟨t, hs, hr⟩ := Option.map_eq_some_iff.mp h
    obtain ⟨rfl, -⟩ := Prod.mk.inj hr
    exact later_ioStep hf hs
  | kill => exact absurd rfl he

/-- A receiver that has been given anything but the exit has not missed it, however many updates it
has lost. -/
theorem awaits_recv {next next' : Nat} {r : Received Bool} (ht : Told s)
    (hcapacity : 0 < s.summaryUpdates.capacity)
    (hr : s.summaryUpdates.recv next = some (r, next')) (hnot : r ≠ .message true) :
    Awaits s next' := by
  obtain ⟨before, hbefore, hsent⟩ := ht
  unfold Broadcast.recv at hr
  split at hr
  · rename_i hlag
    cases hr
    exact ⟨Nat.sub_le _ _, fun _ => by omega⟩
  · obtain ⟨m, hm, heq⟩ := Option.map_eq_some_iff.mp hr
    obtain ⟨rfl, rfl⟩ := Prod.mk.inj heq
    obtain ⟨hlt, hget⟩ := List.getElem?_eq_some_iff.mp hm
    refine ⟨hlt, fun hfinished => ?_⟩
    by_contra hlast
    -- The last update after the end of `mark_exited` is the exit.
    have hnext : next = before.length := by
      rw [hsent, hfinished] at hlt hlast
      simp at hlt hlast
      omega
    apply hnot
    rw [← hget]
    congr 1
    simp [hsent, hfinished, hnext]

theorem exited_of_finished (hf : Live.Final s) (h : s.io.finished = true) :
    ∃ exitCode, s.exitCode = some exitCode := by
  have hok := hf.1
  have hphase : s.io.phase = .announced := by
    cases hio : s.io <;> rw [hio] at h <;> first | rfl | cases h
  rw [hphase] at hok
  obtain ⟨exitCode, hexit, -⟩ := hok
  exact ⟨exitCode, hexit⟩

theorem finished_of_recv {next next' : Nat} (ht : Told s)
    (hr : s.summaryUpdates.recv next = some (.message true, next')) : s.io.finished = true := by
  obtain ⟨before, hbefore, hsent⟩ := ht
  have hmem : true ∈ s.summaryUpdates.sent := by
    obtain ⟨-, hdrop⟩ := Broadcast.drop_of_recv_message hr
    exact List.mem_of_mem_drop (hdrop ▸ List.mem_cons_self)
  rw [hsent, List.mem_append] at hmem
  have hexit := hmem.resolve_left hbefore
  split at hexit
  · assumption
  · cases hexit

/-- The state of the session is the one of its exit. -/
def Settled (s : LiveSession T) (state : AgentState) : Prop :=
  ∃ exitCode, s.exitCode = some exitCode ∧ state = LiveSession.exitState exitCode

/-- After the exit the state is settled, or is about to be. -/
theorem settled_of_exited (hf : Live.Final s) (hexit : s.exitCode.isSome = true)
    (hread : ∀ exitCode ∈ unsettled s.io.phase, s.state = LiveSession.exitState exitCode) :
    Settled s s.state := by
  have hok := hf.1
  cases hphase : s.io.phase with
  | running =>
    rw [hphase] at hok
    rw [hok.1] at hexit
    cases hexit
  | settling exitCode =>
    rw [hphase] at hok hread
    exact ⟨exitCode, hok.1, hread exitCode rfl⟩
  | settled => rw [hphase] at hok; exact hok.1
  | announced => rw [hphase] at hok; exact hok

end Session

section Run

/-- The session is kept in its final form, or the cap has dropped it. -/
def Kept (s : ObservedSession T) : Prop :=
  s.dropped = true ∨
    ∃ stored, s.restored.lookup s.session.id = some stored ∧ Recorded s.session stored

/-- How far the eviction of an exited session is. -/
def EvictOk (s : ObservedSession T) : EvictPc → Prop
  | .looking | .checking | .capturing => s.live = true
  | .summarizing scrollback => s.live = true ∧ scrollback = s.session.ring.snapshot
  | .completing scrollback summary state _ =>
    s.live = true ∧ scrollback = s.session.ring.snapshot ∧ summary.id = s.session.id ∧
      Settled s.session state
  | .restoring stored =>
    s.live = true ∧ stored.summary.id = s.session.id ∧ Recorded s.session stored
  | .capping | .dropping _ | .unregistering => Kept s
  | .returned => s.live = false ∧ Kept s

/-- How far the session has come, from its creation to its eviction. -/
def Stage (s : ObservedSession T) : CreatePc → ForwarderPc → Prop
  | .materializing, .unborn | .lining _, .unborn | .unrestoring, .unborn | .inserting, .unborn =>
    True
  | .subscribing, .unborn => s.live = true
  | .checking next, .unborn => s.live = true ∧ next ≤ s.session.summaryUpdates.sent.length
  | .spawning next alreadyExited, .unborn =>
    s.live = true ∧
      if alreadyExited then s.session.exitCode.isSome = true else Awaits s.session next
  | .returned, .receiving next => s.live = true ∧ Awaits s.session next
  | .returned, .evicting pc => s.session.exitCode.isSome = true ∧ EvictOk s pc
  | _, _ => False

/-- What holds of a session that nobody has asked to kill. -/
structure Watched (s : ObservedSession T) : Prop where
  final : Live.Final s.session
  told : Told s.session
  capacity : s.session.summaryUpdates.capacity = summaryUpdateCapacity
  killed : s.session.killed = true → s.killRequested = true
  stage : s.killRequested = false → Stage s s.creator s.forwarder

variable {s s' : ObservedSession T} {t : LiveSession T} {stored : RestoredSession}

/-- Another restored session that goes leaves this one; this one that goes has been dropped. -/
theorem Kept.dropped (h : Kept s) (oldest : SessionId) : Kept (s.dropOldest oldest) := by
  by_cases hown : oldest = s.session.id
  · left
    rw [ObservedSession.dropOldest, hown, beq_self_eq_true, Bool.or_true]
  · rcases h with h | ⟨stored, hstored, hrecorded⟩
    · left
      rw [ObservedSession.dropOldest, h, Bool.true_or]
    · refine .inr ⟨stored, ?_, hrecorded⟩
      exact (Table.lookup_erase_ne _ (Ne.symm hown)).trans hstored

section Later

theorem Recorded.later (h : Recorded s.session stored) (hl : Later s.session t) :
    Recorded t stored := by
  obtain ⟨exitCode, hexit, hcode, hstate⟩ := h.exit
  refine ⟨⟨exitCode, hl.exitCode exitCode hexit, hcode, hstate⟩, ?_⟩
  rw [hl.ring (Option.isSome_iff_exists.mpr ⟨exitCode, hexit⟩)]
  exact h.scrollback

theorem Kept.later (h : Kept s) (hl : Later s.session t) : Kept { s with session := t } := by
  refine h.imp_right fun ⟨stored, hstored, hrecorded⟩ => ⟨stored, ?_, hrecorded.later hl⟩
  rw [hl.id]
  exact hstored

theorem EvictOk.later {pc : EvictPc} (h : EvictOk s pc) (hexit : s.session.exitCode.isSome = true)
    (hl : Later s.session t) : EvictOk { s with session := t } pc := by
  have hring := hl.ring hexit
  cases pc with
  | looking | checking | capturing => exact h
  | summarizing scrollback => exact ⟨h.1, by rw [hring]; exact h.2⟩
  | completing scrollback summary state lastLine =>
    obtain ⟨hlive, hscrollback, hid, exitCode, hcode, hstate⟩ := h
    exact ⟨hlive, by rw [hring]; exact hscrollback, hid.trans hl.id.symm, exitCode,
      hl.exitCode exitCode hcode, hstate⟩
  | restoring stored => exact ⟨h.1, h.2.1.trans hl.id.symm, h.2.2.later hl⟩
  | capping | dropping | unregistering => exact Kept.later h hl
  | returned => exact ⟨h.1, h.2.later hl⟩

theorem Stage.later {creator : CreatePc} {forwarder : ForwarderPc}
    (h : Stage s creator forwarder) (hl : Later s.session t) :
    Stage { s with session := t } creator forwarder := by
  have hexited (hexit : s.session.exitCode.isSome = true) : t.exitCode.isSome = true := by
    obtain ⟨exitCode, hcode⟩ := Option.isSome_iff_exists.mp hexit
    exact Option.isSome_iff_exists.mpr ⟨exitCode, hl.exitCode exitCode hcode⟩
  cases forwarder with
  | unborn =>
    cases creator with
    | materializing | lining | unrestoring | inserting | subscribing => exact h
    | checking next => exact ⟨h.1, h.2.trans hl.length⟩
    | spawning next alreadyExited =>
      cases alreadyExited with
      | true => exact ⟨h.1, hexited h.2⟩
      | false => exact ⟨h.1, hl.awaits next h.2⟩
    | returned => exact h
  | receiving next =>
    cases creator with
    | returned => exact ⟨h.1, hl.awaits next h.2⟩
    | _ => exact h
  | evicting pc =>
    cases creator with
    | returned => exact ⟨hexited h.1, h.2.later h.1 hl⟩
    | _ => exact h

/-- A step of the session keeps what is watched, if it keeps what the exit leaves behind. -/
theorem Watched.later (h : Watched s) (hl : Later s.session t) (hf : Live.Final t) :
    Watched { s with session := t } :=
  ⟨hf, hl.told h.told, hl.capacity.trans h.capacity, fun hk => h.killed (hl.killed ▸ hk),
    fun hk => (h.stage hk).later hl⟩

end Later

theorem Stage.unborn {creator : CreatePc} {forwarder : ForwarderPc}
    (h : Stage s creator forwarder) (hc : creator ≠ .returned) : forwarder = .unborn := by
  cases creator with
  | returned => exact absurd rfl hc
  | _ => cases forwarder <;> first | rfl | cases h

theorem watched_create (h : Watched s) (hs : createStep E s = some s') : Watched s' := by
  have hstage := h.stage
  unfold createStep at hs
  cases hc : s.creator with
  | returned => rw [hc] at hs; cases hs
  | materializing =>
    rw [hc] at hs hstage
    cases hs
    refine ⟨h.final.of_same rfl rfl rfl rfl, h.told, h.capacity, h.killed, fun hk => ?_⟩
    rw [(hstage hk).unborn (by simp)]
    trivial
  | lining line =>
    rw [hc] at hs hstage
    cases hs
    refine ⟨h.final.of_same rfl rfl rfl rfl, h.told, h.capacity, h.killed, fun hk => ?_⟩
    rw [(hstage hk).unborn (by simp)]
    trivial
  | unrestoring =>
    rw [hc] at hs hstage
    cases hs
    refine ⟨h.final, h.told, h.capacity, h.killed, fun hk => ?_⟩
    rw [(hstage hk).unborn (by simp)]
    trivial
  | inserting =>
    rw [hc] at hs hstage
    cases hs
    refine ⟨h.final, h.told, h.capacity, h.killed, fun hk => ?_⟩
    rw [(hstage hk).unborn (by simp)]
    exact rfl
  | subscribing =>
    rw [hc] at hs hstage
    cases hs
    refine ⟨h.final, h.told, h.capacity, h.killed, fun hk => ?_⟩
    have hfw := (hstage hk).unborn (by simp)
    have hlive := hstage hk
    rw [hfw] at hlive ⊢
    exact ⟨hlive, Nat.le_refl _⟩
  | checking next =>
    rw [hc] at hs hstage
    cases hs
    refine ⟨h.final, h.told, h.capacity, h.killed, fun hk => ?_⟩
    have hfw := (hstage hk).unborn (by simp)
    have hnext := hstage hk
    rw [hfw] at hnext ⊢
    refine ⟨hnext.1, ?_⟩
    -- The exit comes after the check, unless the check finds it.
    split
    · assumption
    · rename_i hrunning
      refine ⟨hnext.2, fun hfinished => ?_⟩
      obtain ⟨exitCode, hexit⟩ := exited_of_finished h.final hfinished
      rw [hexit] at hrunning
      exact absurd rfl hrunning
  | spawning next alreadyExited =>
    rw [hc] at hs hstage
    cases hs
    refine ⟨h.final, h.told, h.capacity, h.killed, fun hk => ?_⟩
    have hspawning := hstage hk
    rw [hspawning.unborn (by simp)] at hspawning
    cases alreadyExited with
    | true => exact ⟨hspawning.2, hspawning.1⟩
    | false => exact hspawning

/-- An eviction changes the maps alone. -/
theorem evictStep_kept {oldest : SessionId} {pc pc' : EvictPc}
    (hs : evictStep oldest s pc = some (s', pc')) :
    s'.session = s.session ∧ s'.creator = s.creator ∧ s'.killRequested = s.killRequested := by
  cases pc with
  | capping =>
    simp only [evictStep] at hs
    split at hs
    · obtain ⟨-, hs⟩ := Option.ite_none_right_eq_some.mp hs
      cases hs
      exact ⟨rfl, rfl, rfl⟩
    · cases hs
      exact ⟨rfl, rfl, rfl⟩
  | returned => cases hs
  | _ => cases hs; exact ⟨rfl, rfl, rfl⟩

theorem evictOk_step {oldest : SessionId} {pc pc' : EvictPc} (h : Watched s)
    (hexit : s.session.exitCode.isSome = true) (hk : s.killRequested = false)
    (hread : ∀ scrollback, pc = .summarizing scrollback →
      ∀ exitCode ∈ unsettled s.session.io.phase, s.session.state = LiveSession.exitState exitCode)
    (hok : EvictOk s pc) (hs : evictStep oldest s pc = some (s', pc')) : EvictOk s' pc' := by
  cases pc with
  | looking =>
    cases hs
    have hlive : s.live = true := hok
    rw [if_pos hlive]
    exact hlive
  | checking =>
    cases hs
    have hkilled : s.session.killed = false := by
      rw [← Bool.not_eq_true]
      intro hkilled
      cases hk.symm.trans (h.killed hkilled)
    rw [hkilled, if_neg Bool.false_ne_true]
    exact hok
  | capturing => cases hs; exact ⟨hok, rfl⟩
  | summarizing scrollback =>
    cases hs
    exact ⟨hok.1, hok.2, rfl, settled_of_exited h.final hexit (hread _ rfl)⟩
  | completing scrollback summary state lastLine =>
    cases hs
    obtain ⟨hlive, hscrollback, hid, exitCode, hcode, hstate⟩ := hok
    exact ⟨hlive, hid, ⟨exitCode, hcode, hcode, hstate⟩, hscrollback⟩
  | restoring stored =>
    cases hs
    obtain ⟨-, hid, hrecorded⟩ := hok
    refine .inr ⟨stored, ?_, hrecorded⟩
    rw [← hid]
    exact Table.lookup_insert_self ..
  | capping =>
    simp only [evictStep] at hs
    split at hs
    · obtain ⟨-, hs⟩ := Option.ite_none_right_eq_some.mp hs
      cases hs
      exact hok
    · cases hs
      exact hok
  | dropping oldest => cases hs; exact Kept.dropped hok oldest
  | unregistering => cases hs; exact ⟨rfl, hok⟩
  | returned => cases hs

theorem watched_forward {oldest : SessionId} (h : Watched s) (hc : Careful s (.forward oldest))
    (hs : forwardStep oldest s = some s') : Watched s' := by
  unfold forwardStep at hs
  cases hfw : s.forwarder with
  | unborn => rw [hfw] at hs; cases hs
  | receiving next =>
    rw [hfw] at hs
    obtain ⟨⟨r, next'⟩, hr, rfl⟩ := Option.map_eq_some_iff.mp hs
    have hstage := h.stage
    rw [hfw] at hstage
    have hpositive : 0 < s.session.summaryUpdates.capacity := h.capacity ▸ by decide
    have hreturned (hk : s.killRequested = false) : s.creator = .returned := by
      by_contra hcreator
      cases (hstage hk).unborn hcreator
    have hlive (hk : s.killRequested = false) : s.live = true := by
      have hnow := hstage hk
      rw [hreturned hk] at hnow
      exact hnow.1
    cases r with
    | lagged skipped =>
      refine ⟨h.final, h.told, h.capacity, h.killed, fun hk => ?_⟩
      dsimp only
      rw [hreturned hk]
      exact ⟨hlive hk, awaits_recv h.told hpositive hr (by simp)⟩
    | message exited =>
      cases exited with
      | false =>
        refine ⟨h.final, h.told, h.capacity, h.killed, fun hk => ?_⟩
        dsimp only
        rw [hreturned hk]
        exact ⟨hlive hk, awaits_recv h.told hpositive hr (by simp)⟩
      | true =>
        refine ⟨h.final, h.told, h.capacity, h.killed, fun hk => ?_⟩
        dsimp only
        rw [hreturned hk]
        obtain ⟨exitCode, hexit⟩ := exited_of_finished h.final (finished_of_recv h.told hr)
        exact ⟨Option.isSome_iff_exists.mpr ⟨exitCode, hexit⟩, hlive hk⟩
  | evicting pc =>
    rw [hfw] at hs
    obtain ⟨⟨t, pc'⟩, ht, rfl⟩ := Option.map_eq_some_iff.mp hs
    obtain ⟨hsession, hcreator, hrequested⟩ := evictStep_kept ht
    have hstage := h.stage
    rw [hfw] at hstage
    refine ⟨hsession ▸ h.final, hsession ▸ h.told, hsession ▸ h.capacity, ?_, fun hk => ?_⟩
    · dsimp only
      rw [hsession, hrequested]
      exact h.killed
    · have hk : s.killRequested = false := hrequested ▸ hk
      have hreturned : s.creator = .returned := by
        by_contra hcreator
        cases (hstage hk).unborn hcreator
      have hevicting := hstage hk
      rw [hreturned] at hevicting
      dsimp only
      rw [hcreator, hreturned]
      have hok : EvictOk t pc' := by
        refine evictOk_step h hevicting.1 hk (fun scrollback hpc => ?_) hevicting.2 ht
        exact hc (by rw [hfw, hpc]; rfl)
      refine ⟨?_, hok⟩
      dsimp only
      rw [hsession]
      exact hevicting.1

/-- What the rest of the daemon does leaves the session where it is, unless it is to be killed. -/
theorem Stage.others {creator : CreatePc} {forwarder : ForwarderPc} (h : Stage s creator forwarder)
    (hsession : s'.session = s.session) (hlive : s'.live = s.live) (hkept : Kept s → Kept s') :
    Stage s' creator forwarder := by
  cases forwarder with
  | unborn =>
    cases creator with
    | materializing | lining | unrestoring | inserting | returned => exact h
    | subscribing => exact hlive.trans h
    | checking next => exact ⟨hlive.trans h.1, by rw [hsession]; exact h.2⟩
    | spawning next alreadyExited => exact ⟨hlive.trans h.1, by rw [hsession]; exact h.2⟩
  | receiving next =>
    cases creator with
    | returned => exact ⟨hlive.trans h.1, by rw [hsession]; exact h.2⟩
    | _ => exact h
  | evicting pc =>
    cases creator with
    | returned =>
      obtain ⟨hexit, hok⟩ := h
      refine ⟨by rw [hsession]; exact hexit, ?_⟩
      cases pc <;> simp only [EvictOk, hsession, hlive] at hok ⊢
      all_goals first | exact hok | exact hkept hok | exact ⟨hok.1, hkept hok.2⟩
    | _ => exact h

theorem watched_event {e : Event} (h : Watched s) (hs : eventStep s e = some s') : Watched s' := by
  cases e with
  | setState now state lastLine =>
    simp only [eventStep] at hs
    split at hs <;> cases hs
    rename_i hphase
    have hrunning : s.session.io.phase.final = false := Bool.eq_false_of_not_eq_true hphase
    have hfinished : s.session.io.finished = false := by
      cases hio : s.session.io <;> rw [hio] at hrunning <;> first | rfl | cases hrunning
    exact h.later (later_setState now state lastLine hfinished)
      (h.final.setState now state lastLine (.inl hrunning))
  | restoreOther stored =>
    obtain ⟨hother, hs⟩ := Option.ite_none_left_eq_some.mp hs
    cases hs
    refine ⟨h.final, h.told, h.capacity, h.killed, fun hk => (h.stage hk).others rfl rfl ?_⟩
    refine Or.imp_right fun ⟨kept, hkept, hrecorded⟩ => ⟨kept, ?_, hrecorded⟩
    exact (Table.lookup_insert_ne _ _ (Ne.symm hother)).trans hkept
  | drop oldest =>
    obtain ⟨-, hs⟩ := Option.ite_none_right_eq_some.mp hs
    cases hs
    exact ⟨h.final, h.told, h.capacity, h.killed,
      fun hk => (h.stage hk).others rfl rfl fun hkept => hkept.dropped oldest⟩
  | forgetOther id =>
    obtain ⟨hother, hs⟩ := Option.ite_none_left_eq_some.mp hs
    cases hs
    refine ⟨h.final, h.told, h.capacity, h.killed, fun hk => (h.stage hk).others rfl rfl ?_⟩
    refine Or.imp_right fun ⟨kept, hkept, hrecorded⟩ => ⟨kept, ?_, hrecorded⟩
    exact (Table.lookup_erase_ne _ (Ne.symm hother)).trans hkept
  | requestKill =>
    cases hs
    exact ⟨h.final, h.told, h.capacity, fun _ => rfl, fun hk => nomatch hk⟩
  | flagKilled | unregister | forget =>
    obtain ⟨hrequested, hs⟩ := Option.ite_none_right_eq_some.mp hs
    cases hs
    exact ⟨h.final.of_same rfl rfl rfl rfl, h.told, h.capacity, fun _ => hrequested,
      fun hk => by cases hk.symm.trans hrequested⟩

theorem watched_init (hi : (machine E infer).init s) : Watched s := by
  obtain ⟨⟨id, name, createdAt, commandKind, size, store, push, hsession⟩, -, -, hcreator,
    hforwarder, -, -⟩ := hi
  refine ⟨?_, ?_, ?_, ?_, fun _ => ?_⟩
  · rw [hsession]
    exact .spawn id name createdAt commandKind size store push
  · rw [hsession]
    exact ⟨[], List.not_mem_nil, rfl⟩
  · rw [hsession]
    rfl
  · rw [hsession]
    intro hk
    cases hk
  · rw [hcreator, hforwarder]
    trivial

/-- A kill does not go through the I/O thread. -/
theorem io_step {e : Live.Event} (hs : (machine E infer).step (.io e) s = some s') :
    e ≠ .kill ∧ ∃ r, Live.event E infer e s.session = some r ∧
      ({ s with session := r.1 } : ObservedSession T) = s' := by
  cases e with
  | kill => cases hs
  | _ => exact ⟨by simp, Option.map_eq_some_iff.mp hs⟩

theorem watched_step {a : Action} (h : Watched s) (hc : Careful s a)
    (hs : (machine E infer).step a s = some s') : Watched s' := by
  cases a with
  | create => exact watched_create h hs
  | forward oldest => exact watched_forward h hc hs
  | event e => exact watched_event h hs
  | io e =>
    obtain ⟨he, ⟨t, keep⟩, ht, rfl⟩ := io_step hs
    exact h.later (later_event h.final he ht) (h.final.event ht)

/-- The ring holds the end of everything the child wrote. -/
def Captures (s : LiveSession T) : Prop :=
  s.ring.capacity = ringCapacity ∧ (s.stream.length ≤ u64Max → s.ring.Tail s.stream)

theorem captures_event {u : LiveSession T} {e : Live.Event} {keep : Bool} (h : Captures t)
    (hs : Live.event E infer e t = some (u, keep)) : Captures u := by
  cases e with
  | read bytes =>
    obtain ⟨-, hr⟩ := Option.ite_none_right_eq_some.mp hs
    obtain ⟨rfl, -⟩ := Prod.mk.inj (Option.some.inj hr)
    refine ⟨(PtyRingBuffer.push_capacity _ _).trans h.1, fun hmax => ?_⟩
    refine (h.2 ?_).pushed bytes hmax
    change (t.stream ++ bytes).length ≤ u64Max at hmax
    rw [List.length_append] at hmax
    omega
  | drain | exit =>
    obtain ⟨-, hr⟩ := Option.ite_none_right_eq_some.mp hs
    cases hr
    exact h
  | kill => cases hs; exact h
  | proceed c =>
    obtain ⟨v, hv, hr⟩ := Option.map_eq_some_iff.mp hs
    obtain ⟨rfl, -⟩ := Prod.mk.inj hr
    obtain ⟨hring, hstream⟩ := Live.ioStep_kept hv
    rw [Captures, hring, hstream]
    exact h

theorem createStep_stream (hs : createStep E s = some s') :
    s'.session.ring = s.session.ring ∧ s'.session.stream = s.session.stream := by
  unfold createStep at hs
  split at hs <;> cases hs <;> exact ⟨rfl, rfl⟩

theorem forwardStep_session {oldest : SessionId} (hs : forwardStep oldest s = some s') :
    s'.session = s.session := by
  unfold forwardStep at hs
  split at hs
  · cases hs
  · obtain ⟨r, -, rfl⟩ := Option.map_eq_some_iff.mp hs
    split <;> rfl
  · obtain ⟨⟨t, pc'⟩, ht, rfl⟩ := Option.map_eq_some_iff.mp hs
    exact (evictStep_kept ht).1

theorem eventStep_stream {e : Event} (hs : eventStep s e = some s') :
    s'.session.ring = s.session.ring ∧ s'.session.stream = s.session.stream := by
  cases e with
  | setState now state lastLine =>
    simp only [eventStep] at hs
    split at hs <;> cases hs
    exact ⟨LiveSession.setState_ring .., LiveSession.setState_stream ..⟩
  | restoreOther | forgetOther =>
    obtain ⟨-, hs⟩ := Option.ite_none_left_eq_some.mp hs
    cases hs
    exact ⟨rfl, rfl⟩
  | drop | flagKilled | unregister | forget =>
    obtain ⟨-, hs⟩ := Option.ite_none_right_eq_some.mp hs
    cases hs
    exact ⟨rfl, rfl⟩
  | requestKill => cases hs; exact ⟨rfl, rfl⟩

theorem captures_step {a : Action} (h : Captures s.session)
    (hs : (machine E infer).step a s = some s') : Captures s'.session := by
  have hsame (hring : s'.session.ring = s.session.ring)
      (hstream : s'.session.stream = s.session.stream) : Captures s'.session := by
    rw [Captures, hring, hstream]
    exact h
  cases a with
  | create => exact hsame (createStep_stream hs).1 (createStep_stream hs).2
  | forward oldest => exact forwardStep_session hs ▸ h
  | event e => exact hsame (eventStep_stream hs).1 (eventStep_stream hs).2
  | io e =>
    obtain ⟨-, ⟨t, keep⟩, ht, rfl⟩ := io_step hs
    exact captures_event h ht

/-- If the eviction does not read the state of the session between the two assignments of
`mark_exited`, then, once that has finished and the forwarder has dealt with everything that was
sent to it, a session that nobody has asked to kill is not among the live ones, and is kept with
its exit code, the state of its exit and the end of its complete output, unless the cap has dropped
it. -/
theorem natural_exit_recorded (h : (machine E infer).ReachableWhen Careful s)
    (hfinished : s.session.io.finished = true) (hconsumed : Consumed s)
    (hk : s.killRequested = false) :
    s.live = false ∧ (s.dropped = true ∨
      ∃ stored, s.restored.lookup s.session.id = some stored ∧ Recorded s.session stored ∧
        (s.session.stream.length ≤ u64Max → stored.scrollback =
          s.session.stream.drop (s.session.stream.length - ringCapacity))) := by
  have hwatched : Watched s := h.invariant (fun _ => watched_init) fun _ _ _ => watched_step
  have hcaptures : Captures s.session := by
    refine h.invariant (I := fun s => Captures s.session) (fun s hi => ?_)
      fun _ _ _ hp _ hs => captures_step hp hs
    obtain ⟨id, name, createdAt, commandKind, size, store, push, hsession⟩ := hi.1
    rw [hsession]
    exact ⟨rfl, fun _ => PtyRingBuffer.new_tail _⟩
  have hstage := hwatched.stage hk
  have hreturned : s.live = false ∧ Kept s := by
    rcases hconsumed with hfw | ⟨next, hfw, hnone⟩
    · rw [hfw] at hstage
      cases hc : s.creator <;> rw [hc] at hstage <;> first | exact hstage.2 | cases hstage
    · -- The exit has been sent and has not been received.
      rw [hfw] at hstage
      have hawaits : Awaits s.session next := by
        cases hc : s.creator <;> rw [hc] at hstage <;> first | exact hstage.2 | cases hstage
      have hlt := hawaits.2 hfinished
      unfold Broadcast.recv at hnone
      split at hnone
      · cases hnone
      · rw [List.getElem?_eq_getElem hlt] at hnone
        cases hnone
  refine ⟨hreturned.1, hreturned.2.imp_right fun ⟨stored, hstored, hrecorded⟩ =>
    ⟨stored, hstored, hrecorded, fun hmax => ?_⟩⟩
  have htail := hcaptures.2 hmax
  calc
    stored.scrollback = s.session.ring.data := congrArg Prod.snd hrecorded.scrollback
    _ = s.session.stream.drop s.session.ring.startSeq := htail.data
    _ = _ := by rw [htail.full, hcaptures.1]

end Run

section Traces

/-- A session that has just been spawned, beside no other. -/
def spawned : ObservedSession Nat where
  session := .spawn queryTerminal 7 "echo" 0 .unknown ⟨80, 24⟩ false true
  live := false
  restored := .empty
  creator := .materializing
  forwarder := .unborn
  killRequested := false
  dropped := false

theorem spawned_init : (machine queryTerminal Live.noInfer).init spawned :=
  ⟨⟨7, "echo", 0, .unknown, ⟨80, 24⟩, false, true, rfl⟩, rfl, Table.lookup_empty _, rfl, rfl, rfl,
    rfl⟩

private def proceed (n : Nat) : List Action := List.replicate n (.io (.proceed ⟨0, true⟩))

/-- An output before the forwarder is there, and the exit after it. -/
theorem natural_exit_recorded_crash : ∃ s : ObservedSession Nat, s.session.stream = [104, 105] ∧
    s.live = false ∧ (s.dropped = true ∨
      ∃ stored, s.restored.lookup s.session.id = some stored ∧ Recorded s.session stored ∧
        (s.session.stream.length ≤ u64Max → stored.scrollback =
          s.session.stream.drop (s.session.stream.length - ringCapacity))) := by
  obtain ⟨s, hr, hstream, hio, hfw, hk⟩ :=
    (machine queryTerminal Live.noInfer).exists_reachable_of_exec (s := spawned) Careful
      (fun s => s.session.stream = [104, 105] ∧ s.session.io = .exited ∧
        s.forwarder = .evicting .returned ∧ s.killRequested = false)
      (List.flatten [.io (.read [104, 105]) :: proceed 6, List.replicate 7 .create, [.io (.exit 1)],
        proceed 9, List.replicate 9 (.forward 0)])
      spawned_init (by decide)
  exact ⟨s, hstream, natural_exit_recorded hr (by rw [hio]; rfl) (.inl hfw) hk⟩

/-- The forwarder finds the exit code of a session whose state is still to be set. -/
theorem evicted_before_state :
    ¬ ∀ s : ObservedSession Nat, (machine queryTerminal Live.noInfer).Reachable s →
      s.session.io.finished = true → Consumed s → s.killRequested = false →
      s.live = false ∧ (s.dropped = true ∨
        ∃ stored, s.restored.lookup s.session.id = some stored ∧ Recorded s.session stored) := by
  intro hall
  obtain ⟨s, hr, hio, hfw, hk, hdropped, hstate⟩ :=
    (machine queryTerminal Live.noInfer).exists_reachable_of_exec (s := spawned) Machine.Any
      (fun s => s.session.io = .exited ∧ s.forwarder = .evicting .returned ∧
        s.killRequested = false ∧ s.dropped = false ∧
        (s.restored.lookup s.session.id).map (fun stored => (stored.exitCode, stored.state)) =
          some (some 1, .working))
      (List.flatten [.io (.read [104, 105]) :: proceed 6, [.io (.exit 1)], proceed 1,
        List.replicate 7 .create, List.replicate 8 (.forward 0), proceed 8])
      spawned_init (by decide)
  obtain ⟨-, hkept⟩ := hall s hr (by rw [hio]; rfl) (.inl hfw) hk
  rcases hkept with hd | ⟨stored, hstored, hrecorded⟩
  · cases hdropped.symm.trans hd
  · rw [hstored] at hstate
    obtain ⟨hcode, hworking⟩ := Prod.mk.inj (Option.some.inj hstate)
    obtain ⟨exitCode, -, hexit, hfinal⟩ := hrecorded.exit
    cases hcode.symm.trans hexit
    cases hworking.symm.trans hfinal

end Traces

end Eviction
end Shelly.Daemon
