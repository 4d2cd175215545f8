import Shelly.Daemon.SharedWriter

namespace Shelly.Daemon.SharedWriter

namespace Connection

variable {c c' : Connection} {who : Writer}

/-- The write that holds the lock in somebody's hands. -/
def holding (c : Connection) (who : Writer) : Option WritePc := (c.writing who).filter (·.holds)

/-- The frame that is begun and not yet written to its end. -/
def current (c : Connection) : Option (List UInt8 × Nat) :=
  (c.lock.bind c.holding).bind (·.begun)

/-- The forwarder is in the middle of a frame. -/
def midFrame (c : Connection) (kind : TaskKind) : Bool :=
  ((c.writing (.forwarder kind)).bind (·.begun)).isSome

def ended (c : Connection) (kind : TaskKind) : Bool :=
  c.forwarders kind = none || c.forwarders kind = some .finished

/-- Every byte belongs to its frame: what is begun is written to its end, but for the frame that is
being written. -/
def Intact (c : Connection) : Prop :=
  match c.current with
  | some (payload, written) =>
    ∃ whole, c.begun = whole ++ [payload] ∧ c.wire = frames whole ++ (frame payload).take written
  | none => c.wire = frames c.begun

/-- Nobody will write any more. -/
structure Gone (c : Connection) : Prop where
  leaving : c.leaving = true
  writing : ∀ who, c.writing who = none
  ended : ∀ kind, c.ended kind = true

/-- After its loop the handler only stops the forwarders. -/
def Leaving (c : Connection) : Prop :=
  c.leaving = true → c.writing .handler = none ∧ ∀ op ∈ c.script, ∃ kind, op = .stop kind

structure Whole (c : Connection) : Prop where
  locked : ∀ who, c.lock = some who ↔ (c.holding who).isSome = true
  leaving : c.Leaving
  framed : c.Intact ∨ Framed c.begun c.wire ∧ (c.broken = true ∨ c.Gone)

theorem Intact.framed (h : c.Intact) : Framed c.begun c.wire := by
  unfold Intact at h
  split at h
  · obtain ⟨whole, hbegun, hwire⟩ := h
    rw [hbegun, hwire]
    exact framed_part whole (List.take_prefix _ _)
  · rw [h]
    exact framed_frames _

/-- What a step does that writes nothing and does not touch the lock. -/
structure Kept (c c' : Connection) : Prop where
  wire : c'.wire = c.wire
  begun : c'.begun = c.begun
  broken : c'.broken = c.broken
  lock : c'.lock = c.lock
  holding : c'.holding = c.holding

theorem Intact.kept (h : c.Intact) (hk : Kept c c') : c'.Intact := by
  have hcurrent : c'.current = c.current := by rw [current, current, hk.lock, hk.holding]
  rw [Intact, hcurrent, hk.begun, hk.wire]
  exact h

theorem setForwarder_writing (c : Connection) (kind : TaskKind) (pc : Option ForwarderPc)
    (who : Writer) : (c.setForwarder kind pc).writing who =
      if who = .forwarder kind then pc.bind (·.write) else c.writing who := by
  cases who with
  | handler => rfl
  | forwarder kind' =>
    simp only [writing, setForwarder, Function.update_apply, Writer.forwarder.injEq]
    split <;> rfl

theorem writing_forwarder {kind : TaskKind} {pc : WritePc}
    (h : c.writing (.forwarder kind) = some pc) :
    ∃ terminal, c.forwarders kind = some (.writing pc terminal) := by
  obtain ⟨x, hx, hpc⟩ := Option.bind_eq_some_iff.mp h
  cases x with
  | writing pc' terminal =>
    obtain rfl := Option.some.inj hpc
    exact ⟨terminal, hx⟩
  | receiving | finished => cases hpc

theorem proceed_writing {progress : Progress} {pc : WritePc} (hwriting : c.writing who = some pc)
    (who' : Writer) : (c.proceed who progress).writing who' =
      if who' = who then progress.pc else c.writing who' := by
  cases who with
  | handler =>
    cases who' with
    | handler =>
      rw [if_pos rfl]
      cases progress with
      | goesOn pc => rfl
      | ended ok => cases ok <;> rfl
    | forwarder kind =>
      rw [if_neg (nomatch ·)]
      cases progress with
      | goesOn pc => rfl
      | ended ok => cases ok <;> rfl
  | forwarder kind =>
    obtain ⟨terminal, hpc⟩ := writing_forwarder hwriting
    simp only [proceed, hpc, setForwarder_writing]
    congr 1
    cases progress with
    | goesOn pc => rfl
    | ended ok => cases ok <;> cases terminal <;> rfl

/-- Going on does not touch the stream. -/
theorem proceed_stream (c : Connection) (who : Writer) (progress : Progress) :
    (c.proceed who progress).wire = c.wire ∧ (c.proceed who progress).begun = c.begun ∧
      (c.proceed who progress).broken = c.broken ∧ (c.proceed who progress).lock = c.lock := by
  cases who with
  | handler =>
    cases progress with
    | goesOn pc => exact ⟨rfl, rfl, rfl, rfl⟩
    | ended ok => cases ok <;> exact ⟨rfl, rfl, rfl, rfl⟩
  | forwarder kind =>
    cases hpc : c.forwarders kind with
    | none => simp only [proceed, hpc, and_self]
    | some pc =>
      cases pc with
      | receiving | finished => simp only [proceed, hpc, and_self]
      | writing pc terminal =>
        simp only [proceed, hpc]
        exact ⟨rfl, rfl, rfl, rfl⟩

theorem holding_setForwarder (kind : TaskKind) (pc : Option ForwarderPc)
    (hold : c.holding (.forwarder kind) = none)
    (hnew : (pc.bind (·.write)).filter (·.holds) = none) :
    (c.setForwarder kind pc).holding = c.holding := by
  funext who
  rw [holding, setForwarder_writing]
  split
  · rename_i hwho
    rw [hnew, hwho, hold]
  · rfl

theorem holding_handler (h : c.handler.write = none) (hforwarders : c'.forwarders = c.forwarders)
    (h' : (c'.handler.write).filter (·.holds) = none) : c'.holding = c.holding := by
  funext who
  cases who with
  | handler =>
    rw [holding, holding, writing, writing, h']
    rw [h]
    rfl
  | forwarder kind => rw [holding, holding, writing, writing, hforwarders]

theorem holding_of_forwarder {kind : TaskKind} {pc : Option ForwarderPc}
    (h : c.forwarders kind = pc) (hpc : (pc.bind (·.write)).filter (·.holds) = none) :
    c.holding (.forwarder kind) = none := by
  rw [holding, writing, h]
  exact hpc

/-- Only a write and an abort touch the stream and the lock. -/
theorem step_kept {a : Action} (hs : step a c = some c')
    (hwrite : ∀ who answer, a ≠ .write who answer) (habort : a ≠ .abort) : Kept c c' := by
  cases a with
  | request r =>
    obtain ⟨-, hr⟩ := Option.ite_none_right_eq_some.mp hs
    cases hr
    exact ⟨rfl, rfl, rfl, rfl, rfl⟩
  | leave =>
    obtain ⟨-, hr⟩ := Option.ite_none_right_eq_some.mp hs
    cases hr
    exact ⟨rfl, rfl, rfl, rfl, rfl⟩
  | next =>
    obtain ⟨hrunning, hr⟩ := Option.ite_none_right_eq_some.mp hs
    have hnone : c.handler.write = none := by rw [hrunning]; rfl
    split at hr
    · obtain ⟨-, hr⟩ := Option.ite_none_right_eq_some.mp hr
      cases hr
      exact ⟨rfl, rfl, rfl, rfl, holding_handler hnone rfl rfl⟩
    · cases hr
      exact ⟨rfl, rfl, rfl, rfl, holding_handler hnone rfl rfl⟩
    · split at hr <;> cases hr
      · exact ⟨rfl, rfl, rfl, rfl, holding_handler hnone rfl rfl⟩
      · exact ⟨rfl, rfl, rfl, rfl, rfl⟩
    · rename_i kind ops _
      obtain ⟨hfree, hr⟩ := Option.ite_none_right_eq_some.mp hr
      cases hr
      refine ⟨rfl, rfl, rfl, rfl, ?_⟩
      have hnone := holding_of_forwarder (Option.isNone_iff_eq_none.mp hfree) rfl
      exact (holding_setForwarder kind (some .receiving) hnone rfl :)
  | write who answer => exact absurd rfl (hwrite who answer)
  | receive kind payload terminal =>
    obtain ⟨hpc, hr⟩ := Option.ite_none_right_eq_some.mp hs
    cases hr
    exact ⟨rfl, rfl, rfl, rfl, holding_setForwarder kind _ (holding_of_forwarder hpc rfl) rfl⟩
  | finish kind =>
    obtain ⟨hpc, hr⟩ := Option.ite_none_right_eq_some.mp hs
    cases hr
    exact ⟨rfl, rfl, rfl, rfl, holding_setForwarder kind _ (holding_of_forwarder hpc rfl) rfl⟩
  | joined =>
    simp only [step] at hs
    split at hs
    · rename_i kind hstopping
      obtain ⟨hpc, hr⟩ := Option.ite_none_right_eq_some.mp hs
      cases hr
      refine ⟨rfl, rfl, rfl, rfl, ?_⟩
      have hnone : c.handler.write = none := by rw [hstopping]; rfl
      have hforwarder : (c.setForwarder kind none).holding = c.holding :=
        holding_setForwarder kind _ (holding_of_forwarder hpc rfl) rfl
      rw [← hforwarder]
      exact holding_handler hnone rfl rfl
    · cases hs
  | abort => exact absurd rfl habort

/-- Everything a step of `write_msg` can do. -/
inductive Wrote (c : Connection) (who : Writer) : WritePc → Connection → Progress → Prop
  | locked (payload : List UInt8) (hfree : c.lock = none) :
      Wrote c who (.locking payload) { c with lock := some who } (.goesOn (.writing payload 0))
  | refused (payload : List UInt8) (hfree : c.lock = none) :
      Wrote c who (.locking payload) c (.ended false)
  | accepted (payload : List UInt8) (written count : Nat) (hopen : c.broken = false)
      (hcount : 0 < count) (hfits : written + count ≤ (frame payload).length) :
      Wrote c who (.writing payload written)
        { c with
          wire := c.wire ++ (offered payload written).take count
          begun := if written = 0 then c.begun ++ [payload] else c.begun }
        (.goesOn (if written + count < (frame payload).length then
          .writing payload (written + count) else .flushing))
  | failed (pc : WritePc) (hholds : pc.holds = true) :
      Wrote c who pc { c.release who with broken := true } (.ended false)
  | flushed : Wrote c who .flushing (c.release who) (.ended true)

theorem writeStep_wrote {answer : Answered} {pc : WritePc} {r : Connection × Progress}
    (hs : c.writeStep answer who pc = some r) : Wrote c who pc r.1 r.2 := by
  cases pc with
  | locking payload =>
    obtain ⟨hfree, hr⟩ := Option.ite_none_right_eq_some.mp hs
    split at hr <;> cases hr
    · exact .locked payload hfree
    · exact .refused payload hfree
  | writing payload written =>
    cases answer with
    | accepted count =>
      obtain ⟨⟨hopen, hcount, hfits⟩, hr⟩ := Option.ite_none_right_eq_some.mp hs
      cases hr
      rw [offered_eq_drop, List.length_drop] at hfits
      exact .accepted payload written count hopen hcount (by omega)
    | failed => cases hs; exact .failed _ rfl
  | flushing =>
    cases answer with
    | accepted count => cases hs; exact .flushed
    | failed => cases hs; exact .failed _ rfl

theorem holding_proceed {c₁ : Connection} {progress : Progress} {pc : WritePc}
    (hwriting : c₁.writing who = some pc) (who' : Writer) :
    (c₁.proceed who progress).holding who' =
      if who' = who then progress.pc.filter (·.holds) else c₁.holding who' := by
  rw [holding, proceed_writing hwriting]
  split <;> rfl

/-- A writer that goes on holds the lock from `writing` on, and it alone. -/
theorem locked_proceed {c₁ : Connection} {progress : Progress} {pc : WritePc}
    (hlocked : ∀ who, c.lock = some who ↔ (c.holding who).isSome = true)
    (hwriting : c₁.writing who = some pc) (hwriters : c₁.writing = c.writing)
    (hbefore : c.lock = none ∨ c.lock = some who)
    (hafter : c₁.lock = if (progress.pc.filter (·.holds)).isSome then some who else none) :
    ∀ who', (c₁.proceed who progress).lock = some who' ↔
      ((c₁.proceed who progress).holding who').isSome = true := by
  intro who'
  rw [(proceed_stream _ _ _).2.2.2, hafter, holding_proceed hwriting]
  by_cases hwho : who' = who
  · rw [if_pos hwho, hwho]
    split
    · rename_i hholds
      exact ⟨fun _ => hholds, fun _ => rfl⟩
    · rename_i hholds
      exact ⟨fun h => (nomatch h), fun h => absurd h hholds⟩
  · have hother : ¬ (c₁.holding who').isSome = true := by
      rw [holding, hwriters]
      intro hholds
      have hlock := (hlocked who').mpr hholds
      rcases hbefore with hnone | hsome
      · cases hnone.symm.trans hlock
      · exact hwho (Option.some.inj (hlock.symm.trans hsome))
    rw [if_neg hwho]
    refine ⟨fun h => ?_, fun h => absurd h hother⟩
    split at h
    · exact absurd (Option.some.inj h).symm hwho
    · cases h

theorem release_lock (h : c.lock = some who) : (c.release who).lock = none := if_pos h

theorem current_of_free (h : c.lock = none) : c.current = none := by
  rw [current, h]
  rfl

theorem current_of_lock (h : c.lock = some who) :
    c.current = (c.holding who).bind (·.begun) := by
  rw [current, h]
  rfl

theorem intact_iff_of_none (h : c.current = none) : c.Intact ↔ c.wire = frames c.begun := by
  rw [Intact, h]

theorem intact_iff_of_some {payload : List UInt8} {written : Nat}
    (h : c.current = some (payload, written)) : c.Intact ↔ ∃ whole, c.begun = whole ++ [payload] ∧
      c.wire = frames whole ++ (frame payload).take written := by
  rw [Intact, h]

namespace Wrote

variable {pc : WritePc} {c₁ : Connection} {progress : Progress}

theorem lock_of_holds (hlocked : ∀ who, c.lock = some who ↔ (c.holding who).isSome = true)
    (hwriting : c.writing who = some pc) (hholds : pc.holds = true) : c.lock = some who := by
  rw [hlocked, holding, hwriting, Option.filter_some_pos hholds]
  rfl

/-- The lock is held by the writer that has taken it until it ends. -/
theorem lock_iff (hw : Wrote c who pc c₁ progress)
    (hlocked : ∀ who, c.lock = some who ↔ (c.holding who).isSome = true)
    (hwriting : c.writing who = some pc) :
    ∀ who', (c₁.proceed who progress).lock = some who' ↔
      ((c₁.proceed who progress).holding who').isSome = true := by
  have hheld := lock_of_holds hlocked hwriting
  cases hw with
  | locked payload hfree => exact locked_proceed hlocked hwriting rfl (.inl hfree) rfl
  | refused payload hfree => exact locked_proceed hlocked hwriting rfl (.inl hfree) hfree
  | accepted payload written count hopen hcount hfits =>
    refine locked_proceed hlocked hwriting rfl (.inr (hheld rfl)) ?_
    dsimp only [Progress.pc]
    split <;> exact hheld rfl
  | failed pc hholds =>
    exact locked_proceed hlocked hwriting rfl (.inr (hheld hholds)) (release_lock (hheld hholds))
  | flushed => exact locked_proceed hlocked hwriting rfl (.inr (hheld rfl)) (release_lock (hheld rfl))

/-- On a broken stream nothing is written. -/
theorem stream_of_broken (hw : Wrote c who pc c₁ progress) (h : c.broken = true) :
    c₁.wire = c.wire ∧ c₁.begun = c.begun ∧ c₁.broken = true := by
  cases hw with
  | locked | refused | failed | flushed => exact ⟨rfl, rfl, by first | exact h | rfl⟩
  | accepted payload written count hopen => cases hopen.symm.trans h

theorem current_proceed (hwriting : c₁.writing who = some pc) (hlock : c₁.lock = some who) :
    (c₁.proceed who progress).current = (progress.pc.filter (·.holds)).bind (·.begun) := by
  rw [current_of_lock ((proceed_stream _ _ _).2.2.2.trans hlock), holding_proceed hwriting,
    if_pos rfl]

/-- The frame in hand grows byte by byte; a write that fails breaks the stream. -/
theorem intact (hw : Wrote c who pc c₁ progress)
    (hlocked : ∀ who, c.lock = some who ↔ (c.holding who).isSome = true)
    (hwriting : c.writing who = some pc) (h : c.Intact) :
    (c₁.proceed who progress).Intact ∨ c₁.wire = c.wire ∧ c₁.begun = c.begun ∧ c₁.broken = true := by
  obtain ⟨hwire, hbegun, -, hlock⟩ := proceed_stream c₁ who progress
  have hheld := lock_of_holds hlocked hwriting
  have hcurrent : pc.holds = true → c.current = pc.begun := by
    intro hholds
    rw [current_of_lock (hheld hholds), holding, hwriting, Option.filter_some_pos hholds]
    rfl
  cases hw with
  | locked payload hfree =>
    left
    have hnone : (({ c with lock := some who } : Connection).proceed who
        (.goesOn (.writing payload 0))).current = none := current_proceed hwriting rfl
    rw [intact_iff_of_none hnone, hwire, hbegun]
    exact (intact_iff_of_none (current_of_free hfree)).mp h
  | refused payload hfree =>
    left
    rw [intact_iff_of_none (current_of_free (hlock.trans hfree)), hwire, hbegun]
    exact (intact_iff_of_none (current_of_free hfree)).mp h
  | flushed =>
    left
    rw [intact_iff_of_none (current_of_free (hlock.trans (release_lock (hheld rfl)))), hwire, hbegun]
    exact (intact_iff_of_none (hcurrent rfl)).mp h
  | failed pc hholds => exact .inr ⟨rfl, rfl, rfl⟩
  | accepted payload written count hopen hcount hfits =>
    left
    -- What lies before the frame, and the frame as far as it is written now.
    obtain ⟨whole, hwhole, hbefore⟩ : ∃ whole,
        (if written = 0 then c.begun ++ [payload] else c.begun) = whole ++ [payload] ∧
          c.wire = frames whole ++ (frame payload).take written := by
      by_cases hzero : written = 0
      · have hnone : c.current = none := by rw [hcurrent rfl, hzero]; rfl
        refine ⟨c.begun, if_pos hzero, ?_⟩
        rw [hzero, List.take_zero, List.append_nil]
        exact (intact_iff_of_none hnone).mp h
      · have hsome : c.current = some (payload, written) := by
          rw [hcurrent rfl, WritePc.begun, if_pos (Nat.pos_of_ne_zero hzero)]
        obtain ⟨whole, hwhole, hbefore⟩ := (intact_iff_of_some hsome).mp h
        exact ⟨whole, (if_neg hzero).trans hwhole, hbefore⟩
    have hafter : c.wire ++ (offered payload written).take count =
        frames whole ++ (frame payload).take (written + count) := by
      rw [hbefore, List.append_assoc, take_append_offered]
    have hnow : ∀ progress : Progress, (Connection.proceed { c with
        wire := c.wire ++ (offered payload written).take count
        begun := if written = 0 then c.begun ++ [payload] else c.begun } who progress).current =
        (progress.pc.filter (·.holds)).bind (·.begun) :=
      fun _ => current_proceed hwriting (hheld rfl)
    by_cases hmore : written + count < (frame payload).length
    · rw [if_pos hmore] at hwire hbegun ⊢
      have hsome := hnow (.goesOn (.writing payload (written + count)))
      rw [Progress.pc, Option.filter_some_pos rfl, Option.bind_some, WritePc.begun,
        if_pos (Nat.lt_of_lt_of_le hcount (Nat.le_add_left _ _))] at hsome
      rw [intact_iff_of_some hsome, hwire, hbegun]
      exact ⟨whole, hwhole, hafter⟩
    · rw [if_neg hmore] at hwire hbegun ⊢
      rw [intact_iff_of_none (hnow (.goesOn .flushing)), hwire, hbegun]
      dsimp only
      rw [hafter, hwhole, frames_append, frames_singleton, List.take_of_length_le (by omega)]

end Wrote

theorem Wrote.others_eq {pc : WritePc} {c₁ : Connection} {progress : Progress}
    (hw : Wrote c who pc c₁ progress) : c₁.writing = c.writing ∧ c₁.handler = c.handler ∧
      c₁.script = c.script ∧ c₁.leaving = c.leaving := by
  cases hw with
  | locked | refused | accepted | failed | flushed => exact ⟨rfl, rfl, rfl, rfl⟩

theorem leavingScript_stops : ∀ op ∈ leavingScript, ∃ kind, op = .stop kind := by
  intro op hop
  rcases List.mem_cons.mp hop with rfl | hop
  · exact ⟨_, rfl⟩
  · exact ⟨_, List.mem_singleton.mp hop⟩

theorem Leaving.kept (h : c.Leaving) (hhandler : c'.handler = c.handler)
    (hscript : c'.script = c.script) (hleaving : c'.leaving = c.leaving) : c'.Leaving := by
  intro hl
  rw [hleaving] at hl
  rw [writing, hhandler, hscript]
  exact h hl

theorem Leaving.proceed (h : c.Leaving) {pc : WritePc} (hwriting : c.writing who = some pc)
    (progress : Progress) : (c.proceed who progress).Leaving := by
  cases who with
  | handler =>
    have hstays : c.leaving = true → False := fun hl => by cases (h hl).1.symm.trans hwriting
    cases progress with
    | goesOn pc => exact fun hl => (hstays hl).elim
    | ended ok =>
      cases ok with
      | true => exact fun hl => (hstays hl).elim
      | false => exact fun _ => ⟨rfl, leavingScript_stops⟩
  | forwarder kind =>
    obtain ⟨terminal, hpc⟩ := writing_forwarder hwriting
    simp only [Connection.proceed, hpc]
    exact h.kept rfl rfl rfl

theorem Leaving.step {a : Action} (h : c.Leaving) (hs : step a c = some c') : c'.Leaving := by
  cases a with
  | request r =>
    obtain ⟨⟨-, -, hleaving⟩, hr⟩ := Option.ite_none_right_eq_some.mp hs
    cases hr
    exact fun hl => by cases hleaving.symm.trans hl
  | leave =>
    obtain ⟨⟨hrunning, -, -⟩, hr⟩ := Option.ite_none_right_eq_some.mp hs
    cases hr
    exact fun _ => ⟨by rw [writing, hrunning]; rfl, leavingScript_stops⟩
  | next =>
    obtain ⟨hrunning, hr⟩ := Option.ite_none_right_eq_some.mp hs
    split at hr
    · rename_i hscript
      obtain ⟨-, hr⟩ := Option.ite_none_right_eq_some.mp hr
      cases hr
      exact fun hl => ⟨rfl, (h hl).2⟩
    · rename_i payload ops hscript
      cases hr
      intro hl
      obtain ⟨kind, hop⟩ := (h hl).2 _ (hscript ▸ List.mem_cons_self)
      cases hop
    · rename_i kind ops hscript
      have hops : c.leaving = true → ∀ op ∈ ops, ∃ kind, op = .stop kind := fun hl op hop =>
        (h hl).2 op (hscript ▸ List.mem_cons_of_mem _ hop)
      split at hr <;> cases hr
      · exact fun hl => ⟨rfl, hops hl⟩
      · exact fun hl => ⟨(h hl).1, hops hl⟩
    · rename_i kind ops hscript
      obtain ⟨-, hr⟩ := Option.ite_none_right_eq_some.mp hr
      cases hr
      intro hl
      obtain ⟨kind, hop⟩ := (h hl).2 _ (hscript ▸ List.mem_cons_self)
      cases hop
  | write who answer =>
    obtain ⟨pc, hwriting, hs⟩ := Option.bind_eq_some_iff.mp hs
    obtain ⟨⟨c₁, progress⟩, hstep, rfl⟩ := Option.map_eq_some_iff.mp hs
    obtain ⟨hwriters, hhandler, hscript, hleaving⟩ := (writeStep_wrote hstep).others_eq
    exact (h.kept hhandler hscript hleaving).proceed (hwriters ▸ hwriting) progress
  | receive kind payload terminal =>
    obtain ⟨-, hr⟩ := Option.ite_none_right_eq_some.mp hs
    cases hr
    exact h.kept rfl rfl rfl
  | finish kind =>
    obtain ⟨-, hr⟩ := Option.ite_none_right_eq_some.mp hs
    cases hr
    exact h.kept rfl rfl rfl
  | joined =>
    simp only [SharedWriter.step] at hs
    split at hs
    · obtain ⟨-, hr⟩ := Option.ite_none_right_eq_some.mp hs
      cases hr
      exact fun hl => ⟨rfl, (h hl).2⟩
    · cases hs
  | abort =>
    simp only [SharedWriter.step] at hs
    split at hs <;> cases hs
    exact fun hl => ⟨rfl, (h hl).2⟩

theorem ended_iff {kind : TaskKind} : c.ended kind = true ↔
    c.forwarders kind = none ∨ c.forwarders kind = some .finished := by
  rw [ended, Bool.or_eq_true, decide_eq_true_eq, decide_eq_true_eq]

theorem writing_of_ended {kind : TaskKind} (h : c.ended kind = true) :
    c.writing (.forwarder kind) = none := by
  rcases ended_iff.mp h with hnone | hfinished
  · rw [writing, hnone]
    rfl
  · rw [writing, hfinished]
    rfl

theorem Gone.not_receiving (h : c.Gone) (kind : TaskKind) :
    c.forwarders kind ≠ some .receiving := by
  intro hpc
  rcases ended_iff.mp (h.ended kind) with hnone | hfinished
  · cases hpc.symm.trans hnone
  · cases hpc.symm.trans hfinished

/-- A forwarder that has ended and is let go. -/
theorem Gone.released (h : c.Gone) (kind : TaskKind) :
    Gone { (c.setForwarder kind none).release (.forwarder kind) with handler := .running } where
  leaving := h.leaving
  writing who := by
    cases who with
    | handler => rfl
    | forwarder kind' =>
      change (c.setForwarder kind none).writing (.forwarder kind') = none
      rw [setForwarder_writing]
      split
      · rfl
      · exact h.writing _
  ended kind' := by
    rw [ended_iff]
    change Function.update c.forwarders kind none kind' = none ∨
      Function.update c.forwarders kind none kind' = some .finished
    rw [Function.update_apply]
    split
    · exact .inl rfl
    · exact ended_iff.mp (h.ended kind')

/-- Where everybody is gone, nothing is written. -/
theorem Gone.step {a : Action} (h : c.Gone) (hl : c.Leaving) (hs : step a c = some c') :
    c'.Gone ∧ c'.wire = c.wire ∧ c'.begun = c.begun := by
  obtain ⟨-, hstops⟩ := hl h.leaving
  cases a with
  | request r =>
    obtain ⟨⟨-, -, hleaving⟩, -⟩ := Option.ite_none_right_eq_some.mp hs
    cases hleaving.symm.trans h.leaving
  | leave =>
    obtain ⟨⟨-, -, hleaving⟩, -⟩ := Option.ite_none_right_eq_some.mp hs
    cases hleaving.symm.trans h.leaving
  | next =>
    obtain ⟨hrunning, hr⟩ := Option.ite_none_right_eq_some.mp hs
    have hwriting : ∀ (handler : HandlerPc) (script : List Op), handler.write = none → ∀ who,
        ({ c with handler, script } : Connection).writing who = none := by
      intro handler script hhandler who
      cases who with
      | handler => exact hhandler
      | forwarder kind => exact h.writing (.forwarder kind)
    split at hr
    · obtain ⟨-, hr⟩ := Option.ite_none_right_eq_some.mp hr
      cases hr
      exact ⟨⟨h.leaving, hwriting .returned c.script rfl, h.ended⟩, rfl, rfl⟩
    · rename_i payload ops hscript
      obtain ⟨kind, hop⟩ := hstops _ (hscript ▸ List.mem_cons_self)
      cases hop
    · split at hr <;> cases hr
      · exact ⟨⟨h.leaving, hwriting _ _ rfl, h.ended⟩, rfl, rfl⟩
      · exact ⟨⟨h.leaving, h.writing, h.ended⟩, rfl, rfl⟩
    · rename_i kind ops hscript
      obtain ⟨kind, hop⟩ := hstops _ (hscript ▸ List.mem_cons_self)
      cases hop
  | write who answer =>
    obtain ⟨pc, hwriting, -⟩ := Option.bind_eq_some_iff.mp hs
    cases (h.writing who).symm.trans hwriting
  | receive kind payload terminal =>
    exact absurd (Option.ite_none_right_eq_some.mp hs).1 (h.not_receiving kind)
  | finish kind => exact absurd (Option.ite_none_right_eq_some.mp hs).1 (h.not_receiving kind)
  | joined =>
    simp only [SharedWriter.step] at hs
    split at hs
    · rename_i kind hstopping
      obtain ⟨-, hr⟩ := Option.ite_none_right_eq_some.mp hs
      cases hr
      obtain ⟨hleaving, hwriting, hended⟩ := h.released kind
      exact ⟨⟨hleaving, hwriting, hended⟩, rfl, rfl⟩
    · cases hs
  | abort =>
    simp only [SharedWriter.step] at hs
    split at hs <;> cases hs
    exact ⟨h.released _, rfl, rfl⟩

end Connection

/-- A forwarder is aborted in the middle of a frame only where the stream is broken, or the handler
has left its loop and the other forwarder has ended. -/
def unharmful (c : Connection) : Action → Bool
  | .abort =>
    match c.handler with
    | .stopping kind =>
      !c.midFrame kind || c.broken || (c.leaving && c.ended kind.other)
    | _ => true
  | _ => true

namespace Connection

variable {c c' : Connection}

theorem Whole.abort (h : Whole c) {kind : TaskKind} (hstopping : c.handler = .stopping kind)
    (hc : c.midFrame kind = true → c.broken = true ∨ c.leaving = true ∧ c.ended kind.other = true) :
    Whole { (c.setForwarder kind none).release (.forwarder kind) with handler := .running } := by
  set c' : Connection :=
    { (c.setForwarder kind none).release (.forwarder kind) with handler := .running } with hc'
  have hwriting : ∀ who, c'.writing who = if who = .forwarder kind then none else c.writing who := by
    intro who
    cases who with
    | handler =>
      rw [if_neg (nomatch ·), writing, writing, hstopping]
      rfl
    | forwarder kind' => exact setForwarder_writing c kind none (.forwarder kind')
  have hholding : ∀ who, c'.holding who = if who = .forwarder kind then none else c.holding who := by
    intro who
    rw [holding, hwriting]
    split <;> rfl
  have hlock : c'.lock = if c.lock = some (.forwarder kind) then none else c.lock := rfl
  have hintact : c.midFrame kind = false → c.Intact → c'.Intact := by
    intro hmid hintact
    have hcurrent : c'.current = c.current := by
      by_cases hheld : c.lock = some (.forwarder kind)
      · rw [current_of_free (hlock.trans (if_pos hheld)), current_of_lock hheld]
        unfold midFrame at hmid
        rw [holding]
        cases hpc : c.writing (.forwarder kind) with
        | none => rfl
        | some pc =>
          rw [hpc] at hmid
          have hnone : pc.begun = none :=
            Option.isNone_iff_eq_none.mp (Option.isSome_eq_false_iff.mp hmid)
          cases hholds : pc.holds with
          | false => rw [Option.filter_some_neg hholds]; rfl
          | true => rw [Option.filter_some_pos hholds]; exact hnone.symm
      · cases hany : c.lock with
        | none => rw [current_of_free (hlock.trans ((if_neg hheld).trans hany)), current_of_free hany]
        | some who =>
          rw [current_of_lock (hlock.trans ((if_neg hheld).trans hany)), current_of_lock hany,
            hholding, if_neg]
          rintro rfl
          exact hheld hany
    rw [Intact, hcurrent]
    exact hintact
  refine ⟨fun who => ?_, ?_, ?_⟩
  · rw [hlock, hholding]
    by_cases hwho : who = .forwarder kind
    · rw [if_pos hwho, hwho]
      split
      · exact ⟨fun h => (nomatch h), fun h => (nomatch h)⟩
      · rename_i hnot
        exact ⟨fun h => absurd h hnot, fun h => (nomatch h)⟩
    · rw [if_neg hwho, ← h.locked who]
      split
      · rename_i hheld
        rw [hheld]
        exact ⟨fun h => (nomatch h), fun h => absurd (Option.some.inj h).symm hwho⟩
      · exact Iff.rfl
  · exact fun hl => ⟨rfl, (h.leaving hl).2⟩
  · rcases h.framed with hi | ⟨hframed, hbroken | hgone⟩
    · cases hmid : c.midFrame kind with
      | false => exact .inl (hintact hmid hi)
      | true =>
        refine .inr ⟨hi.framed, (hc hmid).imp_right ?_⟩
        rintro ⟨hleaving, hother⟩
        have hothers : ∀ kind', kind' ≠ kind → c.ended kind' = true := by
          intro kind' hne
          rwa [TaskKind.eq_other hne]
        refine ⟨hleaving, fun who => ?_, fun kind' => ?_⟩
        · rw [hwriting]
          split
          · rfl
          · rename_i hne
            cases who with
            | handler => rw [writing, hstopping]; rfl
            | forwarder kind' =>
              exact writing_of_ended (hothers kind' fun heq => hne (heq ▸ rfl))
        · rw [ended_iff]
          change Function.update c.forwarders kind none kind' = none ∨
            Function.update c.forwarders kind none kind' = some .finished
          rw [Function.update_apply]
          split
          · exact .inl rfl
          · exact ended_iff.mp (hothers kind' ‹_›)
    · exact .inr ⟨hframed, .inl hbroken⟩
    · exact .inr ⟨hframed, .inr (hgone.released kind)⟩

theorem Whole.step {a : Action} (h : Whole c) (hc : unharmful c a = true)
    (hs : SharedWriter.step a c = some c') : Whole c' := by
  have hleaving := h.leaving.step hs
  by_cases habort : a = .abort
  · subst habort
    simp only [SharedWriter.step] at hs
    split at hs <;> cases hs
    rename_i kind hstopping
    refine h.abort hstopping fun hmid => ?_
    simp only [unharmful, hstopping, hmid, Bool.not_true, Bool.false_or, Bool.or_eq_true,
      Bool.and_eq_true] at hc
    exact hc
  by_cases hwrite : ∃ who answer, a = .write who answer
  · obtain ⟨who, answer, rfl⟩ := hwrite
    obtain ⟨pc, hwriting, hs⟩ := Option.bind_eq_some_iff.mp hs
    obtain ⟨⟨c₁, progress⟩, hstep, rfl⟩ := Option.map_eq_some_iff.mp hs
    have hwrote := writeStep_wrote hstep
    obtain ⟨hwire, hbegun, hbroken, -⟩ := proceed_stream c₁ who progress
    refine ⟨hwrote.lock_iff h.locked hwriting, hleaving, ?_⟩
    rcases h.framed with hintact | ⟨hframed, hb | hgone⟩
    · refine (hwrote.intact h.locked hwriting hintact).imp_right ?_
      rintro ⟨hw, hb, hbroken'⟩
      rw [hwire, hbegun, hbroken, hw, hb]
      exact ⟨hintact.framed, .inl hbroken'⟩
    · obtain ⟨hw, hb', hbroken'⟩ := hwrote.stream_of_broken hb
      rw [hwire, hbegun, hbroken, hw, hb']
      exact .inr ⟨hframed, .inl hbroken'⟩
    · cases (hgone.writing who).symm.trans hwriting
  · have hk := step_kept hs (fun who answer heq => hwrite ⟨who, answer, heq⟩) habort
    refine ⟨fun who => ?_, hleaving, ?_⟩
    · rw [hk.lock, hk.holding]
      exact h.locked who
    · rcases h.framed with hintact | ⟨hframed, hbroken | hgone⟩
      · exact .inl (hintact.kept hk)
      · rw [hk.wire, hk.begun, hk.broken]
        exact .inr ⟨hframed, .inl hbroken⟩
      · rw [hk.wire, hk.begun]
        exact .inr ⟨hframed, .inr (hgone.step h.leaving hs).1⟩

theorem opened_whole (welcome : List UInt8) : Whole (opened welcome) where
  locked who := by
    refine ⟨fun h => (nomatch h), fun h => ?_⟩
    cases who <;> cases h
  leaving := fun hl => (nomatch hl)
  framed := .inl rfl

end Connection

/-- The handler answers a `Hello` and an attach, and the forwarder has begun to write. -/
private def attached (written : Nat) : List Action :=
  [.next, .write .handler (.accepted 0), .write .handler (.accepted 5),
    .write .handler (.accepted 0), .request (.attach [2]), .next, .next,
    .write .handler (.accepted 0), .write .handler (.accepted 5), .write .handler (.accepted 0),
    .next, .receive .attach [3, 3] false, .write (.forwarder .attach) (.accepted 0),
    .write (.forwarder .attach) (.accepted written)]

end Shelly.Daemon.SharedWriter
