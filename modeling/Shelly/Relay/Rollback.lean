import Shelly.Relay.Rekey

namespace Shelly.Relay

section Effect

/-- What a prune leaves of a registration. -/
def RelayTask.pruned (s : RelayState) (x : RelayTask) (entry : Option DaemonRegistration) :
    Option DaemonRegistration :=
  match x.pruning with
  | some (now, .memory) =>
    entry.filter fun r =>
      !s.config.pruneStaleDaemons || decide (now - s.config.daemonRetentionMs ≤ r.updatedAtMs)
  | _ => entry

/-- The insertion goes through. -/
def RelayState.admits (s : RelayState) (id : String) (existing : Option DaemonRegistration)
    (registration : DaemonRegistration) : Bool :=
  !s.inner.daemonCapacityExceeded id maxDaemons &&
    !registrationKeyChanged (existing.map (·.publicKey)) (s.registeredKey id)
      registration.publicKey

/-- The registration that a step has accepted, for the daemon. -/
def RelayTask.accepts (s : RelayState) (id : String) : RelayTask → Option DaemonRegistration
  | .handle (.registerDaemon call (.inserting existing registration _)) =>
    if call.request.daemonNodeId = id ∧
        s.admits call.request.daemonNodeId existing registration = true then some registration
    else none
  | _ => none

/-- What a step, prunes apart, makes of the registration of a daemon: activity of the
daemon, an accepted registration, or the rollback of one. -/
def RelayTask.written (s : RelayState) (id : String) (x : RelayTask)
    (entry : Option DaemonRegistration) : Option DaemonRegistration :=
  match x with
  | .verify r _ (.refresh now key) _ =>
    if r.daemonNodeId = id then
      entry.map fun registration =>
        if registration.publicKey = key then { registration with updatedAtMs := now }
        else registration
    else entry
  | .handle (.registerDaemon call (.rollingBack existing registration)) =>
    if call.request.daemonNodeId = id ∧ entry = some registration then existing else entry
  | x => (x.accepts s id).or entry

end Effect

/-- The history of the request in one slot. `subject` is the daemon it registers,
`without` what would be registered had the request not been made: the prunes and all that
the other requests write, without what the request writes. `overtaken` says that this has
changed since the request observed the registration, and `written` that the request has
written the registration and no other registration has been accepted since. -/
structure Watch where
  subject : Option String
  without : String → Option DaemonRegistration
  overtaken : String → Bool
  written : String → Bool

namespace Watch

def of (subject : Option String) (s : RelayState) : Watch :=
  ⟨subject, fun id => s.inner.daemons.lookup id, fun _ => false, fun _ => false⟩

def subjectOf : RelayTask → Option String
  | .handle (.registerDaemon call _) => some call.request.daemonNodeId
  | _ => none

/-- The step at which a request observes the registration. -/
def observes : RelayTask → Bool
  | .handle (.registerDaemon _ (.observing _)) => true
  | _ => false

/-- A step of the request itself. -/
def own (x : RelayTask) (s s' : RelayState) (w : Watch) : Watch :=
  { w with
    without := fun id => x.pruned s (w.without id)
    overtaken := fun id =>
      !observes x && (w.overtaken id || decide (x.pruned s (w.without id) ≠ w.without id))
    written := fun id =>
      w.written id ||
        decide (s'.inner.daemons.lookup id ≠ x.pruned s (s.inner.daemons.lookup id)) }

/-- A step of another request. -/
def other (x : RelayTask) (s : RelayState) (w : Watch) : Watch :=
  { w with
    without := fun id => x.written s id (x.pruned s (w.without id))
    overtaken := fun id =>
      w.overtaken id || decide (x.written s id (x.pruned s (w.without id)) ≠ w.without id)
    written := fun id => w.written id && (x.accepts s id).isNone }

def update (i : Nat) (a : Move RelayTask RelayChoice RelayEvent) (p q : Pool RelayState RelayTask)
    (w : Watch) : Watch :=
  match a with
  | .spawn j x => if j = i then .of (subjectOf x) p.shared else w
  | .advance j _ =>
    match p.task j with
    | some x => if j = i then w.own x p.shared q.shared else w.other x p.shared
    | none => w
  | _ => w

end Watch

/-- The relay with the history of the request in slot `i`. -/
def watchedRelay (ext : Externals) (i : Nat) :
    Machine (Pool RelayState RelayTask × Watch) (Move RelayTask RelayChoice RelayEvent) :=
  (relayTasking ext).machine.watched (fun p => .of none p.shared) (Watch.update i)

/-- What lets a refused registration leave a trace. A rollback that finds its own insertion
must not have been overtaken since it observed what it puts back, and one that finds
something else must not be the last to have written. A refused insertion must not come
after activity that the request itself has recorded. -/
def RelayTask.settled (s : RelayState) (w : Watch) : RelayTask → Bool
  | .handle (.registerDaemon call (.inserting existing registration _)) =>
    s.admits call.request.daemonNodeId existing registration ||
      !w.written call.request.daemonNodeId
  | .handle (.registerDaemon call (.rollingBack _ registration)) =>
    if s.inner.daemons.lookup call.request.daemonNodeId = some registration then
      !w.overtaken call.request.daemonNodeId
    else !w.written call.request.daemonNodeId
  | _ => true

def rollbackSettled (i : Nat) (p : Pool RelayState RelayTask × Watch) :
    Move RelayTask RelayChoice RelayEvent → Bool
  | .advance j _ => decide (j ≠ i) || (p.1.task i).all fun x => x.settled p.1.shared p.2
  | _ => true

/-- What the request has put aside is what would be registered without it. -/
def Watch.Holds (w : Watch) (d : String) (existing : Option DaemonRegistration) : Prop :=
  w.overtaken d = false → w.without d = existing

/-- What the history of a registration says at each point of the request. -/
inductive RegistrationOk (s : RelayState) (w : Watch) (d : String) : RelayTask → Prop
  | starting (call : RegisterDaemonCall) : call.request.daemonNodeId = d → w.written d = false →
      RegistrationOk s w d (.handle (.registerDaemon call .start))
  | proving (call : RegisterDaemonCall) (id : String) (key key' : VerifyingKey)
      (proof : RegistrationProof) (pc : ProofPc) : call.request.daemonNodeId = d →
      w.written d = false →
      RegistrationOk s w d (.prove id key proof pc (.registerDaemon call (.observing key')))
  | observing (call : RegisterDaemonCall) (key : VerifyingKey) : call.request.daemonNodeId = d →
      w.written d = false →
      RegistrationOk s w d (.handle (.registerDaemon call (.observing key)))
  | verifying (r : SignedRequestContext) (limit : Bool) (pc : VerifyPc)
      (call : RegisterDaemonCall) (key : VerifyingKey) (existing : Option DaemonRegistration)
      (signer : Option VerifyingKey) : call.request.daemonNodeId = d → r.daemonNodeId = d →
      w.written d = false → w.Holds d existing →
      RegistrationOk s w d
        (.verify r limit pc (.registerDaemon call (.stamping key existing signer)))
  | stamping (call : RegisterDaemonCall) (key : VerifyingKey)
      (existing : Option DaemonRegistration) (signer : Option VerifyingKey) :
      call.request.daemonNodeId = d → w.Holds d existing →
      RegistrationOk s w d (.handle (.registerDaemon call (.stamping key existing signer)))
  | inserting (call : RegisterDaemonCall) (existing : Option DaemonRegistration)
      (registration : DaemonRegistration) (signer : Option VerifyingKey) :
      call.request.daemonNodeId = d → w.Holds d existing →
      RegistrationOk s w d
        (.handle (.registerDaemon call (.inserting existing registration signer)))
  | saving (call : RegisterDaemonCall) (existing : Option DaemonRegistration)
      (registration : DaemonRegistration) : call.request.daemonNodeId = d → w.Holds d existing →
      RegistrationOk s w d (.handle (.registerDaemon call (.saving existing registration)))
  | rollingBack (call : RegisterDaemonCall) (existing : Option DaemonRegistration)
      (registration : DaemonRegistration) : call.request.daemonNodeId = d → w.Holds d existing →
      RegistrationOk s w d (.handle (.registerDaemon call (.rollingBack existing registration)))
  | accepted : RegistrationOk s w d (.returned .ok)
  | failed (e : ApiError) : s.inner.daemons.lookup d = w.without d →
      RegistrationOk s w d (.fail e)

/-- Where the request has not written, the relay has what it would have without it. -/
structure Faithful (s : RelayState) (w : Watch) (d : String) (x : RelayTask) : Prop where
  agrees : ∀ id, w.written id = false → s.inner.daemons.lookup id = w.without id
  elsewhere : ∀ id, id ≠ d → w.written id = false
  phase : RegistrationOk s w d x

section Steps

variable {ext : Externals} {c : RelayChoice} {s s' : RelayState} {i : Nat} {x x' : RelayTask}
  {id : String}

theorem pruned_of_not_pruning (h : ∀ now, x.pruning ≠ some (now, .memory))
    (entry : Option DaemonRegistration) : x.pruned s entry = entry := by
  unfold RelayTask.pruned
  split
  · exact absurd ‹_› (h _)
  · rfl

theorem lookup_pruneMemory {now : Nat} (hx : x.pruning = some (now, .memory)) :
    (s.pruneMemory now).inner.daemons.lookup id = x.pruned s (s.inner.daemons.lookup id) := by
  simp only [RelayTask.pruned, hx, RelayState.pruneMemory, RelayInner.pruneExpired]
  ext r
  rw [Option.filter_eq_some_iff]
  split
  · rename_i hstale
    rw [RelayInner.activeDaemons, Table.lookup_retain, hstale, Bool.not_true, Bool.false_or]
  · rename_i hkeep
    simp [hkeep]

theorem pruneStep_lookup {now : Nat} {pc : PrunePc} (hx : x.pruning = some (now, pc)) :
    (pruneStep c now pc s).1.inner.daemons.lookup id =
      x.pruned s (s.inner.daemons.lookup id) := by
  cases pc with
  | gate =>
    rw [pruned_of_not_pruning fun now h => by cases hx.symm.trans h]
    simp only [pruneStep]
    split <;> rfl
  | memory => exact lookup_pruneMemory hx
  | store =>
    rw [pruned_of_not_pruning fun now h => by cases hx.symm.trans h]
    simp only [pruneStep]
    split <;> rfl

theorem verifyStep_lookup {r : SignedRequestContext} {limit : Bool} {pc : VerifyPc}
    {rest : Handler} :
    (verifyStep ext c r limit pc s).1.inner.daemons.lookup id =
      (RelayTask.verify r limit pc rest).written s id
        ((RelayTask.verify r limit pc rest).pruned s (s.inner.daemons.lookup id)) := by
  cases pc with
  | pruning now pc =>
    have h : (pruneStep c now pc s).1.inner.daemons.lookup id =
        (RelayTask.verify r limit (.pruning now pc) rest).pruned s (s.inner.daemons.lookup id) :=
      pruneStep_lookup rfl
    refine Eq.trans ?_ h
    simp only [verifyStep]
    split <;> rename_i heq <;> rw [heq]
  | refresh now key =>
    simp only [verifyStep, RelayTask.written, RelayTask.pruned, RelayTask.pruning,
      Table.lookup_modify]
    split
    · rename_i hid
      rw [if_pos hid.symm, hid]
    · rename_i hid
      rw [if_neg fun h => hid h.symm]
  | start | readKey | markNonce | recordActivity =>
    refine Eq.trans ?_ (Option.none_or (o := s.inner.daemons.lookup id)).symm
    simp only [verifyStep]
    repeat' split
    all_goals rfl

theorem proofStep_lookup {daemonNodeId : String} {key : VerifyingKey} {proof : RegistrationProof}
    {pc : ProofPc} {rest : Handler} :
    (proofStep ext c daemonNodeId key proof pc s).1.inner.daemons.lookup id =
      (RelayTask.prove daemonNodeId key proof pc rest).written s id
        ((RelayTask.prove daemonNodeId key proof pc rest).pruned s
          (s.inner.daemons.lookup id)) := by
  cases pc with
  | pruning now pc =>
    have h : (pruneStep c now pc s).1.inner.daemons.lookup id =
        (RelayTask.prove daemonNodeId key proof (.pruning now pc) rest).pruned s
          (s.inner.daemons.lookup id) := pruneStep_lookup rfl
    refine Eq.trans ?_ h
    simp only [proofStep]
    split <;> rename_i heq <;> rw [heq]
  | start | markNonce | recordNonce =>
    refine Eq.trans ?_ (Option.none_or (o := s.inner.daemons.lookup id)).symm
    simp only [proofStep]
    repeat' split
    all_goals rfl

/-- The insertion of a registration. -/
theorem inserting_step {call : RegisterDaemonCall} {existing : Option DaemonRegistration}
    {registration : DaemonRegistration} {signer : Option VerifyingKey}
    (hs : registerDaemonStep ext c call s (.inserting existing registration signer) = (s', x')) :
    (s.admits call.request.daemonNodeId existing registration = true ∧
      s' = s.setDaemon call.request.daemonNodeId registration ∧
      x' = .handle (.registerDaemon call (.saving existing registration))) ∨
    s.admits call.request.daemonNodeId existing registration = false ∧ s' = s ∧
      ∃ e, x' = .fail e := by
  unfold RelayState.admits
  simp only [registerDaemonStep] at hs
  split at hs
  · rename_i hfull
    cases hs
    rw [hfull]
    exact .inr ⟨rfl, rfl, _, rfl⟩
  · rename_i hfull
    rw [Bool.eq_false_iff.mpr hfull]
    split at hs
    · rename_i hchanged
      cases hs
      rw [hchanged]
      exact .inr ⟨rfl, rfl, _, rfl⟩
    · rename_i hchanged
      cases hs
      rw [Bool.eq_false_iff.mpr hchanged]
      exact .inl ⟨rfl, rfl, rfl⟩

theorem lookup_rollback {d : String} {existing : Option DaemonRegistration}
    {registration : DaemonRegistration} :
    (rollbackDaemonRegistration d existing registration s).inner.daemons.lookup id =
      if d = id ∧ s.inner.daemons.lookup id = some registration then existing
      else s.inner.daemons.lookup id := by
  unfold rollbackDaemonRegistration
  split
  · rename_i hl
    rw [if_neg]
    rintro ⟨rfl, h⟩
    exact hl h
  · rename_i hl
    rw [ne_eq, not_not] at hl
    by_cases hid : d = id
    · subst hid
      rw [if_pos ⟨rfl, hl⟩]
      cases existing with
      | some r => exact Table.lookup_insert_self _ _ _
      | none => exact Table.lookup_erase_self _ _
    · rw [if_neg fun h => hid h.1]
      cases existing with
      | some r => exact (Table.lookup_insert _ _ _ _).trans (if_neg fun h => hid h.symm)
      | none => exact (Table.lookup_erase _ _ _).trans (if_neg fun h => hid h.symm)

theorem registerDaemonStep_lookup {call : RegisterDaemonCall} {pc : RegisterDaemonPc}
    (hs : registerDaemonStep ext c call s pc = (s', x')) :
    s'.inner.daemons.lookup id =
      (RelayTask.handle (.registerDaemon call pc)).written s id (s.inner.daemons.lookup id) := by
  cases pc with
  | start | observing | saving =>
    refine Eq.trans ?_ (Option.none_or (o := s.inner.daemons.lookup id)).symm
    simp only [registerDaemonStep] at hs
    repeat' split at hs
    all_goals cases hs; rfl
  | stamping =>
    cases hs
    exact Option.none_or.symm
  | inserting existing registration signer =>
    simp only [RelayTask.written, RelayTask.accepts]
    rcases inserting_step hs with ⟨hadmits, rfl, -⟩ | ⟨hadmits, rfl, -⟩
    · rw [RelayState.setDaemon, Table.lookup_insert]
      by_cases hid : id = call.request.daemonNodeId
      · rw [if_pos hid, if_pos ⟨hid.symm, hadmits⟩, Option.some_or]
      · rw [if_neg hid, if_neg fun h => hid h.1.symm, Option.none_or]
    · rw [if_neg fun h => Bool.false_ne_true (hadmits.symm.trans h.2), Option.none_or]
  | rollingBack existing registration =>
    cases hs
    exact lookup_rollback

/-- What a step makes of the registrations in memory. -/
theorem lookup_advance (hs : relayAdvance ext c i x s = some (s', x')) (id : String) :
    s'.inner.daemons.lookup id = x.written s id (x.pruned s (s.inner.daemons.lookup id)) := by
  cases x with
  | verify r limit pc rest =>
    have hlookup : (verifyStep ext c r limit pc s).1.inner.daemons.lookup id =
        (RelayTask.verify r limit pc rest).written s id
          ((RelayTask.verify r limit pc rest).pruned s (s.inner.daemons.lookup id)) :=
      verifyStep_lookup
    rcases verify_advance hs with ⟨pc', h, -⟩ | ⟨key, h, -⟩ | ⟨e, h, -⟩ <;>
      rwa [h] at hlookup
  | prove daemonNodeId key proof pc rest =>
    have hlookup : (proofStep ext c daemonNodeId key proof pc s).1.inner.daemons.lookup id =
        (RelayTask.prove daemonNodeId key proof pc rest).written s id
          ((RelayTask.prove daemonNodeId key proof pc rest).pruned s
            (s.inner.daemons.lookup id)) := proofStep_lookup
    rcases prove_advance hs with ⟨pc', h, -⟩ | ⟨h, -⟩ | ⟨e, h, -⟩ <;> rwa [h] at hlookup
  | handle hd =>
    have hstep := handle_advance hs
    cases hd with
    | registerDaemon call pc => exact registerDaemonStep_lookup hstep
    | registerToken | unregisterToken | push | publish | resolve =>
      have h := handlerStep_daemons hstep fun call pc h => by cases h
      rw [h]
      exact Option.none_or.symm
  | returned => cases hs

/-- A step that accepts a registration leaves it registered, whatever was. -/
theorem written_of_accepts {registration : DaemonRegistration}
    (h : x.accepts s id = some registration) (entry : Option DaemonRegistration) :
    x.written s id entry = some registration := by
  unfold RelayTask.written
  split
  · cases h
  · cases h
  · rw [h, Option.some_or]

variable {w w' : Watch} {d : String} {y : RelayTask}

/-- The request writes no registration but its daemon's. -/
theorem written_elsewhere (h : RegistrationOk s w d x) (hid : id ≠ d)
    (entry : Option DaemonRegistration) : x.written s id entry = entry := by
  cases h with
  | verifying r limit pc call key existing signer _ hr =>
    cases pc with
    | refresh => exact if_neg fun h => hid (h.symm.trans hr)
    | start | pruning | readKey | markNonce | recordActivity => exact Option.none_or
  | inserting call existing registration signer hcall =>
    simp only [RelayTask.written, RelayTask.accepts]
    rw [if_neg fun h => hid (h.1.symm.trans hcall), Option.none_or]
  | rollingBack call existing registration hcall =>
    exact if_neg fun h => hid (h.1.symm.trans hcall)
  | starting | proving | observing | stamping | saving | accepted | failed => exact Option.none_or

theorem Watch.Holds.mono {existing : Option DaemonRegistration}
    (hovertaken : w'.overtaken d = false → w.overtaken d = false ∧ w'.without d = w.without d)
    (h : w.Holds d existing) : w'.Holds d existing := by
  intro ho
  obtain ⟨ho, hsame⟩ := hovertaken ho
  exact hsame.trans (h ho)

theorem RegistrationOk.mono (hwritten : w.written d = false → w'.written d = false)
    (hovertaken : w'.overtaken d = false → w.overtaken d = false ∧ w'.without d = w.without d)
    (hlookup : s.inner.daemons.lookup d = w.without d → s'.inner.daemons.lookup d = w'.without d)
    (h : RegistrationOk s w d y) : RegistrationOk s' w' d y := by
  cases h with
  | starting call hid hw => exact .starting call hid (hwritten hw)
  | proving call id key key' proof pc hid hw =>
    exact .proving call id key key' proof pc hid (hwritten hw)
  | observing call key hid hw => exact .observing call key hid (hwritten hw)
  | verifying r limit pc call key existing signer hid hr hw he =>
    exact .verifying r limit pc call key existing signer hid hr (hwritten hw) (he.mono hovertaken)
  | stamping call key existing signer hid he =>
    exact .stamping call key existing signer hid (he.mono hovertaken)
  | inserting call existing registration signer hid he =>
    exact .inserting call existing registration signer hid (he.mono hovertaken)
  | saving call existing registration hid he =>
    exact .saving call existing registration hid (he.mono hovertaken)
  | rollingBack call existing registration hid he =>
    exact .rollingBack call existing registration hid (he.mono hovertaken)
  | accepted => exact .accepted
  | failed e hl => exact .failed e (hlookup hl)

theorem other_overtaken (h : (w.other x s).overtaken id = false) :
    w.overtaken id = false ∧ (w.other x s).without id = w.without id := by
  obtain ⟨h, hsame⟩ := Bool.or_eq_false_iff.mp h
  exact ⟨h, not_not.mp (of_decide_eq_false hsame)⟩

theorem own_overtaken (hx : Watch.observes x = false) (h : (w.own x s s').overtaken id = false) :
    w.overtaken id = false ∧ (w.own x s s').without id = w.without id := by
  simp only [Watch.own, hx, Bool.not_false, Bool.true_and] at h
  obtain ⟨h, hsame⟩ := Bool.or_eq_false_iff.mp h
  exact ⟨h, not_not.mp (of_decide_eq_false hsame)⟩

/-- Another request does the same to what is registered and to what would be. -/
theorem faithful_other (hok : Faithful s w d y)
    (hs : relayAdvance ext c i x s = some (s', x')) : Faithful s' (w.other x s) d y := by
  have hlookup {id : String} (h : s.inner.daemons.lookup id = w.without id) :
      s'.inner.daemons.lookup id = (w.other x s).without id := by
    rw [lookup_advance hs, h]
    rfl
  refine ⟨fun id hid => ?_, fun id hid => ?_, hok.phase.mono ?_ other_overtaken hlookup⟩
  · rcases Bool.and_eq_false_iff.mp hid with hid | hid
    · exact hlookup (hok.agrees id hid)
    · obtain ⟨registration, hr⟩ := Option.isSome_iff_exists.mp
        (Option.isNone_eq_false_iff.mp hid)
      rw [lookup_advance hs, written_of_accepts hr]
      exact (written_of_accepts hr _).symm
  · exact Bool.and_eq_false_iff.mpr (.inl (hok.elsewhere id hid))
  · exact fun h => Bool.and_eq_false_iff.mpr (.inl h)

theorem own_agrees (hok : Faithful s w d x) (h : (w.own x s s').written id = false) :
    s'.inner.daemons.lookup id = (w.own x s s').without id := by
  obtain ⟨hw, hsame⟩ := Bool.or_eq_false_iff.mp h
  rw [not_not.mp (of_decide_eq_false hsame), hok.agrees id hw]
  rfl

/-- A step that writes nothing is no step of the request's history. -/
theorem own_written (hs : relayAdvance ext c i x s = some (s', x'))
    (hquiet : ∀ entry, x.written s id entry = entry) (hw : w.written id = false) :
    (w.own x s s').written id = false := by
  refine Bool.or_eq_false_iff.mpr ⟨hw, decide_eq_false (not_not.mpr ?_)⟩
  rw [lookup_advance hs, hquiet]

theorem verifyStep_quiet {r : SignedRequestContext} {limit : Bool} {pc : VerifyPc}
    {rest : Handler} (h : ∀ key, (verifyStep ext c r limit pc s).2 ≠ .done key)
    (entry : Option DaemonRegistration) :
    (RelayTask.verify r limit pc rest).written s id entry = entry := by
  cases pc with
  | refresh now key => exact absurd rfl (h key)
  | start | pruning | readKey | markNonce | recordActivity => exact Option.none_or

theorem phase_own (hok : Faithful s w d x) (hsettled : x.settled s w = true)
    (hs : relayAdvance ext c i x s = some (s', x')) :
    RegistrationOk s' (w.own x s s') d x' := by
  have failed (e : ApiError) (h : (w.own x s s').written d = false) :
      RegistrationOk s' (w.own x s s') d (.fail e) := .failed e (own_agrees hok h)
  have kept (hx : Watch.observes x = false) {existing : Option DaemonRegistration}
      (he : w.Holds d existing) : (w.own x s s').Holds d existing := he.mono (own_overtaken hx)
  cases hok.phase with
  | starting call hid hw =>
    have hw := own_written hs (fun _ => Option.none_or) hw
    have hstep : registerDaemonStep ext c call s .start = (s', x') := handle_advance hs
    simp only [registerDaemonStep] at hstep
    repeat' split at hstep
    all_goals cases hstep
    · exact failed _ hw
    · exact failed _ hw
    · exact .proving call _ _ _ _ _ hid hw
    · exact .observing call _ hid hw
  | proving call id key key' proof pc hid hw =>
    have hw := own_written hs (fun _ => Option.none_or) hw
    rcases prove_advance hs with ⟨pc', -, rfl⟩ | ⟨-, rfl⟩ | ⟨e, -, rfl⟩
    · exact .proving call id key key' proof pc' hid hw
    · exact .observing call key' hid hw
    · exact failed e hw
  | observing call key hid hw =>
    have hl : s.inner.daemons.lookup d = w.without d := hok.agrees d hw
    have hw := own_written hs (fun _ => Option.none_or) hw
    have hstep : registerDaemonStep ext c call s (.observing key) = (s', x') := handle_advance hs
    simp only [registerDaemonStep] at hstep
    repeat' split at hstep
    all_goals cases hstep
    · exact failed _ hw
    · exact .verifying _ _ _ call key _ _ hid hid hw fun _ => hid ▸ hl.symm
    · exact failed _ hw
    · exact .stamping call key _ _ hid fun _ => hid ▸ hl.symm
  | verifying r limit pc call key existing signer hid hr hw he =>
    have he := kept rfl he
    rcases verify_advance hs with ⟨pc', h, rfl⟩ | ⟨key', h, rfl⟩ | ⟨e, h, rfl⟩
    · have hw := own_written hs (verifyStep_quiet fun key' => by rw [h]; rintro ⟨⟩) hw
      exact .verifying r limit pc' call key existing signer hid hr hw he
    · exact .stamping call key existing _ hid he
    · have hw := own_written hs (verifyStep_quiet fun key' => by rw [h]; rintro ⟨⟩) hw
      exact failed e hw
  | stamping call key existing signer hid he =>
    have he := kept rfl he
    cases handle_advance hs
    exact .inserting call existing _ signer hid he
  | inserting call existing registration signer hid he =>
    have hstep : registerDaemonStep ext c call s (.inserting existing registration signer) =
        (s', x') := handle_advance hs
    rcases inserting_step hstep with ⟨-, -, rfl⟩ | ⟨hrefused, -, e, rfl⟩
    · exact .saving call existing registration hid (kept rfl he)
    · refine failed e (own_written hs ?_ ?_)
      · intro entry
        simp only [RelayTask.written, RelayTask.accepts, hrefused]
        rw [if_neg fun h => Bool.false_ne_true h.2, Option.none_or]
      · rw [RelayTask.settled, hrefused, Bool.false_or, hid, Bool.not_eq_true'] at hsettled
        exact hsettled
  | saving call existing registration hid he =>
    have he := kept rfl he
    have hstep : registerDaemonStep ext c call s (.saving existing registration) = (s', x') :=
      handle_advance hs
    simp only [registerDaemonStep] at hstep
    split at hstep <;> cases hstep
    · exact .accepted
    · exact .rollingBack call existing registration hid he
  | rollingBack call existing registration hid he =>
    have hlookup := lookup_advance hs d
    cases handle_advance hs
    refine .failed _ (hlookup.trans ?_)
    simp only [RelayTask.settled, hid] at hsettled
    by_cases hl : s.inner.daemons.lookup d = some registration
    · rw [if_pos hl, Bool.not_eq_true'] at hsettled
      exact (if_pos ⟨hid, hl⟩).trans (he hsettled).symm
    · rw [if_neg hl, Bool.not_eq_true'] at hsettled
      exact (if_neg fun h => hl h.2).trans (hok.agrees d hsettled)
  | accepted => cases hs
  | failed => cases hs

/-- A step of the request itself. -/
theorem faithful_own (hok : Faithful s w d x) (hsettled : x.settled s w = true)
    (hs : relayAdvance ext c i x s = some (s', x')) : Faithful s' (w.own x s s') d x' where
  agrees _ hid := own_agrees hok hid
  elsewhere id hid := own_written hs (written_elsewhere hok.phase hid) (hok.elsewhere id hid)
  phase := phase_own hok hsettled hs

end Steps

/-- The history of a registration in slot `i` is faithful. -/
def WatchOk (i : Nat) (p : Pool RelayState RelayTask × Watch) : Prop :=
  ∀ d x, p.2.subject = some d → p.1.task i = some x → Faithful p.1.shared p.2 d x

section Runs

variable {ext : Externals} {i : Nat} {p q : Pool RelayState RelayTask × Watch}
  {a : Move RelayTask RelayChoice RelayEvent}

theorem faithful_of_arrives {s : RelayState} {x : RelayTask} {d : String}
    (hx : x.arrives ext = true) (hd : Watch.subjectOf x = some d) :
    Faithful s (.of (Watch.subjectOf x) s) d x := by
  refine ⟨fun _ _ => rfl, fun _ _ => rfl, ?_⟩
  cases arrival_of_arrives hx with
  | registerDaemon call => exact .starting call (Option.some.inj hd) rfl
  | registerToken | unregisterToken | push | publish | resolve => cases hd

theorem watchOk_step (hp : WatchOk i p) (hc : rollbackSettled i p a = true)
    (hs : (watchedRelay ext i).step a p = some q) : WatchOk i q := by
  obtain ⟨hstep, hw⟩ := Machine.watched_step hs
  obtain ⟨p, w⟩ := p
  obtain ⟨q, w'⟩ := q
  obtain rfl : w' = Watch.update i a p q w := hw
  intro d y hd hy
  replace hstep : Tasking.Stepped (relayTasking ext) p a q := Tasking.stepped_of_step hstep
  cases hstep with
  | spawn j x hx hj =>
    simp only [Watch.update] at hd ⊢
    simp only [Pool.setTask_task] at hy
    by_cases hji : j = i
    · subst hji
      rw [if_pos rfl] at hd hy ⊢
      obtain rfl := Option.some.inj hy
      exact faithful_of_arrives hx hd
    · rw [if_neg hji] at hd ⊢
      rw [if_neg fun h => hji h.symm] at hy
      exact hp d y hd hy
  | advance j c x x' s' ht hr =>
    simp only [Watch.update, ht] at hd ⊢
    simp only [Pool.setTask_task] at hy
    by_cases hji : j = i
    · subst hji
      rw [if_pos rfl] at hd hy ⊢
      obtain rfl := Option.some.inj hy
      simp only [rollbackSettled, ht, ne_eq, not_true_eq_false, decide_false, Bool.false_or,
        Option.all_some] at hc
      exact faithful_own (i := j) (hp d x hd ht) hc hr
    · rw [if_neg hji] at hd ⊢
      rw [if_neg fun h => hji h.symm] at hy
      exact faithful_other (i := j) (hp d y hd hy) hr
  | drop j x ht hx =>
    simp only [Pool.dropTask_task] at hy
    split at hy
    · cases hy
    · exact hp d y hd hy
  | keep e s' hr =>
    have hok := hp d y hd hy
    cases e with
    | tick ms =>
      obtain ⟨-, hr⟩ := Option.ite_none_right_eq_some.mp hr
      cases hr
      exact ⟨hok.agrees, hok.elsewhere, RegistrationOk.mono (s := p.shared) (w := w) id
        (fun h => ⟨h, rfl⟩) id hok.phase⟩
    | restart =>
      obtain ⟨st, -, hr⟩ := Option.bind_eq_some_iff.mp hr
      obtain ⟨r, -, hr⟩ := Option.map_eq_some_iff.mp hr
      cases hr
  | clear e s' hr => simp only [Pool.empty_task] at hy; cases hy

/-- Every run of the relay has its history. -/
theorem reachable_iff_watched (i : Nat) (p : Pool RelayState RelayTask) :
    (relayTasking ext).machine.Reachable p ↔ ∃ w, (watchedRelay ext i).Reachable (p, w) :=
  ⟨fun h => h.watched _ _, fun ⟨_, h⟩ => Machine.ReachableWhen.of_watched (C := Machine.Any) h⟩

/-- Once a registration is answered with an error, the registrations in memory are what they
would be had the request not been made. -/
theorem failed_registration_leaves_no_trace {d : String} {e : ApiError}
    (h : (watchedRelay ext i).ReachableWhen (fun p a => rollbackSettled i p a = true) p)
    (hd : p.2.subject = some d) (ht : p.1.task i = some (.fail e)) (id : String) :
    p.1.shared.inner.daemons.lookup id = p.2.without id := by
  have hok : Faithful p.1.shared p.2 d (.fail e) := by
    refine h.invariant (I := WatchOk i) (fun s hi d x hd => ?_)
      (fun p a q hp hc hs => watchOk_step hp hc hs) d _ hd ht
    rw [hi.2] at hd
    cases hd
  by_cases hid : id = d
  · cases hok.phase with
    | failed _ hl => exact hid ▸ hl
  · exact hok.agrees id (hok.elsewhere id hid)

end Runs

section Traces

private def newcomer : String := "daemon-0123456789"

/-- A registration without a signature, and a push token of the daemon. -/
private def newcomerScript : Externals :=
  .playing ⟨[⟨newcomer, keyText 'A', none, none, none⟩],
    [⟨newcomer, .apns, "push-token-number-1", "nonce-0000000001", 1000⟩], [], [], []⟩

private def enlist (i : Nat) : Move RelayTask RelayChoice RelayEvent :=
  arriving newcomerScript i "/v1/pair" [0] none

private def unsaved : RelayChoice := { RelayChoice.fine with storeOk := false }

/-- A daemon registers again and the database fails: what was registered is there. -/
theorem failed_registration_leaves_no_trace_run :
    ∃ p : Pool RelayState RelayTask × Watch, p.1.task 1 = some (.fail .internal) ∧
      (p.2.without newcomer).isSome ∧
      p.1.shared.inner.daemons.lookup newcomer = p.2.without newcomer := by
  obtain ⟨p, hr, hd, ht, hsome⟩ :=
    (watchedRelay newcomerScript 1).exists_reachable_of_exec
      (fun p a => rollbackSettled 1 p a = true)
      (fun p => p.2.subject = some newcomer ∧ p.1.task 1 = some (.fail .internal) ∧
        (p.2.without newcomer).isSome)
      (List.flatten [[enlist 0], Move.repeated 5 0 .fine, [.environment (.tick 1), enlist 1],
        Move.repeated 6 1 unsaved])
      (Machine.watched_init (Tasking.init_empty (RelayState.opened_new 1000 (.inr rfl))))
      (by decide)
  exact ⟨p, ht, hsome, failed_registration_leaves_no_trace hr hd ht newcomer⟩

/-- A first registration has been inserted. Before the database refuses it, the daemon
signs a request, and the rollback no longer finds what it inserted. -/
theorem failed_registration_left :
    ¬ ∀ (ext : Externals) (i : Nat) (p : Pool RelayState RelayTask × Watch) (d : String)
      (e : ApiError), (watchedRelay ext i).Reachable p → p.2.subject = some d →
      p.1.task i = some (.fail e) →
      ∀ id, p.1.shared.inner.daemons.lookup id = p.2.without id := by
  intro hall
  obtain ⟨p, hr, hd, ht, hleft⟩ :=
    (watchedRelay newcomerScript 0).exists_reachable_of_exec Machine.Any
      (fun p => p.2.subject = some newcomer ∧ p.1.task 0 = some (.fail .internal) ∧
        p.1.shared.inner.daemons.lookup newcomer ≠ p.2.without newcomer)
      (List.flatten [[enlist 0], Move.repeated 4 0 .fine, [.environment (.tick 1),
        arriving newcomerScript 1 "/v1/push/register-token" [0] (signedBy 'A')],
        Move.repeated 6 1 .fine, Move.repeated 2 0 unsaved])
      (Machine.watched_init (Tasking.init_empty (RelayState.opened_new 1000 (.inr rfl))))
      (by decide)
  exact hleft (hall newcomerScript 0 p newcomer _ hr hd ht newcomer)

end Traces

end Shelly.Relay
