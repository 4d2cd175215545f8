import Shelly.Daemon.SizeNegotiation

namespace Shelly.Daemon

variable {T : Type*} {E : Emulator T} {s s' : SizedSession T}

namespace SizedSession

variable (s : SizedSession T)

/-- `resize`; `ok` says whether the terminal takes the size. The projection is built anew from the
ring when it fails. -/
def tryResize (E : Emulator T) (ok : Bool) (size : ClientSize) : Bool × SizedSession T :=
  if ok then
    let (failure, s') := s.resize E size
    if failure.isSome then
      (true, { s' with
        toLiveSession := s'.rebuildTerminalProjection E s'.ring.snapshot })
    else (true, s')
  else (false, s)

def applyMinAttachedResize (E : Emulator T) (ok : Bool) : Bool × SizedSession T :=
  match s.minAttached with
  | some size => s.tryResize E ok size
  | none => (true, s)

/-- Whether the call returns `Ok`, and the session it leaves. The guard that takes the size back
when it is dropped is only made after the resize. -/
def attachClient (E : Emulator T) (ok : Bool) (clientId : Nat) (size : ClientSize) :
    Bool × SizedSession T :=
  { s with attachedSizes := s.attachedSizes.insert clientId size }.applyMinAttachedResize E ok

def updateClientSize (clientId : Nat) (size : ClientSize) : SizedSession T :=
  { s with
    attachedSizes := s.attachedSizes.modify clientId fun _ => size }.scheduleMinAttachedResize

def detachClient (clientId : Nat) : SizedSession T :=
  { s with attachedSizes := s.attachedSizes.erase clientId }.scheduleMinAttachedResize

end SizedSession

namespace Resizing

/-- A call that touches the attached sizes or applies them; `resize` is the one of the resize
thread. -/
inductive Call
  | attach (ok : Bool) (clientId : Nat) (size : ClientSize)
  | updateSize (clientId : Nat) (size : ClientSize)
  | detach (clientId : Nat)
  | resize (ok : Bool)

def Call.run (E : Emulator T) : Call → SizedSession T → SizedSession T
  | .attach ok clientId size, s => (s.attachClient E ok clientId size).2
  | .updateSize clientId size, s => s.updateClientSize clientId size
  | .detach clientId, s => s.detachClient clientId
  | .resize ok, s => (s.applyMinAttachedResize E ok).2

/-- Calls one after the other. -/
def runCalls (E : Emulator T) (calls : List Call) (s : SizedSession T) : SizedSession T :=
  calls.foldl (fun s call => call.run E s) s

/-- The sizes in the table. -/
def sizesOf (s : SizedSession T) : Set ClientSize :=
  {size | ∃ clientId, s.attachedSizes.lookup clientId = some size}

/-- A call that failed has left the sizes as they were, and every resize that is applied later
gives the least of the sizes that there would be without the call. -/
structure Traceless (E : Emulator T) (before after : SizedSession T) : Prop where
  sizes : ∀ clientId, after.attachedSizes.lookup clientId = before.attachedSizes.lookup clientId
  later : ∀ calls size, IsMin (sizesOf (runCalls E calls before)) size →
    Sized ((runCalls E calls after).applyMinAttachedResize E true).2 size
  unattached : ∀ calls, sizesOf (runCalls E calls before) = ∅ →
    (runCalls E calls after).applyMinAttachedResize E true = (true, runCalls E calls after)

/-- Two sessions with the same table of sizes, in whatever order it lists them. -/
def SameSizes (s s' : SizedSession T) : Prop :=
  ∀ clientId, s'.attachedSizes.lookup clientId = s.attachedSizes.lookup clientId

section Calls

variable {ok : Bool} {clientId : Nat} {size : ClientSize}

theorem tryResize_attachedSizes : (s.tryResize E ok size).2.attachedSizes = s.attachedSizes := by
  unfold SizedSession.tryResize
  split
  · dsimp only
    split <;> rfl
  · rfl

theorem tryResize_fst : (s.tryResize E ok size).1 = ok := by
  unfold SizedSession.tryResize
  cases ok with
  | false => rfl
  | true =>
    simp only [if_true]
    split <;> rfl

theorem tryResize_sized (size : ClientSize) : Sized (s.tryResize E true size).2 size := by
  have hsize : (s.terminal.resize E size).2.size = size := TerminalProjection.resize_size size
  have huniform : (s.terminal.resize E size).2.Uniform := TerminalProjection.uniform_resize size
  simp only [SizedSession.tryResize, if_true]
  split
  · have hrebuilt : ∀ start scrollback r,
        ((s.terminal.resize E size).2.rebuild E start scrollback r).2.1.size = size := by
      intro start scrollback r
      exact (TerminalProjection.rebuild_size start scrollback r).trans hsize
    refine ⟨rfl, hrebuilt _ _ _, fun m hm => ?_⟩
    exact (TerminalProjection.uniform_rebuild _ _ _ m hm).trans (hrebuilt _ _ _)
  · exact ⟨rfl, hsize, fun m hm => (huniform m hm).trans hsize⟩

theorem apply_attachedSizes :
    (s.applyMinAttachedResize E ok).2.attachedSizes = s.attachedSizes := by
  unfold SizedSession.applyMinAttachedResize
  split
  · exact tryResize_attachedSizes
  · rfl

theorem attachClient_attachedSizes :
    (s.attachClient E ok clientId size).2.attachedSizes =
      s.attachedSizes.insert clientId size := apply_attachedSizes

theorem updateClientSize_attachedSizes :
    (s.updateClientSize clientId size).attachedSizes =
      s.attachedSizes.modify clientId fun _ => size := schedule_attachedSizes _

theorem detachClient_attachedSizes :
    (s.detachClient clientId).attachedSizes = s.attachedSizes.erase clientId :=
  schedule_attachedSizes _

theorem SameSizes.run (h : SameSizes s s') (call : Call) :
    SameSizes (call.run E s) (call.run E s') := by
  intro clientId
  cases call with
  | attach ok other size =>
    simp only [Call.run, attachClient_attachedSizes, Table.lookup_insert, h clientId]
  | updateSize other size =>
    simp only [Call.run, updateClientSize_attachedSizes, Table.lookup_modify, h clientId]
  | detach other =>
    simp only [Call.run, detachClient_attachedSizes, Table.lookup_erase, h clientId]
  | resize ok => simpa only [Call.run, apply_attachedSizes] using h clientId

theorem SameSizes.runCalls (h : SameSizes s s') (calls : List Call) :
    SameSizes (runCalls E calls s) (runCalls E calls s') := by
  induction calls generalizing s s' with
  | nil => exact h
  | cons call calls ih => exact ih (h.run call)

theorem SameSizes.sizesOf_eq (h : SameSizes s s') : sizesOf s' = sizesOf s := by
  ext size
  simp only [sizesOf, Set.mem_ofPred_eq, h _]

end Calls

section Minimum

variable {size least : ClientSize}

theorem mem_sizesOf : size ∈ sizesOf s ↔ size ∈ s.attachedSizes.entries.map (·.2) := by
  constructor
  · rintro ⟨clientId, h⟩
    exact List.mem_map.mpr ⟨⟨clientId, size⟩, Table.mem_entries.mpr h, rfl⟩
  · intro h
    obtain ⟨⟨clientId, other⟩, hmem, rfl⟩ := List.mem_map.mp h
    exact ⟨clientId, Table.mem_entries.mp hmem⟩

theorem IsMin.unique {sizes : Set ClientSize} (h : IsMin sizes size) (h' : IsMin sizes least) :
    size = least := by
  have hcols := h.1.unique h'.1
  have hrows := h.2.unique h'.2
  cases size
  cases least
  simp_all

theorem minAttached_of_isMin (h : IsMin (sizesOf s) least) : s.minAttached = some least := by
  have hsizes : sizesOf s = {x | x ∈ s.attachedSizes.entries.map (·.2)} :=
    Set.ext fun size => mem_sizesOf
  cases hmin : s.minAttached with
  | none =>
    have hnil := minClientSize_eq_none_iff.mp hmin
    obtain ⟨size, hsize, -⟩ := h.1.1
    rw [mem_sizesOf, hnil] at hsize
    cases hsize
  | some size =>
    have hleast := minClientSize_isMin hmin
    rw [← hsizes] at hleast
    exact congrArg some (hleast.unique h)

theorem minAttached_of_empty (h : sizesOf s = ∅) : s.minAttached = none := by
  have hnil : s.attachedSizes.entries.map (·.2) = [] := by
    refine List.eq_nil_iff_forall_not_mem.mpr fun size hsize => ?_
    have hmem : size ∈ sizesOf s := mem_sizesOf.mpr hsize
    simp [h] at hmem
  exact minClientSize_eq_none_iff.mpr hnil

theorem applied_sized (h : IsMin (sizesOf s) least) :
    Sized (s.applyMinAttachedResize E true).2 least := by
  simp only [SizedSession.applyMinAttachedResize, minAttached_of_isMin h]
  exact tryResize_sized least

/-- Sessions that differ in everything but the sizes are resized alike from then on. -/
theorem SameSizes.traceless (h : SameSizes s s') : Traceless E s s' where
  sizes := h
  later calls size hmin := by
    have hsame := (h.runCalls (E := E) calls).sizesOf_eq
    exact applied_sized (hsame ▸ hmin)
  unattached calls hempty := by
    have hsame := (h.runCalls (E := E) calls).sizesOf_eq
    simp only [SizedSession.applyMinAttachedResize, minAttached_of_empty (hsame.trans hempty)]

end Minimum

section Steps

variable {p q : Pool (SizedSession T) Task} {infer : StateInfer}

/-- The call in the steps its locks divide it into, with no other task between them. -/
theorem apply_steps (s : SizedSession T) (ok : Bool) (i : Nat) (size : ClientSize) :
    Relation.ReflTransGen (fun a b => clientStep E (.proceed ok) i a.2 a.1 = some b)
      (s, .attaching size .computing) ((s.applyMinAttachedResize E ok).2,
        .attaching size (.returned (s.applyMinAttachedResize E ok).1)) := by
  cases hmin : s.minAttached with
  | none =>
    simp only [SizedSession.applyMinAttachedResize, hmin]
    exact .single (by simp [clientStep, applyStep, hmin])
  | some least =>
    simp only [SizedSession.applyMinAttachedResize, hmin]
    refine .head (b := (s, .attaching size (.resizing least)))
      (by simp [clientStep, applyStep, hmin]) ?_
    cases ok with
    | false => exact .single (by simp [clientStep, applyStep, SizedSession.tryResize])
    | true =>
      cases hfailure : (s.resize E least).1.isSome with
      | false =>
        refine .single ?_
        simp [clientStep, applyStep, SizedSession.tryResize, hfailure]
      | true =>
        let resized := (s.resize E least).2
        refine .head (b := (resized, .attaching size .capturing))
          (by simp [clientStep, applyStep, hfailure, resized]) ?_
        refine .head (b := (resized, .attaching size (.rebuilding resized.ring.snapshot))) rfl ?_
        refine .single ?_
        simp [clientStep, applyStep, SizedSession.tryResize, hfailure, resized]

theorem attachClient_steps (s : SizedSession T) (ok : Bool) (i : Nat) (size : ClientSize) :
    Relation.ReflTransGen (fun a b => clientStep E (.proceed ok) i a.2 a.1 = some b)
      (s, .inserting size) ((s.attachClient E ok i size).2,
        .idle (if (s.attachClient E ok i size).1 then some size else none)) := by
  refine .head rfl (.tail (apply_steps _ ok i size) ?_)
  rfl

/-- A step of one client leaves the entries of the others. -/
theorem clientStep_frame {c : Choice} {i j : Nat} {x x' : Client} (hj : j ≠ i)
    (h : clientStep E c i x s = some (s', x')) :
    s'.attachedSizes.lookup j = s.attachedSizes.lookup j := by
  cases x with
  | idle held =>
    cases c with
    | proceed ok => cases h
    | request r =>
      obtain ⟨y, -, hr⟩ := Option.map_eq_some_iff.mp h
      rw [(Prod.mk.inj hr).1]
  | inserting size =>
    cases h
    exact Table.lookup_insert_ne _ _ hj
  | updating held size =>
    cases h
    exact Table.lookup_modify_ne _ _ hj
  | removing held =>
    cases h
    exact Table.lookup_erase_ne _ hj
  | scheduling held =>
    cases h
    rw [schedule_attachedSizes]
  | attaching size pc =>
    by_cases hpc : ∃ ok, pc = .returned ok
    · obtain ⟨ok, rfl⟩ := hpc
      cases h
      rfl
    · obtain ⟨ok, pc', rfl, hs, rfl⟩ := clientStep_attaching (fun ok hok => hpc ⟨ok, hok⟩) h
      rw [(applyStep_kept hs).1]

theorem event_attachedSizes {e : Event} {keep : Bool}
    (h : event E infer e s = some (s', keep)) : s'.attachedSizes = s.attachedSizes := by
  cases e with
  | live e =>
    obtain ⟨⟨t, b⟩, -, hr⟩ := Option.map_eq_some_iff.mp h
    rw [← (Prod.mk.inj hr).1]
  | resizeLoop ok =>
    obtain ⟨t, ht, hr⟩ := Option.map_eq_some_iff.mp h
    obtain ⟨rfl, -⟩ := Prod.mk.inj hr
    exact loopStep_attachedSizes ht

/-- Only a step of its own client changes an entry. -/
theorem entry_step {a : Move Task (Choice × Live.Choice) Event} {i : Nat}
    (hother : ∀ c, a ≠ .advance i c) (h : (tasking E infer).machine.step a p = some q) :
    q.shared.attachedSizes.lookup i = p.shared.attachedSizes.lookup i := by
  cases Tasking.stepped_of_step h with
  | spawn | drop => rfl
  | keep e s' he => rw [Pool.setShared_shared, event_attachedSizes he]
  | clear e s' he => rw [Pool.empty, event_attachedSizes he]
  | advance j c x x' s' hx hs =>
    have hij : i ≠ j := fun hij => hother c (hij ▸ rfl)
    cases x with
    | live x =>
      obtain ⟨⟨t, y⟩, -, hr⟩ := Option.map_eq_some_iff.mp hs
      obtain ⟨rfl, -⟩ := Prod.mk.inj hr
      rfl
    | client x =>
      obtain ⟨⟨t, y⟩, hy, hr⟩ := Option.map_eq_some_iff.mp hs
      obtain ⟨rfl, -⟩ := Prod.mk.inj hr
      exact clientStep_frame hij hy

/-- What a failed attach has left bounds every size that is computed until its client asks for
something again. -/
theorem entry_bounds {i : Nat} {size least : ClientSize}
    (hr : (tasking E infer).machine.Run (fun _ a => ∀ c, a ≠ .advance i c) p q)
    (hp : p.shared.attachedSizes.lookup i = some size) (hmin : q.shared.minAttached = some least) :
    least.cols ≤ size.cols ∧ least.rows ≤ size.rows := by
  have hq : q.shared.attachedSizes.lookup i = some size :=
    hr.invariant (I := fun p => p.shared.attachedSizes.lookup i = some size)
      (fun _ _ _ hi hc hs => (entry_step hc hs).trans hi) hp
  have hleast := minClientSize_isMin hmin
  have hmem : size ∈ q.shared.attachedSizes.entries.map (·.2) := mem_sizesOf.mp ⟨i, hq⟩
  exact ⟨hleast.1.2 ⟨size, hmem, rfl⟩, hleast.2.2 ⟨size, hmem, rfl⟩⟩

end Steps

section Failed

theorem attachClient_fst (s : SizedSession T) (ok : Bool) (clientId : Nat) (size : ClientSize) :
    (s.attachClient E ok clientId size).1 = ok := by
  have hsize : size ∈ sizesOf { s with attachedSizes := s.attachedSizes.insert clientId size } :=
    ⟨clientId, Table.lookup_insert_self ..⟩
  unfold SizedSession.attachClient SizedSession.applyMinAttachedResize
  split
  · exact tryResize_fst
  · rename_i hnone
    rw [mem_sizesOf, minClientSize_eq_none_iff.mp hnone] at hsize
    cases hsize

/-- A failed attach leaves its size behind, so that it goes without a trace exactly when the size
was there before. -/
theorem failed_attach_traceless_iff (s : SizedSession T) (clientId : Nat) (size : ClientSize) :
    (s.attachClient E false clientId size).1 = false ∧
      (Traceless E s (s.attachClient E false clientId size).2 ↔
        s.attachedSizes.lookup clientId = some size) := by
  refine ⟨attachClient_fst s false clientId size, ?_, ?_⟩
  · intro h
    have hown := h.sizes clientId
    rw [attachClient_attachedSizes, Table.lookup_insert_self] at hown
    exact hown.symm
  · intro h
    refine SameSizes.traceless fun other => ?_
    rw [attachClient_attachedSizes, Table.lookup_insert]
    split
    · rename_i heq
      rw [heq, h]
    · rfl

/-- A session one client is attached to. -/
private def oneAttached : SizedSession Nat :=
  ((SizedSession.spawn queryTerminal 7 "shell" 0 .unknown ⟨100, 40⟩ true true).attachClient
    queryTerminal true 0 ⟨80, 24⟩).2

private theorem sizesOf_oneAttached : sizesOf oneAttached = {⟨80, 24⟩} := by
  have hentries : oneAttached.attachedSizes.entries.map (·.2) = [⟨80, 24⟩] := by decide
  ext size
  rw [mem_sizesOf, hentries]
  simp

/-- The terminal refuses the size of a second client, which is turned away. The next resize gives
the first client that size. -/
theorem failed_attach_constrains :
    (oneAttached.attachClient queryTerminal false 1 ⟨60, 20⟩).1 = false ∧
      sizesOf oneAttached = {⟨80, 24⟩} ∧
      ((oneAttached.attachClient queryTerminal false 1 ⟨60, 20⟩).2.applyMinAttachedResize
        queryTerminal true).2.pty = ⟨60, 20⟩ ∧
      ¬ Traceless queryTerminal oneAttached
        (oneAttached.attachClient queryTerminal false 1 ⟨60, 20⟩).2 := by
  have hpty : ((oneAttached.attachClient queryTerminal false 1 ⟨60, 20⟩).2.applyMinAttachedResize
      queryTerminal true).2.pty = ⟨60, 20⟩ := by decide
  refine ⟨attachClient_fst .., sizesOf_oneAttached, hpty, fun h => ?_⟩
  have hleast : IsMin (sizesOf (runCalls queryTerminal [] oneAttached)) ⟨80, 24⟩ := by
    change IsMin (sizesOf oneAttached) ⟨80, 24⟩
    simp [IsMin, sizesOf_oneAttached, Set.image_singleton]
  have hsized := (h.later [] ⟨80, 24⟩ hleast).pty
  simpa using hpty.symm.trans hsized

end Failed

end Resizing
end Shelly.Daemon
