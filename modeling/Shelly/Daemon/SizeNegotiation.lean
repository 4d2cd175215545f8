import Shelly.Daemon.Resizing
import Shelly.Daemon.ProjectionSize

namespace Shelly.Daemon

variable {T : Type*} {E : Emulator T} {infer : StateInfer}

section Minimum

variable {size : ClientSize} {sizes : List ClientSize}

private theorem foldl_isLeast (f : ClientSize → Nat)
    (hf : ∀ a b : ClientSize, f ⟨min a.cols b.cols, min a.rows b.rows⟩ = min (f a) (f b))
    (size : ClientSize) (sizes : List ClientSize) :
    IsLeast (f '' {x | x ∈ size :: sizes})
      (f (sizes.foldl (fun a b => ⟨min a.cols b.cols, min a.rows b.rows⟩) size)) := by
  have hcons (a : ClientSize) (l : List ClientSize) :
      f '' {x | x ∈ a :: l} = insert (f a) (f '' {x | x ∈ l}) := by
    rw [← Set.image_insert_eq]
    congr 1
    ext x
    simp
  induction sizes generalizing size with
  | nil => simp
  | cons next sizes ih =>
    have h := ih ⟨min size.cols next.cols, min size.rows next.rows⟩
    rw [hcons, hf] at h
    rw [hcons, hcons, List.foldl_cons]
    obtain ⟨hmem, hle⟩ := h
    have hleast := hle (Set.mem_insert _ _)
    refine ⟨?_, fun n hn => ?_⟩
    · rcases hmem with heq | hmem
      · rw [heq]
        rcases min_choice (f size) (f next) with h | h <;> simp [h]
      · exact .inr (.inr hmem)
    · rcases hn with rfl | rfl | hn
      · exact hleast.trans (min_le_left _ _)
      · exact hleast.trans (min_le_right _ _)
      · exact hle (.inr hn)

theorem minClientSize_isMin (h : minClientSize sizes = some size) :
    Resizing.IsMin {x | x ∈ sizes} size := by
  cases sizes with
  | nil => cases h
  | cons first sizes =>
    cases h
    exact ⟨foldl_isLeast (·.cols) (fun _ _ => rfl) first sizes,
      foldl_isLeast (·.rows) (fun _ _ => rfl) first sizes⟩

theorem minClientSize_eq_none_iff : minClientSize sizes = none ↔ sizes = [] := by
  cases sizes <;> simp [minClientSize]

end Minimum

namespace Resizing

/-- The terminal and the projection have the least size, if anyone is attached. -/
def Settled (s : SizedSession T) : Prop :=
  ∀ size, s.minAttached = some size → s.pty = size ∧ s.terminal.size = size

/-- The call will still bring the sizes up to date: it has not computed the least size yet, or has
computed what is the least size now. -/
def ApplyPc.refreshes (s : SizedSession T) : ApplyPc → Bool
  | .computing => true
  | .resizing size => s.minAttached = some size
  | .capturing | .rebuilding _ | .returned _ => false

/-- The next step of the call leaves the sizes behind: it applies a size that is not the least one
any more, or fails to apply the one that is missing. -/
def ApplyPc.Lags (s : SizedSession T) (ok : Bool) : ApplyPc → Prop
  | .resizing size => if ok then s.minAttached ≠ some size else ¬ Settled s
  | _ => False

def LoopPc.refreshes (s : SizedSession T) : LoopPc → Bool
  | .draining | .checking => true
  | .applying pc => pc.refreshes s
  | .waiting | .timedOut | .ended => false

def Task.refreshes (s : SizedSession T) : Task → Bool
  | .client (.attaching _ pc) => pc.refreshes s
  | .client (.idle _) | .live _ => false
  | .client _ => true

/-- The resize thread will still bring the sizes up to date. -/
def LoopRefreshes (s : SizedSession T) : Prop :=
  0 < s.resizeRequests ∨ s.resizeLoop.refreshes s = true

/-- A task besides `i` will still bring the sizes up to date. -/
def OthersRefresh (p : Pool (SizedSession T) Task) (i : Option Nat) : Prop :=
  ∃ j x, some j ≠ i ∧ p.task j = some x ∧ x.refreshes p.shared = true

/-- No attach fails to resize the terminal, and a call that leaves the sizes behind does so only
while something else is on its way to bring them up to date. So does a call that asks a resize of
the thread after its end. -/
def CallCareful (p : Pool (SizedSession T) Task) (i : Nat) (c : Choice) : Task → Prop
  | .client (.attaching _ (.resizing size)) =>
    c ≠ .proceed false ∧ (ApplyPc.Lags p.shared true (.resizing size) →
      LoopRefreshes p.shared ∨ OthersRefresh p (some i))
  | .client (.scheduling _) =>
    p.shared.resizeLoop = .ended → Settled p.shared ∨ OthersRefresh p (some i)
  | _ => True

/-- The resize thread leaves the sizes behind, or ends before it has brought them up to date, only
while something else is on its way to do so. -/
def LoopCareful (p : Pool (SizedSession T) Task) (ok : Bool) : LoopPc → Prop
  | .applying pc => pc.Lags p.shared ok → 0 < p.shared.resizeRequests ∨ OthersRefresh p none
  | .timedOut | .checking =>
    p.shared.exitCode.isSome = true → Settled p.shared ∨ OthersRefresh p none
  | .waiting | .draining | .ended => True

def Careful (p : Pool (SizedSession T) Task) : Move Task (Choice × Live.Choice) Event → Prop
  | .advance i (c, _) => ∀ x ∈ p.task i, CallCareful p i c x
  | .environment (.resizeLoop ok) => LoopCareful p ok p.shared.resizeLoop
  | .spawn _ _ | .drop _ | .environment (.live _) => True

section Decide

variable (s : SizedSession T) (p : Pool (SizedSession T) Task)

instance : Decidable (Settled s) :=
  inferInstanceAs (Decidable (∀ size ∈ s.minAttached, s.pty = size ∧ s.terminal.size = size))

instance : Decidable (LoopRefreshes s) := inferInstanceAs (Decidable (_ ∨ _))

instance (i : Option Nat) : Decidable (OthersRefresh p i) :=
  decidable_of_iff (∃ e ∈ p.tasks.entries, some e.1 ≠ i ∧ e.2.refreshes p.shared = true) <| by
    constructor
    · rintro ⟨e, he, hi, hr⟩
      exact ⟨e.1, e.2, hi, Table.mem_entries.mp he, hr⟩
    · rintro ⟨j, x, hi, hx, hr⟩
      exact ⟨⟨j, x⟩, Table.mem_entries.mpr hx, hi, hr⟩

instance (ok : Bool) (pc : ApplyPc) : Decidable (pc.Lags s ok) :=
  match pc with
  | .resizing size =>
    inferInstanceAs (Decidable (if ok then s.minAttached ≠ some size else ¬ Settled s))
  | .computing | .capturing | .rebuilding _ | .returned _ => isFalse not_false

instance (i : Nat) (c : Choice) (x : Task) : Decidable (CallCareful p i c x) :=
  match x with
  | .client (.attaching _ (.resizing _)) => inferInstanceAs (Decidable (_ ∧ (_ → _ ∨ _)))
  | .client (.scheduling _) => inferInstanceAs (Decidable (_ → _ ∨ _))
  | .client (.idle _) | .client (.inserting _) | .client (.attaching _ .computing)
  | .client (.attaching _ .capturing) | .client (.attaching _ (.rebuilding _))
  | .client (.attaching _ (.returned _)) | .client (.updating _ _) | .client (.removing _)
  | .live _ => isTrue trivial

instance (ok : Bool) (pc : LoopPc) : Decidable (LoopCareful p ok pc) :=
  match pc with
  | .applying _ | .timedOut | .checking => inferInstanceAs (Decidable (_ → _ ∨ _))
  | .waiting | .draining | .ended => isTrue trivial

instance (a : Move Task (Choice × Live.Choice) Event) : Decidable (Careful p a) :=
  match a with
  | .advance i (c, _) => inferInstanceAs (Decidable (∀ x ∈ p.task i, CallCareful p i c x))
  | .environment (.resizeLoop ok) =>
    inferInstanceAs (Decidable (LoopCareful p ok p.shared.resizeLoop))
  | .spawn _ _ | .drop _ | .environment (.live _) => isTrue trivial

end Decide

variable {s s' : SizedSession T} {p q : Pool (SizedSession T) Task}
  {a : Move Task (Choice × Live.Choice) Event}

section Frame

theorem refreshes_congr (h : s'.attachedSizes = s.attachedSizes) (x : Task) :
    x.refreshes s' = x.refreshes s := by
  have hmin : s'.minAttached = s.minAttached := by
    unfold SizedSession.minAttached
    rw [h]
  rcases x with (_ | _ | ⟨size, pc⟩ | _) | _ <;> try rfl
  cases pc <;> simp only [Task.refreshes, ApplyPc.refreshes, hmin]

theorem loopRefreshes_congr (h : s'.attachedSizes = s.attachedSizes)
    (hq : s'.resizeRequests = s.resizeRequests) (hl : s'.resizeLoop = s.resizeLoop) :
    LoopRefreshes s' ↔ LoopRefreshes s := by
  have hpc (pc : ApplyPc) : pc.refreshes s' = pc.refreshes s :=
    refreshes_congr h (.client (.attaching ⟨0, 0⟩ pc))
  have hloop : s.resizeLoop.refreshes s' = s.resizeLoop.refreshes s := by
    unfold LoopPc.refreshes
    split <;> simp only [hpc]
  unfold LoopRefreshes
  rw [hq, hl, hloop]

theorem settled_congr (h : s'.attachedSizes = s.attachedSizes) (hpty : s'.pty = s.pty)
    (hsize : s'.terminal.size = s.terminal.size) : Settled s' ↔ Settled s := by
  unfold Settled SizedSession.minAttached
  rw [h, hpty, hsize]

end Frame

section Steps

variable {ok : Bool} {pc pc' : ApplyPc}

/-- A call changes neither the attached sizes nor the resize thread. -/
theorem applyStep_kept (h : applyStep E ok pc s = some (s', pc')) :
    s'.attachedSizes = s.attachedSizes ∧ s'.resizeRequests = s.resizeRequests ∧
      s'.resizeLoop = s.resizeLoop := by
  cases pc with
  | computing | capturing | rebuilding => cases h; exact ⟨rfl, rfl, rfl⟩
  | resizing size =>
    simp only [applyStep] at h
    split at h <;> cases h <;> exact ⟨rfl, rfl, rfl⟩
  | returned => cases h

/-- A call that does not leave the sizes behind brings them up to date, or is still to. -/
theorem applyStep_settles (h : applyStep E ok pc s = some (s', pc')) (hlag : ¬ pc.Lags s ok)
    (hcovered : Settled s ∨ pc.refreshes s = true) : Settled s' ∨ pc'.refreshes s' = true := by
  have hkept := (applyStep_kept h).1
  cases pc with
  | computing =>
    cases h
    cases hmin : s.minAttached with
    | none => exact .inl fun size hsize => by cases hmin.symm.trans hsize
    | some size => exact .inr (decide_eq_true hmin)
  | resizing size =>
    simp only [applyStep] at h
    split at h <;> cases h <;> rename_i hok
    · left
      have hmin : s.minAttached = some size := by simpa [ApplyPc.Lags, hok] using hlag
      intro size' hsize'
      cases hmin.symm.trans hsize'
      exact ⟨rfl, TerminalProjection.resize_size size⟩
    · simp only [ApplyPc.Lags, hok, Bool.false_eq_true, if_false, not_not] at hlag
      exact .inl hlag
  | capturing =>
    cases h
    exact .inl (hcovered.resolve_right Bool.false_ne_true)
  | rebuilding scrollback =>
    cases h
    refine .inl fun size hsize => ?_
    obtain ⟨hpty, hterminal⟩ := hcovered.resolve_right Bool.false_ne_true size hsize
    exact ⟨hpty, (TerminalProjection.rebuild_size _ _ _).trans hterminal⟩
  | returned => cases h

theorem clientStep_attaching {c : Choice} {i : Nat} {size : ClientSize} {x' : Client}
    (hpc : ∀ ok, pc ≠ .returned ok) (h : clientStep E c i (.attaching size pc) s = some (s', x')) :
    ∃ ok pc', c = .proceed ok ∧ applyStep E ok pc s = some (s', pc') ∧
      x' = .attaching size pc' := by
  have hstep (ok : Bool) : clientStep E (.proceed ok) i (.attaching size pc) s =
      (applyStep E ok pc s).map fun r => (r.1, .attaching size r.2) := by
    cases pc with
    | returned ok => exact absurd rfl (hpc ok)
    | _ => rfl
  cases c with
  | request r =>
    cases pc with
    | returned ok => exact absurd rfl (hpc ok)
    | _ => cases h
  | proceed ok =>
    obtain ⟨⟨t, pc'⟩, hs, hr⟩ := Option.map_eq_some_iff.mp ((hstep ok).symm.trans h)
    obtain ⟨rfl, rfl⟩ := Prod.mk.inj hr
    exact ⟨ok, pc', rfl, hs, rfl⟩

theorem schedule_attachedSizes (s : SizedSession T) :
    s.scheduleMinAttachedResize.attachedSizes = s.attachedSizes := by
  unfold SizedSession.scheduleMinAttachedResize
  split <;> rfl

theorem loopStep_attachedSizes (h : loopStep E ok s = some s') :
    s'.attachedSizes = s.attachedSizes := by
  unfold loopStep at h
  split at h
  · split at h <;> cases h <;> rfl
  · cases h; split <;> rfl
  · split at h <;> cases h <;> rfl
  · cases h; split <;> rfl
  · cases h; rfl
  · obtain ⟨⟨t, pc'⟩, hs, rfl⟩ := Option.map_eq_some_iff.mp h
    exact (applyStep_kept hs).1
  · cases h

/-- The sizes are settled, or something is on its way to settle them. -/
def Negotiated (p : Pool (SizedSession T) Task) : Prop :=
  p.Covered (fun s => Settled s ∨ LoopRefreshes s) fun s x => x.refreshes s = true

theorem clientStep_negotiated {c : Choice} {i : Nat} {x x' : Client} {others others' : Prop}
    (h : clientStep E c i x s = some (s', x'))
    (hothers : s'.attachedSizes = s.attachedSizes → others → others')
    (hattach : ∀ size size', x = .attaching size (.resizing size') → c ≠ .proceed false ∧
      (ApplyPc.Lags s true (.resizing size') → LoopRefreshes s ∨ others))
    (hschedule : ∀ held, x = .scheduling held → s.resizeLoop = .ended → Settled s ∨ others)
    (hcovered : (Settled s ∨ LoopRefreshes s) ∨ (Task.client x).refreshes s = true ∨ others) :
    (Settled s' ∨ LoopRefreshes s') ∨ (Task.client x').refreshes s' = true ∨ others' := by
  cases x with
  | idle held =>
    cases c with
    | proceed ok => cases h
    | request r =>
      obtain ⟨y, -, hr⟩ := Option.map_eq_some_iff.mp h
      obtain ⟨rfl, rfl⟩ := Prod.mk.inj hr
      exact hcovered.imp_right fun h => .inr (hothers rfl (h.resolve_left Bool.false_ne_true))
  | inserting size => cases h; exact .inr (.inl rfl)
  | updating held size => cases h; exact .inr (.inl rfl)
  | removing held => cases h; exact .inr (.inl rfl)
  | scheduling held =>
    cases h
    unfold SizedSession.scheduleMinAttachedResize
    split
    · rename_i hended
      exact (hschedule held rfl hended).imp .inl fun h =>
        .inr (hothers (schedule_attachedSizes s) h)
    · exact .inl (.inr (.inl (Nat.succ_pos _)))
  | attaching size pc =>
    by_cases hpc : ∃ ok, pc = .returned ok
    · obtain ⟨ok, rfl⟩ := hpc
      cases h
      exact hcovered.imp_right fun h => .inr (hothers rfl (h.resolve_left Bool.false_ne_true))
    · obtain ⟨ok, pc', rfl, hs, rfl⟩ := clientStep_attaching (fun ok hok => hpc ⟨ok, hok⟩) h
      obtain ⟨hsizes, hrequests, hloop⟩ := applyStep_kept hs
      have hrefreshes := loopRefreshes_congr hsizes hrequests hloop
      by_cases hlag : pc.Lags s ok
      · cases pc with
        | resizing size' =>
          obtain ⟨hok, hbehind⟩ := hattach size size' rfl
          obtain rfl : ok = true := by simpa using hok
          exact (hbehind hlag).imp (fun h => .inr (hrefreshes.mpr h)) fun h =>
            .inr (hothers hsizes h)
        | _ => exact hlag.elim
      · rcases hcovered with (hA | hA) | hP | hO
        · exact (applyStep_settles hs hlag (.inl hA)).imp .inl .inl
        · exact .inl (.inr (hrefreshes.mpr hA))
        · exact (applyStep_settles hs hlag (.inr hP)).imp .inl .inl
        · exact .inr (.inr (hothers hsizes hO))

/-- The same for a step of the resize thread. -/
theorem loopStep_negotiated {others : Prop} (h : loopStep E ok s = some s')
    (happly : ∀ pc, s.resizeLoop = .applying pc → pc.Lags s ok → 0 < s.resizeRequests ∨ others)
    (hend : s.resizeLoop = .timedOut ∨ s.resizeLoop = .checking → s.exitCode.isSome →
      Settled s ∨ others)
    (hcovered : (Settled s ∨ LoopRefreshes s) ∨ others) :
    (Settled s' ∨ LoopRefreshes s') ∨ others := by
  unfold loopStep at h
  cases hloop : s.resizeLoop with
  | waiting =>
    rw [hloop] at h
    dsimp only at h
    split at h <;> cases h <;> rename_i hzero
    · refine hcovered.imp_left (Or.imp id ?_)
      rintro (hq | hr)
      · exact absurd hzero hq.ne'
      · rw [hloop] at hr
        cases hr
    · exact .inl (.inr (.inr rfl))
  | draining =>
    rw [hloop] at h
    dsimp only at h
    split at h <;> cases h
    · exact .inl (.inr (.inr rfl))
    · exact .inl (.inr (.inr rfl))
  | timedOut =>
    rw [hloop] at h
    cases h
    split
    · exact (hend (.inl hloop) ‹_›).imp_left .inl
    · refine hcovered.imp_left (Or.imp id ?_)
      rintro (hq | hr)
      · exact .inl hq
      · rw [hloop] at hr
        cases hr
  | checking =>
    rw [hloop] at h
    cases h
    split
    · exact (hend (.inr hloop) ‹_›).imp_left .inl
    · exact .inl (.inr (.inr rfl))
  | ended => rw [hloop] at h; cases h
  | applying pc =>
    rw [hloop] at h
    by_cases hpc : ∃ ok, pc = .returned ok
    · obtain ⟨ok, rfl⟩ := hpc
      cases h
      refine hcovered.imp_left (Or.imp id ?_)
      rintro (hq | hr)
      · exact .inl hq
      · rw [hloop] at hr
        cases hr
    · have hstep : (applyStep E ok pc s).map (fun r =>
          ({ r.1 with resizeLoop := .applying r.2 } : SizedSession T)) = some s' := by
        cases pc with
        | returned ok => exact absurd ⟨ok, rfl⟩ hpc
        | _ => exact h
      obtain ⟨⟨t, pc'⟩, hs, rfl⟩ := Option.map_eq_some_iff.mp hstep
      obtain ⟨hsizes, hrequests, -⟩ := applyStep_kept hs
      by_cases hlag : pc.Lags s ok
      · exact (happly pc hloop hlag).imp_left fun hq => .inr (.inl (hrequests ▸ hq))
      · have hsettle := applyStep_settles hs hlag
        rcases hcovered with (hA | hq | hr) | hothers
        · exact .inl ((hsettle (.inl hA)).imp id .inr)
        · exact .inl (.inr (.inl (hrequests ▸ hq)))
        · rw [hloop] at hr
          exact .inl ((hsettle (.inr hr)).imp id .inr)
        · exact .inr hothers

end Steps

section Runs

theorem negotiated_init (h : (tasking E infer).machine.init p) : Negotiated p := by
  obtain ⟨⟨id, name, createdAt, commandKind, size, store, push, hs⟩, -⟩ := h
  refine .inl (.inl fun least hleast => ?_)
  rw [hs] at hleast
  cases hleast

/-- The other tasks of a session and its I/O thread have nothing to do with the sizes. -/
theorem live_kept {live : LiveSession T} (hsize : live.terminal.size = s.terminal.size)
    (h : Settled s ∨ LoopRefreshes s) :
    Settled { s with toLiveSession := live } ∨ LoopRefreshes { s with toLiveSession := live } :=
  have hsettled : Settled { s with toLiveSession := live } ↔ Settled s :=
    settled_congr rfl rfl hsize
  have hloop : LoopRefreshes { s with toLiveSession := live } ↔ LoopRefreshes s :=
    loopRefreshes_congr rfl rfl rfl
  h.imp hsettled.mpr hloop.mpr

theorem negotiated_step (hresize : ∀ i size pc, p.task i ≠ some (.live (.resize size pc)))
    (hp : Negotiated p) (hc : Careful p a)
    (hs : (tasking E infer).machine.step a p = some q) : Negotiated q := by
  by_cases hloop : ∃ ok, a = .environment (.resizeLoop ok)
  · obtain ⟨ok, rfl⟩ := hloop
    obtain ⟨⟨s', keep⟩, hr, rfl⟩ := Option.map_eq_some_iff.mp hs
    obtain ⟨t, ht, hr⟩ := Option.map_eq_some_iff.mp hr
    obtain ⟨rfl, rfl⟩ := Prod.mk.inj hr
    have hothers (h : OthersRefresh p none) :
        ∃ j x, p.task j = some x ∧ x.refreshes p.shared = true := by
      obtain ⟨j, x, -, hx, hr⟩ := h
      exact ⟨j, x, hx, hr⟩
    have hnegotiated : (Settled t ∨ LoopRefreshes t) ∨
        ∃ j x, p.task j = some x ∧ x.refreshes p.shared = true := by
      refine loopStep_negotiated ht (fun pc hpc hlag => ?_) (fun hend hexit => ?_) hp
      · simp only [Careful, hpc] at hc
        exact (hc hlag).imp_right hothers
      · refine Or.imp_right hothers ?_
        rcases hend with hend | hend <;> simp only [Careful, hend] at hc <;> exact hc hexit
    refine hnegotiated.imp_right fun ⟨j, x, hx, hr⟩ => ⟨j, x, hx, ?_⟩
    exact (refreshes_congr (loopStep_attachedSizes ht) x).trans hr
  · refine Tasking.covered_step hp hs ?_ ?_ ?_ ?_
    · rintro i c x s' x' rfl hx hr hcovered
      cases x with
      | live x =>
        obtain ⟨⟨t, y⟩, ht, hr⟩ := Option.map_eq_some_iff.mp hr
        obtain ⟨rfl, rfl⟩ := Prod.mk.inj hr
        have hsize := Live.advance_size (fun size pc hy => hresize i size pc (hy ▸ hx)) ht
        exact hcovered.imp (live_kept hsize) fun h =>
          .inr (h.resolve_left Bool.false_ne_true)
      | client x =>
        obtain ⟨⟨t, y⟩, ht, hr⟩ := Option.map_eq_some_iff.mp hr
        obtain ⟨rfl, rfl⟩ := Prod.mk.inj hr
        have hothers (h : OthersRefresh p (some i)) :
            ∃ j y, j ≠ i ∧ p.task j = some y ∧ y.refreshes p.shared = true := by
          obtain ⟨j, y, hj, hy⟩ := h
          exact ⟨j, y, fun hji => hj (congrArg some hji), hy⟩
        refine clientStep_negotiated ht ?_ ?_ ?_ hcovered
        · rintro hsizes ⟨j, y, hj, hy, hr⟩
          exact ⟨j, y, hj, hy, (refreshes_congr hsizes y).trans hr⟩
        · rintro size size' rfl
          exact (hc _ hx).imp_right fun h hlag => (h hlag).imp_right hothers
        · rintro held rfl hended
          exact (hc _ hx hended).imp_right hothers
    · rintro i x rfl - -
      cases Tasking.stepped_of_step hs with
      | drop _ y hy hcancellable => cases hcancellable
    · rintro e s' rfl hr
      cases e with
      | resizeLoop ok => exact absurd ⟨ok, rfl⟩ hloop
      | live e =>
        obtain ⟨⟨t, keep⟩, ht, hr⟩ := Option.map_eq_some_iff.mp hr
        obtain ⟨rfl, rfl⟩ := Prod.mk.inj hr
        exact ⟨live_kept (Live.event_size ht), fun y hy => hy⟩
    · rintro e s' rfl hr
      cases e with
      | resizeLoop ok => exact absurd ⟨ok, rfl⟩ hloop
      | live e =>
        obtain ⟨⟨t, keep⟩, ht, hr⟩ := Option.map_eq_some_iff.mp hr
        cases (Live.event_keeps ht).symm.trans (Prod.mk.inj hr).2

theorem applyStep_uniform {ok : Bool} {pc pc' : ApplyPc} (hs : s.terminal.Uniform)
    (h : applyStep E ok pc s = some (s', pc')) : s'.terminal.Uniform := by
  cases pc with
  | computing | capturing => cases h; exact hs
  | resizing size =>
    simp only [applyStep] at h
    split at h <;> cases h
    · exact TerminalProjection.uniform_resize size
    · exact hs
  | rebuilding scrollback => cases h; exact TerminalProjection.uniform_rebuild _ _ _
  | returned => cases h

theorem clientStep_uniform {c : Choice} {i : Nat} {x x' : Client} (hs : s.terminal.Uniform)
    (h : clientStep E c i x s = some (s', x')) : s'.terminal.Uniform := by
  cases x with
  | idle held =>
    cases c with
    | proceed ok => cases h
    | request r =>
      obtain ⟨y, -, hr⟩ := Option.map_eq_some_iff.mp h
      exact (Prod.mk.inj hr).1 ▸ hs
  | inserting | updating | removing => cases h; exact hs
  | scheduling held =>
    cases h
    unfold SizedSession.scheduleMinAttachedResize
    split <;> exact hs
  | attaching size pc =>
    by_cases hpc : ∃ ok, pc = .returned ok
    · obtain ⟨ok, rfl⟩ := hpc
      cases h
      exact hs
    · obtain ⟨ok, pc', rfl, hstep, rfl⟩ := clientStep_attaching (fun ok hok => hpc ⟨ok, hok⟩) h
      exact applyStep_uniform hs hstep

theorem loopStep_uniform {ok : Bool} (hs : s.terminal.Uniform) (h : loopStep E ok s = some s') :
    s'.terminal.Uniform := by
  unfold loopStep at h
  split at h
  · split at h <;> cases h <;> exact hs
  · cases h; split <;> exact hs
  · split at h <;> cases h <;> exact hs
  · cases h; split <;> exact hs
  · cases h; exact hs
  · obtain ⟨⟨t, pc'⟩, hstep, rfl⟩ := Option.map_eq_some_iff.mp h
    exact (applyStep_uniform hs hstep :)
  · cases h

/-- The model inside the projection has its size, and every resize is of a connection or of the
resize thread. -/
theorem uniform_noninterference : Tasking.Noninterference (tasking E infer) Careful
    (fun s => s.terminal.Uniform) fun _ _ x => ∀ size pc, x ≠ .live (.resize size pc) where
  init s h := by
    obtain ⟨id, name, createdAt, commandKind, size, store, push, rfl⟩ := h
    exact TerminalProjection.uniform_new size
  fresh p i x _ _ hx size pc hresize := by
    subst hresize
    cases hx
  own p i c x s' x' _ hG _ hx hr := by
    cases x with
    | live x =>
      obtain ⟨⟨t, y⟩, ht, hr⟩ := Option.map_eq_some_iff.mp hr
      obtain ⟨rfl, rfl⟩ := Prod.mk.inj hr
      refine ⟨Live.uniform_advance hG ht, fun size pc hy => ?_⟩
      obtain rfl : y = .resize size pc := by simpa using hy
      cases x <;> obtain ⟨r, -, hr⟩ := Option.map_eq_some_iff.mp ht <;> cases (Prod.mk.inj hr).2
      exact hx _ _ rfl
    | client x =>
      obtain ⟨⟨t, y⟩, ht, hr⟩ := Option.map_eq_some_iff.mp hr
      obtain ⟨rfl, rfl⟩ := Prod.mk.inj hr
      exact ⟨clientStep_uniform hG ht, fun size pc hy => nomatch hy⟩
  others _ _ _ _ _ _ _ _ _ _ _ _ _ _ _ h := h
  environment p e s' keep _ hG hr := by
    refine ⟨?_, fun _ j y _ h => h⟩
    cases e with
    | live e =>
      obtain ⟨⟨t, keep⟩, ht, hr⟩ := Option.map_eq_some_iff.mp hr
      obtain ⟨rfl, -⟩ := Prod.mk.inj hr
      exact Live.uniform_event hG ht
    | resizeLoop ok =>
      obtain ⟨t, ht, hr⟩ := Option.map_eq_some_iff.mp hr
      obtain ⟨rfl, -⟩ := Prod.mk.inj hr
      exact loopStep_uniform hG ht

/-- The size the map holds for a client, by where its connection stands. -/
def Task.entry : Task → Option ClientSize
  | .client (.idle held) | .client (.updating held _) | .client (.scheduling held) => held
  | .client (.inserting _) | .live _ => none
  | .client (.attaching size _) | .client (.removing size) => some size

/-- An attach has not failed. -/
def Task.Sound (x : Task) : Prop := ∀ size, x ≠ .client (.attaching size (.returned false))

theorem applyStep_sound {ok : Bool} {pc pc' : ApplyPc}
    (hok : ∀ size, pc = .resizing size → ok ≠ false)
    (h : applyStep E ok pc s = some (s', pc')) : pc' ≠ .returned false := by
  cases pc with
  | computing =>
    cases h
    split <;> simp
  | capturing | rebuilding => cases h; simp
  | resizing size =>
    simp only [applyStep] at h
    split at h <;> cases h <;> rename_i hfalse
    · split <;> simp
    · exact absurd (Bool.eq_false_of_not_eq_true hfalse) (hok size rfl)
  | returned => cases h

/-- A step changes the entry of its own client alone. -/
theorem clientStep_entry {c : Choice} {i : Nat} {x x' : Client}
    (h : clientStep E c i x s = some (s', x')) (hsound : (Task.client x).Sound)
    (hattach : ∀ size size', x = .attaching size (.resizing size') → c ≠ .proceed false)
    (hkeyed : s.attachedSizes.lookup i = (Task.client x).entry) :
    s'.attachedSizes.lookup i = (Task.client x').entry ∧
      (∀ j, j ≠ i → s'.attachedSizes.lookup j = s.attachedSizes.lookup j) ∧
      (Task.client x').Sound := by
  cases x with
  | idle held =>
    cases c with
    | proceed ok => cases h
    | request r =>
      obtain ⟨y, hy, hr⟩ := Option.map_eq_some_iff.mp h
      obtain ⟨rfl, rfl⟩ := Prod.mk.inj hr
      refine ⟨?_, fun _ _ => rfl, ?_⟩ <;> cases held <;> cases r <;> cases hy
      all_goals first | exact hkeyed | exact fun _ hx => nomatch hx
  | inserting size =>
    cases h
    refine ⟨Table.lookup_insert_self .., fun j hj => Table.lookup_insert_ne _ _ hj, ?_⟩
    rintro _ ⟨⟩
  | updating held size =>
    cases h
    refine ⟨?_, fun j hj => Table.lookup_modify_ne _ _ hj, by rintro _ ⟨⟩⟩
    refine (Table.lookup_modify ..).trans ?_
    rw [if_pos rfl, hkeyed]
    rfl
  | removing held =>
    cases h
    exact ⟨Table.lookup_erase_self .., fun j hj => Table.lookup_erase_ne _ hj, by rintro _ ⟨⟩⟩
  | scheduling held =>
    cases h
    rw [schedule_attachedSizes]
    exact ⟨hkeyed, fun _ _ => rfl, by rintro _ ⟨⟩⟩
  | attaching size pc =>
    by_cases hpc : ∃ ok, pc = .returned ok
    · obtain ⟨ok, rfl⟩ := hpc
      cases h
      cases ok with
      | false => exact absurd rfl (hsound size)
      | true => exact ⟨hkeyed, fun _ _ => rfl, by rintro _ ⟨⟩⟩
    · obtain ⟨ok, pc', rfl, hs, rfl⟩ := clientStep_attaching (fun ok hok => hpc ⟨ok, hok⟩) h
      rw [(applyStep_kept hs).1]
      refine ⟨hkeyed, fun _ _ => rfl, fun size' hx => ?_⟩
      cases hx
      refine applyStep_sound (fun size' hpc' hok => ?_) hs rfl
      exact hattach size size' (hpc' ▸ rfl) (hok ▸ rfl)

/-- The map holds the sizes of the clients and nothing else. -/
structure Keyed (p : Pool (SizedSession T) Task) : Prop where
  lookup : ∀ i, p.shared.attachedSizes.lookup i = (p.task i).bind Task.entry
  sound : ∀ i x, p.task i = some x → x.Sound

theorem keyed_init (h : (tasking E infer).machine.init p) : Keyed p := by
  obtain ⟨⟨id, name, createdAt, commandKind, size, store, push, hs⟩, hnone⟩ := h
  refine ⟨fun i => ?_, fun i x hx => by cases (hnone i).symm.trans hx⟩
  rw [hs, hnone i]
  exact Table.lookup_empty i

/-- The entry and the soundness of a task that moves, beside the others. -/
theorem Keyed.moved {i : Nat} {x' : Task} (hp : Keyed p)
    (hown : s'.attachedSizes.lookup i = x'.entry)
    (hother : ∀ j, j ≠ i → s'.attachedSizes.lookup j = p.shared.attachedSizes.lookup j)
    (hsound : x'.Sound) : Keyed ((p.setShared s').setTask i x') := by
  refine ⟨fun j => ?_, fun j y hy => ?_⟩
  · rw [Pool.setTask_task, Pool.setTask_shared, Pool.setShared_shared]
    split
    · subst j
      exact hown
    · exact (hother j ‹_›).trans (hp.lookup j)
  · rw [Pool.setTask_task] at hy
    split at hy
    · exact Option.some.inj hy ▸ hsound
    · exact hp.sound j y hy

theorem keyed_step (hp : Keyed p) (hc : Careful p a)
    (hs : (tasking E infer).machine.step a p = some q) : Keyed q := by
  cases Tasking.stepped_of_step hs with
  | spawn i x hx hi =>
    change Keyed ((p.setShared p.shared).setTask i x)
    refine hp.moved ?_ (fun _ _ => rfl) ?_
    · rw [hp.lookup i, hi]
      cases x with
      | live x => rfl
      | client x => exact (of_decide_eq_true hx : x = .idle none) ▸ rfl
    · rintro size rfl
      cases hx
  | advance i c x x' s' ht hr =>
    cases x with
    | live x =>
      obtain ⟨⟨t, y⟩, -, hr⟩ := Option.map_eq_some_iff.mp hr
      obtain ⟨rfl, rfl⟩ := Prod.mk.inj hr
      have hnone : p.shared.attachedSizes.lookup i = none := by rw [hp.lookup i, ht]; rfl
      exact hp.moved hnone (fun _ _ => rfl) fun _ hx => nomatch hx
    | client x =>
      obtain ⟨⟨t, y⟩, hstep, hr⟩ := Option.map_eq_some_iff.mp hr
      obtain ⟨rfl, rfl⟩ := Prod.mk.inj hr
      have hkeyed : p.shared.attachedSizes.lookup i = (Task.client x).entry := by
        rw [hp.lookup i, ht]
        rfl
      obtain ⟨hown, hother, hsound⟩ := clientStep_entry hstep (hp.sound i _ ht)
        (fun size size' hx => by subst hx; exact (hc _ ht).1) hkeyed
      exact hp.moved hown hother hsound
  | drop i x ht hx => cases hx
  | keep e s' hr =>
    have hsizes : s'.attachedSizes = p.shared.attachedSizes := by
      cases e with
      | live e =>
        obtain ⟨r, -, hr⟩ := Option.map_eq_some_iff.mp hr
        exact (Prod.mk.inj hr).1 ▸ rfl
      | resizeLoop ok =>
        obtain ⟨t, hstep, hr⟩ := Option.map_eq_some_iff.mp hr
        exact (Prod.mk.inj hr).1 ▸ loopStep_attachedSizes hstep
    refine ⟨fun i => ?_, hp.sound⟩
    rw [Pool.setShared_shared, hsizes]
    exact hp.lookup i
  | clear e s' hr =>
    cases e with
    | live e =>
      obtain ⟨r, hstep, hr⟩ := Option.map_eq_some_iff.mp hr
      cases (Live.event_keeps hstep).symm.trans (Prod.mk.inj hr).2
    | resizeLoop ok =>
      obtain ⟨t, -, hr⟩ := Option.map_eq_some_iff.mp hr
      cases (Prod.mk.inj hr).2

/-- At rest the map holds the sizes of those that are attached. -/
theorem attached_eq (hp : Keyed p) (hq : Quiescent p) :
    attached p = {size | size ∈ p.shared.attachedSizes.entries.map (·.2)} := by
  ext size
  have hmem : size ∈ p.shared.attachedSizes.entries.map (·.2) ↔
      ∃ i, p.shared.attachedSizes.lookup i = some size := by
    rw [List.mem_map]
    constructor
    · rintro ⟨e, he, rfl⟩
      exact ⟨e.1, Table.mem_entries.mp he⟩
    · rintro ⟨i, hi⟩
      exact ⟨⟨i, size⟩, Table.mem_entries.mpr hi, rfl⟩
  rw [Set.mem_ofPred_eq, hmem]
  refine exists_congr fun i => ?_
  rw [hp.lookup i]
  constructor
  · intro h
    rw [h]
    rfl
  · intro h
    obtain ⟨x, hx, hentry⟩ := Option.bind_eq_some_iff.mp h
    cases x with
    | live x => cases hentry
    | client x =>
      obtain ⟨held, rfl⟩ := hq.clients i x hx
      rw [hx]
      exact congrArg (fun held => some (Task.client (.idle held))) hentry

/-- In every run in which no attach fails to resize the terminal and nothing leaves the sizes behind
for good, whenever no call is in flight, no resize is queued and a client is attached, the terminal,
the projection and its model have the least columns and the least rows of the attached clients. -/
theorem attachedSizes_agree (h : (tasking E infer).machine.ReachableWhen Careful p)
    (hq : Quiescent p) (hattached : (attached p).Nonempty) :
    ∃ size, IsMin (attached p) size ∧ Sized p.shared size := by
  have hkeyed : Keyed p := h.invariant (fun _ => keyed_init) fun _ _ _ => keyed_step
  obtain ⟨⟨huniform, -⟩, hnegotiated⟩ := h.invariant
    (I := fun p => Tasking.Safe (fun s => s.terminal.Uniform)
      (fun _ _ x => ∀ size pc, x ≠ Task.live (.resize size pc)) p ∧ Negotiated p)
    (fun p hi => ⟨uniform_noninterference.safe_init hi, negotiated_init hi⟩)
    fun p a q hp hc hs => ⟨uniform_noninterference.step hp.1 hc hs,
      negotiated_step (fun i size pc hx => hp.1.2 i _ hx size pc rfl) hp.2 hc hs⟩
  have hsettled : Settled p.shared := by
    rcases hnegotiated with (hs | hr | hr) | ⟨i, x, hx, hr⟩
    · exact hs
    · exact absurd hq.resizeRequests hr.ne'
    · rcases hq.resizeLoop with hl | hl | hl <;> rw [hl] at hr <;> cases hr
    · cases x with
      | live x => cases hr
      | client x =>
        obtain ⟨held, rfl⟩ := hq.clients i x hx
        cases hr
  rw [attached_eq hkeyed hq] at hattached ⊢
  cases hmin : p.shared.minAttached with
  | none =>
    obtain ⟨size, hsize⟩ := hattached
    rw [Set.mem_ofPred_eq, minClientSize_eq_none_iff.mp hmin] at hsize
    cases hsize
  | some size =>
    obtain ⟨hpty, hterminal⟩ := hsettled size hmin
    exact ⟨size, minClientSize_isMin hmin, hpty, hterminal,
      fun m hm => (huniform m hm).trans hterminal⟩

end Runs

section Traces

/-- A session that has just been spawned, and no task. -/
def opened : Pool (SizedSession Nat) Task :=
  .empty (.spawn queryTerminal 7 "shell" 0 .unknown ⟨100, 40⟩ true true)

theorem opened_init : (tasking queryTerminal Live.noInfer).machine.init opened :=
  Tasking.init_empty ⟨7, "shell", 0, .unknown, ⟨100, 40⟩, true, true, rfl⟩

private def proceed : Choice × Live.Choice := (.proceed true, ⟨0, true⟩)

/-- A connection with a call in flight. -/
private def busy : Nat → Task → Bool
  | _, .client (.idle _) | _, .live _ => false
  | _, _ => true

private theorem quiescent_of_lacks (h : p.Lacks busy) (hloop : p.shared.resizeLoop = .waiting)
    (hrequests : p.shared.resizeRequests = 0) : Quiescent p := by
  refine ⟨fun i x hx => ?_, .inl hloop, hrequests⟩
  cases x with
  | idle held => exact ⟨held, rfl⟩
  | _ => cases h i _ hx

private def ask (i : Nat) (r : Request) : Move Task (Choice × Live.Choice) Event :=
  .advance i (.request r, ⟨0, true⟩)

/-- Two clients attach one after the other, and the first leaves. -/
theorem attachedSizes_agree_left : ∃ p : Pool (SizedSession Nat) Task,
    p.shared.pty = ⟨80, 24⟩ ∧ ∃ size, IsMin (attached p) size ∧ Sized p.shared size := by
  obtain ⟨p, hr, hlacks, htask, hloop, hrequests, hpty⟩ :=
    (tasking queryTerminal Live.noInfer).machine.exists_reachable_of_exec (s := opened) Careful
      (fun p => p.Lacks busy ∧
        p.task 1 = some (.client (.idle (some ⟨80, 24⟩))) ∧ p.shared.resizeLoop = .waiting ∧
        p.shared.resizeRequests = 0 ∧ p.shared.pty = ⟨80, 24⟩)
      (List.flatten [[.spawn 0 (.client (.idle none)), .spawn 1 (.client (.idle none))],
        [ask 0 (.attach ⟨60, 20⟩)],
        Move.repeated 4 0 proceed, [ask 1 (.attach ⟨80, 24⟩)], Move.repeated 4 1 proceed,
        [ask 0 .detach], Move.repeated 2 0 proceed,
        List.replicate 6 (.environment (.resizeLoop true))])
      opened_init (by decide)
  exact ⟨p, hpty, attachedSizes_agree hr (quiescent_of_lacks hlacks hloop hrequests) ⟨_, 1, htask⟩⟩

/-- The least size is computed under one lock and applied under another: the client that computed
first may apply last. -/
theorem attach_applies_stale_size :
    ¬ ∀ p : Pool (SizedSession Nat) Task,
      (tasking queryTerminal Live.noInfer).machine.Reachable p → Quiescent p →
      (attached p).Nonempty → ∃ size, IsMin (attached p) size ∧ Sized p.shared size := by
  intro hall
  obtain ⟨p, hr, hlacks, htask, hloop, hrequests, hpty⟩ :=
    (tasking queryTerminal Live.noInfer).machine.exists_reachable_of_exec (s := opened) Machine.Any
      (fun p => p.Lacks busy ∧
        p.task 1 = some (.client (.idle (some ⟨60, 20⟩))) ∧ p.shared.resizeLoop = .waiting ∧
        p.shared.resizeRequests = 0 ∧ p.shared.pty = ⟨80, 24⟩)
      (List.flatten [[.spawn 0 (.client (.idle none)), .spawn 1 (.client (.idle none))],
        [ask 0 (.attach ⟨80, 24⟩)],
        Move.repeated 2 0 proceed, [ask 1 (.attach ⟨60, 20⟩)], Move.repeated 4 1 proceed,
        Move.repeated 2 0 proceed])
      opened_init (by decide)
  obtain ⟨size, hmin, hsized⟩ :=
    hall p hr (quiescent_of_lacks hlacks hloop hrequests) ⟨_, 1, htask⟩
  obtain rfl : size = ⟨80, 24⟩ := hsized.pty.symm.trans hpty
  have hle : 80 ≤ 60 := hmin.1.2 ⟨⟨60, 20⟩, ⟨1, htask⟩, rfl⟩
  omega

end Traces

end Resizing
end Shelly.Daemon
