import Shelly.Daemon.Names

namespace Shelly.Daemon

section Run

variable {host : HostEnv} {p q : Pool Registry RegistryTask}
  {a : Move RegistryTask RegistryChoice SessionEvent}

theorem registry_noninterference : Tasking.Noninterference (registryTasking host) Machine.Any
    Registry.Coherent Registry.TaskOk where
  init r hr := by
    subst hr
    exact Registry.coherent_new
  fresh p i x _ _ hx := by
    cases x with
    | create clientKind call pc =>
      cases pc with
      | start => trivial
      | _ => cases hx
    | session task =>
      cases task with
      | kill id pc => cases pc <;> trivial
      | evict id pc => cases pc <;> trivial
      | persist id final pc => cases pc <;> trivial
  own p i c x r' x' _ hG _ hL hr :=
    let e := Registry.advance_effect hG hL hr
    ⟨e.coherent, e.own⟩
  others p i c x r' x' _ hG _ hL hr j y hji _ hy :=
    (Registry.advance_effect hG hL hr).rely.taskOk hji hy
  environment p e r' keep _ hG hr := by
    cases keep with
    | true =>
      refine ⟨(Registry.event_effect (i := 0) hG hr).1, fun _ j y _ hy => ?_⟩
      exact (Registry.event_effect (i := j + 1) hG hr).2.1.taskOk (by omega) hy
    | false =>
      refine ⟨?_, fun hk => by cases hk⟩
      cases e with
      | restart kept => exact (Registry.restart_effect hG hr).1
      | create => cases hr
      | record | markDirty | markExited =>
        cases (Prod.mk.inj (Option.some.inj hr)).2

/-- The names between any two steps of a run that keeps them. -/
structure NamesKept (p : Pool Registry RegistryTask) : Prop where
  distinct : ∀ id id' name, p.shared.app.Carries id name → p.shared.app.Carries id' name → id = id'
  taken : ∀ name, Taken p name → name ∈ p.shared.app.sessionNames
  apart : ∀ id name, p.shared.app.Carries id name → ¬ Reserved p name
  only : ∀ name ∈ p.shared.app.sessionNames, Taken p name ∨ Releasing p name

/-- Two creations have not reserved the same name. -/
def RegistryTask.Apart (x y : RegistryTask) : Prop :=
  ∀ name, x.reserved = some name → y.reserved ≠ some name

theorem apart_step (hp : p.Pairwise RegistryTask.Apart) (hsafe :
    Tasking.Safe Registry.Coherent Registry.TaskOk p) (h : NamesKept p)
    (hs : (registryTasking host).machine.step a p = some q) : q.Pairwise RegistryTask.Apart := by
  refine Tasking.pairwise_step (fun x y hxy name hy hx => hxy name hx hy) hp hs ?_ ?_
  · intro x y hx name hr
    cases x with
    | create clientKind call pc =>
      cases pc with
      | start => cases hr
      | _ => cases hx
    | session task => cases hr
  · intro i c x r' x' _ ht hr j y hji hy name hx' hy'
    have hx : x.reserved = some name → False := fun hx => hp i j x y (Ne.symm hji) ht hy name hx hy'
    cases (Registry.advance_effect hsafe.1 (hsafe.2 i x ht) hr).names with
    | leave _ _ _ hreserved _ => exact hx (hreserved ▸ hx')
    | reserve n _ hfree _ _ hreserved _ =>
      obtain rfl := Option.some.inj (hreserved.symm.trans hx')
      exact hfree (h.taken _ (.inr ⟨j, y, hy, hy'⟩))
    | retake _ _ _ _ hreserved _ _ | enter _ _ _ _ _ hreserved _ | restore _ _ _ _ hreserved _ _
    | drop _ _ _ _ hreserved _ | release _ _ _ _ hreserved _ _ =>
      rw [hreserved] at hx'
      cases hx'

/-- One step of a task, by what it does to the names. -/
theorem NamesKept.advance {i : Nat} {c : RegistryChoice} {x x' : RegistryTask} {r' : Registry}
    (h : NamesKept p) (hp : p.Pairwise RegistryTask.Apart) (ht : p.task i = some x)
    (hc : namesKept p (.advance i c) = true) (hstep : Registry.NameStep p.shared x r' x') :
    NamesKept ((p.setShared r').setTask i x') := by
  -- What the other tasks have reserved and are about to give back stays as it is.
  have hres (name : String) : Reserved p name ↔ x.reserved = some name ∨
      ∃ j y, j ≠ i ∧ p.task j = some y ∧ y.reserved = some name := Pool.exists_task_iff ht _
  have hres' (name : String) : Reserved ((p.setShared r').setTask i x') name ↔
      x'.reserved = some name ∨ ∃ j y, j ≠ i ∧ p.task j = some y ∧ y.reserved = some name :=
    Pool.exists_setTask_iff _
  have hrel (name : String) : Releasing p name ↔ x.releasing = some name ∨
      ∃ j y, j ≠ i ∧ p.task j = some y ∧ y.releasing = some name := Pool.exists_task_iff ht _
  have hrel' (name : String) : Releasing ((p.setShared r').setTask i x') name ↔
      x'.releasing = some name ∨ ∃ j y, j ≠ i ∧ p.task j = some y ∧ y.releasing = some name :=
    Pool.exists_setTask_iff _
  have halone (name : String) (hx : x.reserved = some name) :
      ¬ ∃ j y, j ≠ i ∧ p.task j = some y ∧ y.reserved = some name := by
    rintro ⟨j, y, hji, hy, hy'⟩
    exact hp i j x y (Ne.symm hji) ht hy name hx hy'
  -- A step that ends a reservation leaves those of the others.
  have hended (hreserved : x'.reserved = none) (name : String)
      (hr : Reserved ((p.setShared r').setTask i x') name) :
      ∃ j y, j ≠ i ∧ p.task j = some y ∧ y.reserved = some name := by
    refine ((hres' name).mp hr).resolve_left ?_
    rw [hreserved]
    exact nofun
  have hbefore (hreserved : x'.reserved = none) (name : String)
      (hr : Reserved ((p.setShared r').setTask i x') name) : Reserved p name :=
    (hres name).mpr (.inr (hended hreserved name hr))
  have hothers (hold : x.reserved = none) (name : String) (hr : Reserved p name) :
      Reserved ((p.setShared r').setTask i x') name := by
    refine (hres' name).mpr (.inr (((hres name).mp hr).resolve_left ?_))
    rw [hold]
    exact nofun
  have hstill (name : String) (hx : x.releasing ≠ some name) (hr : Releasing p name) :
      Releasing ((p.setShared r').setTask i x') name :=
    (hrel' name).mpr (.inr (((hrel name).mp hr).resolve_left hx))
  cases hstep with
  | leave hkept hlost hnames hreserved hreleasing =>
    have hsame (name : String) :
        Reserved ((p.setShared r').setTask i x') name ↔ Reserved p name := by
      rw [hres, hres', hreserved]
    refine ⟨fun id id' name h₁ h₂ => h.distinct id id' name (hkept _ _ h₁) (hkept _ _ h₂),
      fun name htaken => ?_, fun id name hcar hr => ?_, fun name hn => ?_⟩
    · change name ∈ r'.app.sessionNames
      rw [hnames]
      refine h.taken name (htaken.imp ?_ (hsame name).mp)
      exact fun ⟨id, hcar⟩ => ⟨id, hkept id name hcar⟩
    · exact h.apart id name (hkept id name hcar) ((hsame name).mp hr)
    · change name ∈ r'.app.sessionNames at hn
      rw [hnames] at hn
      rcases h.only name hn with (⟨id, hcar⟩ | hr) | hr
      · rcases hlost id name hcar with hcar | hx
        · exact .inl (.inl ⟨id, hcar⟩)
        · exact .inr ((hrel' name).mpr (.inl hx))
      · exact .inl (.inr ((hsame name).mpr hr))
      · rcases (hrel name).mp hr with hx | ho
        · rcases hreleasing name hx with hx | hcar
          · exact .inr ((hrel' name).mpr (.inl hx))
          · exact .inl (.inl hcar)
        · exact .inr ((hrel' name).mpr (.inr ho))
  | reserve new hcarries hfree hnames hold hreserved hreleasing =>
    have hcar {id : SessionId} {name : String} (hcar : r'.app.Carries id name) :
        p.shared.app.Carries id name := hcarries ▸ hcar
    have hnew {name : String} (hr : Reserved ((p.setShared r').setTask i x') name) :
        name = new ∨ Reserved p name := by
      rcases (hres' name).mp hr with hx | ho
      · exact .inl (Option.some.inj (hx.symm.trans hreserved))
      · exact .inr ((hres name).mpr (.inr ho))
    refine ⟨fun id id' name h₁ h₂ => h.distinct id id' name (hcar h₁) (hcar h₂),
      fun name htaken => ?_, fun id name h₁ hr => ?_, fun name hn => ?_⟩
    · change name ∈ r'.app.sessionNames
      rw [hnames, Finset.mem_insert]
      rcases htaken with ⟨id, h₁⟩ | hr
      · exact .inr (h.taken name (.inl ⟨id, hcar h₁⟩))
      · exact (hnew hr).imp_right fun hr => h.taken name (.inr hr)
    · rcases hnew hr with rfl | hr
      · exact hfree (h.taken name (.inl ⟨id, hcar h₁⟩))
      · exact h.apart id name (hcar h₁) hr
    · change name ∈ r'.app.sessionNames at hn
      rw [hnames, Finset.mem_insert] at hn
      rcases hn with rfl | hn
      · exact .inl (.inr ((hres' name).mpr (.inl hreserved)))
      · rcases h.only name hn with (⟨id, h₁⟩ | hr) | hr
        · exact .inl (.inl ⟨id, hcarries ▸ h₁⟩)
        · exact .inl (.inr (hothers hold name hr))
        · exact .inr (hstill name (by rw [hreleasing]; exact nofun) hr)
  | retake new hcarries hnames hold hreserved hreleasing hquiet =>
    have hcar {id : SessionId} {name : String} (hcar : r'.app.Carries id name) :
        p.shared.app.Carries id name := hcarries ▸ hcar
    refine ⟨fun id id' name h₁ h₂ => h.distinct id id' name (hcar h₁) (hcar h₂),
      fun name htaken => ?_,
      fun id name h₁ hr => h.apart id name (hcar h₁) (hbefore hreserved name hr), fun name hn => ?_⟩
    · change name ∈ r'.app.sessionNames
      rw [hnames, Finset.mem_insert]
      refine .inr (h.taken name (htaken.imp ?_ (hbefore hreserved name)))
      exact fun ⟨id, h₁⟩ => ⟨id, hcar h₁⟩
    · change name ∈ r'.app.sessionNames at hn
      rw [hnames, Finset.mem_insert] at hn
      rcases hn with rfl | hn
      · exact .inr ((hrel' name).mpr (.inl hreleasing))
      · rcases h.only name hn with (⟨id, h₁⟩ | hr) | hr
        · exact .inl (.inl ⟨id, hcarries ▸ h₁⟩)
        · exact .inl (.inr (hothers hold name hr))
        · exact .inr (hstill name (by rw [hquiet]; exact nofun) hr)
  | enter id₀ new hcarries hnames hold hreserved hreleasing =>
    have hnew : Reserved p new := (hres new).mpr (.inl hold)
    refine ⟨fun id id' name h₁ h₂ => ?_, fun name htaken => ?_, fun id name h₁ hr => ?_,
      fun name hn => ?_⟩
    · rcases (hcarries id name).mp h₁ with h₁ | ⟨rfl, rfl⟩
      · rcases (hcarries id' name).mp h₂ with h₂ | ⟨rfl, rfl⟩
        · exact h.distinct id id' name h₁ h₂
        · exact absurd hnew (h.apart id name h₁)
      · rcases (hcarries id' name).mp h₂ with h₂ | ⟨rfl, -⟩
        · exact absurd hnew (h.apart id' name h₂)
        · rfl
    · change name ∈ r'.app.sessionNames
      rw [hnames]
      rcases htaken with ⟨id, h₁⟩ | hr
      · rcases (hcarries id name).mp h₁ with h₁ | ⟨rfl, rfl⟩
        · exact h.taken name (.inl ⟨id, h₁⟩)
        · exact h.taken name (.inr hnew)
      · exact h.taken name (.inr (hbefore hreserved name hr))
    · rcases (hcarries id name).mp h₁ with h₁ | ⟨rfl, rfl⟩
      · exact h.apart id name h₁ (hbefore hreserved name hr)
      · exact halone name hold (hended hreserved name hr)
    · change name ∈ r'.app.sessionNames at hn
      rw [hnames] at hn
      rcases h.only name hn with (⟨id, h₁⟩ | hr) | hr
      · exact .inl (.inl ⟨id, (hcarries id name).mpr (.inl h₁)⟩)
      · rcases (hres name).mp hr with hx | ho
        · obtain rfl := Option.some.inj (hold.symm.trans hx)
          exact .inl (.inl ⟨id₀, (hcarries id₀ new).mpr (.inr ⟨rfl, rfl⟩)⟩)
        · exact .inl (.inr ((hres' name).mpr (.inr ho)))
      · exact .inr (hstill name (by rw [hreleasing]; exact nofun) hr)
  | restore stored hcarries hnames hold hreserved hrestores hreleasing =>
    obtain ⟨hmem, hfree, hown⟩ := restorable_of_restores hc ht hrestores
    refine ⟨fun id id' name h₁ h₂ => ?_, fun name htaken => ?_, fun id name h₁ hr => ?_,
      fun name hn => ?_⟩
    · rcases (hcarries id name).mp h₁ with h₁ | ⟨rfl, rfl⟩
      · rcases (hcarries id' name).mp h₂ with h₂ | ⟨rfl, rfl⟩
        · exact h.distinct id id' name h₁ h₂
        · exact hown id h₁
      · rcases (hcarries id' _).mp h₂ with h₂ | ⟨rfl, -⟩
        · exact (hown id' h₂).symm
        · rfl
    · change name ∈ r'.app.sessionNames
      rw [hnames]
      rcases htaken with ⟨id, h₁⟩ | hr
      · rcases (hcarries id name).mp h₁ with h₁ | ⟨rfl, rfl⟩
        · exact h.taken name (.inl ⟨id, h₁⟩)
        · exact hmem
      · exact h.taken name (.inr (hbefore hreserved name hr))
    · rcases (hcarries id name).mp h₁ with h₁ | ⟨rfl, rfl⟩
      · exact h.apart id name h₁ (hbefore hreserved name hr)
      · exact hfree (hbefore hreserved _ hr)
    · change name ∈ r'.app.sessionNames at hn
      rw [hnames] at hn
      rcases h.only name hn with (⟨id, h₁⟩ | hr) | hr
      · exact .inl (.inl ⟨id, (hcarries id name).mpr (.inl h₁)⟩)
      · exact .inl (.inr (hothers hold name hr))
      · rcases (hrel name).mp hr with hx | ho
        · obtain rfl := Option.some.inj (hreleasing.symm.trans hx)
          exact .inl (.inl ⟨stored.summary.id, (hcarries _ _).mpr (.inr ⟨rfl, rfl⟩)⟩)
        · exact .inr ((hrel' name).mpr (.inr ho))
  | drop old hcarries hnames hold hreserved hreleasing =>
    have hcar {id : SessionId} {name : String} (hcar : r'.app.Carries id name) :
        p.shared.app.Carries id name := hcarries ▸ hcar
    have hnew : Reserved p old := (hres old).mpr (.inl hold)
    refine ⟨fun id id' name h₁ h₂ => h.distinct id id' name (hcar h₁) (hcar h₂),
      fun name htaken => ?_,
      fun id name h₁ hr => h.apart id name (hcar h₁) (hbefore hreserved name hr), fun name hn => ?_⟩
    · change name ∈ r'.app.sessionNames
      rw [hnames, Finset.mem_erase]
      rcases htaken with ⟨id, h₁⟩ | hr
      · refine ⟨?_, h.taken name (.inl ⟨id, hcar h₁⟩)⟩
        rintro rfl
        exact h.apart id name (hcar h₁) hnew
      · refine ⟨?_, h.taken name (.inr (hbefore hreserved name hr))⟩
        rintro rfl
        exact halone name hold (hended hreserved name hr)
    · change name ∈ r'.app.sessionNames at hn
      rw [hnames, Finset.mem_erase] at hn
      rcases h.only name hn.2 with (⟨id, h₁⟩ | hr) | hr
      · exact .inl (.inl ⟨id, hcarries ▸ h₁⟩)
      · refine .inl (.inr ((hres' name).mpr (.inr (((hres name).mp hr).resolve_left ?_))))
        exact fun hx => hn.1 (Option.some.inj (hx.symm.trans hold))
      · exact .inr (hstill name (by rw [hreleasing]; exact nofun) hr)
  | release old hcarries hnames hold hreserved hfrees hreleasing =>
    have hcar {id : SessionId} {name : String} (hcar : r'.app.Carries id name) :
        p.shared.app.Carries id name := hcarries ▸ hcar
    have hfree : ¬ Taken p old := not_taken_of_frees hc ht hfrees
    refine ⟨fun id id' name h₁ h₂ => h.distinct id id' name (hcar h₁) (hcar h₂),
      fun name htaken => ?_,
      fun id name h₁ hr => h.apart id name (hcar h₁) (hbefore hreserved name hr), fun name hn => ?_⟩
    · change name ∈ r'.app.sessionNames
      have hbefore : Taken p name := by
        refine htaken.imp ?_ (hbefore hreserved name)
        exact fun ⟨id, h₁⟩ => ⟨id, hcar h₁⟩
      rw [hnames, Finset.mem_erase]
      exact ⟨fun hname => hfree (hname ▸ hbefore), h.taken name hbefore⟩
    · change name ∈ r'.app.sessionNames at hn
      rw [hnames, Finset.mem_erase] at hn
      rcases h.only name hn.2 with (⟨id, h₁⟩ | hr) | hr
      · exact .inl (.inl ⟨id, hcarries ▸ h₁⟩)
      · exact .inl (.inr (hothers hold name hr))
      · exact .inr (hstill name (fun hx => hn.1 (Option.some.inj (hx.symm.trans hreleasing))) hr)

theorem namesKept_step (hp : p.Pairwise RegistryTask.Apart)
    (hsafe : Tasking.Safe Registry.Coherent Registry.TaskOk p) (h : NamesKept p)
    (hc : namesKept p a = true) (hs : (registryTasking host).machine.step a p = some q) :
    NamesKept q := by
  cases Tasking.stepped_of_step hs with
  | spawn i x hx hi =>
    have hidle : x.reserved = none ∧ x.releasing = none := by
      cases x with
      | create clientKind call pc =>
        cases pc with
        | start => exact ⟨rfl, rfl⟩
        | _ => cases hx
      | session task =>
        cases task with
        | kill id pc => cases pc <;> first | exact ⟨rfl, rfl⟩ | cases hx
        | evict id pc => cases pc <;> first | exact ⟨rfl, rfl⟩ | cases hx
        | persist id final pc => exact ⟨rfl, rfl⟩
    have hres (name : String) : Reserved (p.setTask i x) name ↔ Reserved p name :=
      Pool.exists_spawn_iff hi (by rw [hidle.1]; exact nofun)
    have hrel (name : String) : Releasing (p.setTask i x) name ↔ Releasing p name :=
      Pool.exists_spawn_iff hi (by rw [hidle.2]; exact nofun)
    have htaken (name : String) : Taken (p.setTask i x) name ↔ Taken p name :=
      or_congr_right (hres name)
    refine ⟨h.distinct, fun name ht => h.taken name ((htaken name).mp ht),
      fun id name hcar hr => h.apart id name hcar ((hres name).mp hr), fun name hn => ?_⟩
    exact (h.only name hn).imp (htaken name).mpr (hrel name).mpr
  | advance i c x x' r' ht hr =>
    exact h.advance hp ht hc (Registry.advance_effect hsafe.1 (hsafe.2 i x ht) hr).names
  | drop i x ht hx => cases hx
  | keep e r' hr =>
    obtain ⟨-, -, hcarries, hnames⟩ := Registry.event_effect (i := 0) hsafe.1 hr
    have htaken (name : String) : Taken (p.setShared r') name ↔ Taken p name := by
      simp only [Taken, Pool.setShared_shared, hcarries]
      rfl
    refine ⟨fun id id' name h₁ h₂ => ?_, fun name ht => ?_, fun id name h₁ => ?_,
      fun name hn => ?_⟩
    · exact h.distinct id id' name (hcarries ▸ h₁) (hcarries ▸ h₂)
    · change name ∈ r'.app.sessionNames
      rw [hnames]
      exact h.taken name ((htaken name).mp ht)
    · exact h.apart id name (hcarries ▸ h₁)
    · change name ∈ r'.app.sessionNames at hn
      rw [hnames] at hn
      exact (h.only name hn).imp_left (htaken name).mpr
  | clear e r' hr =>
    have hidle (name : String) : ¬ Reserved (Pool.empty r') name := by
      rintro ⟨i, x, hi, -⟩
      cases (Pool.empty_task r' i).symm.trans hi
    cases e with
    | create => cases hr
    | record | markDirty | markExited => cases (Prod.mk.inj (Option.some.inj hr)).2
    | restart kept =>
      obtain ⟨-, rows, hrows, hrestored, hsessions, hnames⟩ := Registry.restart_effect hsafe.1 hr
      have hapart : namesApart (rows.retain fun id _ => id ∈ kept) = true := by
        simpa only [namesKept, hrows, Option.all_some] using hc
      have hrow {id : SessionId} {name : String} (hcar : r'.app.Carries id name) :
          ∃ stored, (rows.retain fun id _ => id ∈ kept).lookup id = some stored ∧
            stored.summary.name = name := by
        rcases hcar with hl | hr
        · obtain ⟨o, ho, -⟩ := Option.map_eq_some_iff.mp hl
          have hlive := (AppState.get_eq_some.mp ho).1
          rw [hsessions] at hlive
          exact absurd hlive (Finset.notMem_empty id)
        · rw [AppState.restoredName, hrestored] at hr
          exact Option.map_eq_some_iff.mp hr
      refine ⟨fun id id' name h₁ h₂ => ?_, fun name ht => ?_, fun id name _ => hidle name,
        fun name hn => .inl (.inl ((hnames name).mp hn))⟩
      · obtain ⟨a, ha, hname⟩ := hrow h₁
        obtain ⟨b, hb, hname'⟩ := hrow h₂
        exact eq_of_namesApart hapart ha hb (hname.trans hname'.symm)
      · exact (hnames name).mpr (ht.resolve_right (hidle name))

theorem namesKept_init (h : (registryTasking host).machine.init p) : NamesKept p := by
  obtain ⟨hnew, htask⟩ := h
  have hcarries (id : SessionId) (name : String) : ¬ p.shared.app.Carries id name := by
    rw [show p.shared = .new from hnew]
    rintro (hl | hr)
    · obtain ⟨o, ho, -⟩ := Option.map_eq_some_iff.mp hl
      exact absurd (AppState.get_eq_some.mp ho).1 (Finset.notMem_empty id)
    · obtain ⟨stored, hl, -⟩ := Option.map_eq_some_iff.mp hr
      cases (Table.lookup_empty id).symm.trans hl
  refine ⟨fun id id' name h₁ => absurd h₁ (hcarries id name), fun name ht => ?_,
    fun id name h₁ => absurd h₁ (hcarries id name), fun name hn => ?_⟩
  · rcases ht with ⟨id, h₁⟩ | ⟨i, x, hi, -⟩
    · exact absurd h₁ (hcarries id name)
    · cases (htask i).symm.trans hi
  · rw [show p.shared = .new from hnew] at hn
    exact absurd hn (Finset.notMem_empty name)

/-- In a run that keeps the names, sessions have different names, and the set holds exactly
their names and the reserved ones, apart from what a removal has still to give back. -/
theorem session_names_unique
    (h : (registryTasking host).machine.ReachableWhen (fun p a => namesKept p a = true) p) :
    (∀ id id' name, p.shared.app.Carries id name → p.shared.app.Carries id' name → id = id') ∧
      (∀ name, Taken p name → name ∈ p.shared.app.sessionNames) ∧
      ∀ name ∈ p.shared.app.sessionNames, Taken p name ∨ Releasing p name := by
  have hkept := h.invariant
    (I := fun p => Tasking.Safe Registry.Coherent Registry.TaskOk p ∧
      p.Pairwise RegistryTask.Apart ∧ NamesKept p)
    (fun p hp => ⟨registry_noninterference.safe_init hp, Tasking.pairwise_init hp,
      namesKept_init hp⟩)
    (fun p a q hp hc hs => ⟨registry_noninterference.step hp.1 trivial hs,
      apart_step hp.2.1 hp.1 hp.2.2 hs, namesKept_step hp.2.1 hp.1 hp.2.2 hc hs⟩)
  exact ⟨hkept.2.2.distinct, hkept.2.2.taken, hkept.2.2.only⟩

private def asked (name : String) : RegistryTask :=
  .create .localCli ⟨name, ["sh"], "/", [], ⟨80, 24⟩⟩ .start

private def answer (id : SessionId) : RegistryChoice := ⟨⟨true, 0⟩, id, 0, 0, ""⟩

/-- A name is used again after a kill while another creation is in flight. -/
theorem session_names_unique_run :
    ∃ p, (registryTasking ⟨none, none⟩).machine.ReachableWhen (fun p a => namesKept p a = true) p ∧
      (p.shared.app.Carries 2 "a" ∧ Reserved p "b") ∧
      (∀ id id' name, p.shared.app.Carries id name → p.shared.app.Carries id' name → id = id') ∧
      (∀ name, Taken p name → name ∈ p.shared.app.sessionNames) ∧
      ∀ name ∈ p.shared.app.sessionNames, Taken p name ∨ Releasing p name := by
  obtain ⟨p, hr, hp⟩ := Machine.exists_reachable_of_exec (s := Pool.empty .new)
    (M := (registryTasking ⟨none, none⟩).machine) (fun p a => namesKept p a = true)
    (fun p => (2, "a") ∈ p.shared.app.named ∧ "b" ∈ reservedNames p)
    (List.flatten [[.spawn 0 (asked "a")], Move.repeated 7 0 (answer 1),
      [.spawn 1 (.session (.kill 1 .looking))], Move.repeated 8 1 (answer 0),
      [.spawn 2 (asked "a")], Move.repeated 7 2 (answer 2),
      [.spawn 3 (asked "b")], Move.repeated 2 3 (answer 3)])
    (Tasking.init_empty rfl) (by decide)
  exact ⟨p, hr, ⟨AppState.mem_named.mp hp.1, mem_reservedNames.mp hp.2⟩, session_names_unique hr⟩

/-- Two kills of one session. The slower one gives back the name of the session that was
created after the faster one, and a third session gets that name too. -/
theorem session_names_collide :
    ¬ ∀ p, (registryTasking ⟨none, none⟩).machine.Reachable p → ∀ id id' name,
      p.shared.app.Carries id name → p.shared.app.Carries id' name → id = id' := by
  intro hall
  obtain ⟨p, hr, h₂, h₃⟩ := Machine.exists_reachable_of_exec (s := Pool.empty .new)
    (M := (registryTasking ⟨none, none⟩).machine) Machine.Any
    (fun p => (2, "a") ∈ p.shared.app.named ∧ (3, "a") ∈ p.shared.app.named)
    (List.flatten [[.spawn 0 (asked "a")], Move.repeated 7 0 (answer 1),
      [.spawn 1 (.session (.kill 1 .looking)), .spawn 2 (.session (.kill 1 .looking)),
        .advance 2 (answer 0)], Move.repeated 8 1 (answer 0),
      [.spawn 3 (asked "a")], Move.repeated 7 3 (answer 2), Move.repeated 5 2 (answer 0),
      [.spawn 4 (asked "a")], Move.repeated 7 4 (answer 3)])
    (Tasking.init_empty rfl) (by decide)
  cases hall p hr 2 3 "a" (AppState.mem_named.mp h₂) (AppState.mem_named.mp h₃)

end Run

end Shelly.Daemon
