import Shelly.Daemon.SessionList

namespace Shelly.Daemon

/-- The operation has changed what is listed, or may have, and publishes the list later. -/
def RegistryTask.owes : RegistryTask → Bool
  | .create _ _ (.forwarding _) => true
  | .create _ _ (.publishing _) => true
  | .session (.kill _ (.forgetting _)) => true
  | .session (.kill _ (.releasing _)) => true
  | .session (.kill _ .erasing) => true
  | .session (.kill _ (.publishing _)) => true
  | .session (.evict _ .observing) => false
  | .session (.evict _ .returned) => false
  | .session (.evict _ _) => true
  | _ => false

namespace BoardTask

/-- The task computes a list later on. An update does so if there is still a forwarder for it. -/
def owes (s : SessionBoard) : BoardTask → Bool
  | .registry task => task.owes
  | .change id .notified => s.forwards id
  | .change _ .scheduling => true
  | .change _ .sleeping => true
  | .change _ .computing => true
  | _ => false

/-- The list that the task has computed and not yet sent. -/
def holds : BoardTask → Option (List ListedSession)
  | .sending _ sessions => some sessions
  | .change _ (.sending sessions) => some sessions
  | _ => none

/-- The task is not in flight. An eviction that waits for an exit is not, and what persists a
session lists nothing. -/
def idle : BoardTask → Bool
  | .registry (.create _ _ (.returned _)) => true
  | .registry (.session (.kill _ (.returned _))) => true
  | .registry (.session (.evict _ .observing)) => true
  | .registry (.session (.evict _ .returned)) => true
  | .registry (.session (.persist _ _ _)) => true
  | .change _ .finished => true
  | _ => false

end BoardTask

/-- A session has exited, and its forwarder has yet to evict it. -/
def SessionBoard.evictionDue (s : SessionBoard) : Bool :=
  s.registry.app.objects.entries.any fun e => e.2.exitCode.isSome && s.forwards e.1

section Guard

variable {p : Pool SessionBoard BoardTask} {s : SessionBoard} {id : SessionId}

/-- Somebody has yet to compute a list. -/
def stillToPublish (p : Pool SessionBoard BoardTask) : Bool :=
  p.shared.evictionDue || p.tasks.entries.any fun e => e.2.owes p.shared

theorem evictionDue_iff : s.evictionDue = true ↔ ∃ id o,
    s.registry.app.objects.lookup id = some o ∧ o.exitCode.isSome = true ∧
      s.forwards id = true := by
  simp only [SessionBoard.evictionDue, List.any_eq_true, Bool.and_eq_true]
  constructor
  · rintro ⟨⟨id, o⟩, he, ho⟩
    exact ⟨id, o, Table.mem_entries.mp he, ho⟩
  · rintro ⟨id, o, hl, ho⟩
    exact ⟨⟨id, o⟩, Table.mem_entries.mpr hl, ho⟩

theorem stillToPublish_iff : stillToPublish p = true ↔
    p.shared.evictionDue = true ∨ ∃ i x, p.task i = some x ∧ x.owes p.shared = true := by
  simp only [stillToPublish, Bool.or_eq_true, List.any_eq_true]
  refine or_congr_right ⟨?_, ?_⟩
  · rintro ⟨⟨i, x⟩, he, hx⟩
    exact ⟨i, x, Table.mem_entries.mp he, hx⟩
  · rintro ⟨i, x, hi, hx⟩
    exact ⟨⟨i, x⟩, Table.mem_entries.mpr hi, hx⟩

/-- No list is sent after the one that was computed last, unless it is still right or a list is
still to be computed. No live session changes without a forwarder, unless a list is still to be
computed. And no session is stored when the daemon starts. -/
def listKept (p : Pool SessionBoard BoardTask) :
    Move BoardTask RegistryChoice BoardEvent → Bool
  | .advance i _ =>
    match p.task i with
    | some (.sending _ sessions) =>
      p.shared.newest.isSome || decide (sessions = p.shared.summaries) || stillToPublish p
    | some (.change _ (.sending sessions)) =>
      p.shared.newest.isSome || decide (sessions = p.shared.summaries) || stillToPublish p
    | some (.change id (.applying .session _)) =>
      decide (id ∉ p.shared.registry.app.sessions) || p.shared.forwards id || stillToPublish p
    | some (.change id (.applying .exit _)) =>
      decide (id ∉ p.shared.registry.app.sessions) || stillToPublish p
    | _ => true
  | .environment (.restart kept _) =>
    p.shared.registry.app.persisted.all fun rows => (rows.retain fun id _ => id ∈ kept).size = 0
  | _ => true

/-- No operation, no scheduled publication and no eviction is in flight. -/
structure Quiet (p : Pool SessionBoard BoardTask) : Prop where
  tasks : ∀ i x, p.task i = some x → x.idle = true
  evictions : p.shared.evictionDue = false

end Guard

/-- The task sees to it that the list becomes right: it computes one later, or it holds the newest
one and that is right. -/
def SessionBoard.Tends (s : SessionBoard) (i : Nat) (x : BoardTask) : Prop :=
  x.owes s = true ∨ s.newest = some i ∧ x.holds = some s.summaries

/-- The list is right, or somebody sees to it. -/
def Tended (p : Pool SessionBoard BoardTask) : Prop :=
  (p.shared.newest = none ∧ p.shared.list = p.shared.summaries) ∨
    p.shared.evictionDue = true ∨ ∃ i x, p.task i = some x ∧ p.shared.Tends i x

/-- The flag is set by a publication that has not begun. -/
def Scheduled (p : Pool SessionBoard BoardTask) : Prop :=
  p.shared.pending = true → ∃ i id, p.task i = some (.change id .sleeping)

/-- Nothing that the list depends on is different. -/
structure SessionBoard.Unseen (s s' : SessionBoard) : Prop where
  summaries : s'.summaries = s.summaries
  forwards : ∀ id, s.forwards id = true → s'.forwards id = true
  due : s.evictionDue = true → s'.evictionDue = true

/-- Nothing of the registry that the list depends on is different. -/
structure Registry.Unseen (r r' : Registry) : Prop where
  sessions : r'.app.sessions = r.app.sessions
  live : ∀ id ∈ r.app.sessions, (r'.app.objects.lookup id).map (·.cachedSummary) =
    (r.app.objects.lookup id).map (·.cachedSummary)
  restored : ∀ id, r'.app.restored.lookup id = r.app.restored.lookup id
  forwarders : ∀ id ∈ r.forwarders, id ∈ r'.forwarders
  observer : r'.app.observer = r.app.observer
  exited : ∀ id o, r.app.objects.lookup id = some o → o.exitCode.isSome = true →
    ∃ o', r'.app.objects.lookup id = some o' ∧ o'.exitCode.isSome = true

section Unseen

variable {r r' : Registry} {s s' : SessionBoard} {id : SessionId}

theorem Registry.Unseen.of_same (hobjects : r'.app.objects = r.app.objects)
    (hsessions : r'.app.sessions = r.app.sessions)
    (hrestored : ∀ id, r'.app.restored.lookup id = r.app.restored.lookup id)
    (hforwarders : r'.forwarders = r.forwarders) (hobserver : r'.app.observer = r.app.observer) :
    r.Unseen r' where
  sessions := hsessions
  live id _ := by rw [hobjects]
  restored := hrestored
  forwarders id h := hforwarders ▸ h
  observer := hobserver
  exited id o ho he := ⟨o, hobjects ▸ ho, he⟩

theorem Registry.Unseen.of_update {f : Session → Session} {k : SessionId}
    (hsummary : k ∈ r.app.sessions → ∀ o, (f o).cachedSummary = o.cachedSummary)
    (hexited : ∀ o, o.exitCode.isSome = true → (f o).exitCode.isSome = true) :
    r.Unseen { r with app := r.app.update k f } where
  sessions := rfl
  live id hid := by
    simp only [AppState.update, Table.lookup_modify]
    split
    · rename_i hk
      cases r.app.objects.lookup id with
      | none => rfl
      | some o => exact congrArg some (hsummary (hk ▸ hid) o)
    · rfl
  restored _ := rfl
  forwarders _ h := h
  observer := rfl
  exited id o ho he := by
    simp only [AppState.update, Table.lookup_modify, ho]
    split
    · exact ⟨f o, rfl, hexited o he⟩
    · exact ⟨o, rfl, he⟩

/-- The list depends on the live sessions, on the restored ones and on their agents only. -/
theorem summaries_congr (hlive : s'.listedLive = s.listedLive)
    (hrestored : s'.listedRestored = s.listedRestored) : s'.summaries = s.summaries := by
  have hget (t : SessionBoard) (k : SessionId) (hk : (t.listedLive k).isSome = true) :
      t.registry.app.objects.contains k = true := by
    obtain ⟨_, hs⟩ := Option.isSome_iff_exists.mp hk
    obtain ⟨o, ho, -⟩ := Option.map_eq_some_iff.mp hs
    exact Table.contains_eq_true.mpr ⟨o, (AppState.get_eq_some.mp ho).2⟩
  have hrow (t : SessionBoard) (k : SessionId) (hk : (t.listedRestored k).isSome = true) :
      t.registry.app.restored.contains k = true := by
    obtain ⟨_, hs⟩ := Option.isSome_iff_exists.mp hk
    obtain ⟨stored, hl, -⟩ := Option.bind_eq_some_iff.mp hs
    exact Table.contains_eq_true.mpr ⟨stored, hl⟩
  have h₁ := Table.filterMap_inOrder_congr (hlive ▸ hget s') (hget s)
  have h₂ := Table.filterMap_inOrder_congr (hrestored ▸ hrow s') (hrow s)
  rw [SessionBoard.summaries, SessionBoard.summaries, hlive, hrestored, h₁, h₂]

theorem SessionBoard.Unseen.of_registry (h : s.registry.Unseen s'.registry)
    (hagents : ∀ id ∈ s.registry.app.sessions, s'.agent id = s.agent id)
    (hcaptured : s'.captured = s.captured) : s.Unseen s' := by
  have hforwards (id : SessionId) (hf : s.forwards id = true) : s'.forwards id = true := by
    simp only [SessionBoard.forwards, Bool.and_eq_true, decide_eq_true_eq, h.observer] at hf ⊢
    exact ⟨h.forwarders id hf.1, hf.2⟩
  refine ⟨summaries_congr (funext fun id => ?_) (funext fun id => ?_), hforwards, fun hdue => ?_⟩
  · by_cases hid : id ∈ s.registry.app.sessions
    · have hsummary := congrArg (Option.map fun summary => (⟨summary, s.agent id⟩ : ListedSession))
        (h.live id hid)
      simpa only [SessionBoard.listedLive, AppState.get, h.sessions, if_pos hid, hagents id hid,
        Option.map_map, Function.comp_def] using hsummary
    · simp only [SessionBoard.listedLive, AppState.get, h.sessions, if_neg hid, Option.map_none]
  · simp only [SessionBoard.listedRestored, h.restored, h.sessions, hcaptured]
  · obtain ⟨id, o, ho, he, hf⟩ := evictionDue_iff.mp hdue
    obtain ⟨o', ho', he'⟩ := h.exited id o ho he
    exact evictionDue_iff.mpr ⟨id, o', ho', he', hforwards id hf⟩

end Unseen

section Effects

variable {host : HostEnv} {r r' : Registry} {c : RegistryChoice} {i : Nat} {x x' : RegistryTask}
  {id : SessionId} {s' : AppState}

theorem Registry.Unseen.rfl' : r.Unseen r :=
  .of_same rfl rfl (fun _ => rfl) rfl rfl

theorem create_unseen {clientKind : ClientKind} {call : CreateCall} {pc pc' : CreatePc}
    (h : r.Coherent) (hx : r.CreateOk i pc)
    (hs : createStep host c i clientKind call pc r = some (r', pc')) :
    (RegistryTask.create clientKind call pc').owes = true ∨ r.Unseen r' := by
  cases pc with
  | start =>
    simp only [createStep] at hs
    split at hs
    · obtain ⟨rfl, -⟩ := Prod.mk.inj (Option.some.inj hs)
      exact .inr .rfl'
    · split at hs <;> obtain ⟨rfl, -⟩ := Prod.mk.inj (Option.some.inj hs) <;> exact .inr .rfl'
  | reserving | autoNaming =>
    simp only [createStep] at hs
    split at hs <;> obtain ⟨rfl, -⟩ := Prod.mk.inj (Option.some.inj hs) <;>
      exact .inr (.of_same rfl rfl (fun _ => rfl) rfl rfl)
  | spawning name =>
    simp only [createStep] at hs
    split at hs
    · obtain ⟨rfl, -⟩ := Prod.mk.inj (Option.some.inj hs)
      exact .inr .rfl'
    · split at hs
      · split at hs
        · rename_i hfresh
          obtain ⟨rfl, -⟩ := Prod.mk.inj (Option.some.inj hs)
          simp only [Bool.and_eq_true, Option.isNone_iff_eq_none] at hfresh
          have hother {k : SessionId} {o : Session} (ho : r.app.objects.lookup k = some o) :
              k ≠ c.id := by
            rintro rfl
            have := (h.ids _ o ho).2
            rw [hfresh.1] at this
            cases this
          refine .inr ⟨rfl, fun k hk => ?_, fun _ => rfl, fun _ hf => hf, rfl, fun k o ho he => ?_⟩
          · obtain ⟨name, o, ho, -⟩ := h.live k hk
            exact congrArg _ (Table.lookup_insert_ne _ _ (hother ho))
          · exact ⟨o, (Table.lookup_insert_ne _ _ (hother ho)).trans ho, he⟩
        · cases hs
      · obtain ⟨rfl, -⟩ := Prod.mk.inj (Option.some.inj hs)
        exact .inr .rfl'
  | dropping name message =>
    obtain ⟨rfl, -⟩ := Prod.mk.inj (Option.some.inj hs)
    exact .inr (.of_same rfl rfl (fun _ => rfl) rfl rfl)
  | unrestoring id name =>
    obtain ⟨rfl, -⟩ := Prod.mk.inj (Option.some.inj hs)
    refine .inr (.of_same rfl rfl (fun k => ?_) rfl rfl)
    exact congrArg (Table.lookup k) (Table.erase_of_lookup_none hx.2.2.1)
  | inserting | forwarding =>
    obtain ⟨-, rfl⟩ := Prod.mk.inj (Option.some.inj hs)
    exact .inl rfl
  | publishing id =>
    obtain ⟨rfl, -⟩ := Prod.mk.inj (Option.some.inj hs)
    exact .inr (.of_same rfl rfl (fun _ => rfl) rfl rfl)
  | returned result => cases hs

theorem kill_unseen {choice : SessionChoice} {pc pc' : KillPc}
    (hs : killStep choice id pc r.app = some (s', pc')) :
    (RegistryTask.session (.kill id pc')).owes = true ∨ r.Unseen { r with app := s' } := by
  cases pc with
  | looking =>
    simp only [killStep] at hs
    split at hs
    · obtain ⟨rfl, -⟩ := Prod.mk.inj (Option.some.inj hs)
      exact .inr (.of_same rfl rfl (fun _ => rfl) rfl rfl)
    · obtain ⟨-, rfl⟩ := Prod.mk.inj (Option.some.inj hs)
      exact .inl rfl
  | flagging name =>
    obtain ⟨rfl, -⟩ := Prod.mk.inj (Option.some.inj hs)
    exact .inr (.of_update (fun _ _ => rfl) fun _ he => he)
  | signalling name =>
    obtain ⟨rfl, -⟩ := Prod.mk.inj (Option.some.inj hs)
    exact .inr .rfl'
  | unregistering | forgetting | releasing =>
    obtain ⟨-, rfl⟩ := Prod.mk.inj (Option.some.inj hs)
    exact .inl rfl
  | erasing =>
    simp only [killStep] at hs
    split at hs <;> obtain ⟨-, rfl⟩ := Prod.mk.inj (Option.some.inj hs) <;> exact .inl rfl
  | publishing ok =>
    obtain ⟨rfl, -⟩ := Prod.mk.inj (Option.some.inj hs)
    exact .inr (.of_same rfl rfl (fun _ => rfl) rfl rfl)
  | returned ok => cases hs

theorem evict_owes {choice : SessionChoice} {pc pc' : EvictPc}
    (hs : evictStep choice i id pc r.app = some (s', pc')) :
    (RegistryTask.session (.evict id pc')).owes = true ∨ pc = .publishing := by
  cases pc with
  | observing =>
    simp only [evictStep] at hs
    split at hs
    · split at hs
      · obtain ⟨-, rfl⟩ := Prod.mk.inj (Option.some.inj hs)
        exact .inl rfl
      · cases hs
    · cases hs
  | checking =>
    obtain ⟨o, -, he⟩ := Option.map_eq_some_iff.mp hs
    obtain ⟨-, rfl⟩ := Prod.mk.inj he
    cases o.killed <;> exact .inl rfl
  | capturing =>
    obtain ⟨o, -, he⟩ := Option.map_eq_some_iff.mp hs
    obtain ⟨-, rfl⟩ := Prod.mk.inj he
    exact .inl rfl
  | looking | rechecking =>
    obtain ⟨-, rfl⟩ := Prod.mk.inj (Option.some.inj hs)
    left
    split <;> rfl
  | naming | restoring | cappingMap | cappingRow | unregistering | releasing =>
    obtain ⟨-, rfl⟩ := Prod.mk.inj (Option.some.inj hs)
    exact .inl rfl
  | capping stored =>
    simp only [evictStep] at hs
    split at hs
    · split at hs
      · split at hs
        · obtain ⟨-, rfl⟩ := Prod.mk.inj (Option.some.inj hs)
          exact .inl rfl
        · cases hs
      · cases hs
    · obtain ⟨-, rfl⟩ := Prod.mk.inj (Option.some.inj hs)
      exact .inl rfl
  | cappingName stored oldest removed =>
    simp only [evictStep] at hs
    split at hs
    · split at hs <;> obtain ⟨-, rfl⟩ := Prod.mk.inj (Option.some.inj hs) <;> exact .inl rfl
    · obtain ⟨-, rfl⟩ := Prod.mk.inj (Option.some.inj hs)
      exact .inl rfl
  | publishing => exact .inr rfl
  | returned => cases hs

theorem evict_unseen {choice : SessionChoice} {pc pc' : EvictPc}
    (hs : evictStep choice i id pc r.app = some (s', pc')) :
    (RegistryTask.session (.evict id pc')).owes = true ∨ r.Unseen { r with app := s' } := by
  refine (evict_owes hs).imp_right ?_
  rintro rfl
  obtain ⟨rfl, -⟩ := Prod.mk.inj (Option.some.inj hs)
  exact .of_same rfl rfl (fun _ => rfl) rfl rfl

theorem persist_unseen {choice : SessionChoice} {final : Bool} {pc pc' : PersistPc}
    (hs : persistStep choice id final pc r.app = some (s', pc')) :
    r.Unseen { r with app := s' } := by
  cases pc with
  | starting =>
    obtain ⟨o, -, he⟩ := Option.map_eq_some_iff.mp hs
    obtain ⟨rfl, -⟩ := Prod.mk.inj he
    exact .of_update (fun _ _ => rfl) fun _ he => he
  | checking | capturing =>
    obtain ⟨o, -, he⟩ := Option.map_eq_some_iff.mp hs
    obtain ⟨rfl, -⟩ := Prod.mk.inj he
    exact .rfl'
  | saving stored =>
    have he := Option.some.inj hs
    split at he <;> obtain ⟨rfl, -⟩ := Prod.mk.inj he <;>
      exact .of_same rfl rfl (fun _ => rfl) rfl rfl
  | failed =>
    obtain ⟨rfl, -⟩ := Prod.mk.inj (Option.some.inj hs)
    exact .of_update (fun _ _ => rfl) fun _ he => he
  | returned => cases hs

/-- A step of an operation changes nothing that is listed, or the operation publishes later. -/
theorem registry_unseen (h : r.Coherent) (hx : r.TaskOk i x)
    (hs : registryAdvance host c i x r = some (r', x')) : x'.owes = true ∨ r.Unseen r' := by
  cases x with
  | create clientKind call pc =>
    obtain ⟨⟨r₁, pc'⟩, hc, he⟩ := Option.map_eq_some_iff.mp hs
    obtain ⟨rfl, rfl⟩ := Prod.mk.inj he
    exact create_unseen h hx hc
  | session task =>
    obtain ⟨s', task', ht, rfl, rfl⟩ := registryAdvance_session hs
    cases task with
    | kill id pc =>
      obtain ⟨⟨s₁, pc'⟩, hc, he⟩ := Option.map_eq_some_iff.mp ht
      obtain ⟨rfl, rfl⟩ := Prod.mk.inj he
      exact kill_unseen hc
    | evict id pc =>
      obtain ⟨⟨s₁, pc'⟩, hc, he⟩ := Option.map_eq_some_iff.mp ht
      obtain ⟨rfl, rfl⟩ := Prod.mk.inj he
      exact evict_unseen hc
    | persist id final pc =>
      obtain ⟨⟨s₁, pc'⟩, hc, he⟩ := Option.map_eq_some_iff.mp ht
      obtain ⟨rfl, rfl⟩ := Prod.mk.inj he
      exact .inr (persist_unseen hc)

/-- An operation that publishes later goes on doing so until it publishes. -/
theorem owes_advance (hx : x.owes = true) (hp : x.publishes = false)
    (hs : registryAdvance host c i x r = some (r', x')) : x'.owes = true := by
  cases x with
  | create clientKind call pc =>
    obtain ⟨⟨r₁, pc'⟩, hc, he⟩ := Option.map_eq_some_iff.mp hs
    obtain ⟨rfl, rfl⟩ := Prod.mk.inj he
    cases pc with
    | forwarding id =>
      obtain ⟨-, rfl⟩ := Prod.mk.inj (Option.some.inj hc)
      rfl
    | publishing id => cases hp
    | _ => cases hx
  | session task =>
    obtain ⟨s', task', ht, rfl, rfl⟩ := registryAdvance_session hs
    cases task with
    | kill id pc =>
      obtain ⟨⟨s₁, pc'⟩, hc, he⟩ := Option.map_eq_some_iff.mp ht
      obtain ⟨rfl, rfl⟩ := Prod.mk.inj he
      cases pc with
      | forgetting | releasing =>
        obtain ⟨-, rfl⟩ := Prod.mk.inj (Option.some.inj hc)
        rfl
      | erasing =>
        simp only [killStep] at hc
        split at hc <;> obtain ⟨-, rfl⟩ := Prod.mk.inj (Option.some.inj hc) <;> rfl
      | publishing ok => cases hp
      | _ => cases hx
    | evict id pc =>
      obtain ⟨⟨s₁, pc'⟩, hc, he⟩ := Option.map_eq_some_iff.mp ht
      obtain ⟨rfl, rfl⟩ := Prod.mk.inj he
      refine (evict_owes hc).resolve_right ?_
      rintro rfl
      cases hp
    | persist id final pc => cases hx

end Effects

section Change

variable {s s' : SessionBoard} {i : Nat} {id : SessionId} {pc pc' : ChangePc}

/-- A change of a session that is not live is not seen. -/
theorem applied_unseen {change : StateChange} (hid : id ∉ s.registry.app.sessions) :
    s.Unseen (s.applied id change) := by
  refine .of_registry (.of_update (fun hl => absurd hl hid) fun _ he => he) (fun k hk => ?_) rfl
  have hne : k ≠ id := fun h => hid (h ▸ hk)
  simp only [SessionBoard.agent, SessionBoard.applied, SessionBoard.setAgent]
  rw [Table.lookup_insert_ne _ _ hne]

theorem applied_forwards {change : StateChange} (k : SessionId) :
    (s.applied id change).forwards k = s.forwards k := rfl

theorem applied_due {change : StateChange} (h : s.evictionDue = true) :
    (s.applied id change).evictionDue = true := by
  obtain ⟨k, o, ho, he, hf⟩ := evictionDue_iff.mp h
  refine evictionDue_iff.mpr ?_
  by_cases hk : k = id
  · refine ⟨k, { o with lastActivity := change.activity.getD o.lastActivity },
      (Table.lookup_modify _ _ _ _).trans ?_, he, hf⟩
    rw [if_pos hk, ho]
    rfl
  · exact ⟨k, o, (Table.lookup_modify_ne _ _ hk).trans ho, he, hf⟩

theorem marked_unseen {exitCode : Int} : s.Unseen { s with registry := { s.registry with
    app := s.registry.app.update id fun o => { o with exitCode := some exitCode } } } :=
  .of_registry (.of_update (fun _ _ => rfl) fun _ _ => rfl) (fun _ _ => rfl) rfl

end Change

section Run

variable {host : HostEnv} {p q : Pool SessionBoard BoardTask}
  {a : Move BoardTask RegistryChoice BoardEvent} {s s' : SessionBoard} {i j : Nat}
  {x x' : BoardTask}

/-- What tasks do to the registry does not disturb the operations. -/
def BoardOk (s : SessionBoard) (i : Nat) : BoardTask → Prop
  | .registry task => s.registry.TaskOk i task
  | .sending task _ => s.registry.TaskOk i task
  | .change _ _ => True

theorem BoardOk.of_rely (h : s.registry.Rely i s'.registry) (hij : j ≠ i) (hx : BoardOk s j x) :
    BoardOk s' j x := by
  cases x with
  | registry task | sending task => exact h.taskOk hij hx
  | change id pc => trivial

theorem changeStep_rely {id : SessionId} {pc pc' : ChangePc} (h : s.registry.Coherent)
    (hs : changeStep i id pc s = some (s', pc')) :
    s'.registry.Coherent ∧ s.registry.Rely i s'.registry := by
  have hsame (hr : s'.registry = s.registry) :
      s'.registry.Coherent ∧ s.registry.Rely i s'.registry := by
    rw [hr]
    exact ⟨h, .of_same rfl rfl rfl fun _ hl => hl⟩
  have hupdate {f : Session → Session}
      (hr : s'.registry = { s.registry with app := s.registry.app.update id f })
      (hname : ∀ o, (f o).name = o.name) (hid : ∀ o, (f o).id = o.id) :
      s'.registry.Coherent ∧ s.registry.Rely i s'.registry := by
    rw [hr]
    exact ⟨h.update hname hid, .of_update hname⟩
  cases pc with
  | marking exitCode =>
    obtain ⟨o, -, he⟩ := Option.map_eq_some_iff.mp hs
    split at he <;> obtain ⟨rfl, -⟩ := Prod.mk.inj he
    · exact hsame rfl
    · exact hupdate rfl (fun _ => rfl) fun _ => rfl
  | applying cause change =>
    cases cause with
    | session =>
      obtain ⟨o, -, he⟩ := Option.map_eq_some_iff.mp hs
      split at he <;> obtain ⟨rfl, -⟩ := Prod.mk.inj he
      · exact hsame rfl
      · exact hupdate rfl (fun _ => rfl) fun _ => rfl
    | hook | exit =>
      obtain ⟨o, -, he⟩ := Option.map_eq_some_iff.mp hs
      obtain ⟨rfl, -⟩ := Prod.mk.inj he
      exact hupdate rfl (fun _ => rfl) fun _ => rfl
  | scheduling =>
    have he := Option.some.inj hs
    split at he <;> obtain ⟨rfl, -⟩ := Prod.mk.inj he <;> exact hsame rfl
  | notified | sleeping | computing | sending =>
    obtain ⟨rfl, -⟩ := Prod.mk.inj (Option.some.inj hs)
    exact hsame rfl
  | finished => cases hs

theorem boardAdvance_effect {c : RegistryChoice} (h : s.registry.Coherent) (hx : BoardOk s i x)
    (hs : boardAdvance host c i x s = some (s', x')) :
    s'.registry.Coherent ∧ BoardOk s' i x' ∧ s.registry.Rely i s'.registry := by
  cases x with
  | registry task =>
    simp only [boardAdvance] at hs
    split at hs
    · obtain ⟨rfl, rfl⟩ := Prod.mk.inj (Option.some.inj hs)
      exact ⟨h, hx, .of_same rfl rfl rfl fun _ hl => hl⟩
    · obtain ⟨⟨r, task'⟩, hr, he⟩ := Option.map_eq_some_iff.mp hs
      obtain ⟨rfl, rfl⟩ := Prod.mk.inj he
      have e := Registry.advance_effect h hx hr
      exact ⟨e.coherent, e.own, e.rely⟩
  | sending task sessions =>
    obtain ⟨⟨r, task'⟩, hr, he⟩ := Option.map_eq_some_iff.mp hs
    obtain ⟨rfl, rfl⟩ := Prod.mk.inj he
    have e := Registry.advance_effect h hx hr
    exact ⟨e.coherent, e.own, e.rely⟩
  | change id pc =>
    obtain ⟨⟨s₁, pc'⟩, hr, he⟩ := Option.map_eq_some_iff.mp hs
    obtain ⟨rfl, rfl⟩ := Prod.mk.inj he
    obtain ⟨hc, hrely⟩ := changeStep_rely h hr
    exact ⟨hc, trivial, hrely⟩

theorem board_noninterference : Tasking.Noninterference (boardTasking host) Machine.Any
    (fun s => s.registry.Coherent) BoardOk where
  init s hs := by
    subst hs
    exact Registry.coherent_new
  fresh p i x _ hG hx := by
    cases x with
    | registry task =>
      have hfresh := (@registry_noninterference host).fresh (.empty p.shared.registry)
      exact hfresh i task trivial hG hx
    | sending task sessions => cases hx
    | change id pc => trivial
  own p i c x s' x' _ hG _ hL hr :=
    let e := boardAdvance_effect hG hL hr
    ⟨e.1, e.2.1⟩
  others p i c x s' x' _ hG _ hL hr j y hji _ hy :=
    .of_rely (boardAdvance_effect hG hL hr).2.2 hji hy
  environment p e s' keep _ hG hr := by
    cases e with
    | session e =>
      have hevent (hr : (registryEvent e p.shared.registry).map
          (fun r => ({ p.shared with registry := r.1 }, r.2)) = some (s', keep)) :
          s'.registry.Coherent ∧ (keep = true → ∀ j y, p.task j = some y →
            BoardOk p.shared j y → BoardOk s' j y) := by
        obtain ⟨⟨r, k⟩, hev, he⟩ := Option.map_eq_some_iff.mp hr
        obtain ⟨rfl, rfl⟩ := Prod.mk.inj he
        refine ⟨((@registry_noninterference host).environment (.empty p.shared.registry) e r k
          trivial hG hev).1, fun hk j y _ hy => ?_⟩
        subst hk
        exact .of_rely (Registry.event_effect (i := j + 1) hG hev).2.1 (by omega) hy
      cases e with
      | restart kept => cases hr
      | markExited id exitCode => cases hr
      | create | record | markDirty => exact hevent hr
    | restart kept captured =>
      obtain ⟨⟨r, k⟩, hev, he⟩ := Option.map_eq_some_iff.mp hr
      obtain ⟨rfl, rfl⟩ := Prod.mk.inj he
      refine ⟨(Registry.restart_effect hG hev).1, fun hk => ?_⟩
      subst hk
      obtain ⟨⟨s₁, k₁⟩, hev₁, he₁⟩ := Option.map_eq_some_iff.mp hev
      obtain ⟨rows, -, hrows⟩ := Option.map_eq_some_iff.mp hev₁
      cases (Prod.mk.inj hrows).2.trans (Prod.mk.inj he₁).2

theorem task_setTask (p : Pool SessionBoard BoardTask) (s : SessionBoard) (i : Nat)
    (x : BoardTask) : ((p.setShared s).setTask i x).task i = some x := by
  rw [Pool.setTask_task, if_pos rfl]

theorem task_setTask_ne (hji : j ≠ i) :
    ((p.setShared s').setTask i x').task j = p.task j := by
  rw [Pool.setTask_task, if_neg hji]
  rfl

theorem owes_of_forwards (hf : ∀ id, s.forwards id = true → s'.forwards id = true)
    (h : x.owes s = true) : x.owes s' = true := by
  cases x with
  | registry task => exact h
  | sending task sessions => cases h
  | change id pc =>
    cases pc with
    | notified => exact hf id h
    | scheduling | sleeping | computing => rfl
    | _ => cases h

/-- A step that ends in a task which still computes a list. -/
theorem Tended.of_owes (h : x'.owes s' = true) : Tended ((p.setShared s').setTask i x') :=
  .inr (.inr ⟨i, x', task_setTask p s' i x', .inl h⟩)

/-- Somebody else still computes a list, or an eviction is due. -/
theorem Tended.of_still (hx : x.owes p.shared = false) (hi : p.task i = some x)
    (hf : ∀ id, p.shared.forwards id = true → s'.forwards id = true)
    (hdue : p.shared.evictionDue = true → s'.evictionDue = true)
    (h : stillToPublish p = true) : Tended ((p.setShared s').setTask i x') := by
  rcases stillToPublish_iff.mp h with hd | ⟨j, y, hy, ho⟩
  · exact .inr (.inl (hdue hd))
  · have hji : j ≠ i := by
      rintro rfl
      obtain rfl := Option.some.inj (hi.symm.trans hy)
      cases hx.symm.trans ho
    exact .inr (.inr ⟨j, y, (task_setTask_ne hji).trans hy, .inl (owes_of_forwards hf ho)⟩)

/-- A step that is not seen, of a task that neither computes nor sends a list. -/
theorem Tended.unseen (h : Tended p) (hi : p.task i = some x) (hs : p.shared.Unseen s')
    (hlist : s'.list = p.shared.list) (hnewest : s'.newest = p.shared.newest)
    (howes : x.owes p.shared = true → x'.owes s' = true) (hholds : x'.holds = x.holds) :
    Tended ((p.setShared s').setTask i x') := by
  rcases h with ⟨hn, hl⟩ | hd | ⟨j, y, hy, hP⟩
  · exact .inl ⟨hnewest.trans hn, hlist.trans (hl.trans hs.summaries.symm)⟩
  · exact .inr (.inl (hs.due hd))
  · by_cases hji : j = i
    · subst hji
      obtain rfl := Option.some.inj (hi.symm.trans hy)
      refine .inr (.inr ⟨j, x', task_setTask p s' j x', ?_⟩)
      exact hP.imp howes fun ⟨hn, hh⟩ =>
        ⟨hnewest.trans hn, (hholds.trans hh).trans (congrArg some hs.summaries.symm)⟩
    · refine .inr (.inr ⟨j, y, (task_setTask_ne hji).trans hy, ?_⟩)
      exact hP.imp (owes_of_forwards hs.forwards) fun ⟨hn, hh⟩ =>
        ⟨hnewest.trans hn, hh.trans (congrArg some hs.summaries.symm)⟩

/-- A list is sent that is right, or that another one follows. -/
theorem Tended.sent {sessions : List ListedSession} (h : Tended p) (hi : p.task i = some x)
    (hx : x.owes p.shared = false) (hh : x.holds = some sessions)
    (hs : p.shared.Unseen s') (hlist : s'.list = sessions)
    (hnewest : s'.newest = if p.shared.newest = some i then none else p.shared.newest)
    (hguard : p.shared.newest.isSome = true ∨ sessions = p.shared.summaries ∨
      stillToPublish p = true) : Tended ((p.setShared s').setTask i x') := by
  rcases h with ⟨hn, -⟩ | hd | ⟨j, y, hy, hP⟩
  · rcases hguard with hsome | heq | hstill
    · rw [hn] at hsome
      cases hsome
    · refine .inl ⟨?_, hlist.trans (heq.trans hs.summaries.symm)⟩
      change s'.newest = none
      rw [hnewest, hn, if_neg (fun h => nomatch h)]
    · exact .of_still hx hi hs.forwards hs.due hstill
  · exact .inr (.inl (hs.due hd))
  · by_cases hji : j = i
    · subst hji
      obtain rfl := Option.some.inj (hi.symm.trans hy)
      obtain ⟨hn, hsum⟩ := hP.resolve_left fun ho => nomatch hx.symm.trans ho
      refine .inl ⟨hnewest.trans (if_pos hn), hlist.trans ?_⟩
      exact (Option.some.inj (hh.symm.trans hsum)).trans hs.summaries.symm
    · refine .inr (.inr ⟨j, y, (task_setTask_ne hji).trans hy, ?_⟩)
      refine hP.imp (owes_of_forwards hs.forwards) fun ⟨hn, hh⟩ =>
        ⟨?_, hh.trans (congrArg some hs.summaries.symm)⟩
      have hother : p.shared.newest ≠ some i := fun h => hji (Option.some.inj (hn.symm.trans h))
      exact (hnewest.trans (if_neg hother)).trans hn

theorem Tended.registry {c : RegistryChoice} {task : RegistryTask} (h : Tended p)
    (hsafe : Tasking.Safe (fun s => s.registry.Coherent) BoardOk p)
    (hi : p.task i = some (.registry task))
    (hs : boardAdvance host c i (.registry task) p.shared = some (s', x')) :
    Tended ((p.setShared s').setTask i x') := by
  simp only [boardAdvance] at hs
  split at hs
  · -- The list that was just computed is the newest one.
    obtain ⟨rfl, rfl⟩ := Prod.mk.inj (Option.some.inj hs)
    exact .inr (.inr ⟨i, _, task_setTask _ _ _ _, .inr ⟨rfl, rfl⟩⟩)
  · rename_i hp
    obtain ⟨⟨r, task'⟩, hr, he⟩ := Option.map_eq_some_iff.mp hs
    obtain ⟨rfl, rfl⟩ := Prod.mk.inj he
    have howes (ho : task.owes = true) := owes_advance ho (Bool.eq_false_iff.mpr hp) hr
    rcases registry_unseen hsafe.1 (hsafe.2 i _ hi) hr with ho | hu
    · exact .of_owes ho
    · cases hcap : task.captures with
      | none => exact h.unseen hi (.of_registry hu (fun _ _ => rfl) rfl) rfl rfl howes rfl
      | some id =>
        -- An eviction that captures its session publishes later.
        refine .of_owes (howes ?_)
        cases task with
        | create => cases hcap
        | session task =>
          cases task with
          | evict id pc => cases pc <;> first | rfl | cases hcap
          | _ => cases hcap

theorem Tended.sending {c : RegistryChoice} {task : RegistryTask}
    {sessions : List ListedSession} (h : Tended p)
    (hsafe : Tasking.Safe (fun s => s.registry.Coherent) BoardOk p)
    (hc : listKept p (.advance i c) = true) (hi : p.task i = some (.sending task sessions))
    (hs : boardAdvance host c i (.sending task sessions) p.shared = some (s', x')) :
    Tended ((p.setShared s').setTask i x') := by
  obtain ⟨⟨r, task'⟩, hr, he⟩ := Option.map_eq_some_iff.mp hs
  obtain ⟨rfl, rfl⟩ := Prod.mk.inj he
  rcases registry_unseen hsafe.1 (hsafe.2 i _ hi) hr with ho | hu
  · exact .of_owes ho
  · simp only [listKept, hi, Bool.or_eq_true, decide_eq_true_eq, or_assoc] at hc
    exact h.sent hi rfl rfl (.of_registry hu (fun _ _ => rfl) rfl) rfl rfl hc

theorem Tended.change {c : RegistryChoice} {id : SessionId} {pc : ChangePc} (h : Tended p)
    (hpending : Scheduled p) (hc : listKept p (.advance i c) = true)
    (hi : p.task i = some (.change id pc))
    (hs : boardAdvance host c i (.change id pc) p.shared = some (s', x')) :
    Tended ((p.setShared s').setTask i x') := by
  obtain ⟨⟨s₁, pc'⟩, hr, he⟩ := Option.map_eq_some_iff.mp hs
  obtain ⟨rfl, rfl⟩ := Prod.mk.inj he
  have hsame {s₂ : SessionBoard} : s₂.Unseen s₂ := ⟨rfl, fun _ hf => hf, fun hd => hd⟩
  have happlied {change : StateChange} {pc' : ChangePc}
      (howes : (BoardTask.change id pc).owes p.shared = false)
      (hholds : (BoardTask.change id pc').holds = (BoardTask.change id pc).holds)
      (hguard : id ∉ p.shared.registry.app.sessions ∨ stillToPublish p = true) :
      Tended ((p.setShared (p.shared.applied id change)).setTask i (.change id pc')) := by
    rcases hguard with hid | hstill
    · exact h.unseen hi (applied_unseen hid) rfl rfl (fun ho => nomatch howes.symm.trans ho) hholds
    · exact .of_still howes hi (fun _ hf => hf) applied_due hstill
  cases pc with
  | marking exitCode =>
    obtain ⟨o, -, he⟩ := Option.map_eq_some_iff.mp hr
    split at he <;> obtain ⟨rfl, rfl⟩ := Prod.mk.inj he
    · exact h.unseen hi hsame rfl rfl (fun ho => nomatch ho) rfl
    · exact h.unseen hi marked_unseen rfl rfl (fun ho => nomatch ho) rfl
  | applying cause change =>
    cases cause with
    | session =>
      obtain ⟨o, -, he⟩ := Option.map_eq_some_iff.mp hr
      split at he <;> obtain ⟨rfl, rfl⟩ := Prod.mk.inj he
      · exact h.unseen hi hsame rfl rfl (fun ho => nomatch ho) rfl
      · simp only [listKept, hi, Bool.or_eq_true, decide_eq_true_eq] at hc
        rcases hc with (hid | hf) | hstill
        · exact happlied rfl rfl (.inl hid)
        · exact .of_owes hf
        · exact happlied rfl rfl (.inr hstill)
    | hook =>
      obtain ⟨o, -, he⟩ := Option.map_eq_some_iff.mp hr
      obtain ⟨rfl, rfl⟩ := Prod.mk.inj he
      exact .of_owes rfl
    | exit =>
      obtain ⟨o, -, he⟩ := Option.map_eq_some_iff.mp hr
      obtain ⟨rfl, rfl⟩ := Prod.mk.inj he
      simp only [listKept, hi, Bool.or_eq_true, decide_eq_true_eq] at hc
      exact happlied rfl rfl hc
  | notified =>
    obtain ⟨rfl, rfl⟩ := Prod.mk.inj (Option.some.inj hr)
    by_cases hf : p.shared.forwards id = true
    · refine .of_owes ?_
      simp only [if_pos hf, BoardTask.owes]
    · refine h.unseen hi hsame rfl rfl (fun ho => absurd ho hf) ?_
      simp only [if_neg hf, BoardTask.holds]
  | scheduling =>
    have he := Option.some.inj hr
    split at he
    · rename_i hset
      obtain ⟨rfl, rfl⟩ := Prod.mk.inj he
      -- The publication that has set the flag computes its list after this change.
      obtain ⟨j, k, hj⟩ := hpending hset
      have hji : j ≠ i := by
        rintro rfl
        cases hi.symm.trans hj
      exact .inr (.inr ⟨j, _, (task_setTask_ne hji).trans hj, .inl rfl⟩)
    · obtain ⟨rfl, rfl⟩ := Prod.mk.inj he
      exact .of_owes rfl
  | sleeping =>
    obtain ⟨rfl, rfl⟩ := Prod.mk.inj (Option.some.inj hr)
    exact .of_owes rfl
  | computing =>
    obtain ⟨rfl, rfl⟩ := Prod.mk.inj (Option.some.inj hr)
    exact .inr (.inr ⟨i, _, task_setTask _ _ _ _, .inr ⟨rfl, rfl⟩⟩)
  | sending sessions =>
    obtain ⟨rfl, rfl⟩ := Prod.mk.inj (Option.some.inj hr)
    simp only [listKept, hi, Bool.or_eq_true, decide_eq_true_eq, or_assoc] at hc
    exact h.sent hi rfl rfl ⟨rfl, fun _ hf => hf, fun hd => hd⟩ rfl rfl hc
  | finished => cases hr

/-- What happens around the tasks is not seen, restarts apart. -/
theorem event_unseen {e : BoardEvent} (hs : boardEvent e s = some (s', true)) :
    s.Unseen s' ∧ s'.list = s.list ∧ s'.newest = s.newest ∧ s'.pending = s.pending := by
  cases e with
  | session e =>
    have hupdate {f : Session → Session} {id : SessionId}
        (hsummary : ∀ o, (f o).cachedSummary = o.cachedSummary)
        (hexited : ∀ o, (f o).exitCode = o.exitCode) :
        s.Unseen { s with registry := { s.registry with app := s.registry.app.update id f } } :=
      .of_registry (.of_update (fun _ => hsummary) fun o he => hexited o ▸ he) (fun _ _ => rfl) rfl
    cases e with
    | create | restart | markExited => cases hs
    | record | markDirty =>
      obtain ⟨rfl, -⟩ := Prod.mk.inj (Option.some.inj hs)
      exact ⟨hupdate (fun _ => rfl) fun _ => rfl, rfl, rfl, rfl⟩
  | restart kept captured =>
    obtain ⟨⟨r, k⟩, hev, he⟩ := Option.map_eq_some_iff.mp hs
    obtain ⟨⟨s₁, k₁⟩, hev₁, he₁⟩ := Option.map_eq_some_iff.mp hev
    obtain ⟨rows, -, hrows⟩ := Option.map_eq_some_iff.mp hev₁
    cases (Prod.mk.inj hrows).2.trans ((Prod.mk.inj he₁).2.trans (Prod.mk.inj he).2)

/-- A daemon that finds nothing stored lists nothing. -/
theorem Tended.restart {kept : List SessionId} {captured : Table SessionId AgentStatus}
    {k : Bool} (hc : listKept p (.environment (.restart kept captured)) = true)
    (hs : boardEvent (.restart kept captured) p.shared = some (s', k)) : Tended (Pool.empty s') := by
  obtain ⟨⟨r, k⟩, hev, he⟩ := Option.map_eq_some_iff.mp hs
  obtain ⟨⟨s₁, k₁⟩, hev₁, he₁⟩ := Option.map_eq_some_iff.mp hev
  obtain ⟨rows, hrows, he₂⟩ := Option.map_eq_some_iff.mp hev₁
  obtain ⟨rfl, -⟩ := Prod.mk.inj he₂
  obtain ⟨rfl, -⟩ := Prod.mk.inj he₁
  obtain ⟨rfl, -⟩ := Prod.mk.inj he
  simp only [listKept, hrows, Option.all_some, decide_eq_true_eq] at hc
  have hnone : (rows.retain fun id _ => id ∈ kept).entries = [] := List.eq_nil_of_length_eq_zero hc
  refine .inl ⟨rfl, ?_⟩
  simp only [Pool.empty, SessionBoard.summaries, Table.inOrder, hnone]
  rfl

theorem tended_step (h : Tended p) (hpending : Scheduled p)
    (hsafe : Tasking.Safe (fun s => s.registry.Coherent) BoardOk p)
    (hc : listKept p a = true) (hs : (boardTasking host).machine.step a p = some q) : Tended q := by
  cases Tasking.stepped_of_step hs with
  | spawn i x hx hi =>
    refine h.imp_right (Or.imp_right fun ⟨j, y, hy, hP⟩ => ⟨j, y, ?_, hP⟩)
    rw [Pool.setTask_task, if_neg, hy]
    rintro rfl
    cases hi.symm.trans hy
  | advance i c x x' s' hi hr =>
    replace hr : boardAdvance host c i x p.shared = some (s', x') := hr
    cases x with
    | registry task => exact h.registry hsafe hi hr
    | sending task sessions => exact h.sending hsafe hc hi hr
    | change id pc => exact h.change hpending hc hi hr
  | drop i x hi hx => cases hx
  | keep e s' hr =>
    obtain ⟨hu, hlist, hnewest, -⟩ := event_unseen hr
    rcases h with ⟨hn, hl⟩ | hd | ⟨j, y, hy, hP⟩
    · exact .inl ⟨hnewest.trans hn, hlist.trans (hl.trans hu.summaries.symm)⟩
    · exact .inr (.inl (hu.due hd))
    · refine .inr (.inr ⟨j, y, hy, hP.imp (owes_of_forwards hu.forwards) fun ⟨hn, hh⟩ => ?_⟩)
      exact ⟨hnewest.trans hn, hh.trans (congrArg some hu.summaries.symm)⟩
  | clear e s' hr =>
    cases e with
    | restart kept captured => exact .restart hc hr
    | session e =>
      cases e with
      | create | restart | markExited => cases hr
      | record | markDirty => cases (Prod.mk.inj (Option.some.inj hr)).2

/-- Only the publication that has set the flag clears it. -/
theorem boardAdvance_pending {c : RegistryChoice} (hs : boardAdvance host c i x s = some (s', x'))
    (hset : s'.pending = true) :
    (∃ id, x' = .change id .sleeping) ∨ s.pending = true ∧ ∀ id, x ≠ .change id .sleeping := by
  cases x with
  | registry task =>
    simp only [boardAdvance] at hs
    split at hs
    · obtain ⟨rfl, -⟩ := Prod.mk.inj (Option.some.inj hs)
      exact .inr ⟨hset, fun id h => nomatch h⟩
    · obtain ⟨r, -, he⟩ := Option.map_eq_some_iff.mp hs
      obtain ⟨rfl, -⟩ := Prod.mk.inj he
      exact .inr ⟨hset, fun id h => nomatch h⟩
  | sending task sessions =>
    obtain ⟨r, -, he⟩ := Option.map_eq_some_iff.mp hs
    obtain ⟨rfl, -⟩ := Prod.mk.inj he
    exact .inr ⟨hset, fun id h => nomatch h⟩
  | change id pc =>
    obtain ⟨⟨s₁, pc'⟩, hr, he⟩ := Option.map_eq_some_iff.mp hs
    obtain ⟨rfl, rfl⟩ := Prod.mk.inj he
    cases pc with
    | marking exitCode =>
      obtain ⟨o, -, he⟩ := Option.map_eq_some_iff.mp hr
      split at he <;> obtain ⟨rfl, -⟩ := Prod.mk.inj he <;>
        exact .inr ⟨hset, fun id h => nomatch h⟩
    | applying cause change =>
      cases cause with
      | session =>
        obtain ⟨o, -, he⟩ := Option.map_eq_some_iff.mp hr
        split at he <;> obtain ⟨rfl, -⟩ := Prod.mk.inj he <;>
          exact .inr ⟨hset, fun id h => nomatch h⟩
      | hook | exit =>
        obtain ⟨o, -, he⟩ := Option.map_eq_some_iff.mp hr
        obtain ⟨rfl, -⟩ := Prod.mk.inj he
        exact .inr ⟨hset, fun id h => nomatch h⟩
    | scheduling =>
      have he := Option.some.inj hr
      split at he <;> obtain ⟨rfl, rfl⟩ := Prod.mk.inj he
      · exact .inr ⟨hset, fun id h => nomatch h⟩
      · exact .inl ⟨id, rfl⟩
    | sleeping =>
      obtain ⟨rfl, -⟩ := Prod.mk.inj (Option.some.inj hr)
      cases hset
    | notified | computing | sending =>
      obtain ⟨rfl, -⟩ := Prod.mk.inj (Option.some.inj hr)
      exact .inr ⟨hset, fun id h => nomatch h⟩
    | finished => cases hr

theorem scheduled_step (h : Scheduled p) (hs : (boardTasking host).machine.step a p = some q) :
    Scheduled q := by
  intro hset
  cases Tasking.stepped_of_step hs with
  | spawn i x hx hi =>
    obtain ⟨j, id, hj⟩ := h hset
    refine ⟨j, id, ?_⟩
    rw [Pool.setTask_task, if_neg, hj]
    rintro rfl
    cases hi.symm.trans hj
  | advance i c x x' s' hi hr =>
    rcases boardAdvance_pending hr hset with ⟨id, rfl⟩ | ⟨hold, hx⟩
    · exact ⟨i, id, task_setTask _ _ _ _⟩
    · obtain ⟨j, id, hj⟩ := h hold
      refine ⟨j, id, (task_setTask_ne ?_).trans hj⟩
      rintro rfl
      exact hx id (Option.some.inj (hi.symm.trans hj))
  | drop i x hi hx => cases hx
  | keep e s' hr => exact h ((event_unseen hr).2.2.2 ▸ hset)
  | clear e s' hr =>
    cases e with
    | restart kept captured =>
      obtain ⟨r, -, he⟩ := Option.map_eq_some_iff.mp hr
      obtain ⟨rfl, -⟩ := Prod.mk.inj he
      cases hset
    | session e =>
      cases e with
      | create | restart | markExited => cases hr
      | record | markDirty => cases (Prod.mk.inj (Option.some.inj hr)).2

theorem tended_of_reachable
    (h : (boardTasking host).machine.ReachableWhen (fun p a => listKept p a = true) p) :
    Tended p := by
  have hinv := h.invariant
    (I := fun p => Tasking.Safe (fun s => s.registry.Coherent) BoardOk p ∧ Scheduled p ∧ Tended p)
    (fun p hp => ⟨board_noninterference.safe_init hp, ?_, ?_⟩)
    (fun p a q hp hc hs => ⟨board_noninterference.step hp.1 trivial hs, scheduled_step hp.2.1 hs,
      tended_step hp.2.2 hp.2.1 hp.1 hc hs⟩)
  · exact hinv.2.2
  · rw [Scheduled, show p.shared = _ from hp.1]
    exact fun hset => nomatch hset
  · rw [Tended, show p.shared = _ from hp.1]
    exact .inl ⟨rfl, rfl⟩

/-- An idle task neither computes a list nor holds one. -/
theorem not_tends_of_idle (hidle : x.idle = true) : ¬ s.Tends i x := by
  cases x with
  | registry task =>
    rintro (ho | ⟨-, hh⟩)
    · cases task with
      | create clientKind call pc => cases pc <;> first | cases ho; done | cases hidle
      | session task =>
        cases task with
        | kill id pc => cases pc <;> first | cases ho; done | cases hidle
        | evict id pc => cases pc <;> first | cases ho; done | cases hidle
        | persist id final pc => cases ho
    · cases hh
  | sending task sessions => cases hidle
  | change id pc =>
    cases pc with
    | finished => rintro (ho | ⟨-, hh⟩) <;> contradiction
    | _ => cases hidle

/-- In a run in which no list overtakes a newer one, no session changes without anybody to
publish it, and nothing is stored at the start, a new subscription gets the current list whenever
nothing is in flight. -/
theorem session_list_current
    (h : (boardTasking host).machine.ReachableWhen (fun p a => listKept p a = true) p)
    (hquiet : Quiet p) : p.shared.subscribeWithInitial = p.shared.summaries := by
  rcases tended_of_reachable h with ⟨-, hl⟩ | hd | ⟨i, x, hi, hP⟩
  · exact hl
  · cases hquiet.evictions.symm.trans hd
  · exact absurd hP (not_tends_of_idle (hquiet.tasks i x hi))

instance (p : Pool SessionBoard BoardTask) : Decidable (Quiet p) :=
  decidable_of_iff ((∀ e ∈ p.tasks.entries, e.2.idle = true) ∧ p.shared.evictionDue = false)
    ⟨fun h => ⟨fun i x hx => h.1 ⟨i, x⟩ (Table.mem_entries.mpr hx), h.2⟩,
      fun h => ⟨fun e he => h.tasks e.1 e.2 (Table.mem_entries.mp he), h.evictions⟩⟩

private def board : SessionBoard := ⟨.new, .empty, .empty, [], false, none⟩

private def madeSession (name : String) : BoardTask :=
  .registry (.create .localCli ⟨name, ["sh"], "/", [], ⟨80, 24⟩⟩ .start)

private def choosing (id : SessionId) : RegistryChoice := ⟨⟨true, 0⟩, id, id, 0, ""⟩

private def working : ChangePc := .applying .session ⟨.working, some "make", some 9⟩

/-- Two sessions are created, one changes its state while the other one is killed, and the two
publications overlap. -/
theorem session_list_current_run :
    ∃ p, (boardTasking ⟨none, none⟩).machine.ReachableWhen (fun p a => listKept p a = true) p ∧
      Quiet p ∧ p.shared.subscribeWithInitial =
        [⟨⟨1, "a", 1, 9⟩, ⟨.working, some "make"⟩⟩] ∧
      p.shared.subscribeWithInitial = p.shared.summaries := by
  obtain ⟨p, hr, hq, hl⟩ := Machine.exists_reachable_of_exec (s := Pool.empty board)
    (M := (boardTasking ⟨none, none⟩).machine) (fun p a => listKept p a = true)
    (fun p => Quiet p ∧ p.shared.subscribeWithInitial =
      [⟨⟨1, "a", 1, 9⟩, ⟨.working, some "make"⟩⟩])
    (List.flatten [[.spawn 0 (madeSession "a")], Move.repeated 8 0 (choosing 1),
      [.spawn 1 (madeSession "b")], Move.repeated 8 1 (choosing 2),
      [.spawn 2 (.change 1 working), .spawn 3 (.registry (.session (.kill 2 .looking)))],
      Move.repeated 5 2 (choosing 0), Move.repeated 8 3 (choosing 0),
      [.advance 2 (choosing 0), .advance 3 (choosing 0)]])
    (Tasking.init_empty rfl) (by decide)
  exact ⟨p, hr, hq, hl, session_list_current hr hq⟩

/-- A session is killed after a scheduled publication has computed its list and before it sends
it. -/
theorem session_list_stale :
    ¬ ∀ p, (boardTasking ⟨none, none⟩).machine.Reachable p → Quiet p →
      p.shared.subscribeWithInitial = p.shared.summaries := by
  intro hall
  obtain ⟨p, hr, hq, hl⟩ := Machine.exists_reachable_of_exec (s := Pool.empty board)
    (M := (boardTasking ⟨none, none⟩).machine) Machine.Any
    (fun p => Quiet p ∧ p.shared.subscribeWithInitial ≠ p.shared.summaries)
    (List.flatten [[.spawn 0 (madeSession "a")], Move.repeated 8 0 (choosing 1),
      [.spawn 2 (.change 1 working), .spawn 3 (.registry (.session (.kill 1 .looking)))],
      Move.repeated 5 2 (choosing 0), Move.repeated 9 3 (choosing 0),
      [.advance 2 (choosing 0)]])
    (Tasking.init_empty rfl) (by decide)
  exact hl (hall p hr hq)

end Run

end Shelly.Daemon
