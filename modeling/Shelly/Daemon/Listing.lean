import Mathlib.Algebra.GroupWithZero.Nat
import Mathlib.Data.List.Sort
import Shelly.Daemon.UniqueNames
import Shelly.Framework.Readers

namespace Shelly.Daemon

/-- How the two maps are split. A map is read one shard after the other, and each shard in one
go under its own lock. -/
structure Shards where
  count : Nat
  live : SessionId → Fin count
  restored : SessionId → Fin count

/-- Where `summaries` stands: the shard it reads next, what it has read of the restored sessions
and not yet looked up among the live ones, and the list so far. -/
inductive ListPc
  | live (shard : Nat) (sessions : List SessionSummary)
  | restored (shard : Nat) (entries : List StoredSession) (sessions : List SessionSummary)
  | returned (sessions : List SessionSummary)
  deriving DecidableEq

namespace AppState

variable (s : AppState) (shards : Shards) (shard : Nat)

/-- The sessions in one shard of the live map. -/
def liveIn : List SessionSummary :=
  (s.objects.entries.filter fun e => e.1 ∈ s.sessions ∧ shards.live e.1 = shard).map
    fun e => e.2.cachedSummary

/-- The sessions in one shard of the restored map. -/
def restoredIn : List StoredSession :=
  (s.restored.entries.filter fun e => shards.restored e.1 = shard).map fun e => e.2

end AppState

/-- One atomic step of `summaries`. -/
def listStep (shards : Shards) (s : AppState) : ListPc → Option ListPc
  | .live shard sessions =>
    if shard < shards.count then some (.live (shard + 1) (sessions ++ s.liveIn shards shard))
    else some (.restored 0 [] sessions)
  | .restored shard (entry :: entries) sessions =>
    -- The live map is asked again for every entry, and is not locked in between.
    if entry.summary.id ∈ s.sessions then some (.restored shard entries sessions)
    else some (.restored shard entries (sessions ++ [entry.summary]))
  | .restored shard [] sessions =>
    if shard < shards.count then
      some (.restored (shard + 1) (s.restoredIn shards shard) sessions)
    else some (.returned (sessions.insertionSort fun a b => a.createdAt ≤ b.createdAt))
  | .returned _ => none

/-- The registry with any number of calls of `summaries` beside its tasks. -/
def listingTasking (host : HostEnv) (shards : Shards) :
    Tasking Registry (RegistryTask ⊕ ListPc) RegistryChoice SessionEvent :=
  (registryTasking host).beside (fun pc => pc = .live 0 []) fun r pc => listStep shards r.app pc

/-- The session that this step takes out of the live map. -/
def RegistryTask.leaves : RegistryTask → Option SessionId
  | .session (.kill id (.unregistering _)) => some id
  | .session (.evict id (.unregistering _)) => some id
  | _ => none

section Meets

/-- A call has the session in its list already and comes across it among the restored ones,
provided that these have it: in what it has read of them, or in a shard to come. -/
def ListPc.meets (shards : Shards) (restored : Bool) (id : SessionId) : ListPc → Bool
  | .live _ sessions => id ∈ sessions.map (·.id) && restored
  | .restored shard entries sessions =>
    id ∈ sessions.map (·.id) &&
      (id ∈ entries.map (·.summary.id) || restored && shard ≤ shards.restored id)
  | .returned _ => false

/-- Some call comes across the session again. -/
def metAgain (shards : Shards) (p : Pool Registry (RegistryTask ⊕ ListPc)) (restored : Bool)
    (id : SessionId) : Bool :=
  p.tasks.entries.any fun e => e.2.elim (fun _ => false) (·.meets shards restored id)

/-- No session leaves the live map, and none that is not live is restored, while a call that has
it in its list comes across it again. -/
def listingKept (shards : Shards) (p : Pool Registry (RegistryTask ⊕ ListPc)) :
    Move (RegistryTask ⊕ ListPc) RegistryChoice SessionEvent → Bool
  | .advance i _ =>
    match p.task i with
    | some (.inl x) =>
      x.leaves.all (fun id => !metAgain shards p (p.shared.app.restored.contains id) id) &&
        x.restores.all fun stored =>
          stored.summary.id ∈ p.shared.app.sessions || !metAgain shards p true stored.summary.id
    | _ => true
  | _ => true

end Meets

/-- Everything a step of a task can do to the two maps. -/
inductive MapStep (s : AppState) (x : RegistryTask) (s' : AppState) : Prop
  | shrink (hsessions : s'.sessions = s.sessions) (hrestored : s.restored.Includes s'.restored)
  | enter (id : SessionId) (hid : s.restored.lookup id = none)
      (hsessions : s'.sessions = insert id s.sessions) (hrestored : s'.restored = s.restored)
  | leave (id : SessionId) (hx : x.leaves = some id)
      (hsessions : s'.sessions = s.sessions.erase id) (hrestored : s'.restored = s.restored)
  | restore (stored : StoredSession) (hx : x.restores = some stored)
      (hsessions : s'.sessions = s.sessions)
      (hrestored : s'.restored = s.restored.insert stored.summary.id stored)

section MapStep

variable {host : HostEnv} {r r' : Registry} {i : Nat} {id : SessionId} {c : RegistryChoice}
  {x x' : RegistryTask} {s s' : AppState}

theorem MapStep.of_same (hsessions : s'.sessions = s.sessions)
    (hrestored : s'.restored = s.restored) : MapStep s x s' :=
  .shrink hsessions fun _ _ h => hrestored ▸ h

theorem kill_maps {choice : SessionChoice} {pc pc' : KillPc}
    (hs : killStep choice id pc s = some (s', pc')) : MapStep s (.session (.kill id pc)) s' := by
  cases pc with
  | looking =>
    simp only [killStep] at hs
    split at hs <;> obtain ⟨rfl, -⟩ := Prod.mk.inj (Option.some.inj hs) <;> exact .of_same rfl rfl
  | flagging | signalling | releasing | publishing =>
    obtain ⟨rfl, -⟩ := Prod.mk.inj (Option.some.inj hs)
    exact .of_same rfl rfl
  | unregistering name =>
    obtain ⟨rfl, -⟩ := Prod.mk.inj (Option.some.inj hs)
    exact .leave id rfl rfl rfl
  | forgetting removedName =>
    obtain ⟨rfl, -⟩ := Prod.mk.inj (Option.some.inj hs)
    exact .shrink rfl (Table.includes_erase _ _)
  | erasing =>
    simp only [killStep] at hs
    split at hs <;> obtain ⟨rfl, -⟩ := Prod.mk.inj (Option.some.inj hs) <;> exact .of_same rfl rfl
  | returned ok => cases hs

theorem evict_maps {choice : SessionChoice} {pc pc' : EvictPc}
    (hs : evictStep choice i id pc s = some (s', pc')) :
    MapStep s (.session (.evict id pc)) s' := by
  cases pc with
  | observing =>
    simp only [evictStep] at hs
    split at hs
    · split at hs
      · obtain ⟨rfl, -⟩ := Prod.mk.inj (Option.some.inj hs)
        exact .of_same rfl rfl
      · cases hs
    · cases hs
  | checking | capturing =>
    obtain ⟨o, -, he⟩ := Option.map_eq_some_iff.mp hs
    obtain ⟨rfl, -⟩ := Prod.mk.inj he
    exact .of_same rfl rfl
  | looking | naming | rechecking | releasing | publishing =>
    obtain ⟨rfl, -⟩ := Prod.mk.inj (Option.some.inj hs)
    exact .of_same rfl rfl
  | restoring stored =>
    obtain ⟨rfl, -⟩ := Prod.mk.inj (Option.some.inj hs)
    exact .restore stored rfl rfl rfl
  | capping stored =>
    simp only [evictStep] at hs
    split at hs
    · split at hs
      · split at hs
        · obtain ⟨rfl, -⟩ := Prod.mk.inj (Option.some.inj hs)
          exact .of_same rfl rfl
        · cases hs
      · cases hs
    · obtain ⟨rfl, -⟩ := Prod.mk.inj (Option.some.inj hs)
      exact .of_same rfl rfl
  | cappingMap stored oldest =>
    obtain ⟨rfl, -⟩ := Prod.mk.inj (Option.some.inj hs)
    exact .shrink rfl (Table.includes_erase _ _)
  | cappingName stored oldest removed =>
    simp only [evictStep] at hs
    split at hs
    · split at hs <;> obtain ⟨rfl, -⟩ := Prod.mk.inj (Option.some.inj hs) <;>
        exact .of_same rfl rfl
    · obtain ⟨rfl, -⟩ := Prod.mk.inj (Option.some.inj hs)
      exact .of_same rfl rfl
  | cappingRow stored oldest =>
    obtain ⟨he, -⟩ := Prod.mk.inj (Option.some.inj hs)
    split at he <;> subst he <;> exact .of_same rfl rfl
  | unregistering stored =>
    obtain ⟨rfl, -⟩ := Prod.mk.inj (Option.some.inj hs)
    exact .leave id rfl rfl rfl
  | returned => cases hs

theorem persist_maps {choice : SessionChoice} {final : Bool} {pc pc' : PersistPc}
    (hs : persistStep choice id final pc s = some (s', pc')) :
    MapStep s (.session (.persist id final pc)) s' := by
  cases pc with
  | starting | checking | capturing =>
    obtain ⟨o, -, he⟩ := Option.map_eq_some_iff.mp hs
    obtain ⟨rfl, -⟩ := Prod.mk.inj he
    exact .of_same rfl rfl
  | saving stored =>
    have he := Option.some.inj hs
    split at he <;> obtain ⟨rfl, -⟩ := Prod.mk.inj he <;> exact .of_same rfl rfl
  | failed =>
    obtain ⟨rfl, -⟩ := Prod.mk.inj (Option.some.inj hs)
    exact .of_same rfl rfl
  | returned => cases hs

theorem create_maps {clientKind : ClientKind} {call : CreateCall} {pc pc' : CreatePc}
    (hx : r.CreateOk i pc) (hs : createStep host c i clientKind call pc r = some (r', pc')) :
    MapStep r.app (.create clientKind call pc) r'.app := by
  cases pc with
  | start =>
    simp only [createStep] at hs
    split at hs
    · obtain ⟨rfl, -⟩ := Prod.mk.inj (Option.some.inj hs)
      exact .of_same rfl rfl
    · split at hs <;> obtain ⟨rfl, -⟩ := Prod.mk.inj (Option.some.inj hs) <;>
        exact .of_same rfl rfl
  | reserving | autoNaming =>
    simp only [createStep] at hs
    split at hs <;> obtain ⟨rfl, -⟩ := Prod.mk.inj (Option.some.inj hs) <;> exact .of_same rfl rfl
  | spawning name =>
    simp only [createStep] at hs
    split at hs
    · obtain ⟨rfl, -⟩ := Prod.mk.inj (Option.some.inj hs)
      exact .of_same rfl rfl
    · split at hs
      · split at hs
        · obtain ⟨rfl, -⟩ := Prod.mk.inj (Option.some.inj hs)
          exact .of_same rfl rfl
        · cases hs
      · obtain ⟨rfl, -⟩ := Prod.mk.inj (Option.some.inj hs)
        exact .of_same rfl rfl
  | dropping | forwarding | publishing =>
    obtain ⟨rfl, -⟩ := Prod.mk.inj (Option.some.inj hs)
    exact .of_same rfl rfl
  | unrestoring id name =>
    obtain ⟨rfl, -⟩ := Prod.mk.inj (Option.some.inj hs)
    exact .shrink rfl (Table.includes_erase _ _)
  | inserting id name =>
    obtain ⟨rfl, -⟩ := Prod.mk.inj (Option.some.inj hs)
    exact .enter id hx.2.2.1 rfl rfl
  | returned result => cases hs

theorem registryAdvance_session {task : SessionTask}
    (hs : registryAdvance host c i (.session task) r = some (r', x')) :
    ∃ s' task', sessionAdvance c.toSessionChoice i task r.app = some (s', task') ∧
      r' = { r with app := s' } ∧ x' = .session task' := by
  have hmap (h : (sessionAdvance c.toSessionChoice i task r.app).map
      (fun y => ({ r with app := y.1 }, RegistryTask.session y.2)) = some (r', x')) :
      ∃ s' task', sessionAdvance c.toSessionChoice i task r.app = some (s', task') ∧
        r' = { r with app := s' } ∧ x' = .session task' := by
    obtain ⟨⟨s', task'⟩, ht, he⟩ := Option.map_eq_some_iff.mp h
    obtain ⟨rfl, rfl⟩ := Prod.mk.inj he
    exact ⟨s', task', ht, rfl, rfl⟩
  unfold registryAdvance at hs
  split at hs
  · rename_i heq
    cases heq
  · rename_i id heq
    cases heq
    exact hmap (Option.ite_none_right_eq_some.mp hs).2
  · rename_i hne heq
    cases heq
    exact hmap hs

theorem maps_step (hx : r.TaskOk i x) (hs : registryAdvance host c i x r = some (r', x')) :
    MapStep r.app x r'.app := by
  cases x with
  | create clientKind call pc =>
    obtain ⟨⟨r₁, pc'⟩, hc, he⟩ := Option.map_eq_some_iff.mp hs
    obtain ⟨rfl, -⟩ := Prod.mk.inj he
    exact create_maps hx hc
  | session task =>
    obtain ⟨s', task', ht, rfl, -⟩ := registryAdvance_session hs
    cases task with
    | kill id pc =>
      obtain ⟨⟨s₁, pc'⟩, hc, he⟩ := Option.map_eq_some_iff.mp ht
      obtain ⟨rfl, -⟩ := Prod.mk.inj he
      exact kill_maps hc
    | evict id pc =>
      obtain ⟨⟨s₁, pc'⟩, hc, he⟩ := Option.map_eq_some_iff.mp ht
      obtain ⟨rfl, -⟩ := Prod.mk.inj he
      exact evict_maps hc
    | persist id final pc =>
      obtain ⟨⟨s₁, pc'⟩, hc, he⟩ := Option.map_eq_some_iff.mp ht
      obtain ⟨rfl, -⟩ := Prod.mk.inj he
      exact persist_maps hc

/-- What happens around the tasks leaves the two maps alone, restarts apart. -/
theorem event_maps {e : SessionEvent} (hs : registryEvent e r = some (r', true)) :
    r'.app.sessions = r.app.sessions ∧ r'.app.restored = r.app.restored := by
  cases e with
  | create => cases hs
  | record | markDirty | markExited =>
    obtain ⟨rfl, -⟩ := Prod.mk.inj (Option.some.inj hs)
    exact ⟨rfl, rfl⟩
  | restart kept =>
    obtain ⟨⟨s₁, keep⟩, hr, he⟩ := Option.map_eq_some_iff.mp hs
    obtain ⟨rows, -, hk⟩ := Option.map_eq_some_iff.mp hr
    cases (Prod.mk.inj hk).2.trans (Prod.mk.inj he).2

end MapStep

namespace ListPc

/-- Nothing is read twice: the live part comes from the shards that were read, and so do the
restored sessions still to be looked at. -/
def Distinct (shards : Shards) : ListPc → Prop
  | .live shard sessions => (sessions.map (·.id)).Nodup ∧
      ∀ id ∈ sessions.map (·.id), shards.live id < shard
  | .restored shard entries sessions => (sessions.map (·.id)).Nodup ∧
      (entries.map (·.summary.id)).Nodup ∧
      ∀ id ∈ entries.map (·.summary.id), shards.restored id < shard
  | .returned sessions => (sessions.map (·.id)).Nodup

/-- The session is in the list, or it is still to be read. -/
def Owes (shards : Shards) (s : AppState) (id : SessionId) : ListPc → Prop
  | .live shard sessions => id ∈ sessions.map (·.id) ∨ (shards.live id < shard → id ∉ s.sessions)
  | .restored shard entries sessions => id ∈ sessions.map (·.id) ∨
      id ∉ s.sessions ∧ (shards.restored id < shard → id ∈ entries.map (·.summary.id))
  | .returned sessions => id ∈ sessions.map (·.id)

/-- What a call would list twice is live, so that it is passed over. -/
structure Ok (shards : Shards) (s : AppState) (pc : ListPc) : Prop where
  distinct : pc.Distinct shards
  covered : ∀ id, pc.meets shards (s.restored.contains id) id = true → id ∈ s.sessions

end ListPc

section Listing

variable {host : HostEnv} {shards : Shards} {shard : Nat} {r : Registry} {s s' : AppState}
  {id : SessionId} {pc pc' : ListPc} {i : Nat}

theorem ids_liveIn (h : r.Coherent) : (r.app.liveIn shards shard).map (·.id) =
    (r.app.objects.entries.filter fun e =>
      e.1 ∈ r.app.sessions ∧ shards.live e.1 = shard).map (·.1) := by
  rw [AppState.liveIn, List.map_map]
  refine List.map_congr_left fun e he => ?_
  exact (h.ids e.1 e.2 (Table.mem_entries.mp (List.mem_of_mem_filter he))).1

theorem ids_restoredIn (h : r.Coherent) : (r.app.restoredIn shards shard).map (·.summary.id) =
    (r.app.restored.entries.filter fun e => shards.restored e.1 = shard).map (·.1) := by
  rw [AppState.restoredIn, List.map_map]
  refine List.map_congr_left fun e he => ?_
  exact (h.keyed e.1 e.2 (Table.mem_entries.mp (List.mem_of_mem_filter he))).1

theorem mem_liveIn (h : r.Coherent) : id ∈ (r.app.liveIn shards shard).map (·.id) ↔
    id ∈ r.app.sessions ∧ shards.live id = shard := by
  rw [ids_liveIn h, List.mem_map]
  constructor
  · rintro ⟨e, he, rfl⟩
    simpa using (List.mem_filter.mp he).2
  · rintro ⟨hid, hshard⟩
    obtain ⟨name, o, ho, -⟩ := h.live id hid
    exact ⟨⟨id, o⟩, List.mem_filter.mpr ⟨Table.mem_entries.mpr ho, by simp [hid, hshard]⟩, rfl⟩

theorem mem_restoredIn (h : r.Coherent) :
    id ∈ (r.app.restoredIn shards shard).map (·.summary.id) ↔
      r.app.restored.contains id = true ∧ shards.restored id = shard := by
  rw [ids_restoredIn h, List.mem_map]
  constructor
  · rintro ⟨e, he, rfl⟩
    obtain ⟨hmem, hshard⟩ := List.mem_filter.mp he
    exact ⟨Table.contains_eq_true.mpr ⟨e.2, Table.mem_entries.mp hmem⟩, by simpa using hshard⟩
  · rintro ⟨hid, hshard⟩
    obtain ⟨stored, hl⟩ := Table.contains_eq_true.mp hid
    exact ⟨⟨id, stored⟩, List.mem_filter.mpr ⟨Table.mem_entries.mpr hl, by simp [hshard]⟩, rfl⟩

theorem nodup_liveIn (h : r.Coherent) : ((r.app.liveIn shards shard).map (·.id)).Nodup := by
  rw [ids_liveIn h]
  exact r.app.objects.nodupKeys.sublist List.filter_sublist

theorem nodup_restoredIn (h : r.Coherent) :
    ((r.app.restoredIn shards shard).map (·.summary.id)).Nodup := by
  rw [ids_restoredIn h]
  exact r.app.restored.nodupKeys.sublist List.filter_sublist

theorem ok_read (h : r.Coherent) (hpc : pc.Ok shards r.app)
    (hs : listStep shards r.app pc = some pc') : pc'.Ok shards r.app := by
  obtain ⟨hdistinct, hcovered⟩ := hpc
  cases pc with
  | live shard sessions =>
    obtain ⟨hnodup, hread⟩ := hdistinct
    have hlisted (id : SessionId) (hid : id ∈ sessions.map (·.id))
        (hback : r.app.restored.contains id = true) : id ∈ r.app.sessions :=
      hcovered id (by simpa only [ListPc.meets, Bool.and_eq_true, decide_eq_true_eq] using
        ⟨hid, hback⟩)
    simp only [listStep] at hs
    split at hs <;> obtain rfl := Option.some.inj hs
    · refine ⟨⟨?_, fun id hid => ?_⟩, fun id hid => ?_⟩
      · rw [List.map_append]
        refine hnodup.append (nodup_liveIn h) fun id hold hnew => ?_
        have := hread id hold
        have := (mem_liveIn h).mp hnew
        omega
      · rw [List.map_append, List.mem_append] at hid
        rcases hid with hold | hnew
        · have := hread id hold
          omega
        · have := ((mem_liveIn h).mp hnew).2
          omega
      · simp only [ListPc.meets, List.map_append, Bool.and_eq_true, decide_eq_true_eq,
          List.mem_append] at hid
        obtain ⟨hold | hnew, hback⟩ := hid
        · exact hlisted id hold hback
        · exact ((mem_liveIn h).mp hnew).1
    · refine ⟨⟨hnodup, List.nodup_nil, fun id hid => by cases hid⟩, fun id hid => ?_⟩
      simp only [ListPc.meets, List.map_nil, List.not_mem_nil, decide_false, Bool.false_or,
        Bool.and_eq_true, decide_eq_true_eq] at hid
      exact hlisted id hid.1 hid.2.1
  | restored shard entries sessions =>
    obtain ⟨hnodup, hentries, hread⟩ := hdistinct
    have hlisted (id : SessionId) (hid : id ∈ sessions.map (·.id))
        (hback : id ∈ entries.map (·.summary.id) ∨
          r.app.restored.contains id = true ∧ shard ≤ shards.restored id) : id ∈ r.app.sessions :=
      hcovered id (by simpa only [ListPc.meets, Bool.and_eq_true, Bool.or_eq_true,
        decide_eq_true_eq] using ⟨hid, hback⟩)
    cases entries with
    | nil =>
      simp only [listStep] at hs
      split at hs <;> obtain rfl := Option.some.inj hs
      · refine ⟨⟨hnodup, nodup_restoredIn h, fun id hid => ?_⟩, fun id hid => ?_⟩
        · have := ((mem_restoredIn h).mp hid).2
          omega
        · simp only [ListPc.meets, Bool.and_eq_true, Bool.or_eq_true, decide_eq_true_eq,
            mem_restoredIn h] at hid
          refine hlisted id hid.1 (.inr ?_)
          rcases hid.2 with ⟨hback, heq⟩ | ⟨hback, hle⟩
          · exact ⟨hback, by omega⟩
          · exact ⟨hback, by omega⟩
      · refine ⟨?_, fun id hid => by cases hid⟩
        exact ((List.perm_insertionSort _ sessions).map _).nodup_iff.mpr hnodup
    | cons entry entries =>
      rw [List.map_cons] at hentries hread hlisted
      obtain ⟨hfresh, hrest⟩ := List.nodup_cons.mp hentries
      have hread' (id : SessionId) (hid : id ∈ entries.map (·.summary.id)) :=
        hread id (List.mem_cons_of_mem _ hid)
      simp only [listStep] at hs
      split at hs <;> obtain rfl := Option.some.inj hs
      · refine ⟨⟨hnodup, hrest, hread'⟩, fun id hid => ?_⟩
        simp only [ListPc.meets, Bool.and_eq_true, Bool.or_eq_true, decide_eq_true_eq] at hid
        exact hlisted id hid.1 (hid.2.imp_left (List.mem_cons_of_mem _))
      · rename_i hlive
        -- The entry is not live, so the call does not have it yet.
        have hnew : entry.summary.id ∉ sessions.map (·.id) := fun hid =>
          hlive (hlisted _ hid (.inl List.mem_cons_self))
        refine ⟨⟨?_, hrest, hread'⟩, fun id hid => ?_⟩
        · rw [List.map_append]
          exact hnodup.append (List.nodup_singleton _) (List.disjoint_singleton.mpr hnew)
        · simp only [ListPc.meets, List.map_append, List.map_cons, List.map_nil, List.mem_append,
            List.mem_singleton, Bool.and_eq_true, Bool.or_eq_true, decide_eq_true_eq] at hid
          obtain ⟨hold | rfl, hback⟩ := hid
          · exact hlisted id hold (hback.imp_left (List.mem_cons_of_mem _))
          · have := hread _ List.mem_cons_self
            rcases hback with hin | ⟨-, hle⟩
            · exact absurd hin hfresh
            · omega
  | returned sessions => cases hs

/-- What exists throughout is listed, wherever it is when the call reads. -/
theorem owes_read (h : r.Coherent)
    (hexists : id ∈ r.app.sessions ∨ r.app.restored.contains id = true)
    (hpc : pc.Owes shards r.app id) (hs : listStep shards r.app pc = some pc') :
    pc'.Owes shards r.app id := by
  cases pc with
  | live shard sessions =>
    simp only [listStep] at hs
    split at hs <;> obtain rfl := Option.some.inj hs
    · by_cases hnew : id ∈ (r.app.liveIn shards shard).map (·.id)
      · exact .inl (by rw [List.map_append]; exact List.mem_append_right _ hnew)
      · refine hpc.imp (fun hold => by rw [List.map_append]; exact List.mem_append_left _ hold)
          fun hread hlt hlive => ?_
        rcases Nat.lt_succ_iff_lt_or_eq.mp hlt with hlt | heq
        · exact hread hlt hlive
        · exact hnew ((mem_liveIn h).mpr ⟨hlive, heq⟩)
    · refine hpc.imp_right fun hread => ⟨hread ?_, fun hlt => absurd hlt (Nat.not_lt_zero _)⟩
      have := (shards.live id).isLt
      omega
  | restored shard entries sessions =>
    cases entries with
    | nil =>
      simp only [listStep] at hs
      split at hs <;> obtain rfl := Option.some.inj hs
      · refine hpc.imp_right fun ⟨hlive, hread⟩ => ⟨hlive, fun hlt => (mem_restoredIn h).mpr ?_⟩
        refine ⟨hexists.resolve_left hlive, ?_⟩
        rcases Nat.lt_succ_iff_lt_or_eq.mp hlt with hlt | heq
        · cases hread hlt
        · exact heq
      · refine ((List.perm_insertionSort _ sessions).map _).mem_iff.mpr (hpc.resolve_right ?_)
        rintro ⟨-, hread⟩
        have := (shards.restored id).isLt
        cases hread (by omega)
    | cons entry entries =>
      simp only [listStep] at hs
      split at hs <;> obtain rfl := Option.some.inj hs
      · rename_i hlive
        refine hpc.imp_right fun ⟨hgone, hread⟩ => ⟨hgone, fun hlt => ?_⟩
        rcases List.mem_cons.mp (hread hlt) with rfl | hin
        · exact absurd hlive hgone
        · exact hin
      · rcases hpc with hold | ⟨hgone, hread⟩
        · exact .inl (by rw [List.map_append]; exact List.mem_append_left _ hold)
        · by_cases hid : id = entry.summary.id
          · exact .inl (by rw [hid, List.map_append]; exact List.mem_append_right _ List.mem_cons_self)
          · exact .inr ⟨hgone, fun hlt => (List.mem_cons.mp (hread hlt)).resolve_left hid⟩
  | returned sessions => cases hs

/-- A call is undisturbed as long as what it would list twice stays live. -/
theorem ListPc.Ok.mono (h : pc.Ok shards s)
    (hkept : ∀ id, pc.meets shards (s'.restored.contains id) id = true →
      pc.meets shards (s.restored.contains id) id = true ∨ id ∈ s'.sessions)
    (hlive : ∀ id, pc.meets shards (s'.restored.contains id) id = true → id ∈ s.sessions →
      id ∈ s'.sessions) : pc.Ok shards s' :=
  ⟨h.distinct, fun id hid =>
    (hkept id hid).elim (fun hold => hlive id hid (h.covered id hold)) fun hl => hl⟩

theorem meets_mono {b b' : Bool} (hb : b = true → b' = true) (h : pc.meets shards b id = true) :
    pc.meets shards b' id = true := by
  cases b with
  | false =>
    cases pc with
    | live shard sessions => simp [ListPc.meets] at h
    | restored shard entries sessions =>
      simp only [ListPc.meets, Bool.and_eq_true, Bool.or_eq_true, decide_eq_true_eq] at h ⊢
      exact ⟨h.1, .inl (h.2.resolve_right fun hf => by cases hf.1)⟩
    | returned sessions => cases h
  | true => exact hb rfl ▸ h

/-- A step that takes no session from under a call does not disturb it. -/
theorem ok_maps {x : RegistryTask} (hs : MapStep s x s')
    (hleaves : ∀ id, x.leaves = some id → pc.meets shards (s.restored.contains id) id = false)
    (hrestores : ∀ stored, x.restores = some stored → stored.summary.id ∈ s.sessions ∨
      pc.meets shards true stored.summary.id = false)
    (h : pc.Ok shards s) : pc.Ok shards s' := by
  cases hs with
  | shrink hsessions hrestored =>
    exact h.mono (fun id hid => .inl (meets_mono hrestored.contains hid))
      fun id _ hl => hsessions ▸ hl
  | enter id hid hsessions hrestored =>
    exact h.mono (fun k hk => .inl (hrestored ▸ hk))
      fun k _ hl => hsessions ▸ Finset.mem_insert_of_mem hl
  | leave id hx hsessions hrestored =>
    refine h.mono (fun k hk => .inl (hrestored ▸ hk)) fun k hk hl => ?_
    rw [hsessions]
    refine Finset.mem_erase.mpr ⟨?_, hl⟩
    rintro rfl
    rw [hrestored, hleaves k hx] at hk
    cases hk
  | restore stored hx hsessions hrestored =>
    refine h.mono (fun k hk => ?_) fun k _ hl => hsessions ▸ hl
    by_cases hks : k = stored.summary.id
    · subst hks
      rcases hrestores stored hx with hl | hm
      · exact .inr (hsessions ▸ hl)
      · rw [meets_mono (fun _ => rfl) hk] at hm
        cases hm
    · left
      rwa [hrestored, Table.contains, Table.lookup_insert_ne _ _ hks] at hk

/-- An existing session that is not live never comes back to life. -/
theorem owes_maps {x : RegistryTask} (hs : MapStep s x s')
    (hexists : id ∈ s.sessions ∨ s.restored.contains id = true) (h : pc.Owes shards s id) :
    pc.Owes shards s' id := by
  have hgone (hn : id ∉ s.sessions) : id ∉ s'.sessions := by
    cases hs with
    | shrink hsessions _ | restore _ _ hsessions _ => rwa [hsessions]
    | enter k hk hsessions _ =>
      rw [hsessions, Finset.mem_insert]
      rintro (rfl | hl)
      · obtain ⟨stored, hl⟩ := Table.contains_eq_true.mp (hexists.resolve_left hn)
        cases hk.symm.trans hl
      · exact hn hl
    | leave k _ hsessions _ =>
      rw [hsessions]
      exact fun hl => hn (Finset.mem_of_mem_erase hl)
  cases pc with
  | live shard sessions => exact h.imp_right fun hread hlt => hgone (hread hlt)
  | restored shard entries sessions => exact h.imp_right fun ⟨hn, hread⟩ => ⟨hgone hn, hread⟩
  | returned sessions => exact h

end Listing

section Run

variable {host : HostEnv} {shards : Shards} {p q : Pool Registry (RegistryTask ⊕ ListPc)}

theorem not_metAgain {restored : Bool} {id : SessionId} {j : Nat} {pc : ListPc}
    (h : metAgain shards p restored id = false) (hj : p.task j = some (.inr pc)) :
    pc.meets shards restored id = false := by
  have := List.any_eq_false.mp h ⟨j, .inr pc⟩ (Table.mem_entries.mpr hj)
  simpa using this

theorem listing_noninterference : Tasking.Noninterference (listingTasking host shards)
    (fun p a => listingKept shards p a = true) Registry.Coherent
    fun r i => Sum.elim (r.TaskOk i) (ListPc.Ok shards r.app) := by
  refine registry_noninterference.beside ?_ ?_ ?_ ?_
  · intro p i pc _ _ hstart
    obtain rfl := of_decide_eq_true hstart
    exact ⟨⟨List.nodup_nil, fun id hid => by cases hid⟩, fun id hid => by cases hid⟩
  · exact fun p i c pc pc' _ hG _ hpc hs => ok_read hG hpc hs
  · intro p i c x r' x' hc _ hi hx hs j pc hj hpc
    simp only [listingKept, hi, Bool.and_eq_true, Option.all_eq_true] at hc
    refine ok_maps (maps_step hx hs) (fun id hl => ?_) (fun stored hl => ?_) hpc
    · exact not_metAgain (by simpa using hc.1 id hl) hj
    · have := hc.2 stored hl
      simp only [Bool.or_eq_true, decide_eq_true_eq, Bool.not_eq_true'] at this
      exact this.imp_right fun hm => not_metAgain hm hj
  · intro p e r' _ _ hs j pc _ hpc
    obtain ⟨hsessions, hrestored⟩ := event_maps hs
    exact ⟨hpc.distinct, fun id hid => hsessions ▸ hpc.covered id (hrestored ▸ hid)⟩

/-- The session is live or restored. -/
def Registry.Exists (r : Registry) (id : SessionId) : Prop :=
  id ∈ r.app.sessions ∨ r.app.restored.contains id = true

/-- A call in slot `i`, whichever it is, while a session exists. -/
theorem owing_noninterference (i : Nat) (id : SessionId) :
    Tasking.Noninterference (listingTasking host shards) (fun p _ => p.shared.Exists id)
      Registry.Coherent
      fun r j => Sum.elim (r.TaskOk j) fun pc => j = i → pc.Owes shards r.app id := by
  refine registry_noninterference.beside ?_ ?_ ?_ ?_
  · intro p j pc _ _ hstart _
    obtain rfl := of_decide_eq_true hstart
    exact .inr fun hlt => absurd hlt (Nat.not_lt_zero _)
  · exact fun p j c pc pc' hid hG _ hpc hs hj => owes_read hG hid (hpc hj) hs
  · exact fun p k c x r' x' hid _ _ hx hs j pc _ hpc hj => owes_maps (maps_step hx hs) hid (hpc hj)
  · intro p e r' _ _ hs j pc _ hpc hj
    obtain ⟨hsessions, -⟩ := event_maps hs
    have := hpc hj
    cases pc <;> simpa only [ListPc.Owes, hsessions] using this

theorem coherent_of_reachable (h : (listingTasking host shards).machine.Reachable p) :
    Tasking.Safe Registry.Coherent (fun r i => Sum.elim (r.TaskOk i) fun _ => True) p := by
  refine (Tasking.Noninterference.invariant (registry_noninterference.beside ?_ ?_ ?_ ?_) h)
  all_goals intros; trivial

/-- In a run in which no call has a session it listed taken from under it, no list names a
session twice. In every run, a list names each session that existed throughout the call. -/
theorem listing_consistent {i : Nat} {sessions : List SessionSummary}
    (hq : (listingTasking host shards).machine.ReachableWhen
      (fun p a => listingKept shards p a = true) q)
    (hi : q.task i = some (.inr (.returned sessions))) :
    (sessions.map (·.id)).Nodup ∧
      ∀ p id, (listingTasking host shards).machine.Reachable p →
        p.task i = some (.inr (.live 0 [])) →
        (listingTasking host shards).machine.Run (fun t _ => t.shared.Exists id) p q →
        id ∈ sessions.map (·.id) := by
  have hsafe := listing_noninterference.invariant hq
  refine ⟨(hsafe.2 i _ hi).distinct, fun p id hp hstart hrun => ?_⟩
  obtain ⟨hcoherent, htasks⟩ := coherent_of_reachable hp
  have hbegun : Tasking.Safe Registry.Coherent
      (fun r j => Sum.elim (r.TaskOk j) fun pc => j = i → pc.Owes shards r.app id) p := by
    refine ⟨hcoherent, fun j x hj => ?_⟩
    cases x with
    | inl x => exact htasks j _ hj
    | inr pc =>
      rintro rfl
      cases hj.symm.trans hstart
      exact .inr fun hlt => absurd hlt (Nat.not_lt_zero _)
  have howes := hrun.invariant (fun _ _ _ => (owing_noninterference i id).step) hbegun
  exact howes.2 i _ hi rfl

instance (r : Registry) (id : SessionId) : Decidable (r.Exists id) :=
  inferInstanceAs (Decidable (_ ∨ _))

private def creating (name : String) : RegistryTask ⊕ ListPc :=
  .inl (.create .localCli ⟨name, ["sh"], "/", [], ⟨80, 24⟩⟩ .start)

private def evicting (id : SessionId) : RegistryTask ⊕ ListPc :=
  .inl (.session (.evict id .observing))

private def decided (id : SessionId) (now : Nat) : RegistryChoice := ⟨⟨true, 0⟩, id, now, 0, ""⟩

private def split (count : Nat) [NeZero count] : Shards :=
  ⟨count, Fin.ofNat count, Fin.ofNat count⟩

/-- A call lists a live and a restored session while a third one is created. -/
theorem listing_consistent_run :
    ∃ q sessions, (listingTasking ⟨none, none⟩ (split 2)).machine.ReachableWhen
        (fun p a => listingKept (split 2) p a = true) q ∧
      q.task 9 = some (.inr (.returned sessions)) ∧ sessions.map (·.id) = [1, 2] ∧
      (sessions.map (·.id)).Nodup ∧ 2 ∈ sessions.map (·.id) := by
  obtain ⟨p, q, hp, hstart, hrun, hq⟩ := Machine.exists_run_of_exec_guarded (s := Pool.empty .new)
    (M := (listingTasking ⟨none, none⟩ (split 2)).machine)
    (fun p a => listingKept (split 2) p a = true)
    (fun p a => listingKept (split 2) p a = true ∧ p.shared.Exists 2)
    (fun p => p.task 9 = some (.inr (.live 0 [])))
    (fun q => q.task 9 = some (.inr (.returned [⟨1, "a", 5, 5⟩, ⟨2, "b", 6, 6⟩])))
    (List.flatten [[.spawn 0 (creating "a")], Move.repeated 7 0 (decided 1 5),
      [.environment (.markExited 1 0), .spawn 1 (evicting 1)],
      Move.repeated 10 1 (decided 0 0), [.spawn 2 (creating "b")],
      Move.repeated 7 2 (decided 2 6), [.spawn 9 (.inr (.live 0 []))]])
    (List.flatten [Move.repeated 3 9 (decided 0 0), [.spawn 3 (creating "c")],
      Move.repeated 7 3 (decided 3 7), Move.repeated 4 9 (decided 0 0)])
    (Tasking.init_empty rfl) (by decide)
  have hreach : (listingTasking ⟨none, none⟩ (split 2)).machine.ReachableWhen
      (fun p a => listingKept (split 2) p a = true) q := by
    obtain ⟨s, hs, hsp⟩ := hp
    exact ⟨s, hs, hsp.trans (hrun.mono fun _ _ h => h.1)⟩
  have hlisted := listing_consistent hreach hq
  exact ⟨q, _, hreach, hq, rfl, hlisted.1,
    hlisted.2 p 2 hp.reachable hstart (hrun.mono fun _ _ h => h.2)⟩

/-- A session exits and is evicted after a call has read the live map and before it reads the
restored one. -/
theorem listed_twice :
    ¬ ∀ q, (listingTasking ⟨none, none⟩ (split 1)).machine.Reachable q → ∀ i sessions,
      q.task i = some (.inr (.returned sessions)) → (sessions.map (·.id)).Nodup := by
  intro hall
  obtain ⟨q, hr, hq⟩ := Machine.exists_reachable_of_exec (s := Pool.empty .new)
    (M := (listingTasking ⟨none, none⟩ (split 1)).machine) Machine.Any
    (fun q => q.task 9 = some (.inr (.returned [⟨1, "a", 5, 5⟩, ⟨1, "a", 5, 5⟩])))
    (List.flatten [[.spawn 0 (creating "a")], Move.repeated 7 0 (decided 1 5),
      [.environment (.markExited 1 0), .spawn 1 (evicting 1)],
      Move.repeated 7 1 (decided 0 0), [.spawn 9 (.inr (.live 0 []))],
      Move.repeated 2 9 (decided 0 0), [.advance 1 (decided 0 0)],
      Move.repeated 3 9 (decided 0 0)])
    (Tasking.init_empty rfl) (by decide)
  exact absurd (hall q hr 9 _ hq) (by decide)

end Run

end Shelly.Daemon
