import Shelly.Daemon.Creation

namespace Shelly.Daemon

namespace AppState

variable {s s' : AppState} {id k : SessionId} {name : String}

def liveName (s : AppState) (id : SessionId) : Option String := (s.get id).map (·.name)

def restoredName (s : AppState) (id : SessionId) : Option String :=
  (s.restored.lookup id).map (·.summary.name)

/-- A live or restored session has the name. -/
def Carries (s : AppState) (id : SessionId) (name : String) : Prop :=
  s.liveName id = some name ∨ s.restoredName id = some name

/-- Every live and every restored session with its name. -/
def named (s : AppState) : List (SessionId × String) :=
  ((s.objects.entries.filter fun e => e.1 ∈ s.sessions).map fun e => (e.1, e.2.name)) ++
    s.restored.entries.map fun e => (e.1, e.2.summary.name)

theorem mem_named : (id, name) ∈ s.named ↔ s.Carries id name := by
  have hlive : (id, name) ∈ ((s.objects.entries.filter fun e => e.1 ∈ s.sessions).map
      fun e => (e.1, e.2.name)) ↔ s.liveName id = some name := by
    simp only [List.mem_map, List.mem_filter, Prod.mk.injEq, decide_eq_true_eq, liveName, get,
      Option.map_eq_some_iff, Option.ite_none_right_eq_some]
    constructor
    · rintro ⟨⟨id', o⟩, ⟨he, hs⟩, rfl, hn⟩
      exact ⟨o, ⟨hs, Table.mem_entries.mp he⟩, hn⟩
    · rintro ⟨o, ⟨hs, ho⟩, hn⟩
      exact ⟨⟨id, o⟩, ⟨Table.mem_entries.mpr ho, hs⟩, rfl, hn⟩
  have hrestored : (id, name) ∈ s.restored.entries.map (fun e => (e.1, e.2.summary.name)) ↔
      s.restoredName id = some name := by
    simp only [List.mem_map, Prod.mk.injEq, restoredName, Option.map_eq_some_iff]
    constructor
    · rintro ⟨⟨id', stored⟩, he, rfl, hn⟩
      exact ⟨stored, Table.mem_entries.mp he, hn⟩
    · rintro ⟨stored, hl, hn⟩
      exact ⟨⟨id, stored⟩, Table.mem_entries.mpr hl, rfl, hn⟩
  rw [named, List.mem_append, hlive, hrestored, Carries]

theorem carries_congr (hlive : s'.liveName = s.liveName)
    (hrestored : s'.restoredName = s.restoredName) : s'.Carries id name ↔ s.Carries id name := by
  rw [Carries, Carries, hlive, hrestored]

theorem liveName_update {f : Session → Session} (hf : ∀ o, (f o).name = o.name) :
    (s.update id f).liveName = s.liveName := by
  funext k
  have hname : ((s.objects.modify id f).lookup k).map (·.name) =
      (s.objects.lookup k).map (·.name) := by
    rw [Table.lookup_modify]
    split
    · cases s.objects.lookup k <;> simp [hf]
    · rfl
  simp only [liveName, get, update]
  by_cases hk : k ∈ s.sessions <;> simp [hk, hname]

theorem liveName_eraseSession :
    ({ s with sessions := s.sessions.erase id } : AppState).liveName k =
      if k = id then none else s.liveName k := by
  simp only [liveName, get, Finset.mem_erase]
  by_cases hk : k = id <;> simp [hk]

theorem liveName_insertSession :
    ({ s with sessions := insert id s.sessions } : AppState).liveName k =
      if k = id then (s.objects.lookup id).map (·.name) else s.liveName k := by
  simp only [liveName, get, Finset.mem_insert]
  by_cases hk : k = id <;> simp [hk]

theorem liveName_insertObject {o : Session} (h : id ∉ s.sessions) :
    ({ s with objects := s.objects.insert id o } : AppState).liveName = s.liveName := by
  funext k
  simp only [liveName, get]
  by_cases hk : k ∈ s.sessions
  · rw [if_pos hk, if_pos hk, Table.lookup_insert_ne _ _ (fun h' : k = id => h (h' ▸ hk))]
  · rw [if_neg hk, if_neg hk]

theorem restoredName_erase :
    ({ s with restored := s.restored.erase id } : AppState).restoredName k =
      if k = id then none else s.restoredName k := by
  simp only [restoredName, Table.lookup_erase]
  split <;> rfl

theorem restoredName_insert (s : AppState) (id k : SessionId) (stored : StoredSession) :
    ({ s with restored := s.restored.insert id stored } : AppState).restoredName k =
      if k = id then some stored.summary.name else s.restoredName k := by
  simp only [restoredName, Table.lookup_insert]
  split <;> rfl

end AppState

/-- The name that a creation in flight has reserved. -/
def RegistryTask.reserved : RegistryTask → Option String
  | .create _ _ (.spawning name) => some name
  | .create _ _ (.dropping name _) => some name
  | .create _ _ (.unrestoring _ name) => some name
  | .create _ _ (.inserting _ name) => some name
  | _ => none

/-- The name that a removal in flight has taken from its session and not yet given back. -/
def RegistryTask.releasing : RegistryTask → Option String
  | .session (.kill _ (.forgetting removedName)) => removedName
  | .session (.kill _ (.releasing removedName)) => removedName
  | .session (.evict _ (.restoring stored)) => some stored.summary.name
  | .session (.evict _ (.cappingName _ _ removed)) => removed.map (·.summary.name)
  | .session (.evict _ (.rechecking stored)) => some stored.summary.name
  | .session (.evict _ (.releasing stored)) => some stored.summary.name
  | _ => none

/-- The name that a removal gives back in this step. -/
def RegistryTask.frees (s : AppState) : RegistryTask → Option String
  | .session (.kill _ (.releasing removedName)) => removedName
  | .session (.evict _ (.cappingName _ oldest removed)) =>
    if oldest ∈ s.sessions then none else removed.map (·.summary.name)
  | .session (.evict _ (.releasing stored)) => some stored.summary.name
  | _ => none

/-- What an eviction puts among the restored sessions in this step. -/
def RegistryTask.restores : RegistryTask → Option StoredSession
  | .session (.evict _ (.restoring stored)) => some stored
  | _ => none

section Guard

variable {p : Pool Registry RegistryTask} {i : Nat} {x : RegistryTask} {c : RegistryChoice}
  {name : String}

def Reserved (p : Pool Registry RegistryTask) (name : String) : Prop :=
  ∃ i x, p.task i = some x ∧ x.reserved = some name

def Releasing (p : Pool Registry RegistryTask) (name : String) : Prop :=
  ∃ i x, p.task i = some x ∧ x.releasing = some name

def reservedNames (p : Pool Registry RegistryTask) : List String :=
  p.tasks.entries.filterMap fun e => e.2.reserved

theorem mem_reservedNames : name ∈ reservedNames p ↔ Reserved p name := by
  simp only [reservedNames, List.mem_filterMap, Reserved]
  constructor
  · rintro ⟨⟨i, x⟩, he, hx⟩
    exact ⟨i, x, Table.mem_entries.mp he, hx⟩
  · rintro ⟨i, x, hi, hx⟩
    exact ⟨⟨i, x⟩, Table.mem_entries.mpr hi, hx⟩

/-- A session carries the name, or a creation has reserved it. -/
def Taken (p : Pool Registry RegistryTask) (name : String) : Prop :=
  (∃ id, p.shared.app.Carries id name) ∨ Reserved p name

def takenNames (p : Pool Registry RegistryTask) : List String :=
  p.shared.app.named.map (·.2) ++ reservedNames p

theorem mem_takenNames : name ∈ takenNames p ↔ Taken p name := by
  rw [takenNames, List.mem_append, mem_reservedNames, Taken, List.mem_map]
  constructor
  · rintro (⟨⟨id, n⟩, he, rfl⟩ | hr)
    · exact .inl ⟨id, AppState.mem_named.mp he⟩
    · exact .inr hr
  · rintro (⟨id, hc⟩ | hr)
    · exact .inl ⟨(id, name), AppState.mem_named.mpr hc, rfl⟩
    · exact .inr hr

/-- The session that comes back has its name in the set of names, and to itself. -/
def restorable (p : Pool Registry RegistryTask) (stored : StoredSession) : Bool :=
  decide (stored.summary.name ∈ p.shared.app.sessionNames) &&
    decide (stored.summary.name ∉ reservedNames p) &&
    p.shared.app.named.all fun e => e.2 != stored.summary.name || e.1 == stored.summary.id

/-- Different rows have different names. -/
def namesApart (rows : Table SessionId StoredSession) : Bool :=
  rows.entries.all fun a => rows.entries.all fun b =>
    a.2.summary.name != b.2.summary.name || a.1 == b.1

/-- No removal gives back a name that is taken, no eviction brings a session back under a name
that is given back or taken, and no restart reads two rows with one name. -/
def namesKept (p : Pool Registry RegistryTask) :
    Move RegistryTask RegistryChoice SessionEvent → Bool
  | .advance i _ => (p.task i).all fun x =>
      ((x.frees p.shared.app).all fun name => decide (name ∉ takenNames p)) &&
        x.restores.all (restorable p)
  | .environment (.restart kept) =>
    p.shared.app.persisted.all fun rows => namesApart (rows.retain fun id _ => id ∈ kept)
  | _ => true

theorem not_taken_of_frees (h : namesKept p (.advance i c) = true) (hi : p.task i = some x)
    (hx : x.frees p.shared.app = some name) : ¬ Taken p name := by
  simp only [namesKept, hi, Option.all_some, hx, Bool.and_eq_true, decide_eq_true_eq] at h
  exact fun ht => h.1 (mem_takenNames.mpr ht)

theorem restorable_of_restores {stored : StoredSession} (h : namesKept p (.advance i c) = true)
    (hi : p.task i = some x) (hx : x.restores = some stored) :
    stored.summary.name ∈ p.shared.app.sessionNames ∧ ¬ Reserved p stored.summary.name ∧
      ∀ id, p.shared.app.Carries id stored.summary.name → id = stored.summary.id := by
  simp only [namesKept, hi, Option.all_some, hx, Bool.and_eq_true] at h
  obtain ⟨⟨hmem, hres⟩, hown⟩ : (_ ∧ _) ∧ _ := by simpa [restorable] using h.2
  refine ⟨hmem, fun hr => hres (mem_reservedNames.mpr hr), fun id hc => ?_⟩
  exact (hown id _ (AppState.mem_named.mpr hc)).resolve_left (fun hne => hne rfl)

theorem eq_of_namesApart {rows : Table SessionId StoredSession} (h : namesApart rows = true)
    {id id' : SessionId} {a b : StoredSession} (ha : rows.lookup id = some a)
    (hb : rows.lookup id' = some b) (hab : a.summary.name = b.summary.name) : id = id' := by
  simp only [namesApart, List.all_eq_true] at h
  have := h ⟨id, a⟩ (Table.mem_entries.mpr ha) ⟨id', b⟩ (Table.mem_entries.mpr hb)
  simpa [hab] using this

end Guard

namespace Registry

variable {r r' : Registry} {i j : Nat} {id : SessionId} {name : String} {s' : AppState}

/-- The session exists, live or not, and has the name. -/
def Has (r : Registry) (id : SessionId) (name : String) : Prop :=
  ∃ o, r.app.objects.lookup id = some o ∧ o.name = name

/-- It is what is kept of the session. -/
def Describes (r : Registry) (id : SessionId) (stored : StoredSession) : Prop :=
  stored.summary.id = id ∧ r.Has id stored.summary.name

/-- The identifier was issued, and not for a session with another name. -/
def Agrees (r : Registry) (id : SessionId) (name : String) : Prop :=
  (r.issued.lookup id).isSome = true ∧ ∀ other, r.Has id other → other = name

/-- What holds of the registry between any two steps, whoever runs. -/
structure Coherent (r : Registry) : Prop where
  keyed : ∀ id stored, r.app.restored.lookup id = some stored →
    stored.summary.id = id ∧ r.Agrees id stored.summary.name
  rowKeyed : ∀ rows, r.app.persisted = some rows → ∀ id stored, rows.lookup id = some stored →
    stored.summary.id = id ∧ (r.issued.lookup id).isSome = true
  ids : ∀ id o, r.app.objects.lookup id = some o → o.id = id ∧ (r.issued.lookup id).isSome = true
  live : ∀ id ∈ r.app.sessions, ∃ name, r.Has id name
  forwarded : ∀ id ∈ r.forwarders, (r.issued.lookup id).isSome = true

def CreateOk (r : Registry) (i : Nat) : CreatePc → Prop
  | .unrestoring id name => r.issued.lookup id = some i ∧ id ∉ r.forwarders ∧
      r.app.restored.lookup id = none ∧ r.Has id name
  | .inserting id name => r.issued.lookup id = some i ∧ id ∉ r.forwarders ∧
      r.app.restored.lookup id = none ∧ r.Has id name
  | .forwarding id => r.issued.lookup id = some i
  | _ => True

def KillOk (r : Registry) (id : SessionId) : KillPc → Prop
  | .flagging name => r.Has id name
  | .signalling name => r.Has id name
  | .unregistering name => r.Has id name
  | .forgetting (some name) => r.Has id name
  | _ => True

def EvictOk (r : Registry) (id : SessionId) : EvictPc → Prop
  | .looking => id ∈ r.forwarders
  | .checking => id ∈ r.forwarders
  | .capturing => id ∈ r.forwarders
  | .naming stored => id ∈ r.forwarders ∧ r.Describes id stored
  | .restoring stored => id ∈ r.forwarders ∧ r.Describes id stored
  | .capping stored => id ∈ r.forwarders ∧ r.Describes id stored
  | .cappingMap stored _ => id ∈ r.forwarders ∧ r.Describes id stored
  | .cappingName stored oldest removed => (id ∈ r.forwarders ∧ r.Describes id stored) ∧
      ∀ old, removed = some old → r.Agrees oldest old.summary.name
  | .cappingRow stored _ => id ∈ r.forwarders ∧ r.Describes id stored
  | .unregistering stored => id ∈ r.forwarders ∧ r.Describes id stored
  | .rechecking stored => id ∈ r.forwarders ∧ r.Describes id stored
  | _ => True

def PersistOk (r : Registry) (id : SessionId) : PersistPc → Prop
  | .saving stored => stored.summary.id = id ∧ (r.issued.lookup id).isSome = true
  | _ => True

def TaskOk (r : Registry) (i : Nat) : RegistryTask → Prop
  | .create _ _ pc => r.CreateOk i pc
  | .session (.kill id pc) => r.KillOk id pc
  | .session (.evict id pc) => r.EvictOk id pc
  | .session (.persist id _ pc) => r.PersistOk id pc

/-- What the other tasks may rely on when task `i` takes a step. -/
structure Rely (r : Registry) (i : Nat) (r' : Registry) : Prop where
  has : ∀ id name, r.Has id name → r'.Has id name
  had : ∀ id name, r'.Has id name → r.Has id name ∨ r.issued.lookup id = none
  issued : ∀ id j, r.issued.lookup id = some j → r'.issued.lookup id = some j
  forwarders : ∀ id ∈ r.forwarders, id ∈ r'.forwarders
  forwarded : ∀ id ∈ r'.forwarders, id ∈ r.forwarders ∨ r.issued.lookup id = some i
  restored : ∀ id, r.app.restored.lookup id = none →
    r'.app.restored.lookup id = none ∨ id ∈ r.forwarders

theorem Rely.issued_isSome (h : r.Rely i r') (hid : (r.issued.lookup id).isSome = true) :
    (r'.issued.lookup id).isSome = true := by
  obtain ⟨j, hj⟩ := Option.isSome_iff_exists.mp hid
  rw [h.issued id j hj]
  rfl

theorem Rely.describes (h : r.Rely i r') {stored : StoredSession} (hd : r.Describes id stored) :
    r'.Describes id stored := ⟨hd.1, h.has id _ hd.2⟩

theorem Rely.agrees (h : r.Rely i r') (ha : r.Agrees id name) : r'.Agrees id name := by
  refine ⟨h.issued_isSome ha.1, fun other ho => ?_⟩
  rcases h.had id other ho with ho | hn
  · exact ha.2 other ho
  · have hi := ha.1
    rw [hn] at hi
    cases hi

/-- A creation that has not yet started the forwarder keeps its session to itself. -/
theorem Rely.unforwarded (h : r.Rely i r') (hij : j ≠ i) (hid : r.issued.lookup id = some j)
    (hf : id ∉ r.forwarders) : id ∉ r'.forwarders := by
  intro hf'
  rcases h.forwarded id hf' with hm | hi
  · exact hf hm
  · exact hij (Option.some.inj (hid.symm.trans hi))

/-- A step of one task does not disturb the others. -/
theorem Rely.taskOk {x : RegistryTask} (h : r.Rely i r') (hij : j ≠ i) (hx : r.TaskOk j x) :
    r'.TaskOk j x := by
  have hstored {id : SessionId} {stored : StoredSession}
      (ho : id ∈ r.forwarders ∧ r.Describes id stored) :
      id ∈ r'.forwarders ∧ r'.Describes id stored := ⟨h.forwarders id ho.1, h.describes ho.2⟩
  have hnew {id : SessionId} {name : String} (ho : r.issued.lookup id = some j ∧
      id ∉ r.forwarders ∧ r.app.restored.lookup id = none ∧ r.Has id name) :
      r'.issued.lookup id = some j ∧ id ∉ r'.forwarders ∧
        r'.app.restored.lookup id = none ∧ r'.Has id name :=
    ⟨h.issued id j ho.1, h.unforwarded hij ho.1 ho.2.1,
      (h.restored id ho.2.2.1).resolve_right ho.2.1, h.has id name ho.2.2.2⟩
  cases x with
  | create clientKind call pc =>
    cases pc with
    | unrestoring id name => exact hnew hx
    | inserting id name => exact hnew hx
    | forwarding id => exact h.issued id j hx
    | start | reserving | autoNaming | spawning | dropping | publishing | returned => trivial
  | session task =>
    cases task with
    | kill id pc =>
      cases pc with
      | flagging name => exact h.has id name hx
      | signalling name => exact h.has id name hx
      | unregistering name => exact h.has id name hx
      | forgetting removedName =>
        cases removedName with
        | none => trivial
        | some name => exact h.has id name hx
      | looking | releasing | erasing | publishing | returned => trivial
    | evict id pc =>
      cases pc with
      | looking | checking | capturing => exact h.forwarders id hx
      | naming | restoring | capping | cappingMap | cappingRow | unregistering | rechecking =>
        exact hstored hx
      | cappingName stored oldest removed =>
        exact ⟨hstored hx.1, fun old ho => h.agrees (hx.2 old ho)⟩
      | observing | releasing | publishing | returned => trivial
    | persist id final pc =>
      cases pc with
      | saving stored => exact ⟨hx.1, h.issued_isSome hx.2⟩
      | starting | checking | capturing | failed | returned => trivial

/-- Sessions, issued identifiers and forwarders are the same, and nothing new is restored. -/
theorem Rely.of_same (hobjects : r'.app.objects = r.app.objects) (hissued : r'.issued = r.issued)
    (hforwarders : r'.forwarders = r.forwarders)
    (hrestored : ∀ id, r.app.restored.lookup id = none → r'.app.restored.lookup id = none) :
    r.Rely i r' where
  has id name h := by rwa [Has, hobjects]
  had id name h := by rw [Has, hobjects] at h; exact .inl h
  issued id j h := by rwa [hissued]
  forwarders id h := by rwa [hforwarders]
  forwarded id h := by rw [hforwarders] at h; exact .inl h
  restored id h := .inl (hrestored id h)

theorem has_update {f : Session → Session} (hf : ∀ o, (f o).name = o.name) {k : SessionId} :
    ({ r with app := r.app.update k f } : Registry).Has id name ↔ r.Has id name := by
  simp only [Has, AppState.update, Table.lookup_modify]
  split
  · constructor
    · rintro ⟨o', ho', rfl⟩
      obtain ⟨o, ho, rfl⟩ := Option.map_eq_some_iff.mp ho'
      exact ⟨o, ho, (hf o).symm⟩
    · rintro ⟨o, ho, rfl⟩
      exact ⟨f o, by rw [ho]; rfl, hf o⟩
  · rfl

theorem Rely.of_update {f : Session → Session} (hf : ∀ o, (f o).name = o.name) {k : SessionId} :
    r.Rely i { r with app := r.app.update k f } where
  has _ _ h := (has_update hf).mpr h
  had _ _ h := .inl ((has_update hf).mp h)
  issued _ _ h := h
  forwarders _ h := h
  forwarded _ h := .inl h
  restored _ h := .inl h

theorem Coherent.of_same (h : r.Coherent) (hobjects : r'.app.objects = r.app.objects)
    (hsessions : ∀ id ∈ r'.app.sessions, id ∈ r.app.sessions)
    (hrestored : r.app.restored.Includes r'.app.restored)
    (hpersisted : ∀ rows', r'.app.persisted = some rows' →
      ∃ rows, r.app.persisted = some rows ∧ rows.Includes rows')
    (hissued : r'.issued = r.issued) (hforwarders : r'.forwarders = r.forwarders) :
    r'.Coherent := by
  have hagrees {id : SessionId} {name : String} (ha : r.Agrees id name) : r'.Agrees id name := by
    simp only [Agrees, Has, hobjects, hissued]
    exact ha
  refine ⟨fun id stored hl => ?_, fun rows' hrows' id stored hl => ?_, fun id o ho => ?_,
    fun id hs => ?_, fun id hf => ?_⟩
  · obtain ⟨hid, ha⟩ := h.keyed id stored (hrestored id stored hl)
    exact ⟨hid, hagrees ha⟩
  · obtain ⟨rows, hrows, hinc⟩ := hpersisted rows' hrows'
    rw [hissued]
    exact h.rowKeyed rows hrows id stored (hinc id stored hl)
  · rw [hobjects] at ho
    rw [hissued]
    exact h.ids id o ho
  · obtain ⟨name, hn⟩ := h.live id (hsessions id hs)
    exact ⟨name, by rwa [Has, hobjects]⟩
  · rw [hissued]
    exact h.forwarded id (hforwarders ▸ hf)

theorem Coherent.update (h : r.Coherent) {f : Session → Session} (hf : ∀ o, (f o).name = o.name)
    (hid : ∀ o, (f o).id = o.id) {k : SessionId} :
    ({ r with app := r.app.update k f } : Registry).Coherent := by
  refine ⟨fun id stored hl => ?_, h.rowKeyed, fun id o ho => ?_, fun id hs => ?_, h.forwarded⟩
  · obtain ⟨hkey, hi, ha⟩ := h.keyed id stored hl
    exact ⟨hkey, hi, fun other ho => ha other ((has_update hf).mp ho)⟩
  · change (r.app.objects.modify k f).lookup id = some o at ho
    rw [Table.lookup_modify] at ho
    split at ho
    · obtain ⟨o₀, ho₀, rfl⟩ := Option.map_eq_some_iff.mp ho
      rw [hid]
      exact h.ids id o₀ ho₀
    · exact h.ids id o ho
  · obtain ⟨name, hn⟩ := h.live id hs
    exact ⟨name, (has_update hf).mpr hn⟩

/-- Everything a step can do to the names. Either sessions leave, and whoever takes them out
still has to give their names back, or one name is put in or taken out. -/
inductive NameStep (r : Registry) (x : RegistryTask) (r' : Registry) (x' : RegistryTask) : Prop
  | leave (hkept : ∀ id name, r'.app.Carries id name → r.app.Carries id name)
      (hlost : ∀ id name, r.app.Carries id name →
        r'.app.Carries id name ∨ x'.releasing = some name)
      (hnames : r'.app.sessionNames = r.app.sessionNames) (hreserved : x'.reserved = x.reserved)
      (hreleasing : ∀ name, x.releasing = some name →
        x'.releasing = some name ∨ ∃ id, r'.app.Carries id name)
  | reserve (name : String) (hcarries : r'.app.Carries = r.app.Carries)
      (hfree : name ∉ r.app.sessionNames)
      (hnames : r'.app.sessionNames = insert name r.app.sessionNames) (hold : x.reserved = none)
      (hreserved : x'.reserved = some name) (hreleasing : x.releasing = none)
  | retake (name : String) (hcarries : r'.app.Carries = r.app.Carries)
      (hnames : r'.app.sessionNames = insert name r.app.sessionNames) (hold : x.reserved = none)
      (hreserved : x'.reserved = none) (hreleasing : x'.releasing = some name)
      (hquiet : x.releasing = none)
  | enter (id : SessionId) (name : String)
      (hcarries : ∀ k n, r'.app.Carries k n ↔ r.app.Carries k n ∨ k = id ∧ n = name)
      (hnames : r'.app.sessionNames = r.app.sessionNames) (hold : x.reserved = some name)
      (hreserved : x'.reserved = none) (hreleasing : x.releasing = none)
  | restore (stored : StoredSession)
      (hcarries : ∀ k n, r'.app.Carries k n ↔
        r.app.Carries k n ∨ k = stored.summary.id ∧ n = stored.summary.name)
      (hnames : r'.app.sessionNames = r.app.sessionNames) (hold : x.reserved = none)
      (hreserved : x'.reserved = none) (hrestores : x.restores = some stored)
      (hreleasing : x.releasing = some stored.summary.name)
  | drop (name : String) (hcarries : r'.app.Carries = r.app.Carries)
      (hnames : r'.app.sessionNames = r.app.sessionNames.erase name)
      (hold : x.reserved = some name) (hreserved : x'.reserved = none)
      (hreleasing : x.releasing = none)
  | release (name : String) (hcarries : r'.app.Carries = r.app.Carries)
      (hnames : r'.app.sessionNames = r.app.sessionNames.erase name) (hold : x.reserved = none)
      (hreserved : x'.reserved = none) (hfrees : x.frees r.app = some name)
      (hreleasing : x.releasing = some name)

/-- What one step of task `i` does. -/
structure Effect (r : Registry) (i : Nat) (x : RegistryTask) (r' : Registry)
    (x' : RegistryTask) : Prop where
  coherent : r'.Coherent
  own : r'.TaskOk i x'
  rely : r.Rely i r'
  names : NameStep r x r' x'

variable {x x' : RegistryTask}

/-- A step in which no session enters or leaves and no name changes hands. -/
theorem NameStep.of_same (hcarries : r'.app.Carries = r.app.Carries)
    (hnames : r'.app.sessionNames = r.app.sessionNames) (hreserved : x'.reserved = x.reserved)
    (hreleasing : ∀ name, x.releasing = some name →
      x'.releasing = some name ∨ ∃ id, r'.app.Carries id name) : NameStep r x r' x' :=
  .leave (fun _ _ h => hcarries ▸ h) (fun _ _ h => .inl (hcarries ▸ h)) hnames hreserved hreleasing

theorem carries_update {f : Session → Session} (hf : ∀ o, (f o).name = o.name) {k : SessionId} :
    (r.app.update k f).Carries = r.app.Carries := by
  funext id name
  rw [AppState.Carries, AppState.liveName_update hf]
  rfl

/-- A step that changes a session without renaming it. -/
theorem Effect.of_update (h : r.Coherent) {f : Session → Session} {k : SessionId}
    (hr' : r' = { r with app := r.app.update k f }) (hf : ∀ o, (f o).name = o.name)
    (hid : ∀ o, (f o).id = o.id) (hown : r'.TaskOk i x')
    (hreserved : x'.reserved = x.reserved) (hreleasing : x.releasing = none) :
    r.Effect i x r' x' := by
  subst hr'
  refine ⟨h.update hf hid, hown, .of_update hf, .of_same (carries_update hf) rfl hreserved ?_⟩
  intro name hn
  rw [hreleasing] at hn
  cases hn

/-- A step that leaves alone what the names depend on. -/
theorem Effect.of_same (h : r.Coherent) (hobjects : r'.app.objects = r.app.objects)
    (hsessions : r'.app.sessions = r.app.sessions) (hrestored : r'.app.restored = r.app.restored)
    (hpersisted : ∀ rows', r'.app.persisted = some rows' →
      ∃ rows, r.app.persisted = some rows ∧ rows.Includes rows')
    (hissued : r'.issued = r.issued) (hforwarders : r'.forwarders = r.forwarders)
    (hnames : r'.app.sessionNames = r.app.sessionNames) (hown : r'.TaskOk i x')
    (hreserved : x'.reserved = x.reserved)
    (hreleasing : ∀ name, x.releasing = some name →
      x'.releasing = some name ∨ ∃ id, r.app.Carries id name) : r.Effect i x r' x' := by
  have hcarries : r'.app.Carries = r.app.Carries := by
    funext id name
    simp only [AppState.Carries, AppState.liveName, AppState.restoredName, AppState.get, hobjects,
      hsessions, hrestored]
  refine ⟨h.of_same hobjects (fun _ hs => hsessions ▸ hs) (hrestored ▸ fun _ _ hl => hl)
    hpersisted hissued hforwarders, hown,
    .of_same hobjects hissued hforwarders (fun _ hl => hrestored ▸ hl),
    .of_same hcarries hnames hreserved ?_⟩
  rwa [hcarries]

variable {c : SessionChoice}

theorem Coherent.saveSession (h : r.Coherent) {stored : StoredSession}
    (hissued : (r.issued.lookup stored.summary.id).isSome = true) :
    ({ r with app := r.app.saveSession stored } : Registry).Coherent := by
  refine ⟨h.keyed, fun rows hrows id old hl => ?_, h.ids, h.live, h.forwarded⟩
  obtain ⟨rows₀, hrows₀, rfl⟩ := Option.map_eq_some_iff.mp hrows
  rw [Table.lookup_insert] at hl
  split at hl
  · rename_i hid
    obtain rfl := Option.some.inj hl
    exact ⟨hid.symm, hid ▸ hissued⟩
  · exact h.rowKeyed rows₀ hrows₀ id old hl

theorem includes_removeSession {s : AppState} (id : SessionId) :
    ∀ rows', (s.removeSession id).persisted = some rows' →
      ∃ rows, s.persisted = some rows ∧ rows.Includes rows' := by
  intro rows' hrows'
  obtain ⟨rows, hrows, rfl⟩ := Option.map_eq_some_iff.mp hrows'
  exact ⟨rows, hrows, Table.includes_erase rows id⟩

theorem includes_persisted {s : AppState} :
    ∀ rows', s.persisted = some rows' → ∃ rows, s.persisted = some rows ∧ rows.Includes rows' :=
  fun rows' hrows' => ⟨rows', hrows', fun _ _ hl => hl⟩

theorem persist_effect {final : Bool} {pc pc' : PersistPc} (h : r.Coherent)
    (hx : r.PersistOk id pc) (hs : persistStep c id final pc r.app = some (s', pc')) :
    r.Effect i (.session (.persist id final pc)) { r with app := s' }
      (.session (.persist id final pc')) := by
  cases pc with
  | starting =>
    obtain ⟨o, ho, he⟩ := Option.map_eq_some_iff.mp hs
    obtain ⟨rfl, rfl⟩ := Prod.mk.inj he
    refine .of_update h rfl (fun _ => rfl) (fun _ => rfl) ?_ rfl rfl
    change Registry.PersistOk _ _ _
    split <;> trivial
  | checking =>
    obtain ⟨o, ho, he⟩ := Option.map_eq_some_iff.mp hs
    obtain ⟨rfl, rfl⟩ := Prod.mk.inj he
    refine .of_same h rfl rfl rfl includes_persisted rfl rfl rfl ?_ rfl (fun _ hn => nomatch hn)
    change Registry.PersistOk _ _ _
    split <;> trivial
  | capturing =>
    obtain ⟨o, ho, he⟩ := Option.map_eq_some_iff.mp hs
    obtain ⟨rfl, rfl⟩ := Prod.mk.inj he
    obtain ⟨hid, hissued⟩ := h.ids id o ho
    exact .of_same h rfl rfl rfl includes_persisted rfl rfl rfl ⟨hid, hissued⟩ rfl
      (fun _ hn => nomatch hn)
  | saving stored =>
    simp only [persistStep, Option.some.injEq] at hs
    split at hs
    · obtain ⟨rfl, rfl⟩ := Prod.mk.inj hs
      exact ⟨h.saveSession (hx.1 ▸ hx.2), trivial, .of_same rfl rfl rfl (fun _ hl => hl),
        .of_same rfl rfl rfl (fun _ hn => nomatch hn)⟩
    · obtain ⟨rfl, rfl⟩ := Prod.mk.inj hs
      exact .of_same h rfl rfl rfl includes_persisted rfl rfl rfl trivial rfl
        (fun _ hn => nomatch hn)
  | failed =>
    obtain ⟨rfl, rfl⟩ := Prod.mk.inj (Option.some.inj hs)
    exact .of_update h rfl (fun _ => rfl) (fun _ => rfl) trivial rfl rfl
  | returned => cases hs

/-- A step that takes a session out of the live map and keeps its name for later. -/
theorem Effect.of_unregister (h : r.Coherent) (hname : r.Has id name)
    (hr' : r' = { r with app := { r.app with sessions := r.app.sessions.erase id } })
    (hown : r'.TaskOk i x') (hreserved : x'.reserved = x.reserved)
    (hquiet : x.releasing = none) (hreleasing : x'.releasing = some name) :
    r.Effect i x r' x' := by
  subst hr'
  refine ⟨h.of_same rfl (fun _ hs => Finset.mem_of_mem_erase hs) (fun _ _ hl => hl)
    includes_persisted rfl rfl, hown, .of_same rfl rfl rfl (fun _ hl => hl),
    .leave ?_ ?_ rfl hreserved ?_⟩
  · intro k n hc
    rcases hc with hl | hr
    · rw [AppState.liveName_eraseSession] at hl
      split at hl
      · cases hl
      · exact .inl hl
    · exact .inr hr
  · intro k n hc
    rcases hc with hl | hr
    · by_cases hk : k = id
      · subst hk
        obtain ⟨o, ho, rfl⟩ := hname
        obtain ⟨o', ho', rfl⟩ := Option.map_eq_some_iff.mp hl
        obtain rfl := Option.some.inj (ho.symm.trans (AppState.get_eq_some.mp ho').2)
        exact .inr hreleasing
      · exact .inl (.inl (by rw [AppState.liveName_eraseSession, if_neg hk]; exact hl))
    · exact .inl (.inr hr)
  · intro n hn
    rw [hquiet] at hn
    cases hn

/-- A step that takes a session out of the restored map and keeps its name for later. -/
theorem Effect.of_unrestore (hcoherent : r'.Coherent)
    (hrestored : r'.app.restored = r.app.restored.erase id)
    (hobjects : r'.app.objects = r.app.objects) (hsessions : r'.app.sessions = r.app.sessions)
    (hissued : r'.issued = r.issued) (hforwarders : r'.forwarders = r.forwarders)
    (hnames : r'.app.sessionNames = r.app.sessionNames) (hown : r'.TaskOk i x')
    (hreserved : x'.reserved = x.reserved)
    (hkept : ∀ name, x.releasing = some name → x'.releasing = some name)
    (hlost : ∀ stored, r.app.restored.lookup id = some stored →
      x'.releasing = some stored.summary.name) : r.Effect i x r' x' := by
  have hlive : r'.app.liveName = r.app.liveName := by
    funext k
    simp only [AppState.liveName, AppState.get, hobjects, hsessions]
  have hback (k : SessionId) :
      r'.app.restoredName k = if k = id then none else r.app.restoredName k := by
    simp only [AppState.restoredName, hrestored, Table.lookup_erase]
    split <;> rfl
  refine ⟨hcoherent, hown, .of_same hobjects hissued hforwarders ?_,
    .leave ?_ ?_ hnames hreserved ?_⟩
  · intro k hl
    rw [hrestored, Table.lookup_erase, hl]
    split <;> rfl
  · intro k n hc
    rcases hc with hl | hr
    · exact .inl (hlive ▸ hl)
    · rw [hback] at hr
      split at hr
      · cases hr
      · exact .inr hr
  · intro k n hc
    rcases hc with hl | hr
    · exact .inl (.inl (hlive ▸ hl))
    · by_cases hk : k = id
      · subst hk
        obtain ⟨stored, hl, rfl⟩ := Option.map_eq_some_iff.mp hr
        exact .inr (hlost stored hl)
      · exact .inl (.inr (by rw [hback, if_neg hk]; exact hr))
  · exact fun name hn => .inl (hkept name hn)

/-- A step in which a removal gives its name back. -/
theorem Effect.of_release (h : r.Coherent)
    (hr' : r' = { r with app := { r.app with sessionNames := r.app.sessionNames.erase name } })
    (hown : r'.TaskOk i x') (hold : x.reserved = none) (hreserved : x'.reserved = none)
    (hfrees : x.frees r.app = some name) (hreleasing : x.releasing = some name) :
    r.Effect i x r' x' := by
  subst hr'
  exact ⟨h.of_same rfl (fun _ hs => hs) (fun _ _ hl => hl) includes_persisted rfl rfl, hown,
    .of_same rfl rfl rfl (fun _ hl => hl), .release name rfl rfl hold hreserved hfrees hreleasing⟩

theorem kill_effect {pc pc' : KillPc} (h : r.Coherent) (hx : r.KillOk id pc)
    (hs : killStep c id pc r.app = some (s', pc')) :
    r.Effect i (.session (.kill id pc)) { r with app := s' } (.session (.kill id pc')) := by
  have unchanged {pc'' : KillPc} {s'' : AppState} (hobjects : s''.objects = r.app.objects)
      (hsessions : s''.sessions = r.app.sessions) (hrestored : s''.restored = r.app.restored)
      (hpersisted : ∀ rows', s''.persisted = some rows' →
        ∃ rows, r.app.persisted = some rows ∧ rows.Includes rows')
      (hnames : s''.sessionNames = r.app.sessionNames)
      (hown : ({ r with app := s'' } : Registry).KillOk id pc'')
      (hquiet : (RegistryTask.session (.kill id pc)).releasing = none) :
      r.Effect i (.session (.kill id pc)) { r with app := s'' } (.session (.kill id pc'')) :=
    .of_same h hobjects hsessions hrestored hpersisted rfl rfl hnames hown rfl
      (fun name hn => by rw [hquiet] at hn; cases hn)
  cases pc with
  | looking =>
    simp only [killStep] at hs
    split at hs
    · rename_i o ho
      obtain ⟨rfl, rfl⟩ := Prod.mk.inj (Option.some.inj hs)
      exact unchanged rfl rfl rfl includes_persisted rfl ⟨o, (AppState.get_eq_some.mp ho).2, rfl⟩ rfl
    · obtain ⟨rfl, rfl⟩ := Prod.mk.inj (Option.some.inj hs)
      exact unchanged rfl rfl rfl includes_persisted rfl trivial rfl
  | flagging name =>
    obtain ⟨rfl, rfl⟩ := Prod.mk.inj (Option.some.inj hs)
    refine .of_update h rfl (fun _ => rfl) (fun _ => rfl) ?_ rfl rfl
    exact (has_update (f := fun o => { o with killed := true }) fun _ => rfl).mpr hx
  | signalling name =>
    obtain ⟨rfl, rfl⟩ := Prod.mk.inj (Option.some.inj hs)
    refine unchanged rfl rfl rfl includes_persisted rfl ?_ rfl
    split
    · exact hx
    · trivial
  | unregistering name =>
    obtain ⟨rfl, rfl⟩ := Prod.mk.inj (Option.some.inj hs)
    exact .of_unregister h hx rfl hx rfl rfl rfl
  | forgetting removedName =>
    obtain ⟨rfl, rfl⟩ := Prod.mk.inj (Option.some.inj hs)
    refine .of_unrestore (h.of_same rfl (fun _ hl => hl) (Table.includes_erase _ _)
      includes_persisted rfl rfl) rfl rfl rfl rfl rfl rfl trivial rfl ?_ ?_
    · intro name hn
      change removedName = some name at hn
      subst hn
      rfl
    · intro stored hl
      change (removedName <|> (r.app.restored.lookup id).map (·.summary.name)) = _
      cases removedName with
      | none => rw [hl]; rfl
      | some name => exact congrArg some ((h.keyed id stored hl).2.2 name hx)
  | releasing removedName =>
    obtain ⟨rfl, rfl⟩ := Prod.mk.inj (Option.some.inj hs)
    cases removedName with
    | none => exact unchanged rfl rfl rfl includes_persisted rfl trivial rfl
    | some name => exact .of_release h rfl trivial rfl rfl rfl rfl
  | erasing =>
    simp only [killStep] at hs
    split at hs
    · obtain ⟨rfl, rfl⟩ := Prod.mk.inj (Option.some.inj hs)
      exact unchanged rfl rfl rfl (includes_removeSession id) rfl trivial rfl
    · obtain ⟨rfl, rfl⟩ := Prod.mk.inj (Option.some.inj hs)
      exact unchanged rfl rfl rfl includes_persisted rfl trivial rfl
  | publishing ok =>
    obtain ⟨rfl, rfl⟩ := Prod.mk.inj (Option.some.inj hs)
    exact unchanged rfl rfl rfl includes_persisted rfl trivial rfl
  | returned ok => cases hs

/-- A step in which an eviction puts its session among the restored ones. -/
theorem Effect.of_restore (h : r.Coherent) {stored : StoredSession}
    (hr' : r' = { r with app := { r.app with
      restored := r.app.restored.insert stored.summary.id stored } })
    (hid : id ∈ r.forwarders) (hstored : r.Describes id stored) (hown : r'.TaskOk i x')
    (hold : x.reserved = none) (hreserved : x'.reserved = none)
    (hrestores : x.restores = some stored) (hreleasing : x.releasing = some stored.summary.name) :
    r.Effect i x r' x' := by
  subst hr'
  obtain ⟨rfl, o, ho, hname⟩ := hstored
  have hagrees : r.Agrees stored.summary.id stored.summary.name := by
    refine ⟨(h.ids _ o ho).2, fun other hother => ?_⟩
    obtain ⟨o', ho', rfl⟩ := hother
    obtain rfl := Option.some.inj (ho.symm.trans ho')
    exact hname
  have hback (k : SessionId) := AppState.restoredName_insert r.app stored.summary.id k stored
  refine ⟨⟨fun k old hl => ?_, h.rowKeyed, h.ids, h.live, h.forwarded⟩, hown,
    { Rely.of_same rfl rfl rfl (fun _ hl => hl) with restored := fun k hl => ?_ },
    .restore stored (fun k n => ?_) rfl hold hreserved hrestores hreleasing⟩
  · rw [Table.lookup_insert] at hl
    split at hl
    · rename_i hk
      obtain rfl := Option.some.inj hl
      exact ⟨hk.symm, hk ▸ hagrees⟩
    · exact h.keyed k old hl
  · change (r.app.restored.insert _ _).lookup k = none ∨ _
    rw [Table.lookup_insert]
    split
    · rename_i hk
      exact .inr (hk ▸ hid)
    · exact .inl hl
  · rw [AppState.Carries, AppState.Carries, hback]
    constructor
    · rintro (hl | hr)
      · exact .inl (.inl hl)
      · split at hr
        · exact .inr ⟨‹_›, (Option.some.inj hr).symm⟩
        · exact .inl (.inr hr)
    · rintro ((hl | hr) | ⟨rfl, rfl⟩)
      · exact .inl hl
      · refine .inr ?_
        split
        · rename_i hk
          subst hk
          obtain ⟨old, hl, rfl⟩ := Option.map_eq_some_iff.mp hr
          exact congrArg some ((h.keyed _ old hl).2.2 _ ⟨o, ho, hname⟩)
        · exact hr
      · exact .inr (if_pos rfl)

theorem evict_effect {pc pc' : EvictPc} (h : r.Coherent) (hx : r.EvictOk id pc)
    (hobserved : pc = .observing → id ∈ r.forwarders)
    (hs : evictStep c i id pc r.app = some (s', pc')) :
    r.Effect i (.session (.evict id pc)) { r with app := s' } (.session (.evict id pc')) := by
  have unchanged {pc'' : EvictPc} {s'' : AppState} (hobjects : s''.objects = r.app.objects)
      (hsessions : s''.sessions = r.app.sessions) (hrestored : s''.restored = r.app.restored)
      (hpersisted : ∀ rows', s''.persisted = some rows' →
        ∃ rows, r.app.persisted = some rows ∧ rows.Includes rows')
      (hnames : s''.sessionNames = r.app.sessionNames)
      (hown : ({ r with app := s'' } : Registry).EvictOk id pc'')
      (hreleasing : ∀ name, (RegistryTask.session (.evict id pc)).releasing = some name →
        (RegistryTask.session (.evict id pc'')).releasing = some name ∨
          ∃ id, r.app.Carries id name) :
      r.Effect i (.session (.evict id pc)) { r with app := s'' } (.session (.evict id pc'')) :=
    .of_same h hobjects hsessions hrestored hpersisted rfl rfl hnames hown rfl hreleasing
  cases pc with
  | observing =>
    simp only [evictStep] at hs
    split at hs
    · split at hs
      · obtain ⟨rfl, rfl⟩ := Prod.mk.inj (Option.some.inj hs)
        exact unchanged rfl rfl rfl includes_persisted rfl (hobserved rfl) (fun _ hn => by cases hn)
      · cases hs
    · cases hs
  | looking =>
    obtain ⟨rfl, rfl⟩ := Prod.mk.inj (Option.some.inj hs)
    refine unchanged rfl rfl rfl includes_persisted rfl ?_ (fun _ hn => by cases hn)
    split
    · exact hx
    · trivial
  | checking =>
    obtain ⟨o, ho, he⟩ := Option.map_eq_some_iff.mp hs
    obtain ⟨rfl, rfl⟩ := Prod.mk.inj he
    refine unchanged rfl rfl rfl includes_persisted rfl ?_ (fun _ hn => by cases hn)
    split
    · trivial
    · exact hx
  | capturing =>
    obtain ⟨o, ho, he⟩ := Option.map_eq_some_iff.mp hs
    obtain ⟨rfl, rfl⟩ := Prod.mk.inj he
    exact unchanged rfl rfl rfl includes_persisted rfl ⟨hx, (h.ids id o ho).1, o, ho, rfl⟩
      (fun _ hn => by cases hn)
  | naming stored =>
    obtain ⟨rfl, rfl⟩ := Prod.mk.inj (Option.some.inj hs)
    exact ⟨h.of_same rfl (fun _ hl => hl) (fun _ _ hl => hl) includes_persisted rfl rfl, hx,
      .of_same rfl rfl rfl (fun _ hl => hl), .retake stored.summary.name rfl rfl rfl rfl rfl rfl⟩
  | restoring stored =>
    obtain ⟨rfl, rfl⟩ := Prod.mk.inj (Option.some.inj hs)
    exact .of_restore h rfl hx.1 hx.2 hx rfl rfl rfl rfl
  | capping stored =>
    simp only [evictStep] at hs
    split at hs
    · split at hs
      · split at hs
        · obtain ⟨rfl, rfl⟩ := Prod.mk.inj (Option.some.inj hs)
          exact unchanged rfl rfl rfl includes_persisted rfl hx (fun _ hn => by cases hn)
        · cases hs
      · cases hs
    · obtain ⟨rfl, rfl⟩ := Prod.mk.inj (Option.some.inj hs)
      exact unchanged rfl rfl rfl includes_persisted rfl hx (fun _ hn => by cases hn)
  | cappingMap stored oldest =>
    obtain ⟨rfl, rfl⟩ := Prod.mk.inj (Option.some.inj hs)
    refine .of_unrestore (h.of_same rfl (fun _ hl => hl) (Table.includes_erase _ _)
      includes_persisted rfl rfl) rfl rfl rfl rfl rfl rfl ⟨hx, ?_⟩ rfl (fun _ hn => by cases hn) ?_
    · exact fun old hl => (h.keyed oldest old hl).2
    · intro old hl
      exact congrArg (Option.map _) hl
  | cappingName stored oldest removed =>
    obtain ⟨hown, hagrees⟩ := hx
    cases removed with
    | none =>
      obtain ⟨rfl, rfl⟩ := Prod.mk.inj (Option.some.inj hs)
      exact unchanged rfl rfl rfl includes_persisted rfl hown (fun _ hn => by cases hn)
    | some old =>
      simp only [evictStep] at hs
      split at hs
      · rename_i hlive
        obtain ⟨rfl, rfl⟩ := Prod.mk.inj (Option.some.inj hs)
        refine unchanged rfl rfl rfl includes_persisted rfl hown (fun name hn => ?_)
        obtain rfl := Option.some.inj hn
        obtain ⟨name, o, ho, hname⟩ := h.live oldest hlive
        have hsame : o.name = old.summary.name := (hagrees old rfl).2 _ ⟨o, ho, rfl⟩
        exact .inr ⟨oldest, .inl (Option.map_eq_some_iff.mpr
          ⟨o, AppState.get_eq_some.mpr ⟨hlive, ho⟩, hsame⟩)⟩
      · rename_i hlive
        obtain ⟨rfl, rfl⟩ := Prod.mk.inj (Option.some.inj hs)
        exact .of_release h rfl hown rfl rfl (if_neg hlive) rfl
  | cappingRow stored oldest =>
    obtain ⟨rfl, rfl⟩ := Prod.mk.inj (Option.some.inj hs)
    split
    · exact unchanged rfl rfl rfl (includes_removeSession oldest) rfl hx (fun _ hn => by cases hn)
    · exact unchanged rfl rfl rfl includes_persisted rfl hx (fun _ hn => by cases hn)
  | unregistering stored =>
    obtain ⟨rfl, rfl⟩ := Prod.mk.inj (Option.some.inj hs)
    exact .of_unregister h hx.2.2 rfl hx rfl rfl rfl
  | rechecking stored =>
    obtain ⟨rfl, rfl⟩ := Prod.mk.inj (Option.some.inj hs)
    refine unchanged rfl rfl rfl includes_persisted rfl ?_ ?_
    · split <;> trivial
    · intro name hn
      obtain rfl := Option.some.inj hn
      split
      · rename_i hc
        obtain ⟨old, hl⟩ := Table.contains_eq_true.mp hc
        refine .inr ⟨id, .inr ?_⟩
        rw [AppState.restoredName, hl]
        exact congrArg some ((h.keyed id old hl).2.2 _ hx.2.2).symm
      · exact .inl rfl
  | releasing stored =>
    obtain ⟨rfl, rfl⟩ := Prod.mk.inj (Option.some.inj hs)
    exact .of_release h rfl trivial rfl rfl rfl rfl
  | publishing =>
    obtain ⟨rfl, rfl⟩ := Prod.mk.inj (Option.some.inj hs)
    exact unchanged rfl rfl rfl includes_persisted rfl trivial (fun _ hn => by cases hn)
  | returned => cases hs

section Create

variable {host : HostEnv} {choice : RegistryChoice} {clientKind : ClientKind} {call : CreateCall}

/-- A creation puts a name into the set that was not in it. -/
theorem Effect.of_reserve (h : r.Coherent) {pc : CreatePc} (hfree : name ∉ r.app.sessionNames)
    (hr' : r' = { r with app := { r.app with sessionNames := insert name r.app.sessionNames } })
    (hold : (RegistryTask.create clientKind call pc).reserved = none) :
    r.Effect i (.create clientKind call pc) r' (.create clientKind call (.spawning name)) := by
  subst hr'
  exact ⟨h.of_same rfl (fun _ hl => hl) (fun _ _ hl => hl) includes_persisted rfl rfl, trivial,
    .of_same rfl rfl rfl (fun _ hl => hl), .reserve name rfl hfree rfl hold rfl rfl⟩

/-- A creation makes its session, which is not in the registry yet. -/
theorem Effect.of_spawn (h : r.Coherent) {process : SessionProcess} {now : Nat}
    (hid : r.issued.lookup id = none)
    (hr' : r' = { r with
      app := { r.app with objects := r.app.objects.insert id (.spawn id name now) }
      processes := r.processes.insert id process
      issued := r.issued.insert id i }) :
    r.Effect i (.create clientKind call (.spawning name)) r'
      (.create clientKind call (.unrestoring id name)) := by
  have hissued {k : SessionId} (hk : (r.issued.lookup k).isSome = true) :
      k ≠ id ∧ r'.issued.lookup k = r.issued.lookup k := by
    have hne : k ≠ id := by
      rintro rfl
      rw [hid] at hk
      cases hk
    exact ⟨hne, by rw [hr']; exact Table.lookup_insert_ne _ _ hne⟩
  have hhas {k : SessionId} {n : String} (hk : k ≠ id) : r'.Has k n ↔ r.Has k n := by
    rw [Has, Has, hr']
    simp only [Table.lookup_insert_ne _ _ hk]
  have hagrees {k : SessionId} {n : String} (ha : r.Agrees k n) : r'.Agrees k n := by
    obtain ⟨hk, hlookup⟩ := hissued ha.1
    exact ⟨hlookup ▸ ha.1, fun other ho => ha.2 other ((hhas hk).mp ho)⟩
  have hlive : id ∉ r.app.sessions := by
    intro hs
    obtain ⟨n, o, ho, -⟩ := h.live id hs
    exact (hissued (h.ids id o ho).2).1 rfl
  have hself : r'.issued.lookup id = some i := by
    rw [hr']
    exact Table.lookup_insert_self _ _ _
  have hhasself {n : String} : r'.Has id n ↔ n = name := by
    rw [Has, hr']
    simp only [Table.lookup_insert_self, Option.some.injEq]
    constructor
    · rintro ⟨o, rfl, rfl⟩
      rfl
    · rintro rfl
      exact ⟨_, rfl, rfl⟩
  refine ⟨⟨?_, ?_, ?_, ?_, ?_⟩, ⟨hself, ?_, ?_, hhasself.mpr rfl⟩, ⟨?_, ?_, ?_, ?_, ?_, ?_⟩,
    .of_same ?_ (by rw [hr']) rfl (fun _ hn => by cases hn)⟩
  · intro k stored hl
    obtain ⟨hkey, ha⟩ := h.keyed k stored (by rwa [hr'] at hl)
    exact ⟨hkey, hagrees ha⟩
  · intro rows hrows k stored hl
    obtain ⟨hkey, hk⟩ := h.rowKeyed rows (by rwa [hr'] at hrows) k stored hl
    exact ⟨hkey, (hissued hk).2 ▸ hk⟩
  · intro k o ho
    rw [hr'] at ho
    change (r.app.objects.insert id _).lookup k = some o at ho
    by_cases hk : k = id
    · subst hk
      rw [Table.lookup_insert_self] at ho
      obtain rfl := Option.some.inj ho
      exact ⟨rfl, by rw [hself]; rfl⟩
    · rw [Table.lookup_insert_ne _ _ hk] at ho
      exact ⟨(h.ids k o ho).1, (hissued (h.ids k o ho).2).2 ▸ (h.ids k o ho).2⟩
  · intro k hs
    obtain ⟨n, o, ho, hn⟩ := h.live k (by rwa [hr'] at hs)
    exact ⟨n, (hhas (hissued (h.ids k o ho).2).1).mpr ⟨o, ho, hn⟩⟩
  · intro k hf
    have hk := h.forwarded k (by rwa [hr'] at hf)
    exact (hissued hk).2 ▸ hk
  · intro hf
    exact (hissued (h.forwarded id (by rwa [hr'] at hf))).1 rfl
  · rw [hr']
    change r.app.restored.lookup id = none
    cases hl : r.app.restored.lookup id with
    | none => rfl
    | some stored => exact absurd rfl (hissued (h.keyed id stored hl).2.1).1
  · rintro k n ⟨o, ho, hn⟩
    exact (hhas (hissued (h.ids k o ho).2).1).mpr ⟨o, ho, hn⟩
  · intro k n hk
    by_cases hkid : k = id
    · exact .inr (hkid ▸ hid)
    · exact .inl ((hhas hkid).mp hk)
  · intro k j hk
    rw [(hissued (by rw [hk]; rfl)).2]
    exact hk
  · intro k hf
    rwa [hr']
  · intro k hf
    exact .inl (by rwa [hr'] at hf)
  · intro k hl
    exact .inl (by rwa [hr'])
  · funext k n
    rw [hr', AppState.Carries, AppState.liveName_insertObject hlive]
    rfl

/-- A creation puts its session into the live map. -/
theorem Effect.of_insert (h : r.Coherent) (hname : r.Has id name)
    (hissued : r.issued.lookup id = some i)
    (hr' : r' = { r with app := { r.app with sessions := insert id r.app.sessions } }) :
    r.Effect i (.create clientKind call (.inserting id name)) r'
      (.create clientKind call (.forwarding id)) := by
  subst hr'
  refine ⟨⟨h.keyed, h.rowKeyed, h.ids, fun k hs => ?_, h.forwarded⟩, hissued,
    .of_same rfl rfl rfl (fun _ hl => hl), .enter id name (fun k n => ?_) rfl rfl rfl rfl⟩
  · rcases Finset.mem_insert.mp hs with rfl | hs
    · exact ⟨name, hname⟩
    · exact h.live k hs
  · obtain ⟨o, ho, rfl⟩ := hname
    rw [AppState.Carries, AppState.Carries, AppState.liveName_insertSession]
    by_cases hk : k = id
    · subst hk
      simp only [if_true, ho, Option.map_some, Option.some.injEq, true_and]
      constructor
      · rintro (rfl | hr)
        · exact .inr rfl
        · exact .inl (.inr hr)
      · rintro ((hl | hr) | rfl)
        · obtain ⟨o', ho', rfl⟩ := Option.map_eq_some_iff.mp hl
          obtain rfl := Option.some.inj (ho.symm.trans (AppState.get_eq_some.mp ho').2)
          exact .inl rfl
        · exact .inr hr
        · exact .inl rfl
    · simp only [hk, false_and, or_false]
      rfl

theorem create_effect {pc pc' : CreatePc} (h : r.Coherent) (hx : r.CreateOk i pc)
    (hs : createStep host choice i clientKind call pc r = some (r', pc')) :
    r.Effect i (.create clientKind call pc) r' (.create clientKind call pc') := by
  have unchanged {pc'' : CreatePc} (hown : r.CreateOk i pc'')
      (hreserved : (RegistryTask.create clientKind call pc'').reserved =
        (RegistryTask.create clientKind call pc).reserved) :
      r.Effect i (.create clientKind call pc) r (.create clientKind call pc'') :=
    .of_same h rfl rfl rfl includes_persisted rfl rfl rfl hown hreserved (fun _ hn => by cases hn)
  cases pc with
  | start =>
    simp only [createStep] at hs
    split at hs
    · obtain ⟨rfl, rfl⟩ := Prod.mk.inj (Option.some.inj hs)
      exact unchanged trivial rfl
    · split at hs
      all_goals
        obtain ⟨rfl, rfl⟩ := Prod.mk.inj (Option.some.inj hs)
        exact unchanged trivial rfl
  | reserving name =>
    simp only [createStep] at hs
    split at hs
    · obtain ⟨rfl, rfl⟩ := Prod.mk.inj (Option.some.inj hs)
      exact unchanged trivial rfl
    · obtain ⟨rfl, rfl⟩ := Prod.mk.inj (Option.some.inj hs)
      exact .of_reserve h ‹_› rfl rfl
  | autoNaming start attempt =>
    simp only [createStep] at hs
    split at hs
    · obtain ⟨rfl, rfl⟩ := Prod.mk.inj (Option.some.inj hs)
      exact unchanged trivial rfl
    · obtain ⟨rfl, rfl⟩ := Prod.mk.inj (Option.some.inj hs)
      exact .of_reserve h ‹_› rfl rfl
  | spawning name =>
    simp only [createStep] at hs
    split at hs
    · obtain ⟨rfl, rfl⟩ := Prod.mk.inj (Option.some.inj hs)
      exact unchanged trivial rfl
    · split at hs
      · split at hs
        · rename_i hfresh
          simp only [Bool.and_eq_true, Option.isNone_iff_eq_none] at hfresh
          obtain ⟨rfl, rfl⟩ := Prod.mk.inj (Option.some.inj hs)
          exact .of_spawn h hfresh.1 rfl
        · cases hs
      · obtain ⟨rfl, rfl⟩ := Prod.mk.inj (Option.some.inj hs)
        exact unchanged trivial rfl
  | dropping name message =>
    obtain ⟨rfl, rfl⟩ := Prod.mk.inj (Option.some.inj hs)
    exact ⟨h.of_same rfl (fun _ hl => hl) (fun _ _ hl => hl) includes_persisted rfl rfl, trivial,
      .of_same rfl rfl rfl (fun _ hl => hl), .drop name rfl rfl rfl rfl rfl⟩
  | unrestoring id name =>
    obtain ⟨rfl, rfl⟩ := Prod.mk.inj (Option.some.inj hs)
    obtain ⟨hissued, hforwarders, hrestored, hname⟩ := hx
    refine .of_unrestore (h.of_same rfl (fun _ hl => hl) (Table.includes_erase _ _)
      includes_persisted rfl rfl) rfl rfl rfl rfl rfl rfl
      ⟨hissued, hforwarders, Table.lookup_erase_self _ _, hname⟩ rfl (fun _ hn => by cases hn) ?_
    intro stored hl
    cases hrestored.symm.trans hl
  | inserting id name =>
    obtain ⟨rfl, rfl⟩ := Prod.mk.inj (Option.some.inj hs)
    exact .of_insert h hx.2.2.2 hx.1 rfl
  | forwarding id =>
    obtain ⟨rfl, rfl⟩ := Prod.mk.inj (Option.some.inj hs)
    refine ⟨⟨h.keyed, h.rowKeyed, h.ids, h.live, fun k hf => ?_⟩, trivial,
      ⟨fun _ _ hh => hh, fun _ _ hh => .inl hh, fun _ _ hi => hi, ?_, ?_, fun _ hl => .inl hl⟩,
      .of_same rfl rfl rfl (fun _ hn => by cases hn)⟩
    · rcases Finset.mem_insert.mp hf with rfl | hf
      · exact Option.isSome_iff_exists.mpr ⟨i, hx⟩
      · exact h.forwarded k hf
    · exact fun k hf => Finset.mem_insert_of_mem hf
    · intro k hf
      rcases Finset.mem_insert.mp hf with rfl | hf
      · exact .inr hx
      · exact .inl hf
  | publishing id =>
    obtain ⟨rfl, rfl⟩ := Prod.mk.inj (Option.some.inj hs)
    exact .of_same h rfl rfl rfl includes_persisted rfl rfl rfl trivial rfl
      (fun _ hn => by cases hn)
  | returned result => cases hs

theorem advance_effect (h : r.Coherent) (hx : r.TaskOk i x)
    (hs : registryAdvance host choice i x r = some (r', x')) : r.Effect i x r' x' := by
  cases x with
  | create clientKind call pc =>
    obtain ⟨⟨r₁, pc'⟩, hc, he⟩ := Option.map_eq_some_iff.mp hs
    obtain ⟨rfl, rfl⟩ := Prod.mk.inj he
    exact create_effect h hx hc
  | session task =>
    have hsession {task : SessionTask} (hx : r.TaskOk i (.session task))
        (hobserved : ∀ id, task = .evict id .observing → id ∈ r.forwarders)
        (hs : (sessionAdvance choice.toSessionChoice i task r.app).map
          (fun y => ({ r with app := y.1 }, RegistryTask.session y.2)) = some (r', x')) :
        r.Effect i (.session task) r' x' := by
      obtain ⟨⟨s', task'⟩, ht, he⟩ := Option.map_eq_some_iff.mp hs
      obtain ⟨rfl, rfl⟩ := Prod.mk.inj he
      cases task with
      | kill id pc =>
        obtain ⟨⟨s₁, pc'⟩, hc, he⟩ := Option.map_eq_some_iff.mp ht
        obtain ⟨rfl, rfl⟩ := Prod.mk.inj he
        exact kill_effect h hx hc
      | evict id pc =>
        obtain ⟨⟨s₁, pc'⟩, hc, he⟩ := Option.map_eq_some_iff.mp ht
        obtain ⟨rfl, rfl⟩ := Prod.mk.inj he
        exact evict_effect h hx (fun hpc => hobserved id (hpc ▸ rfl)) hc
      | persist id final pc =>
        obtain ⟨⟨s₁, pc'⟩, hc, he⟩ := Option.map_eq_some_iff.mp ht
        obtain ⟨rfl, rfl⟩ := Prod.mk.inj he
        exact persist_effect h hx hc
    unfold registryAdvance at hs
    split at hs
    · rename_i heq
      cases heq
    · rename_i id heq
      cases heq
      split at hs
      · rename_i hf
        exact hsession hx (fun id' he => by cases he; exact hf) hs
      · cases hs
    · rename_i hne heq
      cases heq
      exact hsession hx (fun id' he => absurd he (hne id')) hs

end Create

/-- What happens around the tasks changes no name. -/
theorem event_effect {e : SessionEvent} (h : r.Coherent)
    (hs : registryEvent e r = some (r', true)) :
    r'.Coherent ∧ r.Rely i r' ∧ r'.app.Carries = r.app.Carries ∧
      r'.app.sessionNames = r.app.sessionNames := by
  have hupdate {k : SessionId} {f : Session → Session}
      (hr' : r' = { r with app := r.app.update k f }) (hf : ∀ o, (f o).name = o.name)
      (hid : ∀ o, (f o).id = o.id) :
      r'.Coherent ∧ r.Rely i r' ∧ r'.app.Carries = r.app.Carries ∧
        r'.app.sessionNames = r.app.sessionNames := by
    subst hr'
    exact ⟨h.update hf hid, .of_update hf, carries_update hf, rfl⟩
  cases e with
  | create id name now => cases hs
  | record id bytes =>
    obtain ⟨rfl, -⟩ := Prod.mk.inj (Option.some.inj hs)
    exact hupdate rfl (fun _ => rfl) (fun _ => rfl)
  | markDirty id =>
    obtain ⟨rfl, -⟩ := Prod.mk.inj (Option.some.inj hs)
    exact hupdate rfl (fun _ => rfl) (fun _ => rfl)
  | markExited id exitCode =>
    obtain ⟨rfl, -⟩ := Prod.mk.inj (Option.some.inj hs)
    exact hupdate rfl (fun _ => rfl) (fun _ => rfl)
  | restart kept =>
    obtain ⟨⟨s₁, keep⟩, hr, he⟩ := Option.map_eq_some_iff.mp hs
    obtain ⟨rows, hrows, hk⟩ := Option.map_eq_some_iff.mp hr
    cases (Prod.mk.inj hk).2.trans (Prod.mk.inj he).2

/-- A restart leaves the sessions whose rows it kept, and no others. -/
theorem restart_effect {kept : List SessionId} (h : r.Coherent) {keep : Bool}
    (hs : registryEvent (.restart kept) r = some (r', keep)) :
    r'.Coherent ∧ ∃ rows, r.app.persisted = some rows ∧
      r'.app.restored = rows.retain (fun id _ => id ∈ kept) ∧ r'.app.sessions = ∅ ∧
      ∀ name, name ∈ r'.app.sessionNames ↔ ∃ id, r'.app.Carries id name := by
  obtain ⟨⟨s₁, keep₁⟩, hr, he⟩ := Option.map_eq_some_iff.mp hs
  obtain ⟨rows, hrows, hk⟩ := Option.map_eq_some_iff.mp hr
  obtain ⟨rfl, -⟩ := Prod.mk.inj hk
  obtain ⟨rfl, -⟩ := Prod.mk.inj he
  have hrow {id : SessionId} {stored : StoredSession}
      (hl : (rows.retain fun id _ => id ∈ kept).lookup id = some stored) :
      stored.summary.id = id ∧ (r.issued.lookup id).isSome = true :=
    h.rowKeyed rows hrows id stored (Table.lookup_retain.mp hl).1
  refine ⟨⟨?_, ?_, ?_, ?_, ?_⟩, rows, hrows, rfl, rfl, ?_⟩
  · intro id stored hl
    refine ⟨(hrow hl).1, (hrow hl).2, ?_⟩
    rintro other ⟨o, ho, -⟩
    cases (Table.lookup_empty id).symm.trans ho
  · intro rows' hrows' id stored hl
    obtain rfl := Option.some.inj hrows'
    exact hrow hl
  · intro id o ho
    cases (Table.lookup_empty id).symm.trans ho
  · exact fun id hl => absurd hl (Finset.notMem_empty id)
  · exact fun id hf => absurd hf (Finset.notMem_empty id)
  · intro name
    simp only [List.mem_toFinset, List.mem_map]
    constructor
    · rintro ⟨⟨id, stored⟩, hm, rfl⟩
      refine ⟨id, .inr ?_⟩
      rw [AppState.restoredName, Table.mem_entries.mp hm]
      rfl
    · rintro ⟨id, hl | hr⟩
      · obtain ⟨o, ho, -⟩ := Option.map_eq_some_iff.mp hl
        exact absurd (AppState.get_eq_some.mp ho).1 (Finset.notMem_empty id)
      · obtain ⟨stored, hl, rfl⟩ := Option.map_eq_some_iff.mp hr
        exact ⟨⟨id, stored⟩, Table.mem_entries.mpr hl, rfl⟩

theorem coherent_new : Registry.new.Coherent := by
  refine ⟨fun id stored hl => ?_, fun rows hrows id stored hl => ?_, fun id o ho => ?_,
    fun id hl => absurd hl (Finset.notMem_empty id),
    fun id hf => absurd hf (Finset.notMem_empty id)⟩
  · cases (Table.lookup_empty id).symm.trans hl
  · obtain rfl := Option.some.inj hrows
    cases (Table.lookup_empty id).symm.trans hl
  · cases (Table.lookup_empty id).symm.trans ho

end Registry

end Shelly.Daemon
