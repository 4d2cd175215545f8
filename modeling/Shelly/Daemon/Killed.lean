import Shelly.Daemon.AppState

namespace Shelly.Daemon

namespace SessionTask

/-- An eviction that has found its session not killed and has not restored it yet. -/
def evicting (id : SessionId) : SessionTask → Bool
  | .evict id' .capturing => id' == id
  | .evict id' (.naming _) => id' == id
  | .evict id' (.restoring _) => id' == id
  | _ => false

/-- A persisting that has found its session not killed and has not saved it yet. -/
def persisting (id : SessionId) : SessionTask → Bool
  | .persist id' _ .capturing => id' == id
  | .persist id' _ (.saving _) => id' == id
  | _ => false

end SessionTask

namespace AppState

variable {s s' : AppState} {id : SessionId}

def Flagged (s : AppState) (id : SessionId) : Prop :=
  ∃ o, s.objects.lookup id = some o ∧ o.killed = true

/-- What holds of the registry between any two steps. -/
structure Sound (s : AppState) : Prop where
  keyed : ∀ id stored, s.restored.lookup id = some stored → stored.summary.id = id
  rowKeyed : ∀ rows, s.persisted = some rows → ∀ id stored, rows.lookup id = some stored →
    stored.summary.id = id
  ids : ∀ id o, s.objects.lookup id = some o → o.id = id
  live : ∀ id ∈ s.sessions, ∃ o, s.objects.lookup id = some o
  mentioned : ∀ id ∈ s.gone, id ∈ s.mentioned
  gone : ∀ id ∈ s.gone, id ∉ s.sessions ∧ s.restored.lookup id = none
  erased : ∀ id ∈ s.erased, ∀ rows, s.persisted = some rows → rows.lookup id = none
  killed : ∀ id ∈ s.killed, id ∈ s.gone ∧ id ∈ s.erased

def KillOk (s : AppState) (id : SessionId) : KillPc → Prop
  | .flagging _ => id ∈ s.mentioned ∧ ∃ o, s.objects.lookup id = some o
  | .signalling _ => id ∈ s.mentioned ∧ s.Flagged id
  | .unregistering _ => id ∈ s.mentioned ∧ s.Flagged id
  | .forgetting _ => id ∈ s.mentioned ∧ id ∉ s.sessions
  | .releasing _ => id ∈ s.gone
  | .erasing => id ∈ s.gone
  | .publishing ok => ok = true → id ∈ s.gone ∧ id ∈ s.erased
  | .returned ok => ok = true → id ∈ s.killed
  | .looking => True

def EvictOk (s : AppState) (i : Nat) (id : SessionId) : EvictPc → Prop
  | .observing => True
  | .looking => s.observer.lookup id = some i
  | .checking => s.observer.lookup id = some i ∧ (id ∈ s.sessions ∨ s.Flagged id)
  | .capturing => s.observer.lookup id = some i ∧ id ∉ s.gone
  | .naming stored => s.observer.lookup id = some i ∧ id ∉ s.gone ∧ stored.summary.id = id
  | .restoring stored => s.observer.lookup id = some i ∧ id ∉ s.gone ∧ stored.summary.id = id
  | .capping _ => s.observer.lookup id = some i
  | .cappingMap _ _ => s.observer.lookup id = some i
  | .cappingName _ _ _ => s.observer.lookup id = some i
  | .cappingRow _ _ => s.observer.lookup id = some i
  | .unregistering _ => s.observer.lookup id = some i
  | _ => True

def PersistOk (s : AppState) (id : SessionId) : PersistPc → Prop
  | .capturing => id ∉ s.erased
  | .saving stored => id ∉ s.erased ∧ stored.summary.id = id
  | _ => True

def TaskOk (s : AppState) (i : Nat) : SessionTask → Prop
  | .kill id pc => s.KillOk id pc
  | .evict id pc => s.EvictOk i id pc
  | .persist id _ pc => s.PersistOk id pc

/-- What the other tasks may rely on when task `i` takes a step to `s'`. -/
structure Rely (p : Pool AppState SessionTask) (i : Nat) (s' : AppState) : Prop where
  mentioned : ∀ id ∈ p.shared.mentioned, id ∈ s'.mentioned
  objects : ∀ id o, p.shared.objects.lookup id = some o →
    ∃ o', s'.objects.lookup id = some o' ∧ (o.killed = true → o'.killed = true)
  observer : ∀ id j, p.shared.observer.lookup id = some j → s'.observer.lookup id = some j
  unlisted : ∀ id ∈ p.shared.mentioned, id ∉ p.shared.sessions → id ∉ s'.sessions
  leaving : ∀ id ∈ p.shared.sessions, id ∈ s'.sessions ∨ s'.Flagged id ∨
    p.shared.observer.lookup id = some i
  gone : ∀ id ∈ p.shared.gone, id ∈ s'.gone
  erased : ∀ id ∈ p.shared.erased, id ∈ s'.erased
  killed : ∀ id ∈ p.shared.killed, id ∈ s'.killed
  newlyGone : ∀ id ∈ s'.gone, id ∈ p.shared.gone ∨ p.Lacks fun _ x => x.evicting id
  newlyErased : ∀ id ∈ s'.erased, id ∈ p.shared.erased ∨ p.Lacks fun _ x => x.persisting id

variable {p : Pool AppState SessionTask} {i j : Nat} {y : SessionTask}

theorem Rely.flagged (r : Rely p i s') (h : p.shared.Flagged id) : s'.Flagged id := by
  obtain ⟨o, ho, hk⟩ := h
  obtain ⟨o', ho', hk'⟩ := r.objects id o ho
  exact ⟨o', ho', hk' hk⟩

theorem Rely.not_gone (r : Rely p i s') (hy : p.task j = some y) (he : y.evicting id = true)
    (h : id ∉ p.shared.gone) : id ∉ s'.gone := by
  intro hg
  rcases r.newlyGone id hg with hg | hl
  · exact h hg
  · exact absurd he (Bool.eq_false_iff.mp (hl j y hy))

theorem Rely.not_erased (r : Rely p i s') (hy : p.task j = some y)
    (hp : y.persisting id = true) (h : id ∉ p.shared.erased) : id ∉ s'.erased := by
  intro he
  rcases r.newlyErased id he with he | hl
  · exact h he
  · exact absurd hp (Bool.eq_false_iff.mp (hl j y hy))

/-- A step of one task does not disturb the others. -/
theorem Rely.taskOk (r : Rely p i s') (hne : j ≠ i) (hy : p.task j = some y)
    (h : p.shared.TaskOk j y) : s'.TaskOk j y := by
  cases y with
  | kill id pc =>
    cases pc with
    | looking => trivial
    | returned ok => exact fun hok => r.killed id (h hok)
    | flagging name =>
      obtain ⟨o, ho⟩ := h.2
      obtain ⟨o', ho', -⟩ := r.objects id o ho
      exact ⟨r.mentioned id h.1, o', ho'⟩
    | signalling name => exact ⟨r.mentioned id h.1, r.flagged h.2⟩
    | unregistering name => exact ⟨r.mentioned id h.1, r.flagged h.2⟩
    | forgetting name => exact ⟨r.mentioned id h.1, r.unlisted id h.1 h.2⟩
    | releasing name => exact r.gone id h
    | erasing => exact r.gone id h
    | publishing ok => exact fun hok => ⟨r.gone id (h hok).1, r.erased id (h hok).2⟩
  | evict id pc =>
    cases pc with
    | observing | rechecking | releasing | publishing | returned => trivial
    | looking | capping | cappingMap | cappingName | cappingRow | unregistering =>
      exact r.observer id j h
    | checking =>
      refine ⟨r.observer id j h.1, ?_⟩
      rcases h.2 with hs | hf
      · rcases r.leaving id hs with hs | hf | hi
        · exact .inl hs
        · exact .inr hf
        · exact absurd (Option.some.inj (h.1.symm.trans hi)) hne
      · exact .inr (r.flagged hf)
    | capturing => exact ⟨r.observer id j h.1, r.not_gone hy (beq_self_eq_true id) h.2⟩
    | naming stored =>
      exact ⟨r.observer id j h.1, r.not_gone hy (beq_self_eq_true id) h.2.1, h.2.2⟩
    | restoring stored =>
      exact ⟨r.observer id j h.1, r.not_gone hy (beq_self_eq_true id) h.2.1, h.2.2⟩
  | persist id final pc =>
    cases pc with
    | starting | checking | failed | returned => trivial
    | capturing => exact r.not_erased hy (beq_self_eq_true id) h
    | saving stored => exact ⟨r.not_erased hy (beq_self_eq_true id) h.1, h.2⟩

/-- A step that touches neither the sessions nor the history disturbs nobody. -/
theorem Rely.of_same (hobjects : s'.objects = p.shared.objects)
    (hsessions : s'.sessions = p.shared.sessions) (hobserver : s'.observer = p.shared.observer)
    (hmentioned : s'.mentioned = p.shared.mentioned) (hgone : s'.gone = p.shared.gone)
    (herased : s'.erased = p.shared.erased) (hkilled : s'.killed = p.shared.killed) :
    Rely p i s' := by
  constructor
  · rw [hmentioned]; exact fun _ h => h
  · rw [hobjects]; exact fun _ o h => ⟨o, h, id⟩
  · rw [hobserver]; exact fun _ _ h => h
  · rw [hsessions]; exact fun _ _ h => h
  · rw [hsessions]; exact fun _ h => .inl h
  · rw [hgone]; exact fun _ h => h
  · rw [herased]; exact fun _ h => h
  · rw [hkilled]; exact fun _ h => h
  · rw [hgone]; exact fun _ h => .inl h
  · rw [herased]; exact fun _ h => .inl h

/-- Changing one session object, without clearing its killed flag. -/
theorem Rely.of_update {f : Session → Session} (hf : ∀ o, o.killed = true → (f o).killed = true) :
    Rely p i (p.shared.update id f) := by
  have same : Rely p i p.shared := .of_same rfl rfl rfl rfl rfl rfl rfl
  refine { same with objects := fun id' o ho => ?_, leaving := fun _ h => .inl h }
  change ∃ o', (p.shared.objects.modify id f).lookup id' = some o' ∧ _
  rw [Table.lookup_modify]
  split
  · exact ⟨f o, by rw [ho]; rfl, hf o⟩
  · exact ⟨o, ho, fun h => h⟩

theorem Sound.update {f : Session → Session} (h : s.Sound) (hf : ∀ o, (f o).id = o.id) :
    (s.update id f).Sound := by
  refine { h with ids := fun id' o ho => ?_, live := fun id' hl => ?_ }
  · change (s.objects.modify id f).lookup id' = some o at ho
    rw [Table.lookup_modify] at ho
    split at ho
    · obtain ⟨o₀, ho₀, rfl⟩ := Option.map_eq_some_iff.mp ho
      exact (hf o₀).trans (h.ids id' o₀ ho₀)
    · exact h.ids id' o ho
  · obtain ⟨o, ho⟩ := h.live id' hl
    change ∃ o, (s.objects.modify id f).lookup id' = some o
    rw [Table.lookup_modify, ho]
    split
    · exact ⟨f o, rfl⟩
    · exact ⟨o, rfl⟩

theorem Sound.removeSession (h : s.Sound) : (s.removeSession id).Sound := by
  refine { h with rowKeyed := fun rows hrows id' stored hl => ?_,
                  erased := fun id' he rows hrows => ?_ }
  · obtain ⟨rows₀, hrows₀, rfl⟩ := Option.map_eq_some_iff.mp hrows
    rw [Table.lookup_erase] at hl
    split at hl
    · cases hl
    · exact h.rowKeyed rows₀ hrows₀ id' stored hl
  · obtain ⟨rows₀, hrows₀, rfl⟩ := Option.map_eq_some_iff.mp hrows
    rw [Table.lookup_erase]
    split
    · rfl
    · exact h.erased id' he rows₀ hrows₀

theorem Sound.eraseRestored (h : s.Sound) : Sound { s with restored := s.restored.erase id } := by
  refine { h with keyed := fun id' stored hl => ?_, gone := fun id' hg => ⟨(h.gone id' hg).1, ?_⟩ }
  · rw [Table.lookup_erase] at hl
    split at hl
    · cases hl
    · exact h.keyed id' stored hl
  · rw [Table.lookup_erase]
    split
    · rfl
    · exact (h.gone id' hg).2

theorem Sound.eraseSession (h : s.Sound) : Sound { s with sessions := s.sessions.erase id } :=
  { h with
    live := fun id' hs => h.live id' (Finset.mem_of_mem_erase hs)
    gone := fun id' hg =>
      ⟨fun hs => (h.gone id' hg).1 (Finset.mem_of_mem_erase hs), (h.gone id' hg).2⟩ }

end AppState

/-- The three windows in which a killed session could come back: the kill clears the
restored map while an eviction is about to fill it; the kill deletes the row while a
persisting is about to write it; and a persisting that starts after a kill which found
no live session to flag. -/
def undisturbed (p : Pool AppState SessionTask) :
    Move SessionTask SessionChoice SessionEvent → Bool
  | .advance i _ =>
    match p.task i with
    | some (.kill id (.forgetting _)) => decide (p.Lacks fun _ x => x.evicting id)
    | some (.kill id .erasing) => decide (p.Lacks fun _ x => x.persisting id)
    | some (.persist id _ .checking) =>
      decide (id ∉ p.shared.erased) || (p.shared.objects.lookup id).all (·.killed)
    | _ => true
  | _ => true

namespace AppState

variable {p : Pool AppState SessionTask} {i : Nat} {c : SessionChoice} {id : SessionId}
  {s' : AppState}

theorem not_live_of_get {s : AppState} (h : s.Sound) (hget : s.get id = none) :
    id ∉ s.sessions := by
  intro hs
  obtain ⟨o, ho⟩ := h.live id hs
  rw [get_eq_some.mpr ⟨hs, ho⟩] at hget
  cases hget

theorem kill_step {pc pc' : KillPc} (h : p.shared.Sound) (ht : p.task i = some (.kill id pc))
    (hok : p.shared.KillOk id pc) (hc : undisturbed p (.advance i c) = true)
    (hs : killStep c id pc p.shared = some (s', pc')) :
    s'.Sound ∧ Rely p i s' ∧ s'.KillOk id pc' := by
  have same : Rely p i p.shared := .of_same rfl rfl rfl rfl rfl rfl rfl
  cases pc with
  | looking =>
    simp only [killStep] at hs
    have hsound : Sound { p.shared with mentioned := insert id p.shared.mentioned } :=
      { h with mentioned := fun id' hg => Finset.mem_insert_of_mem (h.mentioned id' hg) }
    have hrely : Rely p i { p.shared with mentioned := insert id p.shared.mentioned } :=
      { same with mentioned := fun id' hm => Finset.mem_insert_of_mem hm }
    split at hs
    · rename_i session hget
      obtain ⟨rfl, rfl⟩ := Prod.mk.inj (Option.some.inj hs)
      obtain ⟨-, ho⟩ := get_eq_some.mp hget
      exact ⟨hsound, hrely, Finset.mem_insert_self _ _, session, ho⟩
    · rename_i hget
      obtain ⟨rfl, rfl⟩ := Prod.mk.inj (Option.some.inj hs)
      refine ⟨hsound, hrely, Finset.mem_insert_self _ _, ?_⟩
      have hget' : p.shared.get id = none := hget
      have hlive : id ∉ p.shared.sessions := not_live_of_get h hget'
      exact hlive
  | flagging name =>
    obtain ⟨rfl, rfl⟩ := Prod.mk.inj (Option.some.inj hs)
    refine ⟨h.update fun _ => rfl, .of_update fun _ _ => rfl, hok.1, ?_⟩
    obtain ⟨o, ho⟩ := hok.2
    refine ⟨{ o with killed := true }, ?_, rfl⟩
    change (p.shared.objects.modify id _).lookup id = _
    rw [Table.lookup_modify, if_pos rfl, ho]
    rfl
  | signalling name =>
    obtain ⟨rfl, rfl⟩ := Prod.mk.inj (Option.some.inj hs)
    refine ⟨h, same, ?_⟩
    split
    · exact hok
    · exact fun hf => by cases hf
  | unregistering name =>
    obtain ⟨rfl, rfl⟩ := Prod.mk.inj (Option.some.inj hs)
    refine ⟨h.eraseSession, { same with unlisted := ?_, leaving := ?_ }, hok.1,
      Finset.notMem_erase _ _⟩
    · exact fun id' _ hn hs => hn (Finset.mem_of_mem_erase hs)
    · intro id' hs
      by_cases hid : id' = id
      · exact .inr (.inl (hid ▸ hok.2))
      · exact .inl (Finset.mem_erase.mpr ⟨hid, hs⟩)
  | forgetting name =>
    obtain ⟨rfl, rfl⟩ := Prod.mk.inj (Option.some.inj hs)
    have hlacks : p.Lacks fun _ x => x.evicting id := by
      simp only [undisturbed, ht] at hc
      exact of_decide_eq_true hc
    have hsound : Sound { p.shared with restored := p.shared.restored.erase id } := h.eraseRestored
    refine ⟨{ hsound with mentioned := ?_, gone := ?_, killed := ?_ },
      { same with gone := ?_, newlyGone := ?_ }, Finset.mem_insert_self _ _⟩
    · intro id' hg
      rcases Finset.mem_insert.mp hg with rfl | hg
      · exact hok.1
      · exact h.mentioned id' hg
    · intro id' hg
      rcases Finset.mem_insert.mp hg with rfl | hg
      · exact ⟨hok.2, Table.lookup_erase_self _ _⟩
      · exact hsound.gone id' hg
    · exact fun id' hk => ⟨Finset.mem_insert_of_mem (h.killed id' hk).1, (h.killed id' hk).2⟩
    · exact fun id' hg => Finset.mem_insert_of_mem hg
    · intro id' hg
      rcases Finset.mem_insert.mp hg with rfl | hg
      · exact .inr hlacks
      · exact .inl hg
  | releasing name =>
    obtain ⟨rfl, rfl⟩ := Prod.mk.inj (Option.some.inj hs)
    exact ⟨{ h with }, { same with }, hok⟩
  | erasing =>
    have hlacks : p.Lacks fun _ x => x.persisting id := by
      simp only [undisturbed, ht] at hc
      exact of_decide_eq_true hc
    simp only [killStep] at hs
    split at hs
    · obtain ⟨rfl, rfl⟩ := Prod.mk.inj (Option.some.inj hs)
      have hsound : (p.shared.removeSession id).Sound := h.removeSession
      refine ⟨{ hsound with erased := ?_, killed := ?_ },
        { same with erased := ?_, newlyErased := ?_ },
        fun _ => ⟨hok, Finset.mem_insert_self _ _⟩⟩
      · intro id' he rows hrows
        rcases Finset.mem_insert.mp he with rfl | he
        · obtain ⟨rows₀, -, rfl⟩ := Option.map_eq_some_iff.mp hrows
          exact Table.lookup_erase_self _ _
        · exact hsound.erased id' he rows hrows
      · exact fun id' hk => ⟨(h.killed id' hk).1, Finset.mem_insert_of_mem (h.killed id' hk).2⟩
      · exact fun id' he => Finset.mem_insert_of_mem he
      · intro id' he
        rcases Finset.mem_insert.mp he with rfl | he
        · exact .inr hlacks
        · exact .inl he
    · obtain ⟨rfl, rfl⟩ := Prod.mk.inj (Option.some.inj hs)
      exact ⟨h, same, fun hf => by cases hf⟩
  | publishing ok =>
    obtain ⟨rfl, rfl⟩ := Prod.mk.inj (Option.some.inj hs)
    refine ⟨{ h with killed := ?_ }, { same with killed := ?_ }, ?_⟩
    · intro id' hk
      split at hk
      · rename_i hgood
        rcases Finset.mem_insert.mp hk with rfl | hk
        · exact hok hgood
        · exact h.killed id' hk
      · exact h.killed id' hk
    · intro id' hk
      split
      · exact Finset.mem_insert_of_mem hk
      · exact hk
    · intro hgood
      rw [if_pos hgood]
      exact Finset.mem_insert_self _ _
  | returned ok => cases hs

theorem evict_step {pc pc' : EvictPc} (h : p.shared.Sound)
    (hok : p.shared.EvictOk i id pc) (hs : evictStep c i id pc p.shared = some (s', pc')) :
    s'.Sound ∧ Rely p i s' ∧ s'.EvictOk i id pc' := by
  have same : Rely p i p.shared := .of_same rfl rfl rfl rfl rfl rfl rfl
  cases pc with
  | observing =>
    simp only [evictStep] at hs
    split at hs
    · rename_i session hnone ho
      split at hs
      · obtain ⟨rfl, rfl⟩ := Prod.mk.inj (Option.some.inj hs)
        refine ⟨{ h with }, { same with observer := ?_ }, Table.lookup_insert_self _ _ _⟩
        intro id' j hj
        change (p.shared.observer.insert id i).lookup id' = _
        rw [Table.lookup_insert]
        split
        · rename_i hid
          rw [hid, hnone] at hj
          cases hj
        · exact hj
      · cases hs
    · cases hs
  | looking =>
    obtain ⟨rfl, rfl⟩ := Prod.mk.inj (Option.some.inj hs)
    refine ⟨h, same, ?_⟩
    split
    · rename_i hsome
      obtain ⟨o, ho⟩ := Option.isSome_iff_exists.mp hsome
      exact ⟨hok, .inl (get_eq_some.mp ho).1⟩
    · trivial
  | checking =>
    obtain ⟨o, ho, hr⟩ := Option.map_eq_some_iff.mp hs
    obtain ⟨rfl, rfl⟩ := Prod.mk.inj hr
    refine ⟨h, same, ?_⟩
    split
    · trivial
    · rename_i hk
      refine ⟨hok.1, fun hg => ?_⟩
      rcases hok.2 with hlive | ⟨o', ho', hk'⟩
      · exact (h.gone id hg).1 hlive
      · obtain rfl := Option.some.inj (ho.symm.trans ho')
        exact hk hk'
  | capturing =>
    obtain ⟨o, ho, hr⟩ := Option.map_eq_some_iff.mp hs
    obtain ⟨rfl, rfl⟩ := Prod.mk.inj hr
    exact ⟨h, same, hok.1, hok.2, h.ids id o ho⟩
  | naming stored =>
    obtain ⟨rfl, rfl⟩ := Prod.mk.inj (Option.some.inj hs)
    exact ⟨{ h with }, { same with }, hok⟩
  | restoring stored =>
    obtain ⟨rfl, rfl⟩ := Prod.mk.inj (Option.some.inj hs)
    refine ⟨{ h with keyed := ?_, gone := ?_ }, { same with }, hok.1⟩
    · intro id' stored' hl
      rw [Table.lookup_insert] at hl
      split at hl
      · rename_i hid
        rw [← Option.some.inj hl, hid]
      · exact h.keyed id' stored' hl
    · intro id' hg
      refine ⟨(h.gone id' hg).1, ?_⟩
      rw [Table.lookup_insert, if_neg]
      · exact (h.gone id' hg).2
      · rintro rfl
        rw [hok.2.2] at hg
        exact hok.2.1 hg
  | capping stored =>
    simp only [evictStep] at hs
    split at hs
    · split at hs
      · split at hs
        · obtain ⟨rfl, rfl⟩ := Prod.mk.inj (Option.some.inj hs)
          exact ⟨h, same, hok⟩
        · cases hs
      · cases hs
    · obtain ⟨rfl, rfl⟩ := Prod.mk.inj (Option.some.inj hs)
      exact ⟨h, same, hok⟩
  | cappingMap stored oldest =>
    obtain ⟨rfl, rfl⟩ := Prod.mk.inj (Option.some.inj hs)
    exact ⟨h.eraseRestored, { same with }, hok⟩
  | cappingName stored oldest removed =>
    simp only [evictStep] at hs
    split at hs
    · split at hs
      · obtain ⟨rfl, rfl⟩ := Prod.mk.inj (Option.some.inj hs)
        exact ⟨h, same, hok⟩
      · obtain ⟨rfl, rfl⟩ := Prod.mk.inj (Option.some.inj hs)
        exact ⟨{ h with }, { same with }, hok⟩
    · obtain ⟨rfl, rfl⟩ := Prod.mk.inj (Option.some.inj hs)
      exact ⟨h, same, hok⟩
  | cappingRow stored oldest =>
    obtain ⟨rfl, rfl⟩ := Prod.mk.inj (Option.some.inj hs)
    split
    · exact ⟨h.removeSession, { same with }, hok⟩
    · exact ⟨h, same, hok⟩
  | unregistering stored =>
    obtain ⟨rfl, rfl⟩ := Prod.mk.inj (Option.some.inj hs)
    refine ⟨h.eraseSession, { same with unlisted := ?_, leaving := ?_ }, trivial⟩
    · exact fun id' _ hn hs => hn (Finset.mem_of_mem_erase hs)
    · intro id' hs
      by_cases hid : id' = id
      · exact .inr (.inr (hid ▸ hok))
      · exact .inl (Finset.mem_erase.mpr ⟨hid, hs⟩)
  | rechecking stored =>
    obtain ⟨rfl, rfl⟩ := Prod.mk.inj (Option.some.inj hs)
    refine ⟨h, same, ?_⟩
    split <;> trivial
  | releasing stored =>
    obtain ⟨rfl, rfl⟩ := Prod.mk.inj (Option.some.inj hs)
    exact ⟨{ h with }, { same with }, trivial⟩
  | publishing =>
    obtain ⟨rfl, rfl⟩ := Prod.mk.inj (Option.some.inj hs)
    exact ⟨{ h with }, { same with }, trivial⟩
  | returned => cases hs

theorem persist_step {final : Bool} {pc pc' : PersistPc} (h : p.shared.Sound)
    (ht : p.task i = some (.persist id final pc)) (hok : p.shared.PersistOk id pc)
    (hc : undisturbed p (.advance i c) = true)
    (hs : persistStep c id final pc p.shared = some (s', pc')) :
    s'.Sound ∧ Rely p i s' ∧ s'.PersistOk id pc' := by
  have same : Rely p i p.shared := .of_same rfl rfl rfl rfl rfl rfl rfl
  cases pc with
  | starting =>
    obtain ⟨o, ho, hr⟩ := Option.map_eq_some_iff.mp hs
    obtain ⟨rfl, rfl⟩ := Prod.mk.inj hr
    refine ⟨h.update fun _ => rfl, .of_update fun _ hk => hk, ?_⟩
    split <;> trivial
  | checking =>
    obtain ⟨o, ho, hr⟩ := Option.map_eq_some_iff.mp hs
    obtain ⟨rfl, rfl⟩ := Prod.mk.inj hr
    refine ⟨h, same, ?_⟩
    split
    · trivial
    · rename_i hk
      rw [Bool.or_eq_true, not_or] at hk
      simp only [undisturbed, ht, ho, Option.all_some, Bool.or_eq_true, decide_eq_true_eq] at hc
      exact hc.resolve_right hk.1
  | capturing =>
    obtain ⟨o, ho, hr⟩ := Option.map_eq_some_iff.mp hs
    obtain ⟨rfl, rfl⟩ := Prod.mk.inj hr
    exact ⟨h, same, hok, h.ids id o ho⟩
  | saving stored =>
    simp only [persistStep] at hs
    split at hs
    · obtain ⟨rfl, rfl⟩ := Prod.mk.inj (Option.some.inj hs)
      refine ⟨{ h with rowKeyed := ?_, erased := ?_ }, { same with }, trivial⟩
      · intro rows hrows id' stored' hl
        obtain ⟨rows₀, hrows₀, rfl⟩ := Option.map_eq_some_iff.mp hrows
        rw [Table.lookup_insert] at hl
        split at hl
        · rename_i hid
          rw [← Option.some.inj hl, hid]
        · exact h.rowKeyed rows₀ hrows₀ id' stored' hl
      · intro id' he rows hrows
        obtain ⟨rows₀, hrows₀, rfl⟩ := Option.map_eq_some_iff.mp hrows
        rw [Table.lookup_insert, if_neg]
        · exact h.erased id' he rows₀ hrows₀
        · rintro rfl
          rw [hok.2] at he
          exact hok.1 he
    · obtain ⟨rfl, rfl⟩ := Prod.mk.inj (Option.some.inj hs)
      exact ⟨h, same, trivial⟩
  | failed =>
    obtain ⟨rfl, rfl⟩ := Prod.mk.inj (Option.some.inj hs)
    exact ⟨h.update fun _ => rfl, .of_update fun _ hk => hk, trivial⟩
  | returned => cases hs

theorem event_step {e : SessionEvent} {keep : Bool} (h : p.shared.Sound)
    (hs : sessionEvent e p.shared = some (s', keep)) :
    s'.Sound ∧ (keep = true → Rely p i s') := by
  have same : Rely p i p.shared := .of_same rfl rfl rfl rfl rfl rfl rfl
  cases e with
  | create id name now =>
    simp only [sessionEvent] at hs
    split at hs
    · rename_i hfresh
      obtain ⟨rfl, -⟩ := Prod.mk.inj (Option.some.inj hs)
      simp only [Bool.and_eq_true, Option.isNone_iff_eq_none, decide_eq_true_eq] at hfresh
      obtain ⟨⟨⟨⟨hobject, hrestored⟩, hrow⟩, hmentioned⟩, -⟩ := hfresh
      refine ⟨{ h with ids := ?_, live := ?_, gone := ?_ }, fun _ =>
        { same with objects := ?_, unlisted := ?_, leaving := ?_ }⟩
      · intro id' o ho
        change (p.shared.objects.insert id _).lookup id' = some o at ho
        rw [Table.lookup_insert] at ho
        split at ho
        · rename_i hid
          rw [← Option.some.inj ho, hid]
          rfl
        · exact h.ids id' o ho
      · intro id' hl
        change ∃ o, (p.shared.objects.insert id _).lookup id' = some o
        rw [Table.lookup_insert]
        split
        · exact ⟨_, rfl⟩
        · rename_i hid
          exact h.live id' ((Finset.mem_insert.mp hl).resolve_left hid)
      · intro id' hg
        refine ⟨fun hl => ?_, (h.gone id' hg).2⟩
        rcases Finset.mem_insert.mp hl with rfl | hl
        · exact hmentioned (h.mentioned _ hg)
        · exact (h.gone id' hg).1 hl
      · intro id' o ho
        change ∃ o', (p.shared.objects.insert id _).lookup id' = some o' ∧ _
        rw [Table.lookup_insert]
        split
        · rename_i hid
          rw [hid, hobject] at ho
          cases ho
        · exact ⟨o, ho, fun hk => hk⟩
      · intro id' hm hn hl
        rcases Finset.mem_insert.mp hl with rfl | hl
        · exact hmentioned hm
        · exact hn hl
      · exact fun id' hl => .inl (Finset.mem_insert_of_mem hl)
    · cases hs
  | record id bytes =>
    obtain ⟨rfl, -⟩ := Prod.mk.inj (Option.some.inj hs)
    exact ⟨h.update fun _ => rfl, fun _ => .of_update fun _ hk => hk⟩
  | markDirty id =>
    obtain ⟨rfl, -⟩ := Prod.mk.inj (Option.some.inj hs)
    exact ⟨h.update fun _ => rfl, fun _ => .of_update fun _ hk => hk⟩
  | markExited id exitCode =>
    obtain ⟨rfl, -⟩ := Prod.mk.inj (Option.some.inj hs)
    exact ⟨h.update fun _ => rfl, fun _ => .of_update fun _ hk => hk⟩
  | restart kept =>
    obtain ⟨rows, hrows, hr⟩ := Option.map_eq_some_iff.mp hs
    obtain ⟨rfl, rfl⟩ := Prod.mk.inj hr
    have keyed (id : SessionId) (stored : StoredSession)
        (hl : (rows.retain fun id _ => id ∈ kept).lookup id = some stored) :
        stored.summary.id = id :=
      h.rowKeyed rows hrows id stored (Table.lookup_retain.mp hl).1
    have gone (id : SessionId) (hk : id ∈ p.shared.killed) :
        (rows.retain fun id _ => id ∈ kept).lookup id = none := by
      cases hl : (rows.retain fun id _ => id ∈ kept).lookup id with
      | none => rfl
      | some stored =>
        have hrow := (Table.lookup_retain.mp hl).1
        rw [h.erased id (h.killed id hk).2 rows hrows] at hrow
        cases hrow
    refine ⟨⟨keyed, ?_, ?_, ?_, ?_, ?_, ?_, fun id hk => ⟨hk, hk⟩⟩, fun hf => by cases hf⟩
    · intro rows' hrows' id stored hl
      obtain rfl := Option.some.inj hrows'
      exact keyed id stored hl
    · intro id o ho
      rw [Table.lookup_empty] at ho
      cases ho
    · exact fun id hl => absurd hl (Finset.notMem_empty id)
    · exact fun id hk => h.mentioned id (h.killed id hk).1
    · exact fun id hk => ⟨Finset.notMem_empty id, gone id hk⟩
    · intro id hk rows' hrows'
      obtain rfl := Option.some.inj hrows'
      exact gone id hk

theorem sound_of_opened {s : AppState} (h : Opened s) : s.Sound := by
  refine ⟨h.keyed, h.rowKeyed, ?_, ?_, ?_, ?_, ?_, ?_⟩
  · intro id o ho
    rw [h.objects, Table.lookup_empty] at ho
    cases ho
  · intro id hl
    rw [h.sessions] at hl
    exact absurd hl (Finset.notMem_empty id)
  · intro id hg
    rw [h.gone] at hg
    exact absurd hg (Finset.notMem_empty id)
  · intro id hg
    rw [h.gone] at hg
    exact absurd hg (Finset.notMem_empty id)
  · intro id he
    rw [h.erased] at he
    exact absurd he (Finset.notMem_empty id)
  · intro id hk
    rw [h.killed] at hk
    exact absurd hk (Finset.notMem_empty id)

/-- One step of any task. -/
theorem advance_step {x x' : SessionTask} (h : p.shared.Sound) (ht : p.task i = some x)
    (hok : p.shared.TaskOk i x) (hc : undisturbed p (.advance i c) = true)
    (hs : sessionAdvance c i x p.shared = some (s', x')) :
    s'.Sound ∧ Rely p i s' ∧ s'.TaskOk i x' := by
  cases x with
  | kill id pc =>
    obtain ⟨⟨t, pc'⟩, hstep, hr⟩ := Option.map_eq_some_iff.mp hs
    obtain ⟨rfl, rfl⟩ := Prod.mk.inj hr
    exact kill_step h ht hok hc hstep
  | evict id pc =>
    obtain ⟨⟨t, pc'⟩, hstep, hr⟩ := Option.map_eq_some_iff.mp hs
    obtain ⟨rfl, rfl⟩ := Prod.mk.inj hr
    exact evict_step h hok hstep
  | persist id final pc =>
    obtain ⟨⟨t, pc'⟩, hstep, hr⟩ := Option.map_eq_some_iff.mp hs
    obtain ⟨rfl, rfl⟩ := Prod.mk.inj hr
    exact persist_step h ht hok hc hstep

theorem noninterference :
    sessionTasking.Noninterference (fun p a => undisturbed p a = true) Sound TaskOk where
  init _ hs := sound_of_opened hs
  fresh p i x _ _ hx := by
    cases x with
    | kill id pc => cases pc <;> trivial
    | evict id pc => cases pc <;> trivial
    | persist id final pc => cases pc <;> trivial
  own p i c x s' x' hc h ht hok hs :=
    have hstep := advance_step h ht hok hc hs
    ⟨hstep.1, hstep.2.2⟩
  others p i c x s' x' hc h ht hok hs _ _ hne hy hok' :=
    (advance_step h ht hok hc hs).2.1.taskOk hne hy hok'
  environment p e s' keep _ h hs :=
    ⟨(event_step (i := 0) h hs).1, fun hk j _ hy hok =>
      ((event_step (i := j + 1) h hs).2 hk).taskOk (Nat.ne_of_lt (Nat.lt_succ_self j)) hy hok⟩

/-- The session is nowhere: not live, not restored, not listed and not on disk. -/
def Absent (s : AppState) (id : SessionId) : Prop :=
  id ∉ s.sessions ∧ s.restored.lookup id = none ∧ (∀ x ∈ s.summaries, x.id ≠ id) ∧
    ∀ rows, s.persisted = some rows → rows.lookup id = none

theorem Sound.absent {s : AppState} (h : s.Sound) (hk : id ∈ s.killed) : s.Absent id := by
  obtain ⟨hg, he⟩ := h.killed id hk
  obtain ⟨hsessions, hrestored⟩ := h.gone id hg
  refine ⟨hsessions, hrestored, fun x hx hid => ?_, h.erased id he⟩
  rcases List.mem_append.mp hx with hx | hx
  · obtain ⟨⟨id', o⟩, hm, rfl⟩ := List.mem_map.mp hx
    obtain ⟨hm, hlive⟩ := List.mem_filter.mp hm
    have hkey : id' = id := (h.ids id' o (Table.mem_entries.mp hm)).symm.trans hid
    exact hsessions (hkey ▸ of_decide_eq_true hlive)
  · obtain ⟨⟨id', stored⟩, hm, rfl⟩ := List.mem_map.mp hx
    have hl := Table.mem_entries.mp (List.mem_filter.mp hm).1
    have hkey : id' = id := (h.keyed id' stored hl).symm.trans hid
    rw [hkey, hrestored] at hl
    cases hl

/-- A kill that was acknowledged stays on record. -/
theorem killed_step {p q : Pool AppState SessionTask}
    {a : Move SessionTask SessionChoice SessionEvent}
    (h : Tasking.Safe Sound TaskOk p) (hc : undisturbed p a = true)
    (hs : sessionTasking.machine.step a p = some q) (hk : id ∈ p.shared.killed) :
    id ∈ q.shared.killed := by
  cases Tasking.stepped_of_step hs with
  | spawn | drop => exact hk
  | advance i c x x' s' ht hr => exact (advance_step h.1 ht (h.2 i x ht) hc hr).2.1.killed id hk
  | keep e s' hr => exact ((event_step (i := 0) h.1 hr).2 rfl).killed id hk
  | clear e s' hr =>
    cases e with
    | restart kept =>
      obtain ⟨rows, hrows, hr⟩ := Option.map_eq_some_iff.mp hr
      obtain ⟨rfl, -⟩ := Prod.mk.inj hr
      exact hk
    | create id name now =>
      simp only [sessionTasking, sessionEvent, Option.ite_none_right_eq_some] at hr
      cases (Prod.mk.inj (Option.some.inj hr.2)).2
    | record | markDirty | markExited => cases (Prod.mk.inj (Option.some.inj hr)).2

end AppState

open AppState

/-- Once a kill has returned without an error, its session is absent in every later
state. -/
theorem killed_session_stays_killed {p q : Pool AppState SessionTask} {i : Nat}
    {id : SessionId}
    (h : sessionTasking.machine.ReachableWhen (fun p a => undisturbed p a = true) p)
    (hreturned : p.task i = some (.kill id (.returned true)))
    (hrun : sessionTasking.machine.Run (fun p a => undisturbed p a = true) p q) :
    q.shared.Absent id := by
  have hp := noninterference.invariant h
  have hk : id ∈ p.shared.killed := hp.2 i _ hreturned rfl
  have hq : Tasking.Safe Sound TaskOk q ∧ id ∈ q.shared.killed :=
    hrun.invariant (I := fun q => Tasking.Safe Sound TaskOk q ∧ id ∈ q.shared.killed)
      (fun t a u ht hc hs => ⟨noninterference.step ht.1 hc hs, killed_step ht.1 hc hs ht.2⟩)
      ⟨hp, hk⟩
  exact hq.1.1.absent hq.2

/-- The store answers every call. -/
private def stored : SessionChoice := ⟨true, 0⟩

/-- A session is created and killed; afterwards its observer and its last persisting
find the flag. -/
theorem killed_session_stays_killed_run :
    ∃ q : Pool AppState SessionTask, q.task 1 = some (.evict 1 .returned) ∧
      q.task 2 = some (.persist 1 true .returned) ∧ q.shared.Absent 1 := by
  obtain ⟨p, q, hr, hreturned, hrun, hevict, hpersist⟩ :=
    sessionTasking.machine.exists_run_of_exec (fun p a => undisturbed p a = true)
      (fun p => p.task 0 = some (.kill 1 (.returned true)))
      (fun q => q.task 1 = some (.evict 1 .returned) ∧ q.task 2 = some (.persist 1 true .returned))
      (List.flatten [[.environment (.create 1 "shell" 0), .environment (.markExited 1 0),
        .spawn 1 (.evict 1 .observing), .advance 1 stored, .advance 1 stored,
        .spawn 0 (.kill 1 .looking)], Move.repeated 8 0 stored])
      (List.flatten [[.spawn 2 (.persist 1 true .starting)], Move.repeated 2 1 stored,
        Move.repeated 2 2 stored])
      (Tasking.init_empty AppState.opened_new) (by decide)
  exact ⟨q, hevict, hpersist, killed_session_stays_killed hr hreturned hrun⟩

/-- An eviction that has checked the flag restores the session after the kill. -/
theorem killed_session_restored :
    ¬ ∀ p q : Pool AppState SessionTask, ∀ i id, sessionTasking.machine.Reachable p →
      p.task i = some (.kill id (.returned true)) →
      sessionTasking.machine.Run Machine.Any p q → q.shared.Absent id := by
  intro hall
  obtain ⟨p, q, hr, hreturned, hrun, hrestored⟩ :=
    sessionTasking.machine.exists_run_of_exec Machine.Any
      (fun p => p.task 0 = some (.kill 1 (.returned true)))
      (fun q => (q.shared.restored.lookup 1).isSome = true)
      (List.flatten [[.environment (.create 1 "shell" 0), .environment (.markExited 1 0),
        .spawn 1 (.evict 1 .observing)], Move.repeated 5 1 stored,
        [.spawn 0 (.kill 1 .looking)], Move.repeated 8 0 stored])
      [.advance 1 stored]
      (Tasking.init_empty AppState.opened_new) (by decide)
  obtain ⟨-, habsent, -⟩ := hall p q 0 1 hr hreturned hrun
  rw [habsent] at hrestored
  cases hrestored

end Shelly.Daemon
