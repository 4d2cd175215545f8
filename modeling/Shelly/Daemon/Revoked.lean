import Shelly.Daemon.Devices

namespace Shelly.Daemon

theorem DeviceUpdate.apply_id {d d' : StoredDevice} {u : DeviceUpdate}
    (h : u.apply d = some d') : d'.deviceNodeId = d.deviceNodeId := by
  cases u with
  | markSeen now => exact Option.some.inj h ▸ rfl
  | setPush platform token now => exact Option.some.inj h ▸ rfl
  | clearPush platform token now =>
    obtain ⟨-, h⟩ := Option.ite_none_right_eq_some.mp h
    exact Option.some.inj h ▸ rfl

section Load

private theorem foldl_insert_lookup (ds : List StoredDevice) (t : Table String StoredDevice)
    (id : String) (d : StoredDevice)
    (h : (ds.foldl (fun t d => t.insert d.deviceNodeId d) t).lookup id = some d) :
    (d ∈ ds ∧ d.deviceNodeId = id) ∨ t.lookup id = some d := by
  induction ds generalizing t with
  | nil => exact .inr h
  | cons e ds ih =>
    rcases ih _ h with ⟨hd, hid⟩ | ht
    · exact .inl ⟨List.mem_cons_of_mem e hd, hid⟩
    · rw [Table.lookup_insert] at ht
      split at ht
      · rename_i hid
        obtain rfl := Option.some.inj ht
        exact .inl ⟨List.mem_cons_self, hid.symm⟩
      · exact .inr ht

private theorem foldl_insert_isSome (ds : List StoredDevice) (t : Table String StoredDevice)
    (id : String) (h : (t.lookup id).isSome = true ∨ ∃ d ∈ ds, d.deviceNodeId = id) :
    ((ds.foldl (fun t d => t.insert d.deviceNodeId d) t).lookup id).isSome = true := by
  induction ds generalizing t with
  | nil =>
    rcases h with h | ⟨d, hd, -⟩
    · exact h
    · cases hd
  | cons e ds ih =>
    apply ih
    rw [Table.lookup_insert]
    by_cases hid : id = e.deviceNodeId
    · exact .inl (by rw [if_pos hid]; rfl)
    · rw [if_neg hid]
      refine h.imp (fun h => h) fun ⟨d, hd, hd'⟩ => ⟨d, ?_, hd'⟩
      rcases List.mem_cons.mp hd with rfl | hd
      · exact absurd hd'.symm hid
      · exact hd

theorem loadDevices_lookup {ds : List StoredDevice} {id : String} {d : StoredDevice}
    (h : (loadDevices ds).lookup id = some d) : d ∈ ds ∧ d.deviceNodeId = id := by
  rcases foldl_insert_lookup _ _ id d h with ⟨hd, hid⟩ | hempty
  · exact ⟨List.mem_mergeSort.mp hd, hid⟩
  · cases (Table.lookup_empty id).symm.trans hempty

theorem loadDevices_isSome {ds : List StoredDevice} {d : StoredDevice} (h : d ∈ ds) :
    ((loadDevices ds).lookup d.deviceNodeId).isSome = true :=
  foldl_insert_isSome _ _ _ (.inr ⟨d, List.mem_mergeSort.mpr h, rfl⟩)

end Load

namespace DeviceTask

/-- A removal that has deleted the row and not yet the entry in memory. -/
def unmapping (id : String) : DeviceTask → Bool
  | .remove (.unmapping id') => id' == id
  | _ => false

/-- A pairing that was approved and has not yet reached memory. -/
def pairing (id : String) : DeviceTask → Bool
  | .pair d .saving => d.deviceNodeId == id
  | .pair d .inserting => d.deviceNodeId == id
  | _ => false

end DeviceTask

/-- The daemon has a store and writing to it succeeds. -/
def DeviceState.stores (s : DeviceState) (c : DeviceChoice) : Bool := s.persisted.isSome && c.ok

/-- What brings a removed device back: an update or a pairing that stores its row
after a removal has deleted it and before that removal takes the entry out of memory,
and a removal that takes effect while an approved pairing is under way. -/
def unrevived (p : Pool DeviceState DeviceTask) :
    Move DeviceTask DeviceChoice DeviceEvent → Bool
  | .advance i c =>
    match p.task i with
    | some (.update id change none) =>
      !(((p.shared.devices.lookup id).bind change.apply).isSome && p.shared.stores c) ||
        decide (p.Lacks fun _ x => x.unmapping id)
    | some (.pair d .saving) =>
      !p.shared.stores c || decide (p.Lacks fun _ x => x.unmapping d.deviceNodeId)
    | some (.remove (.checking id)) =>
      p.shared.devices.contains id || decide (p.Lacks fun _ x => x.pairing id)
    | some (.remove (.unmapping id)) => decide (p.Lacks fun _ x => x.pairing id)
    | _ => true
  | _ => true

section Rows

variable (storageKey : String → String)

namespace DeviceState

variable {s s' : DeviceState} {id x : String} {d : StoredDevice}

/-- Some row, under whatever key, holds the device. A restart would read it. -/
def HasRow (s : DeviceState) (id : String) : Prop :=
  ∃ rows, s.persisted = some rows ∧ ∃ key d, rows.lookup key = some d ∧ d.deviceNodeId = id

/-- Every row is stored under its device's digest, or as older versions did. -/
def Located (s : DeviceState) : Prop :=
  ∀ rows, s.persisted = some rows → ∀ key d, rows.lookup key = some d →
    key = storageKey d.deviceNodeId ∨ key = d.deviceNodeId

theorem hasRow_of_saveDevice (h : (s.saveDevice storageKey d).HasRow x) :
    x = d.deviceNodeId ∨ s.HasRow x := by
  obtain ⟨rows, hrows, key, e, hl, he⟩ := h
  obtain ⟨rows₀, hrows₀, rfl⟩ := Option.map_eq_some_iff.mp hrows
  rw [Table.lookup_insert, Table.lookup_erase] at hl
  split at hl
  · obtain rfl := Option.some.inj hl
    exact .inl he.symm
  · split at hl
    · cases hl
    · exact .inr ⟨rows₀, hrows₀, key, e, hl, he⟩

theorem Located.saveDevice (h : s.Located storageKey) :
    (s.saveDevice storageKey d).Located storageKey := by
  intro rows hrows key e hl
  obtain ⟨rows₀, hrows₀, rfl⟩ := Option.map_eq_some_iff.mp hrows
  rw [Table.lookup_insert, Table.lookup_erase] at hl
  split at hl
  · rename_i hkey
    obtain rfl := Option.some.inj hl
    exact .inl hkey
  · split at hl
    · cases hl
    · exact h rows₀ hrows₀ key e hl

/-- What a deletion leaves was there before, under another key. -/
private theorem lookup_of_removeDevice {rows : Table String StoredDevice}
    (h : (s.removeDevice storageKey id).persisted = some rows) :
    ∃ rows₀, s.persisted = some rows₀ ∧ ∀ key e, rows.lookup key = some e →
      rows₀.lookup key = some e ∧ key ≠ storageKey id ∧ key ≠ id := by
  obtain ⟨rows₀, hrows₀, rfl⟩ := Option.map_eq_some_iff.mp h
  refine ⟨rows₀, hrows₀, fun key e hl => ?_⟩
  rw [Table.lookup_erase, Table.lookup_erase] at hl
  split at hl
  · cases hl
  · rename_i hid
    split at hl
    · cases hl
    · rename_i hkey
      exact ⟨hl, hkey, hid⟩

theorem hasRow_of_removeDevice (h : (s.removeDevice storageKey id).HasRow x) : s.HasRow x := by
  obtain ⟨rows, hrows, key, e, hl, he⟩ := h
  obtain ⟨rows₀, hrows₀, hrow⟩ := lookup_of_removeDevice storageKey hrows
  exact ⟨rows₀, hrows₀, key, e, (hrow key e hl).1, he⟩

theorem not_hasRow_removeDevice (h : s.Located storageKey) :
    ¬ (s.removeDevice storageKey id).HasRow id := by
  intro ⟨rows, hrows, key, e, hl, he⟩
  obtain ⟨rows₀, hrows₀, hrow⟩ := lookup_of_removeDevice storageKey hrows
  obtain ⟨hl₀, hkey, hid⟩ := hrow key e hl
  rcases h rows₀ hrows₀ key e hl₀ with hk | hk
  · exact hkey (by rw [hk, he])
  · exact hid (hk.trans he)

theorem Located.removeDevice (h : s.Located storageKey) :
    (s.removeDevice storageKey id).Located storageKey := by
  intro rows hrows key e hl
  obtain ⟨rows₀, hrows₀, hrow⟩ := lookup_of_removeDevice storageKey hrows
  exact h rows₀ hrows₀ key e (hrow key e hl).1

/-- What holds of the devices between any two steps. -/
structure Sound (s : DeviceState) : Prop where
  located : s.Located storageKey
  keyed : ∀ id d, s.devices.lookup id = some d → d.deviceNodeId = id
  removed : ∀ id ∈ s.removed, ¬ s.HasRow id ∧ s.devices.lookup id = none

/-- A removal has taken effect at least once. -/
def Settled (s : DeviceState) (id : String) : Prop := id ∈ s.removed ∨ id ∈ s.approved

def TaskOk (s : DeviceState) (_ : Nat) : DeviceTask → Prop
  | .remove (.unmapping id) => ¬ s.HasRow id
  | .remove (.revoking id _) => s.Settled id
  | .remove (.returned (some id) true) => s.Settled id
  | .pair d .saving => d.deviceNodeId ∉ s.removed
  | .pair d .inserting => d.deviceNodeId ∉ s.removed
  | _ => True

/-- A row is held by memory or by a pairing that is about to put it there. -/
def Held (p : Pool DeviceState DeviceTask) : Prop :=
  ∀ id, p.shared.HasRow id → (∃ d, p.shared.devices.lookup id = some d) ∨
    ∃ i d, p.task i = some (.pair d .inserting) ∧ d.deviceNodeId = id

/-- What the other tasks may rely on when a step leads to `s'`. -/
structure Rely (p : Pool DeviceState DeviceTask) (s' : DeviceState) : Prop where
  settled : ∀ id, p.shared.Settled id → s'.Settled id
  newlyRemoved : ∀ id ∈ s'.removed, id ∈ p.shared.removed ∨ p.Lacks fun _ x => x.pairing id
  newRow : ∀ id, s'.HasRow id → p.shared.HasRow id ∨ p.Lacks fun _ x => x.unmapping id

variable {p : Pool DeviceState DeviceTask} {i j : Nat} {y : DeviceTask}

theorem Rely.of_same (hremoved : s'.removed = p.shared.removed)
    (happroved : s'.approved = p.shared.approved)
    (hrow : ∀ id, s'.HasRow id → p.shared.HasRow id) : Rely p s' := by
  refine ⟨fun id h => ?_, fun id h => .inl (hremoved ▸ h), fun id h => .inl (hrow id h)⟩
  unfold Settled
  rw [hremoved, happroved]
  exact h

theorem Rely.not_removed (r : Rely p s') (hy : p.task j = some y) (hp : y.pairing id = true)
    (h : id ∉ p.shared.removed) : id ∉ s'.removed := by
  intro hr
  rcases r.newlyRemoved id hr with hr | hl
  · exact h hr
  · exact absurd hp (Bool.eq_false_iff.mp (hl j y hy))

theorem Rely.taskOk (r : Rely p s') (hy : p.task j = some y) (h : p.shared.TaskOk j y) :
    s'.TaskOk j y := by
  match y with
  | .remove (.unmapping id) =>
    intro hrow
    rcases r.newRow id hrow with hrow | hl
    · exact h hrow
    · exact absurd (beq_self_eq_true id) (Bool.eq_false_iff.mp (hl j _ hy))
  | .remove (.revoking id _) => exact r.settled id h
  | .remove (.returned (some id) true) => exact r.settled id h
  | .pair d .saving => exact r.not_removed hy (beq_self_eq_true _) h
  | .pair d .inserting => exact r.not_removed hy (beq_self_eq_true _) h
  | .remove (.finding _) | .remove (.checking _) | .remove (.erasingRow _)
  | .remove (.returned none _) | .remove (.returned (some _) false)
  | .update _ _ _ | .pair _ .waiting | .pair _ .watching | .pair _ (.returned _) => trivial

/-- A device that is being removed and that no row holds is gone for good. -/
theorem Sound.remove (h : s.Sound storageKey) (hrow : ¬ s.HasRow id)
    {devices : Table String StoredDevice}
    (hdevices : devices.lookup id = none)
    (hsub : ∀ x d, devices.lookup x = some d → s.devices.lookup x = some d) :
    Sound storageKey { s with
      devices
      removed := insert id s.removed
      approved := s.approved.erase id } := by
  refine ⟨h.located, fun x d hl => h.keyed x d (hsub x d hl), fun x hx => ?_⟩
  rcases Finset.mem_insert.mp hx with rfl | hx
  · exact ⟨hrow, hdevices⟩
  · refine ⟨(h.removed x hx).1, ?_⟩
    cases hl : devices.lookup x with
    | none => rfl
    | some d => cases (h.removed x hx).2.symm.trans (hsub x d hl)

theorem Rely.remove (hl : p.Lacks fun _ x => x.pairing id) (devices : Table String StoredDevice) :
    Rely p { p.shared with
      devices
      removed := insert id p.shared.removed
      approved := p.shared.approved.erase id } := by
  refine ⟨fun x hx => ?_, fun x hx => ?_, fun x hx => .inl hx⟩
  · by_cases hid : x = id
    · exact .inl (hid ▸ Finset.mem_insert_self _ _)
    · exact hx.imp Finset.mem_insert_of_mem fun ha => Finset.mem_erase.mpr ⟨hid, ha⟩
  · rcases Finset.mem_insert.mp hx with rfl | hx
    · exact .inr hl
    · exact .inl hx

theorem remove_step {c : DeviceChoice} {pc pc' : RemovePc} (h : p.shared.Sound storageKey)
    (held : Held p) (ht : p.task i = some (.remove pc)) (hok : p.shared.TaskOk i (.remove pc))
    (hc : unrevived p (.advance i c) = true)
    (hs : removeStep storageKey c pc p.shared = some (s', pc')) :
    s'.Sound storageKey ∧ Rely p s' ∧ s'.TaskOk i (.remove pc') := by
  have same : Rely p p.shared := .of_same rfl rfl fun _ h => h
  cases pc with
  | finding name =>
    simp only [removeStep] at hs
    repeat' split at hs
    all_goals first
      | (obtain ⟨rfl, rfl⟩ := Prod.mk.inj (Option.some.inj hs); exact ⟨h, same, trivial⟩)
      | cases hs
  | checking id =>
    simp only [removeStep] at hs
    split at hs
    · obtain ⟨rfl, rfl⟩ := Prod.mk.inj (Option.some.inj hs)
      exact ⟨h, same, trivial⟩
    · rename_i hcontains
      obtain ⟨rfl, rfl⟩ := Prod.mk.inj (Option.some.inj hs)
      have hnone := Table.contains_eq_false.mp (Bool.eq_false_iff.mpr hcontains)
      have hlacks : p.Lacks fun _ x => x.pairing id := by
        simp only [unrevived, ht, Bool.or_eq_true, decide_eq_true_eq] at hc
        exact hc.resolve_left hcontains
      have hrow : ¬ p.shared.HasRow id := by
        intro hrow
        rcases held id hrow with ⟨d, hd⟩ | ⟨j, d, hj, hd⟩
        · cases hnone.symm.trans hd
        · exact absurd (beq_iff_eq.mpr hd) (Bool.eq_false_iff.mp (hlacks j _ hj))
      exact ⟨h.remove storageKey hrow hnone fun _ _ hl => hl, .remove hlacks _,
        .inl (Finset.mem_insert_self _ _)⟩
  | erasingRow id =>
    simp only [removeStep] at hs
    split at hs
    · obtain ⟨rfl, rfl⟩ := Prod.mk.inj (Option.some.inj hs)
      refine ⟨⟨h.located.removeDevice storageKey, h.keyed, fun x hx => ?_⟩,
        .of_same rfl rfl fun _ => hasRow_of_removeDevice storageKey,
        not_hasRow_removeDevice storageKey h.located⟩
      exact ⟨fun hrow => (h.removed x hx).1 (hasRow_of_removeDevice storageKey hrow),
        (h.removed x hx).2⟩
    · obtain ⟨rfl, rfl⟩ := Prod.mk.inj (Option.some.inj hs)
      exact ⟨h, same, trivial⟩
  | unmapping id =>
    have hlacks : p.Lacks fun _ x => x.pairing id := by
      simp only [unrevived, ht, decide_eq_true_eq] at hc
      exact hc
    have hsub : ∀ x d, (p.shared.devices.erase id).lookup x = some d →
        p.shared.devices.lookup x = some d := by
      intro x d hl
      rw [Table.lookup_erase] at hl
      split at hl
      · cases hl
      · exact hl
    have hsound := h.remove storageKey hok (Table.lookup_erase_self p.shared.devices id) hsub
    simp only [removeStep] at hs
    split at hs
    · obtain ⟨rfl, rfl⟩ := Prod.mk.inj (Option.some.inj hs)
      exact ⟨hsound, .remove hlacks _, .inl (Finset.mem_insert_self _ _)⟩
    · obtain ⟨rfl, rfl⟩ := Prod.mk.inj (Option.some.inj hs)
      exact ⟨hsound, .remove hlacks _, .inl (Finset.mem_insert_self _ _)⟩
  | revoking id d =>
    obtain ⟨rfl, rfl⟩ := Prod.mk.inj (Option.some.inj hs)
    exact ⟨⟨h.located, h.keyed, h.removed⟩, .of_same rfl rfl fun _ h => h, hok⟩
  | returned id ok => cases hs

/-- Storing the entry of a device that no removal has taken out yet. -/
theorem Sound.store (h : s.Sound storageKey) (hid : d.deviceNodeId ∉ s.removed) :
    (s.saveDevice storageKey d).Sound storageKey := by
  refine ⟨h.located.saveDevice storageKey, h.keyed, fun x hx => ⟨fun hrow => ?_, (h.removed x hx).2⟩⟩
  rcases hasRow_of_saveDevice storageKey hrow with rfl | hrow
  · exact hid hx
  · exact (h.removed x hx).1 hrow

theorem Sound.insert (h : s.Sound storageKey) (hid : d.deviceNodeId ∉ s.removed) :
    Sound storageKey { s with devices := s.devices.insert d.deviceNodeId d } := by
  refine ⟨h.located, fun x e hl => ?_, fun x hx => ⟨(h.removed x hx).1, ?_⟩⟩
  · rw [Table.lookup_insert] at hl
    split at hl
    · rename_i hx
      exact Option.some.inj hl ▸ hx.symm
    · exact h.keyed x e hl
  · rw [Table.lookup_insert, if_neg]
    · exact (h.removed x hx).2
    · intro hxd
      exact hid (hxd ▸ hx)

theorem Rely.store (hl : p.Lacks fun _ x => x.unmapping d.deviceNodeId)
    (hremoved : s.removed = p.shared.removed) (happroved : s.approved = p.shared.approved)
    (hpersisted : s.persisted = p.shared.persisted) : Rely p (s.saveDevice storageKey d) := by
  refine ⟨fun x hx => ?_, fun x hx => .inl (hremoved ▸ hx), fun x hx => ?_⟩
  · unfold Settled DeviceState.saveDevice
    dsimp only
    rw [hremoved, happroved]
    exact hx
  · rcases hasRow_of_saveDevice storageKey hx with rfl | hrow
    · exact .inr hl
    · unfold HasRow at hrow
      rw [hpersisted] at hrow
      exact .inl hrow

/-- Without a store nothing is stored. -/
theorem Rely.store_none (hnone : s.persisted = none) (hremoved : s.removed = p.shared.removed)
    (happroved : s.approved = p.shared.approved) : Rely p (s.saveDevice storageKey d) := by
  refine .of_same hremoved happroved fun x hx => ?_
  obtain ⟨rows, hrows, -⟩ := hx
  obtain ⟨rows₀, hrows₀, -⟩ := Option.map_eq_some_iff.mp hrows
  cases hnone.symm.trans hrows₀

private theorem stores_of_write {c : DeviceChoice} (hp : s.persisted ≠ none)
    (h : (s.persisted.isNone || c.ok) = true) : s.stores c = true := by
  rw [Bool.or_eq_true, Option.isNone_iff_eq_none] at h
  rw [stores, h.resolve_left hp, Bool.and_true, Option.isSome_iff_ne_none]
  exact hp

theorem update_step {c : DeviceChoice} {change : DeviceUpdate} (h : p.shared.Sound storageKey)
    (ht : p.task i = some (.update id change none)) (hc : unrevived p (.advance i c) = true) :
    (updateStep storageKey c id change p.shared).1.Sound storageKey ∧
      Rely p (updateStep storageKey c id change p.shared).1 := by
  have same : Rely p p.shared := .of_same rfl rfl fun _ h => h
  unfold updateStep
  cases hd : p.shared.devices.lookup id with
  | none => exact ⟨h, same⟩
  | some d =>
    cases hd' : change.apply d with
    | none => simp only [hd']; exact ⟨h, same⟩
    | some d' =>
      simp only [hd']
      have hkey : d'.deviceNodeId = id := (DeviceUpdate.apply_id hd').trans (h.keyed id d hd)
      have hnot : d'.deviceNodeId ∉ p.shared.removed := by
        intro hr
        cases ((hkey ▸ (h.removed _ hr).2).symm.trans hd)
      have hsound := h.insert storageKey hnot
      rw [hkey] at hsound
      split
      · rename_i hstore
        refine ⟨hsound.store storageKey hnot, ?_⟩
        by_cases hp : p.shared.persisted = none
        · exact .store_none storageKey hp rfl rfl
        · have hgood : p.shared.stores c = true := stores_of_write hp hstore
          have hlacks : p.Lacks fun _ x => x.unmapping d'.deviceNodeId := by
            simp only [unrevived, ht, hd, Option.bind_some, hd', Option.isSome_some, hgood,
              Bool.and_self, Bool.not_true, Bool.false_or, decide_eq_true_eq] at hc
            rw [hkey]
            exact hc
          exact .store storageKey hlacks rfl rfl rfl
      · exact ⟨hsound, .of_same rfl rfl fun _ h => h⟩

theorem pair_step {c : DeviceChoice} {pc pc' : PairPc} (h : p.shared.Sound storageKey)
    (ht : p.task i = some (.pair d pc)) (hok : p.shared.TaskOk i (.pair d pc))
    (hc : unrevived p (.advance i c) = true)
    (hs : pairStep storageKey c d pc p.shared = some (s', pc')) :
    s'.Sound storageKey ∧ Rely p s' ∧ s'.TaskOk i (.pair d pc') := by
  have same : Rely p p.shared := .of_same rfl rfl fun _ h => h
  cases pc with
  | waiting =>
    simp only [pairStep] at hs
    split at hs
    · obtain ⟨rfl, rfl⟩ := Prod.mk.inj (Option.some.inj hs)
      refine ⟨⟨h.located, h.keyed, fun x hx => h.removed x (Finset.mem_of_mem_erase hx)⟩,
        ⟨fun x hx => ?_, fun x hx => .inl (Finset.mem_of_mem_erase hx), fun x hx => .inl hx⟩,
        Finset.notMem_erase _ _⟩
      by_cases hid : x = d.deviceNodeId
      · exact .inr (hid ▸ Finset.mem_insert_self _ _)
      · exact hx.imp (fun hr => Finset.mem_erase.mpr ⟨hid, hr⟩) Finset.mem_insert_of_mem
    · obtain ⟨rfl, rfl⟩ := Prod.mk.inj (Option.some.inj hs)
      exact ⟨h, same, trivial⟩
  | saving =>
    simp only [pairStep] at hs
    split at hs
    · rename_i hstore
      obtain ⟨rfl, rfl⟩ := Prod.mk.inj (Option.some.inj hs)
      refine ⟨h.store storageKey hok, ?_, hok⟩
      by_cases hp : p.shared.persisted = none
      · exact .store_none storageKey hp rfl rfl
      · have hgood : p.shared.stores c = true := stores_of_write hp hstore
        have hlacks : p.Lacks fun _ x => x.unmapping d.deviceNodeId := by
          simp only [unrevived, ht, hgood, Bool.not_true, Bool.false_or, decide_eq_true_eq] at hc
          exact hc
        exact .store storageKey hlacks rfl rfl rfl
    · obtain ⟨rfl, rfl⟩ := Prod.mk.inj (Option.some.inj hs)
      exact ⟨h, same, trivial⟩
  | inserting =>
    obtain ⟨rfl, rfl⟩ := Prod.mk.inj (Option.some.inj hs)
    exact ⟨h.insert storageKey hok, .of_same rfl rfl fun _ h => h, trivial⟩
  | watching =>
    obtain ⟨rfl, rfl⟩ := Prod.mk.inj (Option.some.inj hs)
    refine ⟨?_, ?_, trivial⟩
    · split
      · exact h
      · exact ⟨h.located, h.keyed, h.removed⟩
    · split
      · exact same
      · exact .of_same rfl rfl fun _ h => h
  | returned ok => cases hs

/-- A step that stores no new row and takes out no entry, by a task that is not about
to reach memory. -/
theorem Held.advance {x x' : DeviceTask} (held : Held p) (ht : p.task i = some x)
    (hx : ∀ d, x ≠ .pair d .inserting) (hrow : ∀ id, s'.HasRow id → p.shared.HasRow id)
    (hdevices : ∀ id d, s'.HasRow id → p.shared.devices.lookup id = some d →
      ∃ d', s'.devices.lookup id = some d') :
    Held ((p.setShared s').setTask i x') := by
  intro id hid
  rcases held id (hrow id hid) with ⟨d, hd⟩ | ⟨j, d, hj, hd⟩
  · exact .inl (hdevices id d hid hd)
  · refine .inr ⟨j, d, ?_, hd⟩
    rw [Pool.setTask_task, if_neg]
    · exact hj
    · rintro rfl
      exact hx d (Option.some.inj (ht.symm.trans hj))

theorem lookup_insert_isSome {t : Table String StoredDevice} {id x : String}
    {d e : StoredDevice} (h : t.lookup x = some e) : ∃ e', (t.insert id d).lookup x = some e' := by
  rw [Table.lookup_insert]
  split
  · exact ⟨d, rfl⟩
  · exact ⟨e, h⟩

theorem held_remove {c : DeviceChoice} {pc pc' : RemovePc} (held : Held p)
    (ht : p.task i = some (.remove pc)) (hok : p.shared.TaskOk i (.remove pc))
    (hs : removeStep storageKey c pc p.shared = some (s', pc')) :
    Held ((p.setShared s').setTask i (.remove pc')) := by
  have stay (hrow : ∀ id, s'.HasRow id → p.shared.HasRow id)
      (hdevices : s'.devices = p.shared.devices) :
      Held ((p.setShared s').setTask i (.remove pc')) :=
    held.advance ht (fun d h => by cases h) hrow fun id d _ hd => ⟨d, by rw [hdevices]; exact hd⟩
  cases pc with
  | finding name =>
    simp only [removeStep] at hs
    repeat' split at hs
    all_goals first
      | (obtain ⟨rfl, rfl⟩ := Prod.mk.inj (Option.some.inj hs); exact stay (fun _ h => h) rfl)
      | cases hs
  | checking id =>
    simp only [removeStep] at hs
    split at hs <;>
      (obtain ⟨rfl, rfl⟩ := Prod.mk.inj (Option.some.inj hs); exact stay (fun _ h => h) rfl)
  | erasingRow id =>
    simp only [removeStep] at hs
    split at hs
    · obtain ⟨rfl, rfl⟩ := Prod.mk.inj (Option.some.inj hs)
      exact stay (fun _ => hasRow_of_removeDevice storageKey) rfl
    · obtain ⟨rfl, rfl⟩ := Prod.mk.inj (Option.some.inj hs)
      exact stay (fun _ h => h) rfl
  | unmapping id =>
    simp only [removeStep] at hs
    split at hs <;>
    · obtain ⟨rfl, rfl⟩ := Prod.mk.inj (Option.some.inj hs)
      refine held.advance ht (fun d h => by cases h) (fun _ h => h) fun x d hrow hd => ⟨d, ?_⟩
      change (p.shared.devices.erase id).lookup x = some d
      rw [Table.lookup_erase, if_neg]
      · exact hd
      · rintro rfl
        exact hok hrow
  | revoking id d =>
    obtain ⟨rfl, rfl⟩ := Prod.mk.inj (Option.some.inj hs)
    exact stay (fun _ h => h) rfl
  | returned id ok => cases hs

theorem held_update {c : DeviceChoice} {change : DeviceUpdate} {x' : DeviceTask}
    (h : p.shared.Sound storageKey) (held : Held p)
    (ht : p.task i = some (.update id change none)) :
    Held ((p.setShared (updateStep storageKey c id change p.shared).1).setTask i x') := by
  have hx (d : StoredDevice) : DeviceTask.update id change none ≠ .pair d .inserting :=
    fun h => by cases h
  unfold updateStep
  cases hd : p.shared.devices.lookup id with
  | none => exact held.advance ht hx (fun _ h => h) fun _ d _ hd => ⟨d, hd⟩
  | some d =>
    cases hd' : change.apply d with
    | none =>
      simp only [hd']
      exact held.advance ht hx (fun _ h => h) fun _ d _ hd => ⟨d, hd⟩
    | some d' =>
      simp only [hd']
      split
      · intro x hrow
        have hkey : d'.deviceNodeId = id := (DeviceUpdate.apply_id hd').trans (h.keyed id d hd)
        rcases hasRow_of_saveDevice storageKey hrow with rfl | hrow
        · exact .inl ⟨d', by rw [hkey]; exact Table.lookup_insert_self _ _ _⟩
        · rcases held x hrow with ⟨e, he⟩ | ⟨j, e, hj, he⟩
          · exact .inl (lookup_insert_isSome he)
          · refine .inr ⟨j, e, ?_, he⟩
            rw [Pool.setTask_task, if_neg]
            · exact hj
            · rintro rfl
              exact hx e (Option.some.inj (ht.symm.trans hj))
      · exact held.advance ht hx (fun _ h => h) fun _ _ _ he => lookup_insert_isSome he

theorem held_pair {c : DeviceChoice} {pc pc' : PairPc} (held : Held p)
    (ht : p.task i = some (.pair d pc))
    (hs : pairStep storageKey c d pc p.shared = some (s', pc')) :
    Held ((p.setShared s').setTask i (.pair d pc')) := by
  have stay (hpc : pc ≠ .inserting) (hrow : ∀ id, s'.HasRow id → p.shared.HasRow id)
      (hdevices : s'.devices = p.shared.devices) :
      Held ((p.setShared s').setTask i (.pair d pc')) :=
    held.advance ht (fun e h => hpc (DeviceTask.pair.inj h).2) hrow
      fun id e _ he => ⟨e, by rw [hdevices]; exact he⟩
  cases pc with
  | waiting =>
    simp only [pairStep] at hs
    split at hs <;>
    · obtain ⟨rfl, rfl⟩ := Prod.mk.inj (Option.some.inj hs)
      exact stay (fun h => by cases h) (fun _ h => h) rfl
  | saving =>
    simp only [pairStep] at hs
    split at hs
    · obtain ⟨rfl, rfl⟩ := Prod.mk.inj (Option.some.inj hs)
      intro x hrow
      rcases hasRow_of_saveDevice storageKey hrow with rfl | hrow
      · exact .inr ⟨i, d, by rw [Pool.setTask_task, if_pos rfl], rfl⟩
      · rcases held x hrow with ⟨e, he⟩ | ⟨j, e, hj, he⟩
        · exact .inl ⟨e, he⟩
        · refine .inr ⟨j, e, ?_, he⟩
          rw [Pool.setTask_task, if_neg]
          · exact hj
          · rintro rfl
            cases ht.symm.trans hj
    · obtain ⟨rfl, rfl⟩ := Prod.mk.inj (Option.some.inj hs)
      exact stay (fun h => by cases h) (fun _ h => h) rfl
  | inserting =>
    obtain ⟨rfl, rfl⟩ := Prod.mk.inj (Option.some.inj hs)
    intro x hrow
    rcases held x hrow with ⟨e, he⟩ | ⟨j, e, hj, he⟩
    · exact .inl (lookup_insert_isSome he)
    · by_cases hji : j = i
      · rw [hji, ht] at hj
        obtain ⟨rfl, -⟩ := DeviceTask.pair.inj (Option.some.inj hj)
        exact .inl ⟨d, by rw [← he]; exact Table.lookup_insert_self _ _ _⟩
      · exact .inr ⟨j, e, by rw [Pool.setTask_task, if_neg hji]; exact hj, he⟩
  | watching =>
    obtain ⟨rfl, rfl⟩ := Prod.mk.inj (Option.some.inj hs)
    refine held.advance ht (fun e h => by cases h) ?_ ?_
    · split <;> exact fun _ h => h
    · split <;> exact fun _ e _ he => ⟨e, he⟩
  | returned ok => cases hs

/-- After a start every row is held by memory. -/
theorem held_of_loaded {rows : Table String StoredDevice} (hrows : s.persisted = some rows)
    (hdevices : s.devices = loadDevices (rows.entries.map (·.2))) : Held (Pool.empty s) := by
  rintro id ⟨rows', hrows', key, d, hl, rfl⟩
  obtain rfl := Option.some.inj (hrows.symm.trans hrows')
  refine .inl (Option.isSome_iff_exists.mp ?_)
  change (s.devices.lookup _).isSome = true
  rw [hdevices]
  exact loadDevices_isSome (List.mem_map.mpr ⟨⟨key, d⟩, Table.mem_entries.mpr hl, rfl⟩)

theorem advance_step {c : DeviceChoice} {x x' : DeviceTask} (h : p.shared.Sound storageKey)
    (held : Held p) (ht : p.task i = some x) (hok : p.shared.TaskOk i x)
    (hc : unrevived p (.advance i c) = true)
    (hs : deviceAdvance storageKey c i x p.shared = some (s', x')) :
    (s'.Sound storageKey ∧ Rely p s' ∧ s'.TaskOk i x') ∧
      Held ((p.setShared s').setTask i x') := by
  match x with
  | .remove pc =>
    obtain ⟨⟨t, pc'⟩, hstep, hr⟩ := Option.map_eq_some_iff.mp hs
    obtain ⟨rfl, rfl⟩ := Prod.mk.inj hr
    exact ⟨remove_step storageKey h held ht hok hc hstep, held_remove storageKey held ht hok hstep⟩
  | .update id change none =>
    obtain ⟨rfl, rfl⟩ := Prod.mk.inj (Option.some.inj hs)
    obtain ⟨hsound, hrely⟩ := update_step storageKey h ht hc
    exact ⟨⟨hsound, hrely, trivial⟩, held_update storageKey h held ht⟩
  | .update _ _ (some _) => cases hs
  | .pair d pc =>
    obtain ⟨⟨t, pc'⟩, hstep, hr⟩ := Option.map_eq_some_iff.mp hs
    obtain ⟨rfl, rfl⟩ := Prod.mk.inj hr
    exact ⟨pair_step storageKey h ht hok hc hstep, held_pair storageKey held ht hstep⟩

theorem restart_sound {keep : Bool} {e : DeviceEvent} (h : s.Sound storageKey)
    (hs : deviceEvent e s = some (s', keep)) :
    keep = false ∧ s'.Sound storageKey ∧ Held (Pool.empty s') ∧
      ∀ id, s.Settled id → s'.Settled id := by
  cases e with
  | restart =>
    obtain ⟨rows, hrows, hr⟩ := Option.map_eq_some_iff.mp hs
    obtain ⟨rfl, rfl⟩ := Prod.mk.inj hr
    refine ⟨rfl, ⟨h.located, fun id d hl => (loadDevices_lookup hl).2, fun id hid => ?_⟩,
      held_of_loaded hrows rfl, fun id hid => hid⟩
    refine ⟨(h.removed id hid).1, ?_⟩
    cases hl : (loadDevices (rows.entries.map (·.2))).lookup id with
    | none => rfl
    | some d =>
      obtain ⟨hmem, hkey⟩ := loadDevices_lookup hl
      obtain ⟨⟨key, d'⟩, hm, rfl⟩ := List.mem_map.mp hmem
      exact absurd ⟨rows, hrows, key, d', Table.mem_entries.mp hm, hkey⟩ (h.removed id hid).1

theorem noninterference : (deviceTasking storageKey).Noninterference
    (fun p a => unrevived p a = true ∧ Held p) (Sound storageKey) TaskOk where
  init s hs := by
    refine ⟨hs.located, hs.keyed, fun id hid => ?_⟩
    rw [hs.removed] at hid
    exact absurd hid (Finset.notMem_empty id)
  fresh p i x _ _ hx := by
    match x with
    | .remove (.finding _) | .remove (.checking _) | .update _ _ _ | .pair _ .waiting => trivial
  own p i c x s' x' hc h ht hok hs :=
    have hstep := (advance_step storageKey h hc.2 ht hok hc.1 hs).1
    ⟨hstep.1, hstep.2.2⟩
  others p i c x s' x' hc h ht hok hs _ _ _ hy hok' :=
    (advance_step storageKey h hc.2 ht hok hc.1 hs).1.2.1.taskOk hy hok'
  environment p e s' keep _ h hs := by
    obtain ⟨rfl, hsound, -⟩ := restart_sound storageKey (e := e) h hs
    exact ⟨hsound, fun hf => by cases hf⟩

/-- The whole invariant. -/
def Inv (p : Pool DeviceState DeviceTask) : Prop :=
  Tasking.Safe (Sound storageKey) TaskOk p ∧ Held p

/-- One move keeps the invariant and forgets no removal. -/
theorem inv_step {q : Pool DeviceState DeviceTask}
    {a : Move DeviceTask DeviceChoice DeviceEvent} (hp : Inv storageKey p)
    (hc : unrevived p a = true) (hs : (deviceTasking storageKey).machine.step a p = some q) :
    Inv storageKey q ∧ ∀ id, p.shared.Settled id → q.shared.Settled id := by
  refine ⟨⟨(noninterference storageKey).step hp.1 ⟨hc, hp.2⟩ hs, ?_⟩, ?_⟩
  · cases Tasking.stepped_of_step hs with
    | spawn i x hx hi =>
      intro id hrow
      refine (hp.2 id hrow).imp (fun h => h) fun ⟨j, d, hj, hd⟩ => ⟨j, d, ?_, hd⟩
      rw [Pool.setTask_task, if_neg]
      · exact hj
      · rintro rfl
        cases hi.symm.trans hj
    | advance i c x x' s' ht hr =>
      exact (advance_step storageKey hp.1.1 hp.2 ht (hp.1.2 i x ht) hc hr).2
    | drop i x ht hx =>
      intro id hrow
      refine (hp.2 id hrow).imp (fun h => h) fun ⟨j, d, hj, hd⟩ => ⟨j, d, ?_, hd⟩
      rw [Pool.dropTask_task, if_neg]
      · exact hj
      · rintro rfl
        obtain rfl := Option.some.inj (ht.symm.trans hj)
        cases hx
    | keep e s' hr => cases (restart_sound storageKey (e := e) hp.1.1 hr).1
    | clear e s' hr => exact (restart_sound storageKey (e := e) hp.1.1 hr).2.2.1
  · cases Tasking.stepped_of_step hs with
    | spawn | drop => exact fun _ h => h
    | advance i c x x' s' ht hr =>
      exact (advance_step storageKey hp.1.1 hp.2 ht (hp.1.2 i x ht) hc hr).1.2.1.settled
    | keep e s' hr => exact (restart_sound storageKey (e := e) hp.1.1 hr).2.2.2
    | clear e s' hr => exact (restart_sound storageKey (e := e) hp.1.1 hr).2.2.2

theorem inv_of_reachable
    (h : (deviceTasking storageKey).machine.ReachableWhen (fun p a => unrevived p a = true) p) :
    Inv storageKey p := by
  refine h.invariant (I := Inv storageKey) ?_ fun t a u ht hc hs => (inv_step storageKey ht hc hs).1
  intro p hinit
  refine ⟨(noninterference storageKey).safe_init hinit, fun id hrow => ?_⟩
  obtain ⟨rows, hrows, hl⟩ := hrow
  exact .inl ((held_of_loaded hrows (hinit.1.devices rows hrows) id ⟨rows, hrows, hl⟩).resolve_right
    fun ⟨i, d, hi, _⟩ => by rw [Pool.empty_task] at hi; cases hi)

end DeviceState

open DeviceState

/-- Once a removal of a device has returned without an error, in every later state
no row of the device exists and it is not paired, unless its pairing was approved
after the removal took effect. -/
theorem revocation_is_durable {p q : Pool DeviceState DeviceTask} {i : Nat} {id : String}
    (h : (deviceTasking storageKey).machine.ReachableWhen (fun p a => unrevived p a = true) p)
    (hreturned : p.task i = some (.remove (.returned (some id) true)))
    (hrun : (deviceTasking storageKey).machine.Run (fun p a => unrevived p a = true) p q)
    (happroved : id ∉ q.shared.approved) :
    ¬ q.shared.HasRow id ∧ q.shared.devices.lookup id = none := by
  have hp := inv_of_reachable storageKey h
  have hq : Inv storageKey q ∧ q.shared.Settled id :=
    hrun.invariant (I := fun q => Inv storageKey q ∧ q.shared.Settled id)
      (fun t a u ht hc hs =>
        have hstep := inv_step storageKey ht.1 hc hs
        ⟨hstep.1, hstep.2 id ht.2⟩)
      ⟨hp, hp.1.2 i _ hreturned⟩
  exact hq.1.1.1.removed id (hq.2.resolve_right happroved)

end Rows

section Traces

private def digest (id : String) : String := "sha256:" ++ id

private def pairedPhone : StoredDevice := .new "phone" "node" 0

/-- The store works, the desktop approves and finds the device by its name. -/
private def granted : DeviceChoice := ⟨true, some "node"⟩

/-- A daemon without paired devices. -/
def DeviceState.new : DeviceState := ⟨.empty, some .empty, .empty, ∅, ∅⟩

theorem DeviceState.opened_new (storageKey : String → String) :
    DevicesOpened storageKey DeviceState.new where
  located rows hrows key d hl := by
    obtain rfl := Option.some.inj hrows
    cases (Table.lookup_empty key).symm.trans hl
  devices rows hrows := by
    obtain rfl := Option.some.inj hrows
    change _ = loadDevices []
    rw [loadDevices, List.mergeSort_nil]
    rfl
  keyed id d hl := by cases (Table.lookup_empty id).symm.trans hl
  removed := rfl
  approved := rfl

/-- The phone is paired and removed; its next connection is marked in vain and the
daemon restarts. -/
theorem revocation_is_durable_run :
    ∃ q : Pool DeviceState DeviceTask, q.task 2 = none ∧
      ¬ q.shared.HasRow "node" ∧ q.shared.devices.lookup "node" = none := by
  obtain ⟨p, q, hr, hreturned, hrun, hrestart, happroved⟩ :=
    (deviceTasking digest).machine.exists_run_of_exec (fun p a => unrevived p a = true)
      (fun p => p.task 1 = some (.remove (.returned (some "node") true)))
      (fun q => q.task 2 = none ∧ "node" ∉ q.shared.approved)
      (List.flatten [[.spawn 0 (.pair pairedPhone .waiting)], Move.repeated 4 0 granted,
        [.spawn 1 (.remove (.finding "phone"))], Move.repeated 5 1 granted])
      [.spawn 2 (.update "node" (.markSeen 1) none), .advance 2 granted, .environment .restart]
      (Tasking.init_empty (DeviceState.opened_new digest)) (by decide)
  exact ⟨q, hrestart, revocation_is_durable digest hr hreturned hrun happroved⟩

/-- A connection that is marked as seen after the removal deleted the row, and before it
takes the entry out of memory, stores the row again. -/
theorem revoked_device_resurrected :
    ¬ ∀ (storageKey : String → String) (p q : Pool DeviceState DeviceTask) (i : Nat) (id : String),
      (deviceTasking storageKey).machine.Reachable p →
      p.task i = some (.remove (.returned (some id) true)) →
      (deviceTasking storageKey).machine.Run Machine.Any p q → id ∉ q.shared.approved →
      ¬ q.shared.HasRow id := by
  intro hall
  obtain ⟨p, q, hr, hreturned, hrun, happroved, hrow⟩ :=
    (deviceTasking digest).machine.exists_run_of_exec Machine.Any
      (fun p => p.task 1 = some (.remove (.returned (some "node") true)))
      (fun q => "node" ∉ q.shared.approved ∧
        q.shared.persisted.map (·.lookup "sha256:node") = some (some (pairedPhone.markSeen 1)))
      (List.flatten [[.spawn 0 (.pair pairedPhone .waiting)], Move.repeated 4 0 granted,
        [.spawn 1 (.remove (.finding "phone"))], Move.repeated 3 1 granted,
        [.spawn 2 (.update "node" (.markSeen 1) none), .advance 2 granted],
        Move.repeated 2 1 granted])
      [.environment .restart]
      (Tasking.init_empty (DeviceState.opened_new digest)) (by decide)
  obtain ⟨rows, hrows, hl⟩ := Option.map_eq_some_iff.mp hrow
  exact hall digest p q 1 "node" hr hreturned hrun happroved ⟨rows, hrows, _, _, hl, rfl⟩

end Traces

end Shelly.Daemon
