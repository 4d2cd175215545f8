import Shelly.Daemon.DeviceAtomicity
import Shelly.Daemon.Revoked

namespace Shelly.Daemon

namespace DeviceState

/-- The devices in the order in which an iteration of the map comes across them. -/
def Walk (s : DeviceState) (walk : List StoredDevice) : Prop :=
  walk.Perm (s.devices.entries.map (·.2))

def Keyed (s : DeviceState) : Prop := ∀ id d, s.devices.lookup id = some d → d.deviceNodeId = id

/-- The removal takes effect. -/
def settle (id : String) (s : DeviceState) : DeviceState :=
  { s with removed := insert id s.removed, approved := s.approved.erase id }

def revokeDeviceConnections (id : String) (s : DeviceState) : DeviceState :=
  { s with revocations := s.revocations.modify id fun n => (n + 1) % 2 ^ 64 }

end DeviceState

/-- What a removal returns and leaves, and the token whose registration it takes back. -/
structure Removal where
  result : Except Unit (Option StoredDevice)
  state : DeviceState
  unregistered : Option String

/-- The first entry on the way that has the name or the identity. -/
def findDevice (name : String) (walk : List StoredDevice) : Option String :=
  (walk.find? fun d => d.name = name ∨ d.deviceNodeId = name).map (·.deviceNodeId)

section Store

variable (storageKey : String → String)

def removeDeviceByNodeId (ok : Bool) (id : String) (s : DeviceState) : Removal :=
  match s.devices.lookup id with
  | none => ⟨.ok none, s.settle id, none⟩
  | some d =>
    if s.persisted.isNone || ok then
      let s := s.removeDevice storageKey id
      let s := { s.settle id with devices := s.devices.erase id }
      ⟨.ok (some d), s.revokeDeviceConnections id, d.pushToken⟩
    else ⟨.error (), s, none⟩

def removeDevice (walk : List StoredDevice) (ok : Bool) (name : String) (s : DeviceState) :
    Removal :=
  match findDevice name walk with
  | none => ⟨.ok none, s, none⟩
  | some id => removeDeviceByNodeId storageKey ok id s

/-- The device is gone from memory, its rows from the store, and its connections have to end. -/
structure RemovesExactly (id : String) (s t : DeviceState) : Prop where
  devices : ∀ id', t.devices.lookup id' = if id' = id then none else s.devices.lookup id'
  rows : ∀ key, t.persisted.map (·.lookup key) = s.persisted.map fun rows =>
    if key = storageKey id ∨ key = id then none else rows.lookup key
  revocations : ∀ id', t.revocations.lookup id' =
    if id' = id then (s.revocations.lookup id').map fun n => (n + 1) % 2 ^ 64
    else s.revocations.lookup id'

/-- A removal that fails leaves everything; else it has removed the device and nothing else. -/
def Removal.Exact (id : String) (d : StoredDevice) (s : DeviceState) (r : Removal) : Prop :=
  match r.result with
  | .error () => r.state = s ∧ r.unregistered = none
  | .ok device => device = some d ∧ RemovesExactly storageKey id s r.state ∧
      r.unregistered = d.pushToken

variable {storageKey} {s t : DeviceState} {walk : List StoredDevice} {ok : Bool}
  {id name : String} {d : StoredDevice}

/-- Under the identity itself the right device is removed. A device that unpairs itself goes
this way. -/
theorem removeDeviceByNodeId_exact (hpaired : s.devices.lookup id = some d) (ok : Bool) :
    (removeDeviceByNodeId storageKey ok id s).Exact storageKey id d s := by
  unfold removeDeviceByNodeId
  rw [hpaired]
  dsimp only
  split
  · refine ⟨rfl, ⟨fun id' => Table.lookup_erase s.devices id id', fun key => ?_,
      fun id' => Table.lookup_modify s.revocations id id' _⟩, rfl⟩
    change (s.persisted.map _).map _ = _
    rw [Option.map_map]
    refine congrArg (s.persisted.map ·) (funext fun rows => ?_)
    simp only [Function.comp, Table.lookup_erase]
    by_cases hkey : key = storageKey id <;> by_cases hid : key = id <;> simp [hkey, hid]
  · exact ⟨rfl, rfl⟩

/-! ### The steps -/

open DeviceAtomicity

theorem findDevice_eq_some (hkeyed : s.Keyed) (hwalk : s.Walk walk)
    (h : findDevice name walk = some id) :
    ∃ d, s.devices.lookup id = some d ∧ d.deviceNodeId = id ∧ (d.name = name ∨ id = name) := by
  obtain ⟨d, hfind, rfl⟩ := Option.map_eq_some_iff.mp h
  have hmem := hwalk.mem_iff.mp (List.mem_of_find?_eq_some hfind)
  obtain ⟨⟨id', d'⟩, hentry, rfl⟩ := List.mem_map.mp hmem
  have hl := Table.mem_entries.mp hentry
  have hid : d'.deviceNodeId = id' := hkeyed id' d' hl
  refine ⟨d', hid ▸ hl, rfl, ?_⟩
  simpa using List.find?_some hfind

theorem findDevice_eq_none (hwalk : s.Walk walk) (h : findDevice name walk = none) :
    s.devices.entries.all (fun e => e.2.name ≠ name ∧ e.2.deviceNodeId ≠ name) = true := by
  have hnone := List.find?_eq_none.mp (Option.map_eq_none_iff.mp h)
  refine List.all_eq_true.mpr fun e he => ?_
  have hmem := hwalk.mem_iff.mpr (List.mem_map_of_mem he)
  simpa using hnone e.2 hmem

/-- The steps of a removal that nothing interferes with. -/
theorem removeDeviceByNodeId_runs (storageKey : String → String) (ok : Bool) (id : String)
    (s : DeviceState) :
    Runs storageKey (.remove (.checking id)) s
      (.remove (.returned (some id) (removeDeviceByNodeId storageKey ok id s).result.isOk))
      (removeDeviceByNodeId storageKey ok id s).state := by
  unfold removeDeviceByNodeId
  cases hl : s.devices.lookup id with
  | none =>
    refine .step (c := ⟨ok, none⟩) (i := 0) ?_ (.done _ _)
    simp only [deviceAdvance, removeStep, Table.contains, hl]
    rfl
  | some d =>
    have hchecked : deviceAdvance storageKey ⟨ok, none⟩ 0 (.remove (.checking id)) s =
        some (s, .remove (.erasingRow id)) := by
      simp only [deviceAdvance, removeStep, Table.contains, hl]
      rfl
    refine .step hchecked ?_
    dsimp only
    by_cases hstored : (s.persisted.isNone || ok) = true
    · rw [if_pos hstored]
      refine .step (c := ⟨ok, none⟩) (i := 0) (t := s.removeDevice storageKey id)
        (y := .remove (.unmapping id)) ?_ ?_
      · simp only [deviceAdvance, removeStep, if_pos hstored]
        rfl
      · refine .step (c := ⟨ok, none⟩) (i := 0) (y := .remove (.revoking id d))
          (t := { (s.removeDevice storageKey id).settle id with
            devices := s.devices.erase id }) ?_ ?_
        · have hl' : (s.removeDevice storageKey id).devices.lookup id = some d := hl
          simp only [deviceAdvance, removeStep, hl']
          rfl
        · exact .step (c := ⟨ok, none⟩) (i := 0) rfl (.done _ _)
    · rw [if_neg hstored]
      refine .step (c := ⟨ok, none⟩) (i := 0) ?_ (.done _ _)
      simp only [deviceAdvance, removeStep, if_neg hstored]
      rfl

/-- In whatever order the map is walked, `remove_device` takes the steps of a removal. -/
theorem removeDevice_runs (storageKey : String → String) (ok : Bool) (name : String)
    (hkeyed : s.Keyed) (hwalk : s.Walk walk) :
    Runs storageKey (.remove (.finding name)) s
      (.remove (.returned (findDevice name walk)
        (removeDevice storageKey walk ok name s).result.isOk))
      (removeDevice storageKey walk ok name s).state := by
  unfold removeDevice
  cases hfind : findDevice name walk with
  | none =>
    refine .step (c := ⟨ok, none⟩) (i := 0) ?_ (.done _ _)
    simp only [deviceAdvance, removeStep, if_pos (findDevice_eq_none hwalk hfind)]
    rfl
  | some id =>
    obtain ⟨d, hl, hid, hname⟩ := findDevice_eq_some hkeyed hwalk hfind
    refine .step (c := ⟨ok, some id⟩) (i := 0) ?_ (removeDeviceByNodeId_runs storageKey ok id s)
    subst hid
    simp only [deviceAdvance, removeStep, hl, if_pos hname]
    rfl

/-! ### Every registry -/

theorem keyed_insert (h : s.Keyed) (ht : t.devices = s.devices.insert d.deviceNodeId d) :
    t.Keyed := by
  intro id' d' hl
  rw [ht, Table.lookup_insert] at hl
  split at hl
  · next hid => rw [hid, Option.some.inj hl]
  · exact h id' d' hl

theorem keyed_erase (h : s.Keyed) (ht : t.devices = s.devices.erase id) : t.Keyed := by
  intro id' d' hl
  rw [ht, Table.lookup_erase] at hl
  split at hl
  · cases hl
  · exact h id' d' hl

theorem keyed_remove {c : DeviceChoice} {pc pc' : RemovePc} (h : s.Keyed)
    (hstep : removeStep storageKey c pc s = some (t, pc')) : t.Keyed := by
  cases pc with
  | finding name =>
    simp only [removeStep] at hstep
    split at hstep
    · split at hstep
      · split at hstep
        · cases hstep
          exact h
        · cases hstep
      · cases hstep
    · split at hstep
      · cases hstep
        exact h
      · cases hstep
  | checking id =>
    simp only [removeStep] at hstep
    split at hstep
    · cases hstep
      exact h
    · cases hstep
      exact h
  | erasingRow id =>
    simp only [removeStep] at hstep
    split at hstep
    · cases hstep
      exact h
    · cases hstep
      exact h
  | unmapping id =>
    simp only [removeStep] at hstep
    split at hstep
    · cases hstep
      exact keyed_erase h rfl
    · cases hstep
      exact keyed_erase h rfl
  | revoking id d =>
    cases hstep
    exact h
  | returned id ok => cases hstep

theorem keyed_update (c : DeviceChoice) (change : DeviceUpdate) (h : s.Keyed) :
    (updateStep storageKey c id change s).1.Keyed := by
  unfold updateStep
  cases hl : s.devices.lookup id with
  | none => exact h
  | some d =>
    cases hchange : change.apply d with
    | none =>
      simp only [hchange]
      exact h
    | some d' =>
      have hid : d'.deviceNodeId = id := (DeviceUpdate.apply_id hchange).trans (h id d hl)
      have hinsert : s.devices.insert id d' = s.devices.insert d'.deviceNodeId d' := by
        rw [hid]
      simp only [hchange]
      split
      · exact keyed_insert h hinsert
      · exact keyed_insert h hinsert

theorem keyed_pair {c : DeviceChoice} {pc pc' : PairPc} (h : s.Keyed)
    (hstep : pairStep storageKey c d pc s = some (t, pc')) : t.Keyed := by
  cases pc with
  | waiting =>
    simp only [pairStep] at hstep
    split at hstep
    · cases hstep
      exact h
    · cases hstep
      exact h
  | saving =>
    simp only [pairStep] at hstep
    split at hstep
    · cases hstep
      exact h
    · cases hstep
      exact h
  | inserting =>
    cases hstep
    exact keyed_insert h rfl
  | watching =>
    cases hstep
    split
    · exact h
    · exact h
  | returned ok => cases hstep

theorem keyed_advance {c : DeviceChoice} {i : Nat} {x y : DeviceTask} (h : s.Keyed)
    (hstep : deviceAdvance storageKey c i x s = some (t, y)) : t.Keyed := by
  cases x with
  | remove pc =>
    obtain ⟨⟨t', pc'⟩, hremove, hr⟩ := Option.map_eq_some_iff.mp hstep
    cases hr
    exact keyed_remove h hremove
  | update id change result =>
    cases result with
    | none =>
      cases hstep
      exact keyed_update c change h
    | some result => cases hstep
  | pair d pc =>
    obtain ⟨⟨t', pc'⟩, hpair, hr⟩ := Option.map_eq_some_iff.mp hstep
    cases hr
    exact keyed_pair h hpair

theorem keyed_restart {keep : Bool} (h : deviceEvent .restart s = some (t, keep)) : t.Keyed := by
  obtain ⟨rows, -, hload⟩ := Option.map_eq_some_iff.mp h
  cases hload
  exact fun id d hl => (loadDevices_lookup hl).2

/-- Every entry is under its own identity. -/
theorem keyed_of_reachable {p : Pool DeviceState DeviceTask}
    (h : (deviceTasking storageKey).machine.Reachable p) : p.shared.Keyed := by
  refine h.invariant (I := fun p => p.shared.Keyed) ?_ ?_
  · intro p hinit
    exact hinit.1.keyed
  intro p a q hp _ hstep
  cases Tasking.stepped_of_step hstep with
  | spawn | drop => exact hp
  | advance i c x x' s' ht hr => exact keyed_advance (i := i) hp hr
  | keep e s' hr =>
    cases e
    obtain ⟨rows, -, hload⟩ := Option.map_eq_some_iff.mp hr
    cases hload
  | clear e s' hr =>
    cases e
    exact keyed_restart hr

/-! ### Removing by identity -/

/-- Any device may be the first that an iteration of the map comes across. -/
theorem exists_walk (hl : s.devices.lookup id = some d) : ∃ others, s.Walk (d :: others) := by
  have hmem : d ∈ s.devices.entries.map (·.2) :=
    List.mem_map_of_mem (f := fun e => e.2) (Table.mem_entries.mpr hl)
  exact ⟨_, (List.perm_cons_erase hmem).symm⟩

/-- Unless a device is named like the identity, every walk comes to the device of that identity. -/
theorem findDevice_id (hkeyed : s.Keyed) (hwalk : s.Walk walk)
    (hpaired : s.devices.lookup id = some d)
    (hunnamed : ∀ id' d', s.devices.lookup id' = some d' → id' ≠ id → d'.name ≠ id) :
    findDevice id walk = some id := by
  cases hfind : findDevice id walk with
  | none =>
    have hall := List.all_eq_true.mp (findDevice_eq_none hwalk hfind)
    have hnone := hall _ (Table.mem_entries.mpr hpaired)
    have hid := hkeyed id d hpaired
    simp [hid] at hnone
  | some id' =>
    obtain ⟨d', hl, -, hname | hsame⟩ := findDevice_eq_some hkeyed hwalk hfind
    · by_cases hne : id' = id
      · rw [hne]
      · exact absurd hname (hunnamed id' d' hl hne)
    · rw [hsame]

/-- In some order of the map the device that is named like the identity comes first. -/
theorem not_exact_of_named (storageKey : String → String) {id' : String} {d' : StoredDevice}
    (hkeyed : s.Keyed)
    (hpaired : s.devices.lookup id = some d) (hl : s.devices.lookup id' = some d') (hne : id' ≠ id)
    (hname : d'.name = id) :
    ∃ walk, s.Walk walk ∧ ¬ (removeDevice storageKey walk true id s).Exact storageKey id d s := by
  obtain ⟨others, hwalk⟩ := exists_walk hl
  refine ⟨_, hwalk, fun hexact => ?_⟩
  have hfind : findDevice id (d' :: others) = some id' := by
    simp [findDevice, hname, hkeyed id' d' hl]
  have hresult : (removeDeviceByNodeId storageKey true id' s).result = .ok (some d') := by
    simp [removeDeviceByNodeId, hl]
  rw [removeDevice, hfind, Removal.Exact, hresult] at hexact
  have hsame : d' = d := Option.some.inj hexact.1
  exact hne ((hkeyed id' d' hl).symm.trans (hsame ▸ hkeyed id d hpaired))

/-- For every registry, `remove_device` with the identity of a paired device removes exactly that
device in every order of the map if and only if no other device is named like the identity. -/
theorem removeDevice_exact_iff (storageKey : String → String) (p : Pool DeviceState DeviceTask)
    (h : (deviceTasking storageKey).machine.Reachable p) (id : String) (d : StoredDevice)
    (hpaired : p.shared.devices.lookup id = some d) :
    (∀ walk ok, p.shared.Walk walk →
      (removeDevice storageKey walk ok id p.shared).Exact storageKey id d p.shared) ↔
    ∀ id' d', p.shared.devices.lookup id' = some d' → id' ≠ id → d'.name ≠ id := by
  have hkeyed := keyed_of_reachable h
  constructor
  · intro hexact id' d' hl hne hname
    obtain ⟨walk, hwalk, hnot⟩ := not_exact_of_named storageKey hkeyed hpaired hl hne hname
    exact hnot (hexact walk true hwalk)
  · intro hunnamed walk ok hwalk
    rw [removeDevice, findDevice_id hkeyed hwalk hpaired hunnamed]
    exact removeDeviceByNodeId_exact hpaired ok

end Store

section Traces

private def lostPhone : StoredDevice := .new "lost phone" "node-a" 0

private def approving : DeviceChoice := ⟨true, none⟩

/-- Two phones are paired, one after the other. -/
private def bothPaired (other : StoredDevice) : List (Move DeviceTask DeviceChoice DeviceEvent) :=
  List.flatten [[.spawn 0 (.pair lostPhone .waiting)], Move.repeated 4 0 approving,
    [.spawn 1 (.pair other .waiting)], Move.repeated 4 1 approving]

/-- A tablet is named like nothing else, and the lost phone is removed by its identity. -/
theorem removeDevice_exact_tablet : ∃ p : Pool DeviceState DeviceTask,
    p.shared.devices.lookup "node-a" = some lostPhone ∧
    ∀ walk ok, p.shared.Walk walk →
      (removeDevice id walk ok "node-a" p.shared).Exact id "node-a" lostPhone p.shared := by
  obtain ⟨p, hp, hpaired, hunnamed⟩ :=
    (deviceTasking id).machine.exists_reachable_of_exec Machine.Any
      (fun p => p.shared.devices.lookup "node-a" = some lostPhone ∧
        p.shared.devices.entries.all (fun e => e.1 = "node-a" ∨ e.2.name ≠ "node-a") = true)
      (bothPaired (.new "tablet" "node-b" 1)) (Tasking.init_empty (DeviceState.opened_new id))
      (by decide)
  refine ⟨p, hpaired, (removeDevice_exact_iff id p hp "node-a" lostPhone hpaired).mpr ?_⟩
  intro id' d' hl hne
  have hother := List.all_eq_true.mp hunnamed _ (Table.mem_entries.mpr hl)
  simpa [hne] using hother

/-- The second phone takes the identity of the first one for its name. -/
theorem removeDevice_removes_namesake :
    ¬ ∀ (storageKey : String → String) (p : Pool DeviceState DeviceTask),
      (deviceTasking storageKey).machine.Reachable p → ∀ id d,
      p.shared.devices.lookup id = some d → ∀ walk ok, p.shared.Walk walk →
      (removeDevice storageKey walk ok id p.shared).Exact storageKey id d p.shared := by
  intro hall
  obtain ⟨p, hp, hpaired, hother⟩ :=
    (deviceTasking id).machine.exists_reachable_of_exec Machine.Any
      (fun p => p.shared.devices.lookup "node-a" = some lostPhone ∧
        p.shared.devices.lookup "node-b" = some (.new "node-a" "node-b" 1))
      (bothPaired (.new "node-a" "node-b" 1)) (Tasking.init_empty (DeviceState.opened_new id))
      (by decide)
  have hkeyed := keyed_of_reachable hp
  obtain ⟨walk, hwalk, hnot⟩ := not_exact_of_named id hkeyed hpaired hother (by decide) rfl
  exact hnot (hall id p hp "node-a" lostPhone hpaired walk true hwalk)

end Traces

end Shelly.Daemon
