import Shelly.Daemon.Devices

namespace Shelly.Daemon

/-- The operations on the registry of devices that write to the store. -/
inductive DeviceCall
  | saveDevice (device : StoredDevice)
  | removeDevice (name : String)
  | updateDevicePush (id : String) (platform : PushPlatform) (token : String) (now : Nat)
  | clearDevicePush (id : String) (platform : PushPlatform) (token : String) (now : Nat)
  | markDeviceSeen (id : String) (now : Nat)
  deriving DecidableEq

/-- The task that carries the operation out. A pairing saves its device once it is approved. -/
def DeviceCall.task : DeviceCall → DeviceTask
  | .saveDevice device => .pair device .saving
  | .removeDevice name => .remove (.finding name)
  | .updateDevicePush id platform token now => .update id (.setPush platform token now) none
  | .clearDevicePush id platform token now => .update id (.clearPush platform token now) none
  | .markDeviceSeen id now => .update id (.markSeen now) none

/-- The operation has returned an error. -/
def DeviceTask.failed : DeviceTask → Bool
  | .remove (.returned _ ok) => !ok
  | .update _ _ (some result) => result = .failed
  | .pair _ (.returned ok) => !ok
  | _ => false

/-- The table in memory has the same entries. -/
def DeviceState.SameDevices (s t : DeviceState) : Prop :=
  ∀ id, t.devices.lookup id = s.devices.lookup id

namespace DeviceAtomicity

variable {storageKey : String → String} {s t u : DeviceState} {x y z : DeviceTask}

variable (storageKey) in
/-- A task that runs alone, step after step, whatever the store answers. -/
inductive Runs : DeviceTask → DeviceState → DeviceTask → DeviceState → Prop
  | done (x : DeviceTask) (s : DeviceState) : Runs x s x s
  | step {c : DeviceChoice} {i : Nat} {x y z : DeviceTask} {s t u : DeviceState} :
      deviceAdvance storageKey c i x s = some (t, y) → Runs y t z u → Runs x s z u

/-- What a task that fails in the end leaves in memory, from where it stands. An update has
changed the entry before it stores it, and does not change it back. -/
def OnFailure (s u : DeviceState) : DeviceTask → Prop
  | .remove (.finding _) | .remove (.checking _) | .remove (.erasingRow _)
  | .remove (.returned _ false) => u.devices = s.devices
  | .remove (.unmapping _) | .remove (.revoking _ _) | .remove (.returned _ true) => False
  | .pair _ .waiting | .pair _ .saving | .pair _ (.returned false) => u.devices = s.devices
  | .pair _ .inserting | .pair _ .watching | .pair _ (.returned true) => False
  | .update id change none => ∃ d d', s.devices.lookup id = some d ∧ change.apply d = some d' ∧
      u.devices = s.devices.insert id d'
  | .update _ _ (some .failed) => u.devices = s.devices
  | .update _ _ (some .missing) | .update _ _ (some .updated) => False

theorem onFailure_of_failed (h : x.failed = true) : OnFailure s s x := by
  cases x with
  | remove pc =>
    cases pc with
    | returned id ok =>
      cases ok with
      | false => exact rfl
      | true => cases h
    | _ => cases h
  | update id change result =>
    cases result with
    | none => cases h
    | some result =>
      cases result with
      | failed => exact rfl
      | missing => cases h
      | updated => cases h
  | pair d pc =>
    cases pc with
    | returned ok =>
      cases ok with
      | false => exact rfl
      | true => cases h
    | _ => cases h

/-- The removal touches the table only once the row is erased, after which nothing fails. -/
theorem onFailure_remove {c : DeviceChoice} {pc pc' : RemovePc}
    (h : removeStep storageKey c pc s = some (t, pc')) (hf : OnFailure t u (.remove pc')) :
    OnFailure s u (.remove pc) := by
  cases pc with
  | finding name =>
    simp only [removeStep] at h
    split at h
    · split at h
      · split at h
        · obtain ⟨rfl, rfl⟩ := Prod.mk.inj (Option.some.inj h)
          exact hf
        · cases h
      · cases h
    · split at h
      · obtain ⟨rfl, rfl⟩ := Prod.mk.inj (Option.some.inj h)
        cases hf
      · cases h
  | checking id =>
    simp only [removeStep] at h
    split at h
    · obtain ⟨rfl, rfl⟩ := Prod.mk.inj (Option.some.inj h)
      exact hf
    · obtain ⟨rfl, rfl⟩ := Prod.mk.inj (Option.some.inj h)
      cases hf
  | erasingRow id =>
    simp only [removeStep] at h
    split at h
    · obtain ⟨rfl, rfl⟩ := Prod.mk.inj (Option.some.inj h)
      cases hf
    · obtain ⟨rfl, rfl⟩ := Prod.mk.inj (Option.some.inj h)
      exact hf
  | unmapping id =>
    simp only [removeStep] at h
    split at h
    · obtain ⟨rfl, rfl⟩ := Prod.mk.inj (Option.some.inj h)
      cases hf
    · obtain ⟨rfl, rfl⟩ := Prod.mk.inj (Option.some.inj h)
      cases hf
  | revoking id d =>
    obtain ⟨rfl, rfl⟩ := Prod.mk.inj (Option.some.inj h)
    cases hf
  | returned id ok => cases h

/-- The device is stored before it is put into the table. -/
theorem onFailure_pair {c : DeviceChoice} {d : StoredDevice} {pc pc' : PairPc}
    (h : pairStep storageKey c d pc s = some (t, pc')) (hf : OnFailure t u (.pair d pc')) :
    OnFailure s u (.pair d pc) := by
  cases pc with
  | waiting =>
    simp only [pairStep] at h
    split at h
    · obtain ⟨rfl, rfl⟩ := Prod.mk.inj (Option.some.inj h)
      exact hf
    · obtain ⟨rfl, rfl⟩ := Prod.mk.inj (Option.some.inj h)
      exact hf
  | saving =>
    simp only [pairStep] at h
    split at h
    · obtain ⟨rfl, rfl⟩ := Prod.mk.inj (Option.some.inj h)
      cases hf
    · obtain ⟨rfl, rfl⟩ := Prod.mk.inj (Option.some.inj h)
      exact hf
  | inserting =>
    obtain ⟨rfl, rfl⟩ := Prod.mk.inj (Option.some.inj h)
    cases hf
  | watching =>
    obtain ⟨rfl, rfl⟩ := Prod.mk.inj (Option.some.inj h)
    cases hf
  | returned ok => cases h

theorem onFailure_update {c : DeviceChoice} {id : String} {change : DeviceUpdate}
    (hf : OnFailure (updateStep storageKey c id change s).1 u
      (.update id change (some (updateStep storageKey c id change s).2))) :
    OnFailure s u (.update id change none) := by
  unfold updateStep at hf
  cases hd : s.devices.lookup id with
  | none => simp only [hd, OnFailure] at hf
  | some d =>
    cases hd' : change.apply d with
    | none => simp only [hd, hd', OnFailure] at hf
    | some d' =>
      simp only [hd, hd'] at hf
      split at hf
      · cases hf
      · exact ⟨d, d', hd, hd', hf⟩

theorem onFailure_step {c : DeviceChoice} {i : Nat} (h : deviceAdvance storageKey c i x s = some (t, y))
    (hf : OnFailure t u y) : OnFailure s u x := by
  cases x with
  | remove pc =>
    obtain ⟨⟨t', pc'⟩, hstep, heq⟩ := Option.map_eq_some_iff.mp h
    obtain ⟨rfl, rfl⟩ := Prod.mk.inj heq
    exact onFailure_remove hstep hf
  | update id change result =>
    cases result with
    | none =>
      obtain ⟨rfl, rfl⟩ := Prod.mk.inj (Option.some.inj h)
      exact onFailure_update hf
    | some result => cases h
  | pair d pc =>
    obtain ⟨⟨t', pc'⟩, hstep, heq⟩ := Option.map_eq_some_iff.mp h
    obtain ⟨rfl, rfl⟩ := Prod.mk.inj heq
    exact onFailure_pair hstep hf

theorem onFailure_of_runs (h : Runs storageKey x s z u) (hfail : z.failed = true) :
    OnFailure s u x := by
  induction h with
  | done x s => exact onFailure_of_failed hfail
  | step hstep _ ih => exact onFailure_step hstep (ih hfail)

/-- Replacing an entry leaves the table as it was when the entry is replaced by itself. -/
theorem sameDevices_insert_iff {id : String} {d d' : StoredDevice}
    (hd : s.devices.lookup id = some d) (hu : u.devices = s.devices.insert id d') :
    s.SameDevices u ↔ d' = d := by
  unfold DeviceState.SameDevices
  rw [hu]
  constructor
  · intro h
    have hid := h id
    rw [Table.lookup_insert_self, hd] at hid
    exact Option.some.inj hid
  · rintro rfl other
    rw [Table.lookup_insert]
    split
    · rename_i heq
      rw [heq, hd]
    · rfl

/-- The call writes to the store what it finds in memory, or writes to the store first. -/
def Leaves (s : DeviceState) : DeviceCall → Prop
  | .saveDevice _ | .removeDevice _ => True
  | .updateDevicePush id platform token now => ∃ d, s.devices.lookup id = some d ∧
      d.pushPlatform = some platform ∧ d.pushToken = some token ∧ d.lastSeen = some now
  | .clearDevicePush _ _ _ _ => False
  | .markDeviceSeen id now => ∃ d, s.devices.lookup id = some d ∧ d.lastSeen = some now

theorem setPushToken_eq_self_iff {d : StoredDevice} {platform : PushPlatform} {token : String}
    {now : Nat} : d.setPushToken platform token now = d ↔
      d.pushPlatform = some platform ∧ d.pushToken = some token ∧ d.lastSeen = some now := by
  cases d
  simp only [StoredDevice.setPushToken, StoredDevice.markSeen, StoredDevice.mk.injEq, true_and]
  constructor
  · rintro ⟨rfl, rfl, rfl⟩
    exact ⟨rfl, rfl, rfl⟩
  · rintro ⟨rfl, rfl, rfl⟩
    exact ⟨rfl, rfl, rfl⟩

theorem markSeen_eq_self_iff {d : StoredDevice} {now : Nat} :
    d.markSeen now = d ↔ d.lastSeen = some now := by
  cases d
  simp only [StoredDevice.markSeen, StoredDevice.mk.injEq, true_and, and_true]
  exact eq_comm

/-- A call that fails leaves the table in memory as it was exactly when it stores first, or when
the entry already is what it changes it to. -/
theorem failed_leaves_devices_iff {call : DeviceCall} (h : Runs storageKey call.task s x t)
    (hfail : x.failed = true) : s.SameDevices t ↔ Leaves s call := by
  have hleft := onFailure_of_runs h hfail
  cases call with
  | saveDevice device =>
    refine iff_of_true (fun id => ?_) trivial
    rw [show t.devices = s.devices from hleft]
  | removeDevice name =>
    refine iff_of_true (fun id => ?_) trivial
    rw [show t.devices = s.devices from hleft]
  | updateDevicePush id platform token now =>
    obtain ⟨d, d', hd, hd', ht⟩ := hleft
    obtain rfl := Option.some.inj hd'
    rw [sameDevices_insert_iff hd ht, setPushToken_eq_self_iff]
    constructor
    · intro heq
      exact ⟨d, hd, heq⟩
    · rintro ⟨e, he, heq⟩
      obtain rfl := Option.some.inj (hd.symm.trans he)
      exact heq
  | clearDevicePush id platform token now =>
    obtain ⟨d, d', hd, hd', ht⟩ := hleft
    rw [sameDevices_insert_iff hd ht]
    refine iff_of_false (fun heq => ?_) not_false
    simp only [DeviceUpdate.apply, Option.ite_none_right_eq_some, Option.some.injEq] at hd'
    obtain ⟨⟨-, htoken⟩, rfl⟩ := hd'
    have hnone := congrArg StoredDevice.pushToken heq
    rw [htoken] at hnone
    cases hnone
  | markDeviceSeen id now =>
    obtain ⟨d, d', hd, hd', ht⟩ := hleft
    obtain rfl := Option.some.inj hd'
    rw [sameDevices_insert_iff hd ht, markSeen_eq_self_iff]
    constructor
    · intro heq
      exact ⟨d, hd, heq⟩
    · rintro ⟨e, he, heq⟩
      obtain rfl := Option.some.inj (hd.symm.trans he)
      exact heq

/-- One device, paired and stored, whose token was given at time 5. -/
def onePhone : DeviceState where
  devices := Table.empty.insert "n" ⟨"phone", "n", 1, some 5, some .fcm, some "t"⟩
  persisted := some (Table.empty.insert "n" ⟨"phone", "n", 1, some 5, some .fcm, some "t"⟩)
  revocations := .empty
  removed := ∅
  approved := ∅

theorem failed_leaves_devices_removal :
    onePhone.SameDevices onePhone ∧
      Runs id (DeviceCall.removeDevice "phone").task onePhone (.remove (.returned (some "n") false))
        onePhone := by
  have hruns : Runs id (DeviceCall.removeDevice "phone").task onePhone
      (.remove (.returned (some "n") false)) onePhone :=
    .step (c := ⟨false, some "n"⟩) (i := 0) rfl
      (.step (c := ⟨false, none⟩) (i := 0) rfl
        (.step (c := ⟨false, none⟩) (i := 0) rfl (.done _ _)))
  exact ⟨(failed_leaves_devices_iff hruns rfl).mpr trivial, hruns⟩

/-- The store refuses the new token, and memory has it all the same. -/
theorem failed_update_stays :
    ∃ t, Runs id (DeviceCall.updateDevicePush "n" .fcm "new" 6).task onePhone
        (.update "n" (.setPush .fcm "new" 6) (some .failed)) t ∧
      (t.devices.lookup "n").map (·.pushToken) = some (some "new") ∧
      (onePhone.devices.lookup "n").map (·.pushToken) = some (some "t") ∧
      ¬ onePhone.SameDevices t := by
  have hruns : Runs id (DeviceCall.updateDevicePush "n" .fcm "new" 6).task onePhone
      (.update "n" (.setPush .fcm "new" 6) (some .failed))
      (updateStep id ⟨false, none⟩ "n" (.setPush .fcm "new" 6) onePhone).1 :=
    .step (c := ⟨false, none⟩) (i := 0) rfl (.done _ _)
  refine ⟨_, hruns, rfl, rfl, fun hsame => ?_⟩
  have htoken := congrArg (Option.map StoredDevice.pushToken) (hsame "n")
  exact absurd htoken (by decide)

end DeviceAtomicity
end Shelly.Daemon
