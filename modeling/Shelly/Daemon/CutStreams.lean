import Shelly.Daemon.LiveStreams
import Shelly.Daemon.Revoked

namespace Shelly.Daemon.Streams

variable {storageKey : String → String} {s s' : StreamState} {d : String} {seen : Nat}

section Invariant

/-- A watcher of revocations: its device is in the map, or a removal that took it out has not
signalled that yet, or the watcher is told. -/
structure Watches (s : StreamState) (d : String) (seen : Nat) : Prop where
  seen_le : seen ≤ s.version d
  held : s.isDevicePaired d = true ∨ d ∈ s.signalling ∨ s.revoked d seen = true

/-- A device that is cut off is not in the map, and no signal about it is still to come. -/
structure Cut (s : StreamState) : Prop where
  unpaired : ∀ d ∈ s.cut, s.isDevicePaired d = false
  signalled : ∀ d ∈ s.cut, d ∉ s.signalling

/-- What a receiver has not been given yet was sent before its device was cut off, or its watcher is
told. -/
def Clear (s : StreamState) (id : SessionId) (rx : Nat) (d : String) (seen : Nat) : Prop :=
  ∀ channel, s.channels.lookup id = some channel → ∀ e ∈ channel.sent.drop rx, d ∈ e.cut →
    s.revoked d seen = true

def ListClear (s : StreamState) (rx : Nat) (d : String) (seen : Nat) : Prop :=
  s.list.changed rx = true → d ∈ s.list.value.cut → s.revoked d seen = true

structure AttachForwarder.Ok (s : StreamState) (d : String) (f : AttachForwarder) : Prop where
  watches : Watches s d f.seen
  clear : Clear s f.sessionId f.rx d f.seen
  writing : ∀ e terminal, f.writing = some (e, terminal) → d ∉ e.cut

/-- A forwarder that is about to read the list `rx` may read it, or has a later one before it. -/
def ListPc.Ok (s : StreamState) (d : String) (rx : Nat) : ListPc → Prop
  | .waiting => True
  | .reading woken => rx = woken ∧ woken ≤ s.list.version ∧
      (s.list.version = woken → d ∉ s.list.value.cut)
  | .writing e => d ∉ e.cut

structure ListForwarder.Ok (s : StreamState) (d : String) (f : ListForwarder) : Prop where
  watches : Watches s d f.seen
  clear : ListClear s f.rx d f.seen
  pc : f.pc.Ok s d f.rx

/-- What holds of the watcher from the check that the device is paired until a forwarder has a copy
of it. -/
def MainPc.Ok (s : StreamState) (d : String) (seen : Nat) : MainPc → Prop
  | .subscribingList | .joining _ => Watches s d seen
  | .startingList rx => Watches s d seen ∧ ListClear s rx d seen
  | .startingAttach id rx _ => Watches s d seen ∧ Clear s id rx d seen
  | _ => True

structure Connection.Ok (s : StreamState) (conn : Connection) (pc : MainPc) : Prop where
  seen_le : ∀ seen, conn.seen = some seen → seen ≤ s.version conn.device
  pc : ∀ seen, conn.seen = some seen → pc.Ok s conn.device seen
  attach : ∀ f, conn.attach = some f → f.Ok s conn.device
  list : ∀ f, conn.list = some f → f.Ok s conn.device

def StreamTask.Ok (s : StreamState) : StreamTask → Prop
  | .remove _ => True
  | .connection conn pc => conn.Ok s pc

end Invariant

section Watchers

theorem Watches.told (h : Watches s d seen) (hs : Cut s) (hd : d ∈ s.cut) :
    s.revoked d seen = true := by
  rcases h.held with hpaired | hsignal | htold
  · exact absurd hpaired (by simp [hs.unpaired d hd])
  · exact absurd hsignal (hs.signalled d hd)
  · exact htold

/-- A step that takes no device out of the map or the signals without telling its watchers. -/
structure Tells (s s' : StreamState) : Prop where
  version_le : ∀ d, s.version d ≤ s'.version d
  held : ∀ d, s.isDevicePaired d = true ∨ d ∈ s.signalling →
    s'.isDevicePaired d = true ∨ d ∈ s'.signalling ∨ s.version d < s'.version d

theorem Tells.revoked (ht : Tells s s') (h : s.revoked d seen = true) :
    s'.revoked d seen = true := by
  have hle := ht.version_le d
  simp only [StreamState.revoked, decide_eq_true_eq] at h ⊢
  omega

theorem Watches.tells (h : Watches s d seen) (ht : Tells s s') : Watches s' d seen := by
  have hseen := h.seen_le
  have hle := ht.version_le d
  refine ⟨by omega, ?_⟩
  have hlt (hversion : s.version d < s'.version d) : s'.revoked d seen = true := by
    simp only [StreamState.revoked, decide_eq_true_eq]
    omega
  rcases h.held with hpaired | hsignal | htold
  · exact (ht.held d (.inl hpaired)).imp_right fun h => h.imp_right hlt
  · exact (ht.held d (.inr hsignal)).imp_right fun h => h.imp_right hlt
  · exact .inr (.inr (ht.revoked htold))

/-- A step after which every watcher and every receiver is as well off as before. -/
structure Evolves (s s' : StreamState) : Prop where
  tells : Tells s s'
  clear : ∀ id rx d seen, Watches s d seen → Clear s id rx d seen → Clear s' id rx d seen
  listClear : ∀ rx d seen, Watches s d seen → ListClear s rx d seen → ListClear s' rx d seen
  listPc : ∀ pc : ListPc, ∀ d rx, pc.Ok s d rx → pc.Ok s' d rx

theorem AttachForwarder.Ok.evolves {f : AttachForwarder} (h : f.Ok s d) (he : Evolves s s') :
    f.Ok s' d :=
  ⟨h.watches.tells he.tells, he.clear _ _ _ _ h.watches h.clear, h.writing⟩

theorem ListForwarder.Ok.evolves {f : ListForwarder} (h : f.Ok s d) (he : Evolves s s') :
    f.Ok s' d :=
  ⟨h.watches.tells he.tells, he.listClear _ _ _ h.watches h.clear, he.listPc _ _ _ h.pc⟩

theorem MainPc.Ok.evolves {pc : MainPc} (h : pc.Ok s d seen) (he : Evolves s s') :
    pc.Ok s' d seen := by
  cases pc with
  | subscribingList | joining => exact Watches.tells h he.tells
  | startingList rx => exact ⟨h.1.tells he.tells, he.listClear _ _ _ h.1 h.2⟩
  | startingAttach id rx attachedSeq => exact ⟨h.1.tells he.tells, he.clear _ _ _ _ h.1 h.2⟩
  | _ => trivial

theorem Connection.Ok.evolves {conn : Connection} {pc : MainPc} (h : conn.Ok s pc)
    (he : Evolves s s') : conn.Ok s' pc where
  seen_le seen hseen := (h.seen_le seen hseen).trans (he.tells.version_le _)
  pc seen hseen := (h.pc seen hseen).evolves he
  attach f hf := (h.attach f hf).evolves he
  list f hf := (h.list f hf).evolves he

theorem StreamTask.Ok.evolves {x : StreamTask} (h : x.Ok s) (he : Evolves s s') : x.Ok s' := by
  cases x with
  | remove pc => trivial
  | connection conn pc => exact Connection.Ok.evolves h he

end Watchers

section Devices

/-- A step that tells the watchers and broadcasts nothing. -/
structure Kept (s s' : StreamState) : Prop where
  tells : Tells s s'
  cut : Cut s → Cut s'
  severed : s.Severed → s'.Severed
  channels : s'.channels = s.channels
  list : s'.list = s.list

theorem Kept.evolves (h : Kept s s') : Evolves s s' where
  tells := h.tells
  clear id rx d seen _ hclear channel hchannel e he hd := by
    rw [h.channels] at hchannel
    exact h.tells.revoked (hclear channel hchannel e he hd)
  listClear rx d seen _ hclear hchanged hd := by
    rw [h.list] at hchanged hd
    exact h.tells.revoked (hclear hchanged hd)
  listPc pc d rx hpc := by
    cases pc with
    | reading woken =>
      simp only [ListPc.Ok, h.list]
      exact hpc
    | waiting | writing => exact hpc

theorem Kept.refl (s : StreamState) : Kept s s :=
  ⟨⟨fun _ => le_rfl, fun _ h => h.imp_right .inl⟩, id, id, rfl, rfl⟩

theorem kept_of_same {devices : DeviceState}
    (h : ∀ d, devices.devices.contains d = s.devices.devices.contains d) :
    Kept s { s with devices := devices } where
  tells := ⟨fun _ => le_rfl, fun d hd => by
    simp only [StreamState.isDevicePaired, h d]
    exact hd.imp_right .inl⟩
  cut hs := ⟨fun d hd => (h d).trans (hs.unpaired d hd), hs.signalled⟩
  severed := id
  channels := rfl
  list := rfl

theorem updateStep_contains {c : DeviceChoice} {id : String} {change : DeviceUpdate}
    {devices : DeviceState} (d : String) :
    (updateStep storageKey c id change devices).1.devices.contains d =
      devices.devices.contains d := by
  unfold updateStep
  split
  · rfl
  · rename_i device hdevice
    have hid : devices.devices.contains id = true := by simp [Table.contains, hdevice]
    split
    · rfl
    · dsimp only
      split <;> exact Table.contains_insert_of_contains hid d

variable {c : DeviceChoice}

theorem version_revoke (s : StreamState) (id d : String) :
    (s.revoke id).version d = if d = id then s.version id + 1 else s.version d := by
  unfold StreamState.version StreamState.revoke
  rw [Table.lookup_insert]
  split <;> rfl

/-- A device that is taken out of the map is signalled from then on, until its watchers are told. -/
theorem revokeStep_kept {pc pc' : RemovePc} (h : revokeStep storageKey c pc s = some (s', pc')) :
    Kept s s' := by
  obtain ⟨⟨devices, next⟩, hstep, heq⟩ := Option.map_eq_some_iff.mp h
  cases pc with
  | finding name =>
    simp only [removeStep] at hstep
    split at hstep
    · split at hstep
      · split at hstep
        · cases hstep
          cases heq
          exact kept_of_same fun _ => rfl
        · cases hstep
      · cases hstep
    · split at hstep
      · cases hstep
        cases heq
        exact kept_of_same fun _ => rfl
      · cases hstep
  | checking id =>
    simp only [removeStep] at hstep
    split at hstep <;> cases hstep <;> cases heq <;> exact kept_of_same fun _ => rfl
  | erasingRow id =>
    simp only [removeStep] at hstep
    split at hstep <;> cases hstep <;> cases heq <;> exact kept_of_same fun _ => rfl
  | unmapping id =>
    simp only [removeStep] at hstep
    split at hstep
    · rename_i device hdevice
      cases hstep
      cases heq
      have hid : s.isDevicePaired id = true := by
        simp [StreamState.isDevicePaired, Table.contains, hdevice]
      have hother (d : String) (hd : d ≠ id) :
          (s.devices.devices.erase id).contains d = s.isDevicePaired d := by
        simp only [StreamState.isDevicePaired, Table.contains, Table.lookup_erase_ne _ hd]
      refine ⟨⟨fun _ => le_rfl, fun d hd => ?_⟩, fun hs => ⟨fun d hd => ?_, fun d hd hmem => ?_⟩,
        fun hs => hs, rfl, rfl⟩
      · by_cases hne : d = id
        · exact .inr (.inl (List.mem_cons.mpr (.inl hne)))
        · exact hd.imp (fun hp => (hother d hne).trans hp) fun hs =>
            .inl (List.mem_cons_of_mem _ hs)
      · have hne : d ≠ id := by
          rintro rfl
          exact Bool.false_ne_true ((hs.unpaired _ hd).symm.trans hid)
        exact (hother d hne).trans (hs.unpaired d hd)
      · rcases List.mem_cons.mp hmem with rfl | hmem
        · exact Bool.false_ne_true ((hs.unpaired _ hd).symm.trans hid)
        · exact hs.signalled d hd hmem
    · rename_i hnone
      cases hstep
      cases heq
      refine kept_of_same fun d => ?_
      simp only [Table.erase_of_lookup_none hnone]
  | revoking id device =>
    cases hstep
    cases heq
    have hversion (d : String) := version_revoke
      { s with
        devices := { s.devices with
          revocations := s.devices.revocations.modify id fun n => (n + 1) % 2 ^ 64 }
        signalling := s.signalling.erase id } id d
    refine ⟨⟨fun d => ?_, fun d hd => ?_⟩, fun hs => ⟨hs.unpaired, fun d hd hmem => ?_⟩,
      fun hs => hs, rfl, rfl⟩
    · refine le_of_le_of_eq ?_ (hversion d).symm
      split
      · rename_i heq
        exact heq ▸ Nat.le_succ _
      · exact le_rfl
    · by_cases hne : d = id
      · refine .inr (.inr (lt_of_lt_of_eq ?_ (hversion d).symm))
        rw [if_pos hne, hne]
        exact Nat.lt_succ_self _
      · exact hd.imp_right fun hs => .inl ((List.mem_erase_of_ne hne).mpr hs)
    · exact hs.signalled d hd (List.mem_of_mem_erase hmem)
  | returned id ok => cases hstep

/-- A removal that returns has no signal about its device outstanding, its own or another's. -/
theorem signalled_of_returned {c : StreamChoice} {pc : RemovePc} {id : String}
    (h : revokeStep storageKey c.device pc s = some (s', .returned (some id) true))
    (hheeds : (StreamTask.remove pc).heeds c s = true) :
    s'.isDevicePaired id = true ∨ id ∉ s'.signalling := by
  have hreturning (signals : List String) (hr : returning s pc = some (id, signals)) :
      s.isDevicePaired id = true ∨ id ∉ signals := by
    simpa [StreamTask.heeds, hr] using hheeds
  obtain ⟨⟨devices, next⟩, hstep, heq⟩ := Option.map_eq_some_iff.mp h
  cases pc with
  | finding name =>
    simp only [removeStep] at hstep
    split at hstep
    · split at hstep
      · split at hstep
        · cases hstep
          cases heq
        · cases hstep
      · cases hstep
    · split at hstep
      · cases hstep
        cases heq
      · cases hstep
  | checking other =>
    simp only [removeStep] at hstep
    split at hstep <;> cases hstep <;> cases heq
    rename_i hnot
    refine hreturning s.signalling ?_
    rw [returning]
    exact if_neg hnot
  | erasingRow other =>
    simp only [removeStep] at hstep
    split at hstep <;> cases hstep <;> cases heq
  | unmapping other =>
    simp only [removeStep] at hstep
    split at hstep <;> cases hstep <;> cases heq
    rename_i hnone
    have hnot : s.isDevicePaired id = false := by
      simp [StreamState.isDevicePaired, Table.contains, hnone]
    refine .inr ((hreturning s.signalling ?_).resolve_left (by simp [hnot]))
    simp [returning, hnot]
  | revoking other device =>
    cases hstep
    cases heq
    exact hreturning (s.signalling.erase id) rfl
  | returned other ok => cases hstep

theorem cut_cutOff {id : String} (hs : Cut s)
    (hid : s.isDevicePaired id = true ∨ id ∉ s.signalling) : Cut (s.cutOff id) := by
  cases hpaired : s.isDevicePaired id with
  | true =>
    have heq : s.cutOff id = s := by simp [StreamState.cutOff, hpaired]
    rw [heq]
    exact hs
  | false =>
    have hsignal := hid.resolve_left (by simp [hpaired])
    have hcut : (s.cutOff id).cut = insert id s.cut := by simp [StreamState.cutOff, hpaired]
    refine ⟨fun d hd => ?_, fun d hd => ?_⟩
    · rw [hcut, Finset.mem_insert] at hd
      rcases hd with rfl | hd
      · exact hpaired
      · exact hs.unpaired d hd
    · rw [hcut, Finset.mem_insert] at hd
      rcases hd with rfl | hd
      · exact hsignal
      · exact hs.signalled d hd

theorem removeDeviceStep_kept {c : StreamChoice} {pc pc' : RemovePc}
    (h : removeDeviceStep storageKey c.device pc s = some (s', pc'))
    (hheeds : (StreamTask.remove pc).heeds c s = true) : Kept s s' := by
  obtain ⟨⟨t, next⟩, hstep, heq⟩ := Option.map_eq_some_iff.mp h
  have hkept := revokeStep_kept hstep
  obtain ⟨rfl, rfl⟩ := Prod.mk.inj heq
  split
  · rename_i id hnext
    subst hnext
    have hcut := signalled_of_returned hstep hheeds
    exact ⟨⟨hkept.tells.version_le, hkept.tells.held⟩, fun hs => cut_cutOff (hkept.cut hs) hcut,
      hkept.severed, hkept.channels, hkept.list⟩
  · exact hkept

theorem savePairStep_kept {device : StoredDevice} {pc pc' : PairPc}
    (h : savePairStep storageKey c device pc s = some (s', pc')) : Kept s s' := by
  obtain ⟨⟨devices, next⟩, hstep, heq⟩ := Option.map_eq_some_iff.mp h
  cases pc with
  | waiting | saving =>
    simp only [pairStep] at hstep
    split at hstep <;> cases hstep <;> cases heq <;> exact kept_of_same fun _ => rfl
  | inserting =>
    cases hstep
    cases heq
    have hother (d : String) (hd : d ≠ device.deviceNodeId) :
        (s.devices.devices.insert device.deviceNodeId device).contains d =
          s.isDevicePaired d := by
      simp only [StreamState.isDevicePaired, Table.contains, Table.lookup_insert_ne _ _ hd]
    have hown : (s.devices.devices.insert device.deviceNodeId device).contains
        device.deviceNodeId = true := by
      simp [Table.contains]
    refine ⟨⟨fun _ => le_rfl, fun d hd => ?_⟩, fun hs => ⟨fun d hd => ?_, fun d hd => ?_⟩, id, rfl,
      rfl⟩
    · by_cases hne : d = device.deviceNodeId
      · exact .inl (hne ▸ hown)
      · exact hd.imp (fun hp => (hother d hne).trans hp) .inl
    · obtain ⟨hne, hd⟩ := Finset.mem_erase.mp hd
      exact (hother d hne).trans (hs.unpaired d hd)
    · exact hs.signalled d (Finset.mem_of_mem_erase hd)
  | watching =>
    cases hstep
    cases heq
    refine kept_of_same fun _ => ?_
    split <;> rfl
  | returned ok => cases hstep

end Devices

section Forwarders

variable {c : StreamChoice}

/-- What is written was sent before the device was cut off. -/
theorem write_kept {e : Stamped} (he : d ∉ e.cut) : Kept s (s.write d e) where
  tells := ⟨fun _ => le_rfl, fun _ h => h.imp_right .inl⟩
  cut hs := ⟨hs.unpaired, hs.signalled⟩
  severed hs w hw := by
    rcases List.mem_cons.mp hw with rfl | hw
    · exact he
    · exact hs w hw
  channels := rfl
  list := rfl

theorem attachStep_ok {f : AttachForwarder} {next : Option AttachForwarder}
    (hok : f.Ok s d)
    (hheeds : f.writing.isSome = true ∨ c.goesOn = false ∨ s.revoked d f.seen = false)
    (h : attachStep c d f s = some (s', next)) :
    Kept s s' ∧ ∀ g, next = some g → g.Ok s' d := by
  unfold attachStep at h
  split at h
  · rename_i hgoes
    split at h
    · rename_i e terminal hwriting
      obtain ⟨rfl, rfl⟩ := Prod.mk.inj (Option.some.inj h)
      have hkept : Kept s (s.write d e) := write_kept (hok.writing e terminal hwriting)
      refine ⟨hkept, fun g hg => ?_⟩
      have hf := hok.evolves hkept.evolves
      cases terminal with
      | true => cases hg
      | false =>
        cases hg
        exact ⟨hf.watches, hf.clear, by rintro _ _ ⟨⟩⟩
    · rename_i hwriting
      have hnot : s.revoked d f.seen = false := by simpa [hwriting, hgoes] using hheeds
      obtain ⟨⟨received, rx⟩, hrecv, heq⟩ := Option.map_eq_some_iff.mp h
      obtain ⟨channel, hchannel, hrecv⟩ := Option.bind_eq_some_iff.mp hrecv
      have hclear := hok.clear channel hchannel
      -- Only the position of the receiver changes, and what it is about to write.
      have hmoved (g : AttachForwarder) (hseen : g.seen = f.seen) (hid : g.sessionId = f.sessionId)
          (hdrop : ∀ e ∈ channel.sent.drop g.rx, e ∈ channel.sent.drop f.rx)
          (hg : ∀ e terminal, g.writing = some (e, terminal) → d ∉ e.cut) : g.Ok s d := by
        refine ⟨hseen ▸ hok.watches, fun other hother e he hd => ?_, hg⟩
        rw [hid, hchannel] at hother
        cases hother
        exact hseen ▸ hclear e (hdrop e he) hd
      cases received with
      | message e =>
        obtain ⟨-, hdrop⟩ := Broadcast.drop_of_recv_message hrecv
        have hmem : e ∈ channel.sent.drop f.rx := hdrop ▸ List.mem_cons_self
        have hrest : ∀ x ∈ channel.sent.drop rx, x ∈ channel.sent.drop f.rx :=
          fun x hx => hdrop ▸ List.mem_cons_of_mem _ hx
        have he : d ∉ e.cut := fun hd => by simp [hclear e hmem hd] at hnot
        dsimp only at heq
        split at heq
        · split at heq
          · cases heq
            refine ⟨.refl s, fun g hg => ?_⟩
            cases hg
            exact hmoved _ rfl rfl hrest (by simp [hwriting])
          · cases heq
            refine ⟨.refl s, fun g hg => ?_⟩
            cases hg
            refine hmoved _ rfl rfl hrest ?_
            rintro _ _ ⟨⟩
            exact he
        · cases heq
          refine ⟨.refl s, fun g hg => ?_⟩
          cases hg
          exact hmoved _ rfl rfl hrest (by simp [hwriting])
      | lagged skipped =>
        cases heq
        refine ⟨.refl s, fun g hg => ?_⟩
        cases hg
        refine hmoved _ rfl rfl (fun x hx => ?_) ?_
        · have hle : f.rx ≤ rx := Broadcast.le_of_recv_lagged hrecv
          exact (List.drop_sublist_drop_left _ hle).subset hx
        · rintro _ _ ⟨⟩
          exact Finset.notMem_empty d
  · cases h
    exact ⟨.refl s, by rintro g ⟨⟩⟩

theorem listStep_ok {f : ListForwarder} {next : Option ListForwarder} (hok : f.Ok s d)
    (hwaiting : f.pc = .waiting → c.goesOn = false ∨ s.revoked d f.seen = false)
    (hreading : ∀ woken, f.pc = .reading woken →
      s.revoked d f.seen = false ∨ s.list.version = woken)
    (h : listStep c d f s = some (s', next)) :
    Kept s s' ∧ ∀ g, next = some g → g.Ok s' d := by
  unfold listStep at h
  split at h
  · rename_i hgoes
    have hseen (pc : ListPc) (hpc : pc.Ok s d s.list.version) :
        ListForwarder.Ok s d ⟨f.seen, s.list.version, pc⟩ := by
      refine ⟨hok.watches, fun hchanged => ?_, hpc⟩
      simp [Watch.changed] at hchanged
    split at h
    · rename_i hpc
      have hnot : s.revoked d f.seen = false := by simpa [hgoes] using hwaiting hpc
      split at h
      · rename_i hchanged
        cases h
        refine ⟨.refl s, fun g hg => ?_⟩
        cases hg
        refine hseen _ ⟨rfl, le_rfl, fun _ hd => ?_⟩
        simp [hok.clear hchanged hd] at hnot
      · cases h
    · rename_i woken hpc
      cases h
      refine ⟨.refl s, fun g hg => ?_⟩
      cases hg
      refine hseen _ fun hd => ?_
      obtain ⟨hrx, hle, hsame⟩ : ListPc.Ok s d f.rx (.reading woken) := hpc ▸ hok.pc
      rcases Nat.eq_or_lt_of_le hle with heq | hlt
      · exact hsame heq.symm hd
      · have htold := hok.clear (decide_eq_true (hrx ▸ hlt)) hd
        rcases hreading woken hpc with hnot | heq
        · exact Bool.false_ne_true (hnot.symm.trans htold)
        · omega
    · rename_i e hpc
      obtain ⟨rfl, rfl⟩ := Prod.mk.inj (Option.some.inj h)
      have he : d ∉ e.cut := by
        have hwriting := hok.pc
        rwa [hpc] at hwriting
      have hkept : Kept s (s.write d e) := write_kept he
      refine ⟨hkept, fun g hg => ?_⟩
      cases hg
      have hf := hok.evolves hkept.evolves
      exact ⟨hf.watches, hf.clear, trivial⟩
  · cases h
    exact ⟨.refl s, by rintro g ⟨⟩⟩

end Forwarders

section Connections

variable {c : StreamChoice} {conn conn' : Connection} {pc pc' : MainPc}

theorem Connection.Ok.goto (h : conn.Ok s pc)
    (hpc : ∀ seen, conn.seen = some seen → pc'.Ok s conn.device seen) : conn.Ok s pc' :=
  ⟨h.seen_le, hpc, h.attach, h.list⟩

/-- The check at a message, for a connection that is served as paired. -/
theorem Connection.Ok.watches (h : conn.Ok s pc) (hpaired : s.isDevicePaired conn.device = true)
    (hseen : conn.seen = some seen) : Watches s conn.device seen :=
  ⟨h.seen_le seen hseen, .inl hpaired⟩

theorem handle_ok {m : Request} (hok : conn.Ok s .serving)
    (hchecked : conn.paired = true → s.isDevicePaired conn.device = true) :
    Kept s (handle storageKey c conn s m).1 ∧
      conn.Ok (handle storageKey c conn s m).1 (handle storageKey c conn s m).2 := by
  cases m with
  | subscribeSessions =>
    refine ⟨.refl s, hok.goto fun seen hseen => ?_⟩
    dsimp only [handle]
    split
    · rename_i hpaired
      exact hok.watches (hchecked hpaired) hseen
    · trivial
  | attachSession id =>
    refine ⟨.refl s, hok.goto fun seen hseen => ?_⟩
    dsimp only [handle]
    split
    · rename_i hpaired
      exact hok.watches (hchecked hpaired) hseen
    · trivial
  | pairWithCode | unpairSelf | other =>
    exact ⟨.refl s, hok.goto fun _ _ => trivial⟩
  | update change =>
    dsimp only [handle]
    split
    · have hkept : Kept s { s with
          devices := (updateStep storageKey c.device conn.device change s.devices).1 } :=
        kept_of_same updateStep_contains
      exact ⟨hkept, Connection.Ok.evolves hok hkept.evolves⟩
    · exact ⟨.refl s, hok⟩
  | detachSession =>
    refine ⟨.refl s, hok.goto fun seen hseen => ?_⟩
    dsimp only [handle]
    split <;> trivial

theorem mainStep_ok (hok : conn.Ok s pc)
    (h : mainStep storageKey c conn pc s = some (s', conn', pc')) :
    Kept s s' ∧ conn'.Ok s' pc' := by
  cases pc with
  | connecting =>
    simp only [mainStep] at h
    split at h
    · cases h
      refine ⟨.refl s, hok.seen_le, fun seen _ => ?_, hok.attach, hok.list⟩
      split <;> trivial
    · cases h
      exact ⟨.refl s, hok.goto fun _ _ => trivial⟩
  | subscribing =>
    cases h
    have hkept : Kept s (s.subscribeRevocation conn.device) := kept_of_same fun _ => rfl
    have hok' := Connection.Ok.evolves hok hkept.evolves
    refine ⟨hkept, fun seen hseen => ?_, fun _ _ => trivial, hok'.attach, hok'.list⟩
    cases hseen
    exact le_rfl
  | marking =>
    cases h
    have hkept : Kept s { s with
        devices := (updateStep storageKey c.device conn.device (.markSeen c.now) s.devices).1 } :=
      kept_of_same updateStep_contains
    exact ⟨hkept, (Connection.Ok.evolves hok hkept.evolves).goto fun _ _ => trivial⟩
  | rechecking =>
    cases h
    refine ⟨.refl s, hok.goto fun _ _ => ?_⟩
    split <;> trivial
  | serving =>
    simp only [mainStep] at h
    split at h
    · cases h
      exact ⟨.refl s, hok.goto fun _ _ => trivial⟩
    · split at h
      · cases h
        exact ⟨.refl s, hok.goto fun _ _ => trivial⟩
      · rename_i m hnot
        cases h
        refine handle_ok hok fun hpaired => ?_
        simpa [hpaired] using hnot
  | subscribingList =>
    cases h
    refine ⟨.refl s, hok.seen_le, fun seen hseen => ⟨hok.pc seen hseen, fun hchanged => ?_⟩,
      hok.attach, by rintro f ⟨⟩⟩
    simp [Watch.changed] at hchanged
  | startingList rx =>
    simp only [mainStep] at h
    split at h
    · obtain ⟨seen, hseen, heq⟩ := Option.map_eq_some_iff.mp h
      cases heq
      obtain ⟨hwatches, hclear⟩ := hok.pc seen hseen
      refine ⟨.refl s, hok.seen_le, fun _ _ => trivial, hok.attach, fun f hf => ?_⟩
      cases hf
      exact ⟨hwatches, hclear, trivial⟩
    · cases h
      exact ⟨.refl s, hok.goto fun _ _ => trivial⟩
  | joining id =>
    simp only [mainStep] at h
    split at h
    · cases h
      exact ⟨.refl s, hok.goto fun _ _ => trivial⟩
    · rename_i channel hchannel
      cases h
      refine ⟨.refl s, hok.seen_le, fun seen hseen => ⟨hok.pc seen hseen, ?_⟩, by rintro f ⟨⟩,
        hok.list⟩
      intro other hother e he
      cases hchannel.symm.trans hother
      simp [Broadcast.subscribe] at he
  | startingAttach id rx attachedSeq =>
    simp only [mainStep] at h
    split at h
    · split at h
      · cases h
        exact ⟨.refl s, hok.goto fun _ _ => trivial⟩
      · obtain ⟨seen, hseen, heq⟩ := Option.map_eq_some_iff.mp h
        cases heq
        obtain ⟨hwatches, hclear⟩ := hok.pc seen hseen
        refine ⟨.refl s, hok.seen_le, fun _ _ => trivial, fun f hf => ?_, hok.list⟩
        cases hf
        exact ⟨hwatches, hclear, by rintro _ _ ⟨⟩⟩
    · cases h
      exact ⟨.refl s, hok.goto fun _ _ => trivial⟩
  | pairing device ppc =>
    cases ppc with
    | returned ok =>
      cases ok with
      | false =>
        cases h
        refine ⟨.refl s, hok.goto fun _ _ => ?_⟩
        split <;> trivial
      | true =>
        cases h
        refine ⟨.refl s, fun seen hseen => ?_, fun _ _ => trivial, hok.attach, hok.list⟩
        cases hseen
        exact le_rfl
    | watching =>
      simp only [mainStep] at h
      obtain ⟨⟨t, next⟩, hstep, heq⟩ := Option.map_eq_some_iff.mp h
      cases heq
      have hkept := savePairStep_kept hstep
      have hok' := Connection.Ok.evolves hok hkept.evolves
      refine ⟨hkept, fun seen hseen => ?_, fun _ _ => trivial, hok'.attach, hok'.list⟩
      cases hseen
      exact hkept.tells.version_le _
    | waiting | saving | inserting =>
      simp only [mainStep] at h
      obtain ⟨⟨t, next⟩, hstep, heq⟩ := Option.map_eq_some_iff.mp h
      cases heq
      have hkept := savePairStep_kept hstep
      exact ⟨hkept, (Connection.Ok.evolves hok hkept.evolves).goto fun _ _ => trivial⟩
  | unpairing rpc =>
    cases rpc with
    | returned id ok =>
      cases ok with
      | false =>
        cases h
        exact ⟨.refl s, hok.goto fun _ _ => trivial⟩
      | true =>
        cases h
        exact ⟨.refl s, by rintro seen ⟨⟩, fun _ _ => trivial, hok.attach, hok.list⟩
    | finding | checking | erasingRow | unmapping | revoking =>
      simp only [mainStep] at h
      obtain ⟨⟨t, next⟩, hstep, heq⟩ := Option.map_eq_some_iff.mp h
      cases heq
      have hkept := revokeStep_kept hstep
      exact ⟨hkept, (Connection.Ok.evolves hok hkept.evolves).goto fun _ _ => trivial⟩
  | closing =>
    cases h
    exact ⟨.refl s, hok.seen_le, fun _ _ => trivial, by rintro f ⟨⟩, by rintro f ⟨⟩⟩
  | closed => cases h

/-- A step of a task that heeds the signals. -/
theorem streamAdvance_ok {x x' : StreamTask} (hok : x.Ok s)
    (hheeds : x.heeds c s = true) (h : streamAdvance storageKey c x s = some (s', x')) :
    Kept s s' ∧ x'.Ok s' := by
  cases x with
  | remove pc =>
    obtain ⟨⟨t, next⟩, hstep, heq⟩ := Option.map_eq_some_iff.mp h
    cases heq
    exact ⟨removeDeviceStep_kept hstep hheeds, trivial⟩
  | connection conn pc =>
    simp only [streamAdvance] at h
    split at h
    · obtain ⟨⟨t, conn', next⟩, hstep, heq⟩ := Option.map_eq_some_iff.mp h
      cases heq
      exact mainStep_ok hok hstep
    · rename_i hturn
      obtain ⟨f, hf, h⟩ := Option.bind_eq_some_iff.mp h
      obtain ⟨⟨t, next⟩, hstep, heq⟩ := Option.map_eq_some_iff.mp h
      cases heq
      have hheeds : f.writing.isSome = true ∨ c.goesOn = false ∨
          s.revoked conn.device f.seen = false := by
        simpa [StreamTask.heeds, hturn, hf, or_assoc] using hheeds
      obtain ⟨hkept, hnext⟩ := attachStep_ok (Connection.Ok.attach hok f hf) hheeds hstep
      have hok' := Connection.Ok.evolves hok hkept.evolves
      exact ⟨hkept, hok'.seen_le, hok'.pc, hnext, hok'.list⟩
    · rename_i hturn
      obtain ⟨f, hf, h⟩ := Option.bind_eq_some_iff.mp h
      obtain ⟨⟨t, next⟩, hstep, heq⟩ := Option.map_eq_some_iff.mp h
      cases heq
      have hwaiting (hpc : f.pc = .waiting) :
          c.goesOn = false ∨ s.revoked conn.device f.seen = false := by
        simpa [StreamTask.heeds, hturn, hf, hpc] using hheeds
      have hreading (woken : Nat) (hpc : f.pc = .reading woken) :
          s.revoked conn.device f.seen = false ∨ s.list.version = woken := by
        simpa [StreamTask.heeds, hturn, hf, hpc] using hheeds
      obtain ⟨hkept, hnext⟩ := listStep_ok (Connection.Ok.list hok f hf) hwaiting hreading hstep
      have hok' := Connection.Ok.evolves hok hkept.evolves
      exact ⟨hkept, hok'.seen_le, hok'.pc, hok'.attach, hnext⟩

end Connections

section Broadcasts

/-- What is broadcast carries the devices that are cut off then, all of whose watchers are told. -/
theorem broadcastEvent_evolves {e : BroadcastEvent} {keep : Bool} (hs : Cut s)
    (h : broadcastEvent e s = some (s', keep)) :
    Evolves s s' ∧ Cut s' ∧ s'.written = s.written := by
  have htells (channels : Table SessionId (Broadcast Stamped)) (list : Watch Stamped) :
      Tells s { s with channels := channels, list := list } :=
    ⟨fun _ => le_rfl, fun _ h => h.imp_right .inl⟩
  cases e with
  | openSession id =>
    simp only [broadcastEvent] at h
    split at h
    · cases h
    · rename_i hnew
      cases h
      refine ⟨⟨htells _ _, ?_, fun _ _ _ _ hclear => hclear, fun _ _ _ hpc => hpc⟩,
        ⟨hs.unpaired, hs.signalled⟩, rfl⟩
      intro other rx d seen _ hclear channel hchannel
      rw [Table.lookup_insert] at hchannel
      split at hchannel
      · cases hchannel
        intro e he
        simp [Broadcast.channel] at he
      · exact hclear channel hchannel
  | broadcast id message =>
    obtain ⟨sent, hsent, heq⟩ := Option.map_eq_some_iff.mp h
    cases heq
    refine ⟨⟨htells _ _, ?_, fun _ _ _ _ hclear => hclear, fun _ _ _ hpc => hpc⟩,
      ⟨hs.unpaired, hs.signalled⟩, rfl⟩
    intro other rx d seen hwatches hclear channel hchannel
    rw [Table.lookup_insert] at hchannel
    split at hchannel
    · rename_i hid
      cases hchannel
      intro e he hd
      rcases Broadcast.mem_drop_send he with he | rfl
      · exact hclear sent (hid ▸ hsent) e he hd
      · exact hwatches.told hs hd
    · exact hclear channel hchannel
  | publish sessions =>
    cases h
    refine ⟨⟨htells _ _, fun _ _ _ _ _ hclear => hclear, ?_, ?_⟩, ⟨hs.unpaired, hs.signalled⟩, rfl⟩
    · intro rx d seen hwatches _ _ hd
      exact hwatches.told hs hd
    · intro pc d rx hpc
      cases pc with
      | waiting | writing => exact hpc
      | reading woken =>
        obtain ⟨hrx, hle, -⟩ := hpc
        have hlt : woken < s.list.version + 1 := by omega
        exact ⟨hrx, hlt.le, fun heq => absurd heq (Nat.ne_of_gt hlt)⟩

end Broadcasts

theorem streams_noninterference : Tasking.Noninterference (streamTasking storageKey) Heedful
    (fun s => Cut s ∧ s.Severed) fun s _ x => x.Ok s where
  init s h := by
    obtain ⟨devices, -, rfl⟩ := h
    exact ⟨⟨fun d hd => absurd hd (Finset.notMem_empty d),
      fun d hd => absurd hd (Finset.notMem_empty d)⟩, fun w hw => by cases hw⟩
  fresh p i x _ _ hx := by
    cases x with
    | remove pc => trivial
    | connection conn pc =>
      cases pc with
      | connecting =>
        have hnew : conn = .new conn.device := eq_of_beq hx
        rw [hnew]
        exact ⟨by rintro seen ⟨⟩, fun _ _ => trivial, by rintro f ⟨⟩, by rintro f ⟨⟩⟩
      | _ => cases hx
  own p i c x s' x' hc hG hx hL hr := by
    obtain ⟨hkept, hok⟩ := streamAdvance_ok hL (hc x hx) hr
    exact ⟨⟨hkept.cut hG.1, hkept.severed hG.2⟩, hok⟩
  others p i c x s' x' hc hG hx hL hr j y _ _ hy := by
    obtain ⟨hkept, -⟩ := streamAdvance_ok hL (hc x hx) hr
    exact hy.evolves hkept.evolves
  environment p e s' keep _ hG hr := by
    obtain ⟨hevolves, hcut, hwritten⟩ := broadcastEvent_evolves hG.1 hr
    refine ⟨⟨hcut, fun w hw => hG.2 w (hwritten ▸ hw)⟩, fun _ j y _ hy => hy.evolves hevolves⟩

/-- In every run whose steps heed the signals, nothing that is sent after a removal has returned
reaches a connection of its device. -/
theorem revocation_cuts_streams {p : Pool StreamState StreamTask}
    (h : (streamTasking storageKey).machine.ReachableWhen Heedful p) : p.shared.Severed :=
  (streams_noninterference.invariant h).1.2

section Traces

private def rowKey (id : String) : String := "sha256:" ++ id

/-- Everything succeeds, forwarders go on, and the desktop finds the device by its name. -/
private def goesWell (turn : Turn) (message : Option Request) : StreamChoice :=
  ⟨turn, true, true, false, some "node", message, 0, 0⟩

private def screenOutput (seq : Nat) : BroadcastEvent :=
  .broadcast 7 (.output 7 seq [])

/-- A phone is paired and attaches to a session. -/
private def attachedRun : List (Move StreamTask StreamChoice BroadcastEvent) :=
  List.flatten [[.spawn 0 (.connection (.new "node") .connecting),
      .advance 0 (goesWell .main none), .advance 0 (goesWell .main (some (.pairWithCode "phone")))],
    Move.repeated 5 0 (goesWell .main none),
    [.environment (.openSession 7), .advance 0 (goesWell .main (some (.attachSession 7)))],
    Move.repeated 2 0 (goesWell .main none)]

/-- The desktop removes the phone. -/
private def removedRun : List (Move StreamTask StreamChoice BroadcastEvent) :=
  .spawn 1 (.remove (.finding "phone")) :: Move.repeated 5 1 (goesWell .main none)

/-- An output is written before the removal and another one is sent after it, which the forwarder
does not take. -/
theorem revocation_cuts_streams_run :
    ∃ p, (streamTasking rowKey).machine.ReachableWhen Heedful p ∧
      p.shared.cut = {"node"} ∧ p.shared.written.length = 1 ∧ p.shared.Severed := by
  obtain ⟨p, hr, hcut, hwritten⟩ :=
    (streamTasking rowKey).machine.exists_reachable_of_exec Heedful
      (fun p => p.shared.cut = {"node"} ∧ p.shared.written.length = 1)
      (List.flatten [attachedRun, [.environment (screenOutput 1)],
        Move.repeated 2 0 (goesWell .attach none), removedRun,
        [.environment (screenOutput 2), .advance 0 { goesWell .attach none with goesOn := false }]])
      (Tasking.init_empty ⟨_, DeviceState.opened_new rowKey, rfl⟩) (by decide)
  exact ⟨p, hr, hcut, hwritten, revocation_cuts_streams hr⟩

/-- The forwarder finds the revocation and an output, and takes the output. -/
theorem output_after_removal :
    ¬ ∀ (storageKey : String → String) (p : Pool StreamState StreamTask),
      (streamTasking storageKey).machine.Reachable p → p.shared.Severed := by
  intro hall
  obtain ⟨p, hr, hwritten⟩ :=
    (streamTasking rowKey).machine.exists_reachable_of_exec Machine.Any
      (fun p => ∃ w ∈ p.shared.written, w.1 ∈ w.2.cut)
      (List.flatten [attachedRun, removedRun, [.environment (screenOutput 1)],
        Move.repeated 2 0 (goesWell .attach none)])
      (Tasking.init_empty ⟨_, DeviceState.opened_new rowKey, rfl⟩) (by decide)
  obtain ⟨w, hw, hcut⟩ := hwritten
  exact hall rowKey p hr w hw hcut

end Traces

end Shelly.Daemon.Streams
