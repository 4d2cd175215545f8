import Shelly.Daemon.Authorized

namespace Shelly.Daemon

/-- The buffer keeps no more than it may. -/
structure PtyRingBuffer.Bounded (r : PtyRingBuffer) : Prop where
  capacity : r.capacity = ringCapacity
  length : r.data.length ≤ ringCapacity

def Session.Bounded (o : Session) : Prop := o.ring.Bounded

def StoredSession.Bounded (stored : StoredSession) : Prop := stored.scrollback.length ≤ ringCapacity

/-- No session holds more output than a buffer keeps, in memory or in the store. -/
structure AppState.Bounded (s : AppState) : Prop where
  objects : s.objects.All Session.Bounded
  restored : s.restored.All StoredSession.Bounded
  persisted : ∀ rows, s.persisted = some rows → rows.All StoredSession.Bounded

/-- What the observer of an exit carries. -/
def EvictPc.Bounded : EvictPc → Prop
  | .naming stored | .restoring stored | .capping stored | .cappingMap stored _
  | .cappingName stored _ _ | .cappingRow stored _ | .unregistering stored | .rechecking stored
  | .releasing stored => stored.Bounded
  | _ => True

def SessionTask.Bounded : SessionTask → Prop
  | .kill _ _ => True
  | .evict _ pc => pc.Bounded
  | .persist _ _ (.saving stored) => stored.Bounded
  | .persist _ _ _ => True

def DaemonTask.Bounded : DaemonTask → Prop
  | .background task => task.Bounded
  | _ => True

theorem PtyRingBuffer.Bounded.push {r : PtyRingBuffer} (h : r.Bounded) (bytes : List UInt8) :
    (r.push bytes).2.Bounded := by
  obtain ⟨hcapacity, hlength⟩ := h
  unfold PtyRingBuffer.push
  split
  · exact ⟨hcapacity, hlength⟩
  · split
    · exact ⟨hcapacity, Nat.zero_le _⟩
    · refine ⟨hcapacity, ?_⟩
      dsimp only
      rw [hcapacity, List.length_append, List.length_drop]
      split
      · rw [List.length_drop]
        omega
      · omega

theorem PtyRingBuffer.Bounded.replay {r : PtyRingBuffer} (h : r.Bounded) {seq start : Nat}
    {replay : List UInt8} (hreplay : r.replayFrom seq = some (start, replay)) :
    replay.length ≤ ringCapacity := by
  unfold PtyRingBuffer.replayFrom at hreplay
  split at hreplay
  · cases hreplay
  · cases hreplay
    rw [List.length_drop]
    exact (Nat.sub_le _ _).trans h.length

theorem Session.bounded_spawn (id : SessionId) (name : String) (createdAt : Nat) :
    (Session.spawn id name createdAt).Bounded :=
  ⟨rfl, Nat.zero_le _⟩

theorem Session.Bounded.storedSnapshot {o : Session} (h : o.Bounded) : o.storedSnapshot.Bounded :=
  PtyRingBuffer.Bounded.length h

variable {s s' : AppState}

theorem AppState.bounded_new : AppState.new.Bounded where
  objects := Table.all_empty
  restored := Table.all_empty
  persisted rows hrows := by
    cases hrows
    exact Table.all_empty

/-- A step after which the tables hold what they held before. -/
theorem AppState.Bounded.of_same (h : s.Bounded) (hobjects : s'.objects = s.objects)
    (hrestored : s'.restored = s.restored) (hpersisted : s'.persisted = s.persisted) :
    s'.Bounded where
  objects := hobjects ▸ h.objects
  restored := hrestored ▸ h.restored
  persisted rows hrows := h.persisted rows (hpersisted ▸ hrows)

theorem AppState.Bounded.update (h : s.Bounded) (id : SessionId) {f : Session → Session}
    (hf : ∀ o : Session, o.Bounded → (f o).Bounded) : (s.update id f).Bounded :=
  ⟨h.objects.modify id hf, h.restored, h.persisted⟩

theorem AppState.Bounded.removeSession (h : s.Bounded) (id : SessionId) :
    (s.removeSession id).Bounded := by
  refine ⟨h.objects, h.restored, fun rows hrows => ?_⟩
  obtain ⟨before, hbefore, rfl⟩ := Option.map_eq_some_iff.mp hrows
  exact (h.persisted before hbefore).erase id

theorem AppState.Bounded.saveSession (h : s.Bounded) {stored : StoredSession}
    (hstored : stored.Bounded) : (s.saveSession stored).Bounded := by
  refine ⟨h.objects, h.restored, fun rows hrows => ?_⟩
  obtain ⟨before, hbefore, rfl⟩ := Option.map_eq_some_iff.mp hrows
  exact (h.persisted before hbefore).insert _ hstored

theorem killStep_bounded {c : SessionChoice} {id : SessionId} {pc pc' : KillPc} (h : s.Bounded)
    (hs : killStep c id pc s = some (s', pc')) : s'.Bounded := by
  cases pc with
  | looking =>
    simp only [killStep] at hs
    split at hs <;> cases hs <;> exact h.of_same rfl rfl rfl
  | flagging name =>
    cases hs
    exact h.update id fun o ho => ho
  | signalling name | unregistering name | releasing removedName | publishing ok =>
    cases hs
    exact h.of_same rfl rfl rfl
  | forgetting removedName =>
    cases hs
    exact ⟨h.objects, h.restored.erase id, h.persisted⟩
  | erasing =>
    simp only [killStep] at hs
    split at hs
    · cases hs
      exact (h.removeSession id).of_same rfl rfl rfl
    · cases hs
      exact h
  | returned ok => cases hs

theorem evictStep_bounded {c : SessionChoice} {i : Nat} {id : SessionId} {pc pc' : EvictPc}
    (h : s.Bounded) (hpc : pc.Bounded) (hs : evictStep c i id pc s = some (s', pc')) :
    s'.Bounded ∧ pc'.Bounded := by
  cases pc with
  | observing =>
    simp only [evictStep] at hs
    split at hs
    · split at hs
      · cases hs
        exact ⟨h.of_same rfl rfl rfl, trivial⟩
      · cases hs
    · cases hs
  | looking =>
    cases hs
    refine ⟨h, ?_⟩
    split <;> trivial
  | checking =>
    obtain ⟨o, -, heq⟩ := Option.map_eq_some_iff.mp hs
    cases heq
    refine ⟨h, ?_⟩
    split <;> trivial
  | capturing =>
    obtain ⟨o, ho, heq⟩ := Option.map_eq_some_iff.mp hs
    cases heq
    exact ⟨h, (h.objects id o ho).storedSnapshot⟩
  | naming stored =>
    cases hs
    exact ⟨h.of_same rfl rfl rfl, hpc⟩
  | restoring stored =>
    cases hs
    exact ⟨⟨h.objects, h.restored.insert _ hpc, h.persisted⟩, hpc⟩
  | capping stored =>
    simp only [evictStep] at hs
    split at hs
    · split at hs
      · split at hs
        · cases hs
          exact ⟨h, hpc⟩
        · cases hs
      · cases hs
    · cases hs
      exact ⟨h, hpc⟩
  | cappingMap stored oldest =>
    cases hs
    exact ⟨⟨h.objects, h.restored.erase oldest, h.persisted⟩, hpc⟩
  | cappingName stored oldest removed =>
    simp only [evictStep] at hs
    split at hs
    · split at hs
      · cases hs
        exact ⟨h, hpc⟩
      · cases hs
        exact ⟨h.of_same rfl rfl rfl, hpc⟩
    · cases hs
      exact ⟨h, hpc⟩
  | cappingRow stored oldest =>
    cases hs
    refine ⟨?_, hpc⟩
    split
    · exact h.removeSession oldest
    · exact h
  | unregistering stored =>
    cases hs
    exact ⟨h.of_same rfl rfl rfl, hpc⟩
  | rechecking stored =>
    cases hs
    refine ⟨h, ?_⟩
    split
    · trivial
    · exact hpc
  | releasing stored | publishing =>
    cases hs
    exact ⟨h.of_same rfl rfl rfl, trivial⟩
  | returned => cases hs

theorem persistStep_bounded {c : SessionChoice} {id : SessionId} {final : Bool}
    {pc pc' : PersistPc} (h : s.Bounded) (hpc : (SessionTask.persist id final pc).Bounded)
    (hs : persistStep c id final pc s = some (s', pc')) :
    s'.Bounded ∧ (SessionTask.persist id final pc').Bounded := by
  cases pc with
  | starting =>
    obtain ⟨o, -, heq⟩ := Option.map_eq_some_iff.mp hs
    cases heq
    refine ⟨h.update id fun o ho => ho, ?_⟩
    split <;> trivial
  | checking =>
    obtain ⟨o, -, heq⟩ := Option.map_eq_some_iff.mp hs
    cases heq
    refine ⟨h, ?_⟩
    split <;> trivial
  | capturing =>
    obtain ⟨o, ho, heq⟩ := Option.map_eq_some_iff.mp hs
    cases heq
    exact ⟨h, (h.objects id o ho).storedSnapshot⟩
  | saving stored =>
    simp only [persistStep] at hs
    split at hs
    · cases hs
      exact ⟨h.saveSession hpc, trivial⟩
    · cases hs
      exact ⟨h, trivial⟩
  | failed =>
    cases hs
    exact ⟨h.update id fun o ho => ho, trivial⟩
  | returned => cases hs

theorem sessionAdvance_bounded {c : SessionChoice} {i : Nat} {x x' : SessionTask} (h : s.Bounded)
    (hx : x.Bounded) (hs : sessionAdvance c i x s = some (s', x')) : s'.Bounded ∧ x'.Bounded := by
  cases x with
  | kill id pc =>
    obtain ⟨⟨t, pc'⟩, hstep, heq⟩ := Option.map_eq_some_iff.mp hs
    cases heq
    exact ⟨killStep_bounded h hstep, trivial⟩
  | evict id pc =>
    obtain ⟨⟨t, pc'⟩, hstep, heq⟩ := Option.map_eq_some_iff.mp hs
    cases heq
    exact evictStep_bounded h hx hstep
  | persist id final pc =>
    obtain ⟨⟨t, pc'⟩, hstep, heq⟩ := Option.map_eq_some_iff.mp hs
    cases heq
    exact persistStep_bounded h hx hstep

theorem createStep_bounded {host : HostEnv} {c : RegistryChoice} {i : Nat} {clientKind : ClientKind}
    {call : CreateCall} {pc pc' : CreatePc} {r r' : Registry} (h : r.app.Bounded)
    (hs : createStep host c i clientKind call pc r = some (r', pc')) : r'.app.Bounded := by
  cases pc with
  | start =>
    simp only [createStep] at hs
    split at hs
    · cases hs
      exact h
    · split at hs <;> cases hs <;> exact h
  | reserving name | autoNaming start attempt =>
    simp only [createStep] at hs
    split at hs
    · cases hs
      exact h
    · cases hs
      exact h.of_same rfl rfl rfl
  | spawning name =>
    simp only [createStep] at hs
    split at hs
    · cases hs
      exact h
    · split at hs
      · split at hs
        · cases hs
          exact ⟨h.objects.insert _ (Session.bounded_spawn _ _ _), h.restored, h.persisted⟩
        · cases hs
      · cases hs
        exact h
  | unrestoring id name =>
    cases hs
    exact ⟨h.objects, h.restored.erase id, h.persisted⟩
  | dropping name message | inserting id name | publishing id =>
    cases hs
    exact h.of_same rfl rfl rfl
  | forwarding id =>
    cases hs
    exact h
  | returned result => cases hs

theorem registryAdvance_bounded {host : HostEnv} {c : RegistryChoice} {i : Nat}
    {x x' : SessionTask} {r r' : Registry} (h : r.app.Bounded) (hx : x.Bounded)
    (hs : registryAdvance host c i (.session x) r = some (r', .session x')) :
    r'.app.Bounded ∧ x'.Bounded := by
  have hadvance {t : AppState} {y : SessionTask}
      (hstep : sessionAdvance c.toSessionChoice i x r.app = some (t, y)) :
      t.Bounded ∧ y.Bounded := sessionAdvance_bounded h hx hstep
  unfold registryAdvance at hs
  split at hs
  · next heq => cases heq
  · next heq =>
    cases heq
    split at hs
    · obtain ⟨⟨t, y⟩, hstep, heq⟩ := Option.map_eq_some_iff.mp hs
      cases heq
      exact hadvance hstep
    · cases hs
  · next heq =>
    cases heq
    obtain ⟨⟨t, y⟩, hstep, heq⟩ := Option.map_eq_some_iff.mp hs
    cases heq
    exact hadvance hstep

theorem sessionEvent_bounded {e : SessionEvent} {keep : Bool} (h : s.Bounded)
    (hs : sessionEvent e s = some (s', keep)) : s'.Bounded := by
  cases e with
  | create id name now =>
    simp only [sessionEvent] at hs
    split at hs
    · cases hs
      exact ⟨h.objects.insert id (Session.bounded_spawn id name now), h.restored, h.persisted⟩
    · cases hs
  | record id bytes =>
    cases hs
    exact h.update id fun o ho => PtyRingBuffer.Bounded.push ho bytes
  | markDirty id | markExited id exitCode =>
    cases hs
    exact h.update id fun o ho => ho
  | restart kept =>
    obtain ⟨rows, hrows, heq⟩ := Option.map_eq_some_iff.mp hs
    cases heq
    have hkept := (h.persisted rows hrows).retain fun id _ => decide (id ∈ kept)
    refine ⟨Table.all_empty, hkept, fun rows' hrows' => ?_⟩
    cases hrows'
    exact hkept

variable {host : HostEnv} {storageKey : String → String}
  {pairingSas : String → String → String → Except String String} {c : DaemonChoice} {i : Nat}
  {s s' : DaemonState}

theorem sessionCallStep_bounded {attached : Option SessionId} {call : SessionCall}
    {r : DaemonState × Option SessionId × List Reply × Option SessionCall}
    (h : s.registry.app.Bounded) (hs : sessionCallStep host c i attached s call = some r) :
    r.1.registry.app.Bounded := by
  have hdetach (attached : Option SessionId) (t : DaemonState) :
      (t.detachClient i attached).registry = t.registry := by cases attached <;> rfl
  unfold sessionCallStep at hs
  split at hs
  · cases hs
    exact h
  · cases hs
    exact h
  · obtain ⟨⟨r', pc'⟩, hstep, rfl⟩ := Option.map_eq_some_iff.mp hs
    exact createStep_bounded h hstep
  · cases hs
    exact h
  · cases hs
    exact h
  · obtain ⟨⟨t, pc'⟩, hstep, rfl⟩ := Option.map_eq_some_iff.mp hs
    exact killStep_bounded h hstep
  · split at hs <;> cases hs <;> exact h
  · obtain ⟨session, -, rfl⟩ := Option.map_eq_some_iff.mp hs
    have hjoined (size : ClientSize) (id : SessionId) :
        ((s.detachClient i attached).attachClient i id size).registry = s.registry :=
      hdetach attached s
    dsimp only
    split
    · split
      · rw [hdetach, hjoined]
        exact h
      · rw [hjoined]
        exact h
    · rw [hjoined]
      exact h
  · split at hs
    · cases hs
      exact h
    · split at hs <;> cases hs <;> exact h
  · split at hs <;> cases hs <;> exact h

theorem hook_bounded (c : DaemonChoice) (conn : LocalConnection) (h : s.registry.app.Bounded)
    (id : SessionId) (source : AgentSource) (state : AgentState) (lastLine : Option String) :
    (hook c conn s id source state lastLine).1.registry.app.Bounded := by
  unfold hook
  split
  · exact h
  · dsimp only
    split
    · exact h
    · split
      · exact h.update id fun o ho => ho
      · exact h

theorem daemonAdvance_bounded {x x' : DaemonTask} (h : s.registry.app.Bounded) (hx : x.Bounded)
    (hs : daemonAdvance host storageKey pairingSas c i x s = some (s', x')) :
    s'.registry.app.Bounded ∧ x'.Bounded := by
  cases x with
  | iroh conn pc =>
    obtain ⟨⟨t, conn', pc'⟩, hstep, heq⟩ := Option.map_eq_some_iff.mp hs
    cases heq
    refine ⟨?_, trivial⟩
    cases iroh_effect hstep with
    | session hcall => exact sessionCallStep_bounded h hcall
    | quiet | update | request | complete | remove => exact h
    | close =>
      cases hattached : conn.attached with
      | none => exact h
      | some id => exact h
  | desktop conn pc =>
    obtain ⟨⟨t, conn', pc'⟩, hstep, heq⟩ := Option.map_eq_some_iff.mp hs
    cases heq
    refine ⟨?_, trivial⟩
    cases local_effect hstep with
    | session hcall => exact sessionCallStep_bounded h hcall
    | quiet | begin | approve | remove => exact h
    | hook => exact hook_bounded c conn h _ _ _ _
    | close =>
      cases hattached : conn.attached with
      | none => exact h
      | some id => exact h
  | background task =>
    obtain ⟨⟨r, y⟩, hr, hy⟩ := Option.bind_eq_some_iff.mp hs
    cases y with
    | create kind call pc => cases hy
    | session task' =>
      cases hy
      exact registryAdvance_bounded h hx hr

theorem daemonEvent_bounded {e : DaemonEvent} {keep : Bool} (h : s.registry.app.Bounded)
    (hs : daemonEvent e s = some (s', keep)) : s'.registry.app.Bounded := by
  cases e with
  | session e =>
    cases e with
    | restart kept | create id name now => cases hs
    | record id bytes =>
      cases hs
      exact h.update id fun o ho => PtyRingBuffer.Bounded.push ho bytes
    | markDirty id | markExited id exitCode =>
      cases hs
      exact h.update id fun o ho => ho
  | infer id state lastLine | irohReady nodeId =>
    cases hs
    exact h
  | tick ms =>
    simp only [daemonEvent] at hs
    split at hs
    · cases hs
      exact h
    · cases hs
  | restart kept =>
    obtain ⟨⟨r, k⟩, hr, hs⟩ := Option.bind_eq_some_iff.mp hs
    obtain ⟨d, -, heq⟩ := Option.map_eq_some_iff.mp hs
    obtain ⟨⟨t, k'⟩, hevent, hr⟩ := Option.map_eq_some_iff.mp hr
    cases hr
    cases heq
    exact sessionEvent_bounded h hevent

/-- What a daemon that has stored nothing yet gets to. -/
theorem bounded_of_run {p q : Pool DaemonState DaemonTask}
    (hp : Tasking.Safe (fun s => s.registry.app.Bounded) (fun _ _ x => x.Bounded) p)
    (h : (daemonTasking host storageKey pairingSas).machine.Run Machine.Any p q) :
    Tasking.Safe (fun s => s.registry.app.Bounded) (fun _ _ x => x.Bounded) q := by
  refine h.invariant (fun t a u ht _ hs => ?_) hp
  obtain ⟨hG, hL⟩ := ht
  -- A task that is set keeps what holds of the others.
  have hset {i : Nat} {x : DaemonTask} {s : DaemonState} (hs : s.registry.app.Bounded)
      (hx : x.Bounded) : Tasking.Safe (fun s => s.registry.app.Bounded) (fun _ _ x => x.Bounded)
        ((t.setShared s).setTask i x) := by
    refine ⟨hs, fun j y hy => ?_⟩
    rw [Pool.setTask_task] at hy
    split at hy
    · cases hy
      exact hx
    · exact hL j y hy
  cases Tasking.stepped_of_step hs with
  | spawn i x hx hi =>
    refine hset (s := t.shared) hG ?_
    rcases daemon_start hx with ⟨id, rfl⟩ | ⟨kind, rfl⟩ | ⟨task, rfl⟩
    · trivial
    · trivial
    · cases task with
      | kill id pc => trivial
      | evict id pc => cases pc <;> trivial
      | persist id final pc => cases pc <;> trivial
  | advance i c x x' s' hx hadvance =>
    obtain ⟨hs', hx'⟩ := daemonAdvance_bounded hG (hL i x hx) hadvance
    exact hset hs' hx'
  | drop i x hx hcancellable => cases hcancellable
  | keep e s' hevent => exact ⟨daemonEvent_bounded hG hevent, hL⟩
  | clear e s' hevent =>
    refine ⟨daemonEvent_bounded hG hevent, fun j y hy => ?_⟩
    rw [Pool.empty_task] at hy
    cases hy

end Shelly.Daemon
