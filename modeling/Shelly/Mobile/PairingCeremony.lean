import Shelly.Daemon.Authorized
import Shelly.Daemon.Completed
import Shelly.Mobile.PairingGate

namespace Shelly.Mobile.Pending

open Daemon

/-- The daemon and a phone. -/
structure Ceremony where
  daemon : Pool DaemonState DaemonTask
  phone : Pool ShellyClient PhoneTask

/-- What happens next: something in the daemon or in the phone, or the daemon accepts the phone's
stream `k` and serves it as its task `i`. -/
inductive CeremonyMove
  | daemon (a : Move DaemonTask DaemonChoice DaemonEvent)
  | phone (a : Move PhoneTask PhoneChoice PhoneEvent)
  | accept (k i : Nat)

/-- What there is on a stream of the phone once the daemon has moved. What was written before the
daemon stopped is still there. -/
def BiStream.follow (d : Pool DaemonState DaemonTask) (b : BiStream) : BiStream :=
  match b.peer with
  | .serving i =>
    match d.task i with
    | some (.iroh conn _) => { b with sent := conn.replies }
    | _ => { b with peer := .gone }
  | .waiting | .gone => b

namespace ShellyClient

def follow (s : ShellyClient) (d : Pool DaemonState DaemonTask) : ShellyClient :=
  { s with streams := s.streams.mapVal fun b => b.follow d }

def serve (s : ShellyClient) (k i : Nat) (b : BiStream) : ShellyClient :=
  { s with streams := s.streams.insert k { b with peer := .serving i } }

end ShellyClient

section Machine

variable (host : HostEnv) (storageKey : String → String)
  (pairingSas : String → String → String → Except String String)
  (phoneNodeId : String) (secretKey : List UInt8) (isDaemon : String → Bool)

/-- The transport has proved to each side who the other one is. What the phone writes is not
tied to what the daemon takes, so the daemon is safe from any phone. -/
def ceremonyMachine : Machine Ceremony CeremonyMove where
  init p := (daemonTasking host storageKey pairingSas).machine.init p.daemon ∧
    (phoneTasking phoneNodeId secretKey pairingSas isDaemon).machine.init p.phone
  step
    | .daemon a, p =>
      ((daemonTasking host storageKey pairingSas).machine.step a p.daemon).map fun d =>
        ⟨d, p.phone.setShared (p.phone.shared.follow d)⟩
    | .phone a, p =>
      ((phoneTasking phoneNodeId secretKey pairingSas isDaemon).machine.step a p.phone).map
        fun phone => ⟨p.daemon, phone⟩
    | .accept k i, p =>
      (p.phone.shared.streams.lookup k).bind fun b =>
        if isDaemon b.nodeId ∧ b.peer = .waiting then
          ((daemonTasking host storageKey pairingSas).machine.step
            (.spawn i (.iroh (.new phoneNodeId) .connecting)) p.daemon).map fun d =>
              ⟨d, p.phone.setShared (p.phone.shared.serve k i b)⟩
        else none

/-- The machine with the states so far as its history, the last one first. -/
def ceremonySeen : Machine (Ceremony × List Ceremony) CeremonyMove :=
  (ceremonyMachine host storageKey pairingSas phoneNodeId secretKey isDaemon).watched
    (fun p => [p]) fun _ _ q seen => q :: seen

end Machine

def Ceremony.Opened (p : Ceremony) (k : Nat) : Prop :=
  (p.phone.shared.streams.lookup k).isSome = true

section Statement

variable (storageKey : String → String) (phoneNodeId : String) (isDaemon : String → Bool)

/-- Since the stream was opened the daemon has had the row of the device in its store, if it has a
store. -/
def Stored (seen : List Ceremony) (k : Nat) (device : StoredDevice) : Prop :=
  ∃ q ∈ seen, q.Opened k ∧ ∀ rows, q.daemon.shared.devices.persisted = some rows →
    rows.lookup (storageKey device.deviceNodeId) = some device

/-- Since the stream was opened the daemon has had the device in its map. -/
def Paired (seen : List Ceremony) (k : Nat) (device : StoredDevice) : Prop :=
  ∃ q ∈ seen, q.Opened k ∧ q.daemon.shared.devices.devices.lookup device.deviceNodeId = some device

/-- Since the stream was opened the daemon has saved the phone as a paired device. -/
def Saved (seen : List Ceremony) (k : Nat) : Prop :=
  ∃ device : StoredDevice, device.deviceNodeId = phoneNodeId ∧ Stored storageKey seen k device ∧
    Paired seen k device

/-- What has happened when an attempt has set the stored target: it was confirmed, the phone has
read on the stream of the attempt that the pairing is complete, under the identity of the target,
no cancellation of it has succeeded, and the daemon, if that is the target, has saved the phone. -/
structure Confirmed (seen : List Ceremony) (p : Ceremony) (n : Nat) (pairing : PendingPairing)
    (b : BiStream) : Prop where
  made : p.phone.shared.pairings.lookup n = some pairing
  confirmed : ∃ i info, p.phone.task i = some (.confirm n (.returned (.ok info)))
  stream : p.phone.shared.streams.lookup pairing.stream = some b
  nodeId : b.nodeId = pairing.target.nodeId
  complete : .pairingComplete pairing.target.nodeId ∈ b.sent.take b.read
  uncancelled : ∀ i u, p.phone.task i ≠ some (.cancel n (.returned (.ok u)))
  saved : isDaemon pairing.target.nodeId = true → Saved storageKey phoneNodeId seen pairing.stream

/-- How the stored target changes: it is given up, or an attempt sets it to its own. -/
def Retargeted (s s' : ShellyClient) : Prop :=
  s'.daemon = none ∨ ∃ n pairing, s'.setBy = n :: s.setBy ∧
    s'.pairings.lookup n = some pairing ∧ s'.daemon = some pairing.target

/-- What a connection that completes a pairing has done. -/
def Vouched (seen : List Ceremony) (k : Nat) : IrohPc → Prop
  | .completing device ppc => device.deviceNodeId = phoneNodeId ∧ match ppc with
      | .inserting => Stored storageKey seen k device
      | .watching | .returned true =>
        Stored storageKey seen k device ∧ Paired seen k device
      | _ => True
  | _ => True

/-- How a stream stands with the daemon. -/
structure Linked (seen : List Ceremony) (p : Ceremony) (k : Nat) (b : BiStream) : Prop where
  waiting : b.peer = .waiting → isDaemon b.nodeId = true → b.sent = []
  serving : ∀ i, b.peer = .serving i → isDaemon b.nodeId = true ∧
    ∃ conn pc, p.daemon.task i = some (.iroh conn pc) ∧ conn.remoteNodeId = phoneNodeId ∧
      b.sent = conn.replies ∧ Vouched storageKey phoneNodeId seen k pc
  completed : isDaemon b.nodeId = true → b.sent.any Daemon.Reply.completes = true →
    Saved storageKey phoneNodeId seen k

structure CeremonySafe (p : Ceremony × List Ceremony) : Prop where
  phone : Tasking.Safe ShellyClient.Sound Local p.1.phone
  linked : ∀ k b, p.1.phone.shared.streams.lookup k = some b →
    Linked storageKey phoneNodeId isDaemon p.2 p.1 k b
  confirmed : ∀ n ∈ p.1.phone.shared.setBy,
    ∃ i info, p.1.phone.task i = some (.confirm n (.returned (.ok info)))

end Statement

section Proofs

variable {host : HostEnv} {storageKey : String → String}
  {pairingSas : String → String → String → Except String String}
  {phoneNodeId : String} {secretKey : List UInt8} {isDaemon : String → Bool}
variable {seen : List Ceremony} {p q : Ceremony} {k : Nat} {b b' : BiStream}

theorem Stored.cons {device : StoredDevice} (h : Stored storageKey seen k device) (q : Ceremony) :
    Stored storageKey (q :: seen) k device := by
  obtain ⟨r, hr, h⟩ := h
  exact ⟨r, List.mem_cons_of_mem q hr, h⟩

theorem Paired.cons {device : StoredDevice} (h : Paired seen k device) (q : Ceremony) :
    Paired (q :: seen) k device := by
  obtain ⟨r, hr, h⟩ := h
  exact ⟨r, List.mem_cons_of_mem q hr, h⟩

theorem Saved.cons (h : Saved storageKey phoneNodeId seen k) (q : Ceremony) :
    Saved storageKey phoneNodeId (q :: seen) k := by
  obtain ⟨device, hdevice, hstored, hpaired⟩ := h
  exact ⟨device, hdevice, hstored.cons q, hpaired.cons q⟩

theorem Vouched.cons {pc : IrohPc} (h : Vouched storageKey phoneNodeId seen k pc) (q : Ceremony) :
    Vouched storageKey phoneNodeId (q :: seen) k pc := by
  cases pc with
  | completing device ppc =>
    obtain ⟨hdevice, h⟩ := h
    refine ⟨hdevice, ?_⟩
    cases ppc with
    | waiting | saving => trivial
    | inserting => exact h.cons q
    | watching => exact ⟨h.1.cons q, h.2.cons q⟩
    | returned ok =>
      cases ok with
      | true => exact ⟨h.1.cons q, h.2.cons q⟩
      | false => trivial
  | _ => trivial

/-- A step of a connection that serves the phone. -/
theorem vouched_step {c : DaemonChoice} {i : Nat} {conn conn' : IrohConnection}
    {s : DaemonState} {pc pc' : IrohPc} (hremote : conn.remoteNodeId = phoneNodeId)
    (hopened : q.Opened k) (h : Vouched storageKey phoneNodeId seen k pc)
    (hs : irohStep host storageKey pairingSas c i conn pc s =
      some (q.daemon.shared, conn', pc')) :
    Vouched storageKey phoneNodeId (q :: seen) k pc' := by
  cases pc' with
  | completing device ppc' =>
    rcases completing_of_step hs with ⟨rfl, hdevice⟩ | ⟨answer, ppc, rfl, hpair⟩
    · exact ⟨hdevice.trans hremote, trivial⟩
    · obtain ⟨hinserting, hwatching, hreturned⟩ := saved_of_pairStep hpair
      refine ⟨h.1, ?_⟩
      cases ppc' with
      | waiting | saving => trivial
      | inserting =>
        obtain ⟨-, hrows⟩ := hinserting rfl
        exact ⟨q, List.mem_cons_self, hopened, hrows⟩
      | watching =>
        obtain ⟨rfl, hlookup⟩ := hwatching rfl
        exact ⟨Stored.cons h.2 q, q, List.mem_cons_self, hopened, hlookup⟩
      | returned ok =>
        cases ok with
        | true =>
          obtain rfl := hreturned rfl
          exact ⟨Stored.cons h.2.1 q, Paired.cons h.2.2 q⟩
        | false => trivial
  | _ => trivial

/-- Nothing happens on a stream. -/
theorem Linked.cons (h : Linked storageKey phoneNodeId isDaemon seen p k b)
    (htasks : ∀ i x, p.daemon.task i = some x → q.daemon.task i = some x) :
    Linked storageKey phoneNodeId isDaemon (q :: seen) q k b where
  waiting := h.waiting
  serving i hi := by
    obtain ⟨hdaemon, conn, pc, htask, hremote, hsent, hvouched⟩ := h.serving i hi
    exact ⟨hdaemon, conn, pc, htasks i _ htask, hremote, hsent, hvouched.cons q⟩
  completed hdaemon hsent := (h.completed hdaemon hsent).cons q

theorem BiStream.follow_of_task {d : Pool DaemonState DaemonTask} {i : Nat} {conn : IrohConnection}
    {pc : IrohPc} (hpeer : b.peer = .serving i) (htask : d.task i = some (.iroh conn pc)) :
    b.follow d = { b with sent := conn.replies } := by
  simp only [BiStream.follow, hpeer, htask]

theorem BiStream.follow_of_none {d : Pool DaemonState DaemonTask} {i : Nat}
    (hpeer : b.peer = .serving i) (htask : d.task i = none) :
    b.follow d = { b with peer := .gone } := by
  simp only [BiStream.follow, hpeer, htask]

/-- The stream of a connection that has told the phone of a pairing only if it was saved. -/
theorem linked_of_task {i : Nat} {conn : IrohConnection} {pc : IrohPc}
    (hpeer : b.peer = .serving i) (hdaemon : isDaemon b.nodeId = true)
    (htask : q.daemon.task i = some (.iroh conn pc)) (hremote : conn.remoteNodeId = phoneNodeId)
    (hvouched : Vouched storageKey phoneNodeId (q :: seen) k pc)
    (hcompleted : conn.completed = true → Saved storageKey phoneNodeId (q :: seen) k) :
    Linked storageKey phoneNodeId isDaemon (q :: seen) q k { b with sent := conn.replies } where
  waiting hwaiting := by cases hpeer.symm.trans hwaiting
  serving j hj := by
    cases hpeer.symm.trans hj
    exact ⟨hdaemon, conn, pc, htask, hremote, rfl, hvouched⟩
  completed _ hsent := hcompleted hsent

/-- What a move of the daemon does to a stream of the phone. -/
theorem linked_follow {a : Move DaemonTask DaemonChoice DaemonEvent}
    {d : Pool DaemonState DaemonTask}
    (hstep : (daemonTasking host storageKey pairingSas).machine.step a p.daemon = some d)
    (hq : q.daemon = d) (hopened : q.Opened k)
    (h : Linked storageKey phoneNodeId isDaemon seen p k b) :
    b.Grows (b.follow d) ∧
      Linked storageKey phoneNodeId isDaemon (q :: seen) q k (b.follow d) := by
  have hunserved (hpeer : ∀ i, b.peer ≠ .serving i) (hsame : b.follow d = b) :
      b.Grows (b.follow d) ∧
        Linked storageKey phoneNodeId isDaemon (q :: seen) q k (b.follow d) := by
    rw [hsame]
    exact ⟨.refl b, h.waiting, fun i hi => absurd hi (hpeer i),
      fun hdaemon hsent => (h.completed hdaemon hsent).cons q⟩
  cases hpeer : b.peer with
  | waiting => exact hunserved (hpeer ▸ nofun) (by simp only [BiStream.follow, hpeer])
  | gone => exact hunserved (hpeer ▸ nofun) (by simp only [BiStream.follow, hpeer])
  | serving i =>
    obtain ⟨hdaemon, conn, pc, htask, hremote, hsent, hvouched⟩ := h.serving i hpeer
    have hstay (htask' : d.task i = some (.iroh conn pc)) : b.Grows (b.follow d) ∧
        Linked storageKey phoneNodeId isDaemon (q :: seen) q k (b.follow d) := by
      rw [BiStream.follow_of_task hpeer htask']
      refine ⟨⟨rfl, le_refl _, hsent ▸ List.prefix_rfl⟩, linked_of_task hpeer hdaemon (hq ▸ htask')
        hremote (hvouched.cons q) fun hcompleted => ?_⟩
      exact (h.completed hdaemon (hsent ▸ hcompleted)).cons q
    cases Tasking.stepped_of_step hstep with
    | spawn j x hx hj =>
      refine hstay ?_
      rw [Pool.setTask_task, if_neg, htask]
      rintro rfl
      cases hj.symm.trans htask
    | drop j x hx hcancellable => cases hcancellable
    | keep e s' hevent => exact hstay htask
    | clear e s' hevent =>
      rw [BiStream.follow_of_none hpeer (Pool.empty_task s' i)]
      refine ⟨⟨rfl, le_refl _, List.prefix_rfl⟩, nofun, nofun, fun hdaemon hsent => ?_⟩
      exact (h.completed hdaemon hsent).cons q
    | advance j c x x' s' hx hadvance =>
      by_cases hji : i = j
      · subst hji
        obtain rfl := Option.some.inj (htask.symm.trans hx)
        obtain ⟨⟨t, conn', pc'⟩, hiroh, heq⟩ := Option.map_eq_some_iff.mp hadvance
        cases heq
        obtain ⟨hremote', hreplies⟩ := iroh_replies (iroh_effect hiroh)
        have htask' : ((p.daemon.setShared t).setTask i (.iroh conn' pc')).task i =
            some (.iroh conn' pc') := by
          rw [Pool.setTask_task, if_pos rfl]
        have hshared : q.daemon.shared = t := by
          rw [hq]
          rfl
        rw [← hshared] at hiroh
        rw [BiStream.follow_of_task hpeer htask']
        refine ⟨⟨rfl, le_refl _, hsent ▸ hreplies⟩, linked_of_task hpeer hdaemon (hq ▸ htask')
          (hremote'.trans hremote) (vouched_step hremote hopened hvouched hiroh)
          fun hcompleted => ?_⟩
        -- The device was told before, or is told by this step.
        by_cases hpc : ∃ device, pc = .completing device (.returned true)
        · obtain ⟨device, rfl⟩ := hpc
          exact ⟨device, hvouched.1, hvouched.2.1.cons q, hvouched.2.2.cons q⟩
        · have hsame := irohStep_completed (fun device hdevice => hpc ⟨device, hdevice⟩) hiroh
          have hbefore : conn.completed = true := hsame.symm.trans hcompleted
          exact (h.completed hdaemon (hsent ▸ hbefore)).cons q
      · refine hstay ?_
        rw [Pool.setTask_task, if_neg hji]
        exact htask

/-- What a step of the phone does to its streams. -/
theorem linked_phone {s' : ShellyClient} (hprogress : p.phone.shared.Progress isDaemon s')
    (h : ∀ k b, p.phone.shared.streams.lookup k = some b →
      Linked storageKey phoneNodeId isDaemon seen p k b)
    (hdaemon : q.daemon = p.daemon) (hphone : q.phone.shared = s')
    (hb' : q.phone.shared.streams.lookup k = some b') :
    Linked storageKey phoneNodeId isDaemon (q :: seen) q k b' := by
  rcases hprogress.streams k b' (hphone ▸ hb') with ⟨hpeer, hsent⟩ | ⟨b, hb, hkept⟩
  · have hempty (hd : isDaemon b'.nodeId = true) : b'.sent = [] :=
      hsent.resolve_right fun hother => by cases hother.symm.trans hd
    refine ⟨fun _ => hempty, fun i hi => ?_, fun hd hcompletes => ?_⟩
    · cases hpeer.symm.trans hi
    · rw [hempty hd] at hcompletes
      cases hcompletes
  · have hold := (h k b hb).cons (q := q) fun i x hx => hdaemon ▸ hx
    have hsent (hd : isDaemon b.nodeId = true) : b'.sent = b.sent :=
      hkept.sent.resolve_right fun hother => by cases hother.symm.trans hd
    refine ⟨fun hpeer hd => ?_, fun i hi => ?_, fun hd hcompletes => ?_⟩
    · rw [hkept.nodeId] at hd
      exact (hsent hd).trans (hold.waiting (hkept.peer ▸ hpeer) hd)
    · obtain ⟨hd, conn, pc, htask, hremote, hreplies, hvouched⟩ := hold.serving i (hkept.peer ▸ hi)
      exact ⟨hkept.nodeId ▸ hd, conn, pc, htask, hremote, (hsent hd).trans hreplies, hvouched⟩
    · rw [hkept.nodeId] at hd
      exact hold.completed hd (hsent hd ▸ hcompletes)

/-- Streams that only grow leave the phone's calls alone. -/
theorem safe_setShared {phone : Pool ShellyClient PhoneTask} {s' : ShellyClient}
    (h : Tasking.Safe ShellyClient.Sound Local phone) (hgrows : phone.shared.Grows s')
    (hsound : s'.Sound) : Tasking.Safe ShellyClient.Sound Local (phone.setShared s') :=
  ⟨hsound, fun i x hx => local_grows hgrows (h.2 i x hx)⟩

theorem safe_daemon {a : Move DaemonTask DaemonChoice DaemonEvent}
    {d : Pool DaemonState DaemonTask}
    (h : CeremonySafe storageKey phoneNodeId isDaemon (p, seen))
    (hstep : (daemonTasking host storageKey pairingSas).machine.step a p.daemon = some d)
    (hq : q = ⟨d, p.phone.setShared (p.phone.shared.follow d)⟩) :
    CeremonySafe storageKey phoneNodeId isDaemon (q, q :: seen) := by
  have hlookup (k : Nat) : (p.phone.shared.follow d).streams.lookup k =
      (p.phone.shared.streams.lookup k).map (·.follow d) := Table.lookup_mapVal _ _ _
  have hfollow {k : Nat} {b : BiStream} (hb : p.phone.shared.streams.lookup k = some b) :
      b.Grows (b.follow d) ∧
        Linked storageKey phoneNodeId isDaemon (q :: seen) q k (b.follow d) := by
    refine linked_follow hstep (by rw [hq]) ?_ (h.linked k b hb)
    rw [hq]
    change ((p.phone.shared.follow d).streams.lookup k).isSome = true
    rw [hlookup, hb]
    rfl
  have hgrows : p.phone.shared.Grows (p.phone.shared.follow d) := by
    refine ⟨fun k b hb => ⟨b.follow d, ?_, (hfollow hb).1⟩,
      fun n x hx => ⟨x, hx, rfl, rfl, .refl _⟩⟩
    rw [hlookup, hb]
    rfl
  have hsound : (p.phone.shared.follow d).Sound := by
    refine h.phone.1.of_streams hgrows rfl (fun k hk => ?_) rfl rfl rfl
    rw [hlookup, hk]
    rfl
  subst hq
  refine ⟨safe_setShared h.phone hgrows hsound, fun k b' hb' => ?_, h.confirmed⟩
  obtain ⟨b, hb, rfl⟩ := Option.map_eq_some_iff.mp ((hlookup k).symm.trans hb')
  exact (hfollow hb).2

theorem safe_accept {i : Nat} {d : Pool DaemonState DaemonTask}
    (h : CeremonySafe storageKey phoneNodeId isDaemon (p, seen))
    (hb : p.phone.shared.streams.lookup k = some b) (hdaemon : isDaemon b.nodeId = true)
    (hpeer : b.peer = .waiting)
    (hstep : (daemonTasking host storageKey pairingSas).machine.step
      (.spawn i (.iroh (.new phoneNodeId) .connecting)) p.daemon = some d)
    (hq : q = ⟨d, p.phone.setShared (p.phone.shared.serve k i b)⟩) :
    CeremonySafe storageKey phoneNodeId isDaemon (q, q :: seen) := by
  cases Tasking.stepped_of_step hstep with
  | spawn i x hx hi =>
    have hkeeps (j : Nat) (y : DaemonTask) (hy : p.daemon.task j = some y) :
        q.daemon.task j = some y := by
      rw [hq]
      refine (Pool.setTask_task _ _ _ _).trans ?_
      rw [if_neg, hy]
      rintro rfl
      cases hi.symm.trans hy
    have hgrows : p.phone.shared.Grows (p.phone.shared.serve k i b) := by
      refine ⟨fun j a ha => ?_, fun n x hx => ⟨x, hx, rfl, rfl, .refl _⟩⟩
      by_cases hj : j = k
      · subst hj
        obtain rfl := Option.some.inj (hb.symm.trans ha)
        exact ⟨_, Table.lookup_insert_self _ _ _, rfl, le_refl _, List.prefix_rfl⟩
      · exact ⟨a, (Table.lookup_insert_ne _ _ hj).trans ha, .refl a⟩
    have hsound : (p.phone.shared.serve k i b).Sound := by
      refine h.phone.1.of_streams hgrows rfl (fun j hj => ?_) rfl rfl rfl
      refine (Table.lookup_insert_ne _ _ ?_).trans hj
      rintro rfl
      cases hb.symm.trans hj
    have hnew : q.daemon.task i = some (.iroh (.new phoneNodeId) .connecting) := by
      rw [hq]
      exact (Pool.setTask_task _ _ _ _).trans (if_pos rfl)
    have hlinked (j : Nat) (a : BiStream)
        (ha : (p.phone.shared.serve k i b).streams.lookup j = some a) :
        Linked storageKey phoneNodeId isDaemon (q :: seen) q j a := by
      by_cases hj : j = k
      · subst hj
        obtain rfl := Option.some.inj ((Table.lookup_insert_self _ _ _).symm.trans ha)
        have hsent := (h.linked j b hb).waiting hpeer hdaemon
        refine ⟨nofun, fun m hm => ?_, fun _ hcompletes => ?_⟩
        · cases hm
          exact ⟨hdaemon, .new phoneNodeId, .connecting, hnew, rfl, hsent, trivial⟩
        · have hcompletes : b.sent.any Daemon.Reply.completes = true := hcompletes
          rw [hsent] at hcompletes
          cases hcompletes
      · exact (h.linked j a ((Table.lookup_insert_ne _ _ hj).symm.trans ha)).cons hkeeps
    subst hq
    exact ⟨safe_setShared h.phone hgrows hsound, hlinked, h.confirmed⟩

/-- The call of the confirmation that has set the target keeps its slot. -/
theorem confirmed_phone {a : Move PhoneTask PhoneChoice PhoneEvent}
    {phone phone' : Pool ShellyClient PhoneTask}
    (h : ∀ n ∈ phone.shared.setBy,
      ∃ i info, phone.task i = some (.confirm n (.returned (.ok info))))
    (hstep : (phoneTasking phoneNodeId secretKey pairingSas isDaemon).machine.step a phone =
      some phone') {n : Nat} (hn : n ∈ phone'.shared.setBy) :
    ∃ i info, phone'.task i = some (.confirm n (.returned (.ok info))) := by
  cases Tasking.stepped_of_step hstep with
  | spawn j x hx hj =>
    obtain ⟨i, info, htask⟩ := h n hn
    refine ⟨i, info, ?_⟩
    rw [Pool.setTask_task, if_neg, htask]
    rintro rfl
    cases hj.symm.trans htask
  | drop j x hx hcancellable =>
    obtain ⟨i, info, htask⟩ := h n hn
    refine ⟨i, info, ?_⟩
    rw [Pool.dropTask_task, if_neg, htask]
    rintro rfl
    obtain rfl := Option.some.inj (hx.symm.trans htask)
    cases hcancellable
  | keep e s' hevent =>
    cases e with
    | deliver k r =>
      obtain ⟨b, -, hevent⟩ := Option.bind_eq_some_iff.mp hevent
      split at hevent
      · cases hevent
      · cases hevent
        exact h n hn
    | unpairSelf =>
      cases hevent
      exact h n hn
  | clear e s' hevent =>
    cases e with
    | deliver k r =>
      obtain ⟨b, -, hevent⟩ := Option.bind_eq_some_iff.mp hevent
      split at hevent
      all_goals cases hevent
    | unpairSelf => cases hevent
  | advance j c x x' s' hx hadvance =>
    have hbefore (hn : n ∈ phone.shared.setBy) : ∃ i info,
        ((phone.setShared s').setTask j x').task i = some (.confirm n (.returned (.ok info))) := by
      obtain ⟨i, info, htask⟩ := h n hn
      refine ⟨i, info, ?_⟩
      rw [Pool.setTask_task, if_neg, Pool.setShared_task, htask]
      rintro rfl
      -- A call that has returned takes no step.
      obtain rfl := Option.some.inj (hx.symm.trans htask)
      obtain ⟨pairing, -, hadvance⟩ := Option.bind_eq_some_iff.mp hadvance
      cases hadvance
    rcases phone_sets (i := j) hadvance with ⟨hsetBy, -⟩ | ⟨m, pairing, info, rfl, hm, rfl⟩
    · exact hbefore (hsetBy ▸ hn)
    · rcases List.mem_cons.mp hn with rfl | hn
      · exact ⟨j, info, by rw [Pool.setTask_task, if_pos rfl]⟩
      · exact hbefore hn

theorem safe_phone {a : Move PhoneTask PhoneChoice PhoneEvent} {phone : Pool ShellyClient PhoneTask}
    (h : CeremonySafe storageKey phoneNodeId isDaemon (p, seen))
    (hstep : (phoneTasking phoneNodeId secretKey pairingSas isDaemon).machine.step a p.phone =
      some phone) (hq : q = ⟨p.daemon, phone⟩) :
    CeremonySafe storageKey phoneNodeId isDaemon (q, q :: seen) := by
  have hprogress : p.phone.shared.Progress isDaemon phone.shared := by
    cases Tasking.stepped_of_step hstep with
    | spawn | drop => exact h.phone.1.progress
    | keep e s' hevent => exact event_progress h.phone.1 hevent
    | clear e s' hevent => exact event_progress h.phone.1 hevent
    | advance i c x x' s' hx hadvance =>
      exact (phone_progress isDaemon h.phone.1 (h.phone.2 i x hx) hadvance).1
  subst hq
  exact ⟨phone_noninterference.step h.phone trivial hstep,
    fun k b' hb' => linked_phone hprogress h.linked rfl rfl hb',
    fun n hn => confirmed_phone h.confirmed hstep hn⟩

theorem ceremony_safe {p : Ceremony × List Ceremony}
    (h : (ceremonySeen host storageKey pairingSas phoneNodeId secretKey isDaemon).Reachable p) :
    CeremonySafe storageKey phoneNodeId isDaemon p := by
  refine h.invariant ?_ ?_
  · rintro ⟨p, seen⟩ ⟨⟨-, hphone⟩, -⟩
    obtain ⟨daemon, hnew⟩ := hphone.1
    refine ⟨phone_noninterference.safe_init hphone, fun k b hb => ?_, fun n hn => ?_⟩
    · rw [hnew] at hb
      cases (Table.lookup_empty k).symm.trans hb
    · rw [hnew] at hn
      cases hn
  · rintro ⟨p, seen⟩ a ⟨q, seen'⟩ hsafe - hstep
    obtain ⟨hstep, hseen⟩ := Machine.watched_step hstep
    obtain rfl : seen' = q :: seen := hseen
    cases a with
    | daemon a =>
      obtain ⟨d, hd, hq⟩ := Option.map_eq_some_iff.mp hstep
      exact safe_daemon hsafe hd hq.symm
    | phone a =>
      obtain ⟨phone, hphone, hq⟩ := Option.map_eq_some_iff.mp hstep
      exact safe_phone hsafe hphone hq.symm
    | accept k i =>
      obtain ⟨b, hb, hstep⟩ := Option.bind_eq_some_iff.mp hstep
      obtain ⟨⟨hdaemon, hpeer⟩, hstep⟩ := Option.ite_none_right_eq_some.mp hstep
      obtain ⟨d, hd, hq⟩ := Option.map_eq_some_iff.mp hstep
      exact safe_accept hsafe hb hdaemon hpeer hd hq.symm

theorem retargeted_of_step {a : CeremonyMove}
    (h : (ceremonyMachine host storageKey pairingSas phoneNodeId secretKey isDaemon).step a p =
      some q) :
    q.phone.shared.daemon = p.phone.shared.daemon ∨ Retargeted p.phone.shared q.phone.shared := by
  cases a with
  | daemon a =>
    obtain ⟨d, -, rfl⟩ := Option.map_eq_some_iff.mp h
    exact .inl rfl
  | accept k i =>
    obtain ⟨b, -, h⟩ := Option.bind_eq_some_iff.mp h
    obtain ⟨-, h⟩ := Option.ite_none_right_eq_some.mp h
    obtain ⟨d, -, rfl⟩ := Option.map_eq_some_iff.mp h
    exact .inl rfl
  | phone a =>
    obtain ⟨phone, hphone, rfl⟩ := Option.map_eq_some_iff.mp h
    have hevent {e : PhoneEvent} {s' : ShellyClient} {keep : Bool}
        (hevent : phoneEvent isDaemon e p.phone.shared = some (s', keep)) :
        s'.daemon = p.phone.shared.daemon ∨ Retargeted p.phone.shared s' := by
      cases e with
      | deliver k r =>
        obtain ⟨b, -, hevent⟩ := Option.bind_eq_some_iff.mp hevent
        obtain ⟨-, heq⟩ := Option.ite_none_left_eq_some.mp hevent
        cases heq
        exact .inl rfl
      | unpairSelf =>
        cases hevent
        exact .inr (.inl rfl)
    cases Tasking.stepped_of_step hphone with
    | spawn | drop => exact .inl rfl
    | keep e s' he => exact hevent he
    | clear e s' he => exact hevent he
    | advance i c x x' s' hx hadvance =>
      rcases phone_sets (i := i) hadvance with ⟨-, hsame⟩ | ⟨n, pairing, info, -, hn, rfl⟩
      · exact .inl hsame
      · exact .inr (.inr ⟨n, pairing, rfl, hn, rfl⟩)

/-- An attempt has set the stored target only if it was confirmed and not cancelled, the pairing was
complete, and the daemon had saved the phone. So a cancelled attempt never sets it. -/
theorem target_set_when_confirmed {p : Ceremony × List Ceremony}
    (h : (ceremonySeen host storageKey pairingSas phoneNodeId secretKey isDaemon).Reachable p) :
    (∀ n ∈ p.1.phone.shared.setBy,
      ∃ pairing b, Confirmed storageKey phoneNodeId isDaemon p.2 p.1 n pairing b) ∧
    ∀ a q, (ceremonyMachine host storageKey pairingSas phoneNodeId secretKey isDaemon).step a p.1 =
      some q → q.phone.shared.daemon = p.1.phone.shared.daemon ∨
        Retargeted p.1.phone.shared q.phone.shared := by
  refine ⟨fun n hn => ?_, fun a q hstep => retargeted_of_step hstep⟩
  have hsafe := ceremony_safe h
  obtain ⟨⟨pairing, b, hpairing, hb, hcomplete⟩, gated, hgated, hpersisted⟩ :=
    hsafe.phone.1.setBy n hn
  obtain rfl := Option.some.inj (hpairing.symm.trans hgated)
  obtain ⟨hgate, b', hb', hnodeId⟩ := hsafe.phone.1.linked n pairing hpairing
  obtain rfl := Option.some.inj (hb.symm.trans hb')
  refine ⟨pairing, b, hpairing, hsafe.confirmed n hn, hb, hnodeId, hcomplete, fun i u hi => ?_,
    fun hdaemon => ?_⟩
  · obtain ⟨other, hother, hcancelled⟩ := hsafe.phone.2 i _ hi
    obtain rfl := Option.some.inj (hpairing.symm.trans hother)
    cases (hgate hpersisted).2.2.symm.trans hcancelled
  · refine (hsafe.linked pairing.stream b hb).completed (hnodeId ▸ hdaemon) ?_
    exact List.any_eq_true.mpr ⟨_, List.mem_of_mem_take hcomplete, rfl⟩

end Proofs

section Traces

def laptopTicket : Wire.PairingTicket := ⟨pairingCode, "daemon", none, ["10.0.0.2:4433"], 0⟩

def answering : PhoneChoice := ⟨none, ⟨"1.0", "host"⟩, ""⟩

/-- The phone's stream is served where the daemon's own run has a connection of the phone. -/
def served : Move DaemonTask DaemonChoice DaemonEvent → CeremonyMove
  | .spawn i (.iroh _ _) => .accept 0 i
  | a => .daemon a

/-- The phone opens its stream, the daemon saves the phone, and the user confirms. -/
def pairedBoth : List CeremonyMove :=
  List.flatten [
    .phone (.spawn 0 (.pair (.called laptopTicket))) ::
      (Move.repeated 2 0 answering).map .phone,
    (pairedUp ++ Move.repeated 3 1 nodding).map served,
    (Move.repeated 2 0 answering).map .phone, .phone (.spawn 1 (.confirm 0 .called)) ::
      (Move.repeated 4 1 answering).map .phone]

def newCeremony : Ceremony := ⟨Pool.empty newDaemon, Pool.empty (.new none)⟩

theorem target_set_when_confirmed_laptop :
    ∃ p, (ceremonySeen household id oneSas "phone" [7] (· == "daemon")).Reachable p ∧
      p.1.phone.shared.daemon = some (.fromTicket laptopTicket) ∧ ∃ pairing b,
        Confirmed id "phone" (· == "daemon") p.2 p.1 0 pairing b := by
  obtain ⟨p, hr, hdaemon, hsetBy⟩ :=
    (ceremonyMachine household id oneSas "phone" [7] (· == "daemon")).exists_reachable_of_exec
      Machine.Any (fun p => p.phone.shared.daemon = some (.fromTicket laptopTicket) ∧
        0 ∈ p.phone.shared.setBy) pairedBoth (s := newCeremony)
      ⟨Tasking.init_empty newDaemon_opened, Tasking.init_empty ⟨none, rfl⟩⟩ (by decide)
  obtain ⟨seen, hr⟩ := hr.watched (fun p => [p]) fun _ _ q seen => q :: seen
  exact ⟨(p, seen), hr, hdaemon, (target_set_when_confirmed hr).1 0 hsetBy⟩

end Traces

end Shelly.Mobile.Pending
