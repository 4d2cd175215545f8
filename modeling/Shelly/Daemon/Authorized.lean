import Shelly.Daemon.Approved
import Shelly.Daemon.Effects
import Shelly.Daemon.Revoked

namespace Shelly.Daemon

/-- The desktop's own client has answered the request with yes. -/
def DaemonState.Granted (s : DaemonState) (requestId : Nat) : Prop :=
  (.localSocket .localCli, requestId, true) ∈ s.approvals

/-- The desktop was asked about a device with this identity, and its own client has answered
this request with yes. -/
def DaemonState.ApprovedByCli (s : DaemonState) (id : String) : Prop :=
  ∃ requestId generation name sas,
    .requested generation ⟨requestId, name, id, sas⟩ ∈ s.pairing.history ∧ s.Granted requestId

/-- What a step can rely on that takes a connection on with its own pairing. -/
def IrohPc.Backed (log : List PairingEvent) (conn : IrohConnection) : IrohPc → Prop
  | .requesting call apc =>
    call.deviceNodeId = conn.remoteNodeId ∧ apc.Asked log call ∧ apc.Opened log
  | .completing device _ =>
    device.deviceNodeId = conn.remoteNodeId ∧ Approved log conn.remoteNodeId
  | _ => True

/-- What a task can rely on. A connection of a device that was not paired when it took its message
stands where it does not act. -/
def TaskBacked (s : DaemonState) (_ : Nat) : DaemonTask → Prop
  | .iroh conn pc =>
    (conn.admitted = true ∨ pc.harmless = true) ∧ pc.Backed s.pairing.history conn
  | .desktop conn (.approving requestId approved apc) =>
    conn.clientKind = .localCli ∧ apc.Behind s.Granted s.pairing.history requestId approved
  | _ => True

/-- The histories go on. -/
structure Recorded (s s' : DaemonState) : Prop where
  history : s.pairing.history ⊆ s'.pairing.history
  approvals : s.approvals ⊆ s'.approvals

section Steps

variable {host : HostEnv} {storageKey : String → String}
  {pairingSas : String → String → String → Except String String} {c : DaemonChoice} {i : Nat}
  {s s' : DaemonState}

theorem Recorded.of_same (hpairing : s'.pairing = s.pairing)
    (happrovals : s'.approvals = s.approvals) : Recorded s s' :=
  ⟨hpairing ▸ List.Subset.refl _, happrovals ▸ List.Subset.refl _⟩

theorem IrohPc.Backed.mono {log log' : List PairingEvent} {conn : IrohConnection} {pc : IrohPc}
    (h : pc.Backed log conn) (hlog : log ⊆ log') : pc.Backed log' conn := by
  cases pc with
  | requesting call apc =>
    exact ⟨h.1, h.2.1.mono hlog, fun approval hholds => hlog (h.2.2 approval hholds)⟩
  | completing device ppc => exact ⟨h.1, h.2.mono hlog⟩
  | connecting | marking | rechecking | serving | session | unpairing | updating | closing
  | closed => trivial

/-- What a task relies on survives the steps of the others. -/
theorem TaskBacked.mono {x : DaemonTask} (h : TaskBacked s i x) (hs : Recorded s s') :
    TaskBacked s' i x := by
  cases x with
  | iroh conn pc => exact ⟨h.1, h.2.mono hs.history⟩
  | desktop conn lpc =>
    cases lpc with
    | approving requestId approved apc =>
      refine ⟨h.1, ?_⟩
      cases apc with
      | sending channel =>
        exact ⟨hs.history h.2.1, fun happroved => hs.approvals (h.2.2 happroved)⟩
      | removing | returned => trivial
    | connecting | serving | session | beginning | removing | hooking | closing | closed =>
      trivial
  | background task => trivial

theorem detachClient_beside (attached : Option SessionId) :
    (s.detachClient i attached).devices = s.devices ∧
      (s.detachClient i attached).pairing = s.pairing ∧
      (s.detachClient i attached).approvals = s.approvals := by
  cases attached with
  | none => exact ⟨rfl, rfl, rfl⟩
  | some id => exact ⟨rfl, rfl, rfl⟩

/-- A call for a session leaves the devices and their pairing alone. -/
theorem sessionCallStep_beside {attached : Option SessionId} {call : SessionCall}
    {r : DaemonState × Option SessionId × List Reply × Option SessionCall}
    (hs : sessionCallStep host c i attached s call = some r) :
    r.1.devices = s.devices ∧ r.1.pairing = s.pairing ∧ r.1.approvals = s.approvals := by
  unfold sessionCallStep at hs
  split at hs
  · cases hs
    exact ⟨rfl, rfl, rfl⟩
  · cases hs
    exact ⟨rfl, rfl, rfl⟩
  · obtain ⟨x, -, rfl⟩ := Option.map_eq_some_iff.mp hs
    exact ⟨rfl, rfl, rfl⟩
  · cases hs
    exact ⟨rfl, rfl, rfl⟩
  · cases hs
    exact ⟨rfl, rfl, rfl⟩
  · obtain ⟨x, -, rfl⟩ := Option.map_eq_some_iff.mp hs
    exact ⟨rfl, rfl, rfl⟩
  -- An attachment.
  · split at hs
    all_goals
      cases hs
      exact ⟨rfl, rfl, rfl⟩
  · obtain ⟨session, -, rfl⟩ := Option.map_eq_some_iff.mp hs
    dsimp only
    split
    · split
      all_goals exact detachClient_beside attached
    · exact detachClient_beside attached
  -- Input and a new size.
  · split at hs
    · cases hs
      exact ⟨rfl, rfl, rfl⟩
    · split at hs
      all_goals
        cases hs
        exact ⟨rfl, rfl, rfl⟩
  · split at hs
    all_goals
      cases hs
      exact ⟨rfl, rfl, rfl⟩

theorem hook_beside (c : DaemonChoice) (conn : LocalConnection) (s : DaemonState)
    (id : SessionId) (source : AgentSource) (state : AgentState) (lastLine : Option String) :
    (hook c conn s id source state lastLine).1.devices = s.devices ∧
      (hook c conn s id source state lastLine).1.pairing = s.pairing ∧
      (hook c conn s id source state lastLine).1.approvals = s.approvals := by
  unfold hook
  split
  · exact ⟨rfl, rfl, rfl⟩
  · dsimp only
    split
    · exact ⟨rfl, rfl, rfl⟩
    · split
      · exact ⟨rfl, rfl, rfl⟩
      · exact ⟨rfl, rfl, rfl⟩

theorem vouched_of_same (h : s.pairing.Vouched s.Granted) (hpairing : s'.pairing = s.pairing)
    (happrovals : s'.approvals = s.approvals) : s'.pairing.Vouched s'.Granted := by
  rw [hpairing]
  refine h.mono fun id hgranted => ?_
  rw [DaemonState.Granted, happrovals]
  exact hgranted

variable {conn conn' : IrohConnection} {pc pc' : IrohPc} {desk desk' : LocalConnection}
  {lpc lpc' : LocalPc}

/-- A removal goes on only for a device that is paired. -/
theorem removeStep_checking {d : DeviceState} {rpc : RemovePc} {id : String}
    (hs : removeStep storageKey c.device (.checking id) s.devices = some (d, rpc)) :
    s.isDevicePaired id = true ∨
      d.devices = s.devices.devices ∧ d.persisted = s.devices.persisted ∧
        rpc = .returned (some id) true := by
  simp only [removeStep] at hs
  split at hs
  · next hcontains => exact .inl hcontains
  · cases hs
    exact .inr ⟨rfl, rfl, rfl⟩

/-- One step of a connection of a device. -/
theorem iroh_backed (hG : s.pairing.Vouched s.Granted) (hL : TaskBacked s i (.iroh conn pc))
    (he : IrohEffect host storageKey c i conn s pc s' conn' pc') :
    s'.pairing.Vouched s'.Granted ∧ TaskBacked s' i (.iroh conn' pc') ∧ Recorded s s' := by
  obtain ⟨hadmitted, hbacked⟩ := hL
  cases he with
  | quiet hconn hadmitted' hsession hrequest hcomplete hremove =>
    have hid := hconn.remoteNodeId
    refine ⟨hG, ⟨hadmitted', ?_⟩, .of_same rfl rfl⟩
    cases pc' with
    | requesting call apc =>
      obtain ⟨rfl, hcall⟩ := hrequest call apc rfl
      exact ⟨hcall.trans hid.symm, trivial, fun _ hholds => by cases hholds⟩
    | completing device ppc =>
      obtain ⟨call, rfl, hdevice⟩ := hcomplete device ppc rfl
      refine ⟨hdevice.trans hid.symm, ?_⟩
      rw [hid, ← hbacked.1]
      exact hbacked.2.1 rfl
    | connecting | marking | rechecking | serving | session | unpairing | updating | closing
    | closed => trivial
  | @session call r hs =>
    obtain ⟨-, hpairing, happrovals⟩ := sessionCallStep_beside hs
    have hacting : conn.admitted = true := hadmitted.resolve_right nofun
    refine ⟨vouched_of_same hG hpairing happrovals, ⟨.inl hacting, ?_⟩,
      .of_same hpairing happrovals⟩
    cases r.2.2.2 with
    | none => trivial
    | some call' => trivial
  | update change hpc hconn hadmitted' hpc' =>
    have hacting : conn.admitted = true := by
      rcases hpc with rfl | rfl
      · exact hadmitted.resolve_right nofun
      · exact hadmitted.resolve_right nofun
    refine ⟨hG, ⟨.inl (hadmitted'.trans hacting), ?_⟩, .of_same rfl rfl⟩
    rcases hpc' with rfl | rfl
    · trivial
    · trivial
  | request hs hconn hadmitted' =>
    obtain ⟨hcall, hasked, hopened⟩ := hbacked
    obtain ⟨hvouched, hlog, hopened'⟩ := vouched_approval hG hopened hs
    have hcall' := hcall.trans hconn.remoteNodeId.symm
    exact ⟨hvouched, ⟨.inr rfl, hcall', asked_step hasked hs, hopened'⟩, hlog,
      List.Subset.refl _⟩
  | complete answer hs => exact ⟨hG, ⟨.inr rfl, hbacked⟩, .of_same rfl rfl⟩
  | @remove pc rpc d rpc' conn' hpc hs =>
    refine ⟨hG, ⟨?_, trivial⟩, .of_same rfl rfl⟩
    rcases hpc with ⟨rfl, rfl⟩ | ⟨rfl, rfl, rfl⟩
    · refine .inl (hadmitted.resolve_right fun hharmless => ?_)
      cases rpc with
      | returned id ok => cases hs
      | finding | checking | erasingRow | unmapping | revoking => cases hharmless
    · rcases removeStep_checking hs with hpaired | ⟨-, -, rfl⟩
      · exact .inl hpaired
      · exact .inr rfl
  | close =>
    obtain ⟨-, hpairing, happrovals⟩ := detachClient_beside (s := s) (i := i) conn.attached
    exact ⟨vouched_of_same hG hpairing happrovals, ⟨.inr rfl, trivial⟩,
      .of_same hpairing happrovals⟩

/-- One step of a connection over the local socket. -/
theorem local_backed (hG : s.pairing.Vouched s.Granted) (hL : TaskBacked s i (.desktop desk lpc))
    (he : LocalEffect host storageKey c i desk s lpc s' desk' lpc') :
    s'.pairing.Vouched s'.Granted ∧ TaskBacked s' i (.desktop desk' lpc') ∧ Recorded s s' := by
  cases he with
  | quiet hbegin happrove =>
    refine ⟨hG, ?_, .of_same rfl rfl⟩
    cases lpc' with
    | approving requestId approved apc =>
      obtain ⟨rfl, hkind⟩ := happrove requestId approved apc rfl
      exact ⟨hkind, trivial⟩
    | connecting | serving | session | beginning | removing | hooking | closing | closed =>
      trivial
  | @session call r hs =>
    obtain ⟨-, hpairing, happrovals⟩ := sessionCallStep_beside hs
    refine ⟨vouched_of_same hG hpairing happrovals, ?_, .of_same hpairing happrovals⟩
    cases r.2.2.2 with
    | none => trivial
    | some call' => trivial
  | begin hs =>
    obtain ⟨hvouched, hlog⟩ := vouched_beginPairing hG hs
    exact ⟨hvouched, trivial, hlog, List.Subset.refl _⟩
  | @approve requestId approved apc m apc' approvals hs happrovals =>
    obtain ⟨hkind, hbehind⟩ := hL
    have hsub : s.approvals ⊆ approvals := by
      rcases happrovals with ⟨rfl, -⟩ | rfl
      · exact List.Subset.refl _
      · exact List.subset_cons_self _ _
    have hgranted (happroved : approved = true) :
        (.localSocket .localCli, requestId, true) ∈ approvals := by
      rcases happrovals with ⟨rfl, hne⟩ | rfl
      · cases apc with
        | removing => exact absurd rfl hne
        | sending channel => exact hbehind.2 happroved
        | returned ok => cases hs
      · rw [hkind, happroved]
        exact List.mem_cons_self
    have hbehind' : apc.Behind (fun id => (.localSocket .localCli, id, true) ∈ approvals)
        s.pairing.history requestId approved := by
      cases apc with
      | sending channel => exact ⟨hbehind.1, hgranted⟩
      | removing | returned => trivial
    have hG' : s.pairing.Vouched fun id => (.localSocket .localCli, id, true) ∈ approvals :=
      hG.mono fun id hid => hsub hid
    obtain ⟨hvouched, hlog, hbehind''⟩ := vouched_approve hG' hgranted hbehind' hs
    exact ⟨hvouched, ⟨hkind, hbehind''⟩, hlog, hsub⟩
  | remove hs => exact ⟨hG, trivial, .of_same rfl rfl⟩
  | @hook id source state lastLine =>
    obtain ⟨-, hpairing, happrovals⟩ := hook_beside c desk s id source state lastLine
    exact ⟨vouched_of_same hG hpairing happrovals, trivial, .of_same hpairing happrovals⟩
  | close =>
    obtain ⟨-, hpairing, happrovals⟩ := detachClient_beside (s := s) (i := i) desk.attached
    exact ⟨vouched_of_same hG hpairing happrovals, trivial, .of_same hpairing happrovals⟩

theorem daemon_start {x : DaemonTask}
    (h : (daemonTasking host storageKey pairingSas).start x = true) :
    (∃ id, x = .iroh (.new id) .connecting) ∨
      (∃ kind, x = .desktop ⟨kind, none, []⟩ .connecting) ∨ ∃ task, x = .background task := by
  simp only [daemonTasking] at h
  split at h
  · next conn =>
    rw [eq_of_beq h]
    exact .inl ⟨_, rfl⟩
  · next conn =>
    rw [eq_of_beq h]
    exact .inr (.inl ⟨_, rfl⟩)
  · exact .inr (.inr ⟨_, rfl⟩)
  · exact .inr (.inr ⟨_, rfl⟩)
  · cases h

/-- One step of a task. -/
theorem daemon_backed {x x' : DaemonTask} (hG : s.pairing.Vouched s.Granted)
    (hL : TaskBacked s i x)
    (hs : daemonAdvance host storageKey pairingSas c i x s = some (s', x')) :
    s'.pairing.Vouched s'.Granted ∧ TaskBacked s' i x' ∧ Recorded s s' := by
  cases x with
  | iroh conn pc =>
    obtain ⟨⟨t, conn', pc'⟩, hstep, heq⟩ := Option.map_eq_some_iff.mp hs
    cases heq
    exact iroh_backed hG hL (iroh_effect hstep)
  | desktop conn lpc =>
    obtain ⟨⟨t, conn', lpc'⟩, hstep, heq⟩ := Option.map_eq_some_iff.mp hs
    cases heq
    exact local_backed hG hL (local_effect hstep)
  | background task =>
    obtain ⟨⟨r, y⟩, -, hy⟩ := Option.bind_eq_some_iff.mp hs
    cases y with
    | session task' =>
      cases hy
      exact ⟨hG, trivial, .of_same rfl rfl⟩
    | create kind call pc => cases hy

theorem daemonEvent_beside {e : DaemonEvent} {keep : Bool}
    (hs : daemonEvent e s = some (s', keep)) :
    keep = true ∧ s'.pairing = s.pairing ∧ s'.approvals = s.approvals ∧ s'.devices = s.devices ∨
      (∃ kept, e = .restart kept) ∧ keep = false ∧ s'.pairing = .new ∧
        deviceEvent .restart s.devices = some (s'.devices, false) := by
  cases e with
  | session e =>
    cases e with
    | restart kept => cases hs
    | create id name now => cases hs
    | record id bytes | markDirty id | markExited id exitCode =>
      cases hs
      exact .inl ⟨rfl, rfl, rfl, rfl⟩
  | infer id state lastLine =>
    cases hs
    exact .inl ⟨rfl, rfl, rfl, rfl⟩
  | irohReady nodeId =>
    cases hs
    exact .inl ⟨rfl, rfl, rfl, rfl⟩
  | tick ms =>
    simp only [daemonEvent] at hs
    split at hs
    · cases hs
      exact .inl ⟨rfl, rfl, rfl, rfl⟩
    · cases hs
  | restart kept =>
    obtain ⟨r, -, hs⟩ := Option.bind_eq_some_iff.mp hs
    obtain ⟨d, hd, heq⟩ := Option.map_eq_some_iff.mp hs
    cases heq
    obtain ⟨rows, hrows, rfl⟩ := Option.map_eq_some_iff.mp hd
    exact .inr ⟨⟨kept, rfl⟩, rfl, rfl, hd⟩

theorem backed_noninterference : (daemonTasking host storageKey pairingSas).Noninterference
    Machine.Any (fun s => s.pairing.Vouched s.Granted) TaskBacked where
  init s h := by
    rw [h.pairing]
    exact vouched_new
  fresh p i x _ _ hx := by
    rcases daemon_start hx with ⟨id, rfl⟩ | ⟨kind, rfl⟩ | ⟨task, rfl⟩
    · exact ⟨.inr rfl, trivial⟩
    · trivial
    · trivial
  own p i c x s' x' _ hG _ hL hs := by
    obtain ⟨hG', hL', -⟩ := daemon_backed hG hL hs
    exact ⟨hG', hL'⟩
  others p i c x s' x' _ hG _ hL hs j y _ _ hy := by
    obtain ⟨-, -, hrecorded⟩ := daemon_backed hG hL hs
    exact hy.mono hrecorded
  environment p e s' keep _ hG hs := by
    rcases daemonEvent_beside hs with ⟨rfl, hpairing, happrovals, -⟩ | ⟨-, rfl, hpairing, -⟩
    · exact ⟨vouched_of_same hG hpairing happrovals,
        fun _ j y _ hy => hy.mono (.of_same hpairing happrovals)⟩
    · rw [hpairing]
      exact ⟨vouched_new, fun h => by cases h⟩

/-- What was approved for a request of the device was approved by the desktop's own client. -/
theorem approvedByCli_of_approved {id : String} (hG : s.pairing.Vouched s.Granted)
    (h : Approved s.pairing.history id) : s.ApprovedByCli id := by
  obtain ⟨requestId, generation, name, sas, hrequested, hwaited⟩ := h
  exact ⟨requestId, generation, name, sas, hrequested, hG.waited requestId hwaited⟩

theorem contains_of_insert {t : Table String StoredDevice} {id x : String} {d : StoredDevice}
    (h : (t.insert id d).contains x = true) : x = id ∨ t.contains x = true := by
  rw [Table.contains, Table.lookup_insert] at h
  split at h
  · next hx => exact .inl hx
  · exact .inr h

/-- An update is one of a device that is there. -/
theorem contains_updateStep {d : DeviceChoice} {id x : String} {change : DeviceUpdate}
    {t : DeviceState} (h : (updateStep storageKey d id change t).1.devices.contains x = true) :
    t.devices.contains x = true := by
  unfold updateStep at h
  split at h
  · exact h
  · next device hdevice =>
    have hinserted {device' : StoredDevice}
        (h : (t.devices.insert id device').contains x = true) : t.devices.contains x = true := by
      rcases contains_of_insert h with rfl | h
      · exact Table.contains_eq_true.mpr ⟨device, hdevice⟩
      · exact h
    split at h
    · exact h
    · split at h
      · exact hinserted h
      · exact hinserted h

theorem contains_removeStep {d : DeviceChoice} {rpc rpc' : RemovePc} {x : String}
    {t t' : DeviceState} (hs : removeStep storageKey d rpc t = some (t', rpc'))
    (h : t'.devices.contains x = true) : t.devices.contains x = true := by
  cases rpc with
  | finding name =>
    simp only [removeStep] at hs
    split at hs
    · split at hs
      · split at hs
        · cases hs
          exact h
        · cases hs
      · cases hs
    · split at hs
      · cases hs
        exact h
      · cases hs
  | checking id | erasingRow id =>
    simp only [removeStep] at hs
    split at hs
    · cases hs
      exact h
    · cases hs
      exact h
  | unmapping id =>
    simp only [removeStep] at hs
    split at hs
    · cases hs
      exact (Table.includes_erase _ _).contains h
    · cases hs
      exact (Table.includes_erase _ _).contains h
  | revoking id device =>
    cases hs
    exact h
  | returned id ok => cases hs

/-- A pairing puts its device into the map when it inserts it. -/
theorem contains_pairStep {answer : DeviceChoice} {device : StoredDevice} {ppc ppc' : PairPc}
    {x : String} {t t' : DeviceState}
    (hs : pairStep storageKey answer device ppc t = some (t', ppc'))
    (h : t'.devices.contains x = true) :
    t.devices.contains x = true ∨ ppc = .inserting ∧ x = device.deviceNodeId := by
  cases ppc with
  | waiting | saving =>
    simp only [pairStep] at hs
    split at hs
    · cases hs
      exact .inl h
    · cases hs
      exact .inl h
  | inserting =>
    cases hs
    rcases contains_of_insert h with hx | h
    · exact .inr ⟨rfl, hx⟩
    · exact .inl h
  | watching =>
    cases hs
    split at h
    · exact .inl h
    · exact .inl h
  | returned ok => cases hs

/-- Where the step comes from that puts a device into the map: from the start of the daemon, or
from a connection that has proved its identity and whose request was approved. -/
inductive Enters (p : Pool DaemonState DaemonTask) (id : String) :
    Move DaemonTask DaemonChoice DaemonEvent → Prop
  | loaded (kept : List SessionId) : Enters p id (.environment (.restart kept))
  | approved (i : Nat) (c : DaemonChoice) (conn : IrohConnection) (device : StoredDevice)
      (htask : p.task i = some (.iroh conn (.completing device .inserting)))
      (hid : conn.remoteNodeId = id) (happroved : p.shared.ApprovedByCli id) :
      Enters p id (.advance i c)

/-- Whether the device was paired when the connection took the message it is at, or is now that it
takes one. -/
def IrohConnection.admittedAt (conn : IrohConnection) (s : DaemonState) : IrohPc → Bool
  | .connecting | .serving => s.isDevicePaired conn.remoteNodeId
  | _ => conn.admitted

/-- A step that acts on no session and no device, except that it may complete an approved pairing
of its own, or end the connection with the attachment that it had. -/
structure Bystander (i : Nat) (conn : IrohConnection) (pc : IrohPc) (s s' : DaemonState) :
    Prop where
  registry : s'.registry = s.registry
  terminals : s'.terminals = s.terminals ∨
    pc = .closing ∧ s'.terminals = (s.detachClient i conn.attached).terminals
  devices : s'.devices.devices = s.devices.devices ∧
      s'.devices.persisted = s.devices.persisted ∨
    ∃ device ppc, pc = .completing device ppc ∧ device.deviceNodeId = conn.remoteNodeId ∧
      s.ApprovedByCli conn.remoteNodeId

theorem detachClient_registry (attached : Option SessionId) :
    (s.detachClient i attached).registry = s.registry := by
  cases attached with
  | none => rfl
  | some id => rfl

/-- One step of a connection whose device was not paired. -/
theorem bystander_of_unadmitted (hG : s.pairing.Vouched s.Granted)
    (hL : TaskBacked s i (.iroh conn pc)) (hconn : conn.admittedAt s pc = false)
    (he : IrohEffect host storageKey c i conn s pc s' conn' pc') :
    Bystander i conn pc s s' := by
  obtain ⟨hadmitted, hbacked⟩ := hL
  cases he with
  | quiet => exact ⟨rfl, .inl rfl, .inl ⟨rfl, rfl⟩⟩
  | request hs => exact ⟨rfl, .inl rfl, .inl ⟨rfl, rfl⟩⟩
  | session hs =>
    have hacting : conn.admitted = true := hadmitted.resolve_right nofun
    cases hacting.symm.trans hconn
  | update change hpc =>
    rcases hpc with rfl | rfl
    · have hacting : conn.admitted = true := hadmitted.resolve_right nofun
      cases hacting.symm.trans hconn
    · have hacting : conn.admitted = true := hadmitted.resolve_right nofun
      cases hacting.symm.trans hconn
  | @complete device ppc d ppc' answer hs =>
    obtain ⟨hdevice, happroved⟩ := hbacked
    exact ⟨rfl, .inl rfl, .inr ⟨device, ppc, rfl, hdevice, approvedByCli_of_approved hG happroved⟩⟩
  | @remove pc rpc d rpc' conn' hpc hs =>
    refine ⟨rfl, .inl rfl, .inl ?_⟩
    rcases hpc with ⟨rfl, rfl⟩ | ⟨rfl, rfl, rfl⟩
    · have hacting : conn'.admitted = true := by
        refine hadmitted.resolve_right fun hharmless => ?_
        cases rpc with
        | returned id ok => cases hs
        | finding | checking | erasingRow | unmapping | revoking => cases hharmless
      cases hacting.symm.trans hconn
    · rcases removeStep_checking hs with hpaired | ⟨hdevices, hpersisted, -⟩
      · cases hpaired.symm.trans hconn
      · exact ⟨hdevices, hpersisted⟩
  | close =>
    obtain ⟨hdevices, -, -⟩ := detachClient_beside (s := s) (i := i) conn.attached
    refine ⟨detachClient_registry conn.attached, .inr ⟨rfl, rfl⟩, .inl ?_⟩
    rw [hdevices]
    exact ⟨rfl, rfl⟩

/-- What a step of a task adds to the map of the devices. -/
theorem entered_of_advance {x x' : DaemonTask} {id : String} (hG : s.pairing.Vouched s.Granted)
    (hL : TaskBacked s i x) (hs : daemonAdvance host storageKey pairingSas c i x s = some (s', x'))
    (h : s'.isDevicePaired id = true) :
    s.isDevicePaired id = true ∨
      ∃ conn device, x = .iroh conn (.completing device .inserting) ∧ conn.remoteNodeId = id ∧
        s.ApprovedByCli id := by
  cases x with
  | iroh conn pc =>
    obtain ⟨⟨t, conn', pc'⟩, hstep, heq⟩ := Option.map_eq_some_iff.mp hs
    cases heq
    cases iroh_effect hstep with
    | quiet => exact .inl h
    | request => exact .inl h
    | session hcall =>
      obtain ⟨hdevices, -, -⟩ := sessionCallStep_beside hcall
      rw [DaemonState.isDevicePaired, hdevices] at h
      exact .inl h
    | update change => exact .inl (contains_updateStep h)
    | complete answer hpair =>
      rcases contains_pairStep hpair h with h | ⟨rfl, rfl⟩
      · exact .inl h
      · obtain ⟨-, hdevice, happroved⟩ := hL
        rw [← hdevice] at happroved
        exact .inr ⟨conn, _, rfl, hdevice.symm, approvedByCli_of_approved hG happroved⟩
    | remove hpc hremove => exact .inl (contains_removeStep hremove h)
    | close =>
      obtain ⟨hdevices, -, -⟩ := detachClient_beside (s := s) (i := i) conn.attached
      rw [DaemonState.isDevicePaired, hdevices] at h
      exact .inl h
  | desktop conn lpc =>
    obtain ⟨⟨t, conn', lpc'⟩, hstep, heq⟩ := Option.map_eq_some_iff.mp hs
    cases heq
    refine .inl ?_
    cases local_effect hstep with
    | quiet => exact h
    | begin => exact h
    | approve => exact h
    | session hcall =>
      obtain ⟨hdevices, -, -⟩ := sessionCallStep_beside hcall
      rw [DaemonState.isDevicePaired, hdevices] at h
      exact h
    | remove hremove => exact contains_removeStep hremove h
    | hook =>
      rw [DaemonState.isDevicePaired, (hook_beside _ _ _ _ _ _ _).1] at h
      exact h
    | close =>
      obtain ⟨hdevices, -, -⟩ := detachClient_beside (s := s) (i := i) conn.attached
      rw [DaemonState.isDevicePaired, hdevices] at h
      exact h
  | background task =>
    obtain ⟨⟨r, y⟩, -, hy⟩ := Option.bind_eq_some_iff.mp hs
    cases y with
    | session task' =>
      cases hy
      exact .inl h
    | create kind call pc => cases hy

end Steps

section Traces

def household : HostEnv := ⟨some "/bin/zsh", some "/home"⟩

/-- Two endpoints derive this string from every code. -/
def oneSas (_ _ _ : String) : Except String String := .ok "1234-5678"

def pairingCode : String := "1234567"

def nodding : DaemonChoice where
  ok := true
  oldest := 0
  id := 0
  now := 0
  start := 0
  message := ""
  random := [1, 2, 3, 4, 5, 6, 7]
  listening := true
  abandoned := false
  fromPhone := none
  fromDesktop := none
  found := none
  screen := []

def told (m : ClientToServerMsg) : DaemonChoice :=
  { nodding with fromPhone := some m, fromDesktop := some m }

def newDaemon : DaemonState :=
  ⟨.new, .empty, .new, .new, none, 1000, []⟩

theorem newDaemon_opened : DaemonOpened id newDaemon :=
  ⟨AppState.opened_new, DeviceState.opened_new id, rfl, rfl⟩

/-- The desktop begins a pairing, the phone sends its code, and the desktop approves. -/
def pairedUp : List (Move DaemonTask DaemonChoice DaemonEvent) :=
  List.flatten [[.environment (.irohReady "daemon"),
      .spawn 0 (.desktop ⟨.localCli, none, []⟩ .connecting),
      .advance 0 (told (.hello .localCli contractVersion)), .advance 0 (told .beginPairing)],
    Move.repeated 5 0 nodding,
    [.spawn 1 (.iroh (.new "phone") .connecting),
      .advance 1 (told (.hello .iosApp contractVersion)),
      .advance 1 (told (.pairWithCode pairingCode "Phone" "phone"))],
    Move.repeated 5 1 nodding, [.advance 0 (told (.approvePairing 0 true))],
    Move.repeated 3 0 nodding, Move.repeated 5 1 nodding]

/-- The connection of the phone, when its pairing has been approved. -/
private def phoneConnection : IrohConnection :=
  ⟨"phone", .iosApp, contractVersion, false, none, false, [.welcome, .pairingPending "1234-5678"]⟩

end Traces

end Shelly.Daemon
