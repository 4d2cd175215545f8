import Shelly.Daemon.Authorized
import Shelly.Daemon.RemoveDevice

namespace Shelly.Daemon

section Blank

-- Requests of a device without the fields that say what a new session runs.

def CreateCall.blank (call : CreateCall) : CreateCall :=
  { call with command := [], cwd := "", env := [] }

def ClientToServerMsg.blank : ClientToServerMsg → ClientToServerMsg
  | .createSession call => .createSession call.blank
  | m => m

def SessionCall.blank : SessionCall → SessionCall
  | .create clientKind call pc => .create clientKind call.blank pc
  | call => call

def IrohPc.blank : IrohPc → IrohPc
  | .session call => .session call.blank
  | pc => pc

def DaemonTask.blank : DaemonTask → DaemonTask
  | .iroh conn pc => .iroh conn pc.blank
  | x => x

def DaemonChoice.blank (c : DaemonChoice) : DaemonChoice :=
  { c with fromPhone := c.fromPhone.map ClientToServerMsg.blank }

/-- What is left of a move when the devices do not say what to run. -/
def blankMove : Move DaemonTask DaemonChoice DaemonEvent → Move DaemonTask DaemonChoice DaemonEvent
  | .advance i c => .advance i c.blank
  | a => a

end Blank

section Own

/-- The removal is one of this device. -/
def RemovePc.Concerns (id : String) : RemovePc → Prop
  | .finding _ => False
  | .checking x | .erasingRow x | .unmapping x | .revoking x _ => x = id
  | .returned _ _ => True

/-- A connection of a device creates sessions as an app, and pairs and removes itself. -/
def IrohPc.OwnOnly (id : String) : IrohPc → Prop
  | .session (.create clientKind _ _) => requiresShellOnlySessions clientKind = true
  | .completing device _ => device.deviceNodeId = id
  | .unpairing rpc => rpc.Concerns id
  | _ => True

def OwnTask (_ : DaemonState) (_ : Nat) : DaemonTask → Prop
  | .iroh conn pc =>
    requiresShellOnlySessions conn.clientKind = true ∧ pc.OwnOnly conn.remoteNodeId
  | _ => True

end Own

section Steps

variable {host : HostEnv} {storageKey : String → String}
  {pairingSas : String → String → String → Except String String} {c : DaemonChoice} {i : Nat}
  {s s' : DaemonState} {conn conn' : IrohConnection} {pc pc' : IrohPc}

/-- What an app asks for is not what is run. -/
theorem effective_of_shellOnly {clientKind : ClientKind} (call : CreateCall)
    (h : requiresShellOnlySessions clientKind = true) :
    call.effective host clientKind = (host.defaultSessionCommand, host.defaultHomeDir, []) :=
  if_pos h

theorem createStep_blank {c : RegistryChoice} {clientKind : ClientKind} {call : CreateCall}
    {pc : CreatePc} {r : Registry} (h : requiresShellOnlySessions clientKind = true) :
    createStep host c i clientKind call.blank pc r = createStep host c i clientKind call pc r := by
  cases pc with
  | spawning name =>
    simp only [createStep, effective_of_shellOnly _ h]
  | start => simp only [createStep, CreateCall.blank]
  | reserving | autoNaming | dropping | unrestoring | inserting | forwarding | publishing
  | returned => rfl

/-- A call does not look at what else its device sends. -/
theorem sessionCallStep_blankChoice {attached : Option SessionId} (call : SessionCall) :
    sessionCallStep host c.blank i attached s call = sessionCallStep host c i attached s call := by
  cases call with
  | create clientKind call pc =>
    cases pc with
    | returned result =>
      cases result with
      | created id => rfl
      | failed error => rfl
    | start | reserving | autoNaming | spawning | dropping | unrestoring | inserting | forwarding
    | publishing => rfl
  | kill id pc =>
    cases pc with
    | returned ok =>
      cases ok with
      | true => rfl
      | false => rfl
    | looking | flagging | signalling | unregistering | forgetting | releasing | erasing
    | publishing => rfl
  | attach | join | input | resize => rfl

theorem sessionCallStep_blank {id : String} {attached : Option SessionId} {call : SessionCall}
    (h : (IrohPc.session call).OwnOnly id) :
    sessionCallStep host c.blank i attached s call.blank =
      (sessionCallStep host c i attached s call).map fun r =>
        (r.1, r.2.1, r.2.2.1, r.2.2.2.map SessionCall.blank) := by
  rw [sessionCallStep_blankChoice]
  cases call with
  | create clientKind call pc =>
    cases pc with
    | returned result =>
      cases result with
      | created id => rfl
      | failed error => rfl
    | start | reserving | autoNaming | spawning | dropping | unrestoring | inserting | forwarding
    | publishing =>
      simp only [SessionCall.blank, sessionCallStep, createStep_blank h, Option.map_map]
      rfl
  | kill id pc =>
    cases pc with
    | returned ok =>
      cases ok with
      | true => rfl
      | false => rfl
    | looking | flagging | signalling | unregistering | forgetting | releasing | erasing
    | publishing =>
      simp only [SessionCall.blank, sessionCallStep, Option.map_map]
      rfl
  | attach id size lastSeenSeq =>
    simp only [SessionCall.blank, sessionCallStep]
    split
    · rfl
    · rfl
    · rfl
  | join id size lastSeenSeq =>
    simp only [SessionCall.blank, sessionCallStep, Option.map_map]
    congr 1
    funext session
    simp only [Function.comp_apply]
    split
    · split
      · rfl
      · rfl
    · rfl
  | input id bytes =>
    simp only [SessionCall.blank, sessionCallStep]
    split
    · rfl
    · split
      · rfl
      · rfl
  | resize id size =>
    simp only [SessionCall.blank, sessionCallStep]
    split
    · rfl
    · rfl

theorem blank_of_requirePaired {answer answer' : IrohConnection × IrohPc}
    (h : answer' = (answer.1, answer.2.blank)) :
    conn.requirePaired answer' =
      ((conn.requirePaired answer).1, (conn.requirePaired answer).2.blank) := by
  unfold IrohConnection.requirePaired
  split
  · exact h
  · rfl

theorem irohDispatch_blank (m : ClientToServerMsg) :
    irohDispatch pairingSas s conn m.blank =
      ((irohDispatch pairingSas s conn m).1, (irohDispatch pairingSas s conn m).2.blank) := by
  cases m with
  | createSession call =>
    apply blank_of_requirePaired
    cases hsize : invalidClientSize call.size with
    | none => simp only [sized, CreateCall.blank, hsize, IrohPc.blank, SessionCall.blank]
    | some error => simp only [sized, CreateCall.blank, hsize, IrohPc.blank]
  | attachSession id size lastSeenSeq =>
    apply blank_of_requirePaired
    cases hsize : invalidClientSize size with
    | none => simp only [sized, hsize, IrohPc.blank, SessionCall.blank]
    | some error => simp only [sized, hsize, IrohPc.blank]
  | resize id size =>
    apply blank_of_requirePaired
    cases hsize : invalidClientSize size with
    | none => simp only [sized, hsize, IrohPc.blank, SessionCall.blank]
    | some error => simp only [sized, hsize, IrohPc.blank]
  | hello | listSessions | subscribeSessions | ping | detachSession | killSession | input
  | registerPushToken | unregisterPushToken | beginPairing | approvePairing | listDevices
  | removeDevice | agentStateEvent => exact blank_of_requirePaired rfl
  | pairWithCode code deviceName deviceNodeId =>
    simp only [ClientToServerMsg.blank, irohDispatch]
    split
    · rfl
    · split
      · rfl
      · split
        · rfl
        · rfl
  | unpairSelf =>
    simp only [ClientToServerMsg.blank, irohDispatch]
    split
    · rfl
    · rfl

theorem irohTake_blank (m : ClientToServerMsg) :
    irohTake storageKey pairingSas c.blank conn m.blank s =
      (irohTake storageKey pairingSas c conn m s).map fun r => (r.1, r.2.1, r.2.2.blank) := by
  simp only [irohTake, irohDispatch_blank]
  split
  · rfl
  · generalize irohDispatch pairingSas s
      { conn with admitted := s.isDevicePaired conn.remoteNodeId } m = d
    obtain ⟨conn', pc⟩ := d
    cases pc with
    | unpairing rpc =>
      simp only [IrohPc.blank]
      split
      · rfl
      · simp only [Option.map_map]
        rfl
    | connecting | marking | rechecking | serving | session | requesting | completing | updating
    | closing | closed => rfl

/-- A step of a connection does not depend on what its device wants to run. -/
theorem irohStep_blank (hpc : pc.OwnOnly conn.remoteNodeId) :
    irohStep host storageKey pairingSas c.blank i conn pc.blank s =
      (irohStep host storageKey pairingSas c i conn pc s).map fun r =>
        (r.1, r.2.1, r.2.2.blank) := by
  have hphone : c.blank.fromPhone = c.fromPhone.map ClientToServerMsg.blank := rfl
  cases pc with
  | connecting =>
    simp only [IrohPc.blank, irohStep, hphone]
    cases c.fromPhone with
    | none => rfl
    | some m =>
      cases m with
      | hello clientKind protocolVersion =>
        simp only [Option.map_some, ClientToServerMsg.blank]
        split
        · split
          · rfl
          · split
            · rfl
            · rfl
        · rfl
      | listSessions | createSession | attachSession | detachSession | killSession | input | resize
      | ping | beginPairing | approvePairing | pairWithCode | listDevices | removeDevice
      | registerPushToken | agentStateEvent | subscribeSessions | unregisterPushToken
      | unpairSelf => rfl
  | serving =>
    simp only [IrohPc.blank, irohStep, hphone]
    cases c.fromPhone with
    | none => rfl
    | some m => exact irohTake_blank m
  | session call =>
    simp only [IrohPc.blank, irohStep, sessionCallStep_blank hpc, Option.map_map]
    congr 1
    funext r
    simp only [Function.comp_apply]
    cases r.2.2.2 with
    | none => rfl
    | some call' => rfl
  | rechecking =>
    simp only [IrohPc.blank, irohStep]
    split
    · rfl
    · rfl
  | marking | updating | closing | closed => rfl
  | requesting call apc =>
    cases apc with
    | returned result =>
      cases result with
      | waited approved =>
        cases approved with
        | true => rfl
        | false => rfl
      | failed message => rfl
      | abandoned => rfl
    | taking | checking | opening | sending | holding | waiting | dropping =>
      simp only [IrohPc.blank, irohStep, Option.map_map]
      rfl
  | completing device ppc =>
    cases ppc with
    | returned ok =>
      cases ok with
      | true => rfl
      | false => rfl
    | waiting | saving | inserting | watching =>
      simp only [IrohPc.blank, irohStep, Option.map_map]
      rfl
  | unpairing rpc =>
    cases rpc with
    | returned id ok =>
      cases ok with
      | true => rfl
      | false => rfl
    | finding | checking | erasingRow | unmapping | revoking =>
      simp only [IrohPc.blank, irohStep, Option.map_map]
      rfl

theorem localStep_blank {desk : LocalConnection} {lpc : LocalPc} :
    localStep host storageKey c.blank i desk lpc s = localStep host storageKey c i desk lpc s := by
  cases lpc with
  | session call => simp only [localStep, sessionCallStep_blankChoice]
  | beginning bpc =>
    cases bpc with
    | start | pruning | generating | inserting | returned => rfl
  | approving requestId approved apc =>
    cases apc with
    | returned ok =>
      cases ok with
      | true => rfl
      | false => rfl
    | removing | sending => rfl
  | removing name found rpc =>
    cases rpc with
    | finding | checking | erasingRow | unmapping | revoking | returned => rfl
  | connecting | serving | hooking | closing | closed => rfl

theorem daemonAdvance_blank {x : DaemonTask} (hx : OwnTask s i x) :
    daemonAdvance host storageKey pairingSas c.blank i x.blank s =
      (daemonAdvance host storageKey pairingSas c i x s).map fun r => (r.1, r.2.blank) := by
  cases x with
  | iroh conn pc =>
    simp only [DaemonTask.blank, daemonAdvance, irohStep_blank hx.2, Option.map_map]
    rfl
  | desktop desk lpc =>
    simp only [DaemonTask.blank, daemonAdvance, localStep_blank, Option.map_map]
    rfl
  | background task =>
    simp only [DaemonTask.blank, daemonAdvance, Option.map_bind]
    congr 1
    funext r
    cases hr : r.2 with
    | create clientKind call pc => simp only [Function.comp_apply, hr, Option.map_none]
    | session task' => simp only [Function.comp_apply, hr, Option.map_some]

end Steps

section Frames

variable {host : HostEnv} {storageKey : String → String}
  {pairingSas : String → String → String → Except String String} {c : DaemonChoice} {i : Nat}
  {s s' s'' : DaemonState} {conn conn' : IrohConnection} {pc pc' : IrohPc}

/-- No agent has reported anything; an input may have set its session to work. -/
def Unreported (s s' : DaemonState) : Prop :=
  ∀ id, (s'.terminal id).lastLine = (s.terminal id).lastLine ∧
    ((s'.terminal id).state = (s.terminal id).state ∨ (s'.terminal id).state = .working)

theorem Unreported.of_same (h : s'.terminals = s.terminals) : Unreported s s' := by
  intro id
  rw [DaemonState.terminal, h]
  exact ⟨rfl, .inl rfl⟩

theorem Unreported.trans (h : Unreported s s') (h' : Unreported s' s'') : Unreported s s'' := by
  intro id
  obtain ⟨hline, hstate⟩ := h id
  obtain ⟨hline', hstate'⟩ := h' id
  refine ⟨hline'.trans hline, ?_⟩
  rcases hstate' with hstate' | hworking
  · rw [hstate']
    exact hstate
  · exact .inr hworking

theorem unreported_setTerminal {id : SessionId} {t : TerminalStatus}
    (hline : t.lastLine = (s.terminal id).lastLine)
    (hstate : t.state = (s.terminal id).state ∨ t.state = .working) :
    Unreported s (s.setTerminal id t) := by
  intro id'
  have hterminal : (s.setTerminal id t).terminal id' = if id' = id then t else s.terminal id' := by
    rw [DaemonState.terminal, DaemonState.setTerminal, Table.lookup_insert]
    split
    · rfl
    · rfl
  rw [hterminal]
  split
  · next hid =>
    rw [hid]
    exact ⟨hline, hstate⟩
  · exact ⟨rfl, .inl rfl⟩

theorem unreported_detachClient (s : DaemonState) (attached : Option SessionId) :
    Unreported s (s.detachClient i attached) := by
  cases attached with
  | none => exact .of_same rfl
  | some id => exact unreported_setTerminal rfl (.inl rfl)

/-- Nothing is started, or the default shell. -/
def StartsShell (host : HostEnv) (r r' : Registry) : Prop :=
  r'.processes = r.processes ∨ ∃ id, r'.processes =
    r.processes.insert id (.spawn id host.defaultSessionCommand host.defaultHomeDir [])

theorem createStep_startsShell {c : RegistryChoice} {clientKind : ClientKind} {call : CreateCall}
    {pc pc' : CreatePc} {r r' : Registry} (h : requiresShellOnlySessions clientKind = true)
    (hs : createStep host c i clientKind call pc r = some (r', pc')) : StartsShell host r r' := by
  cases pc with
  | start =>
    simp only [createStep] at hs
    split at hs
    · cases hs
      exact .inl rfl
    · split at hs
      all_goals
        cases hs
        exact .inl rfl
  | reserving | autoNaming =>
    simp only [createStep] at hs
    split at hs
    all_goals
      cases hs
      exact .inl rfl
  | spawning name =>
    simp only [createStep, effective_of_shellOnly call h] at hs
    split at hs
    · cases hs
      exact .inl rfl
    · split at hs
      · split at hs
        · cases hs
          exact .inr ⟨c.id, rfl⟩
        · cases hs
      · cases hs
        exact .inl rfl
  | dropping | unrestoring | inserting | forwarding | publishing =>
    cases hs
    exact .inl rfl
  | returned result => cases hs

/-- What a call of an app does besides what it is for. -/
theorem sessionCallStep_ofDevice {id : String} {attached : Option SessionId} {call : SessionCall}
    {r : DaemonState × Option SessionId × List Reply × Option SessionCall}
    (h : (IrohPc.session call).OwnOnly id)
    (hs : sessionCallStep host c i attached s call = some r) :
    StartsShell host s.registry r.1.registry ∧ Unreported s r.1 ∧
      (∀ x ∈ r.2.2.1, x.forDevices = true) ∧
      ∀ call', r.2.2.2 = some call' → (IrohPc.session call').OwnOnly id := by
  have told {replies : List Reply} (hreplies : replies.all Reply.forDevices = true) :
      ∀ x ∈ replies, x.forDevices = true := List.all_eq_true.mp hreplies
  unfold sessionCallStep at hs
  split at hs
  · cases hs
    exact ⟨.inl rfl, .of_same rfl, told rfl, fun _ hnext => by cases hnext⟩
  · cases hs
    exact ⟨.inl rfl, .of_same rfl, told rfl, fun _ hnext => by cases hnext⟩
  · obtain ⟨x, hcreate, rfl⟩ := Option.map_eq_some_iff.mp hs
    refine ⟨createStep_startsShell h hcreate, .of_same rfl, told rfl, fun call' hnext => ?_⟩
    cases hnext
    exact h
  · cases hs
    exact ⟨.inl rfl, .of_same rfl, told rfl, fun _ hnext => by cases hnext⟩
  · cases hs
    exact ⟨.inl rfl, .of_same rfl, told rfl, fun _ hnext => by cases hnext⟩
  · obtain ⟨x, -, rfl⟩ := Option.map_eq_some_iff.mp hs
    refine ⟨.inl rfl, .of_same rfl, told rfl, fun call' hnext => ?_⟩
    cases hnext
    trivial
  -- An attachment.
  · split at hs
    · cases hs
      refine ⟨.inl rfl, .of_same rfl, told rfl, fun call' hnext => ?_⟩
      cases hnext
      trivial
    · cases hs
      exact ⟨.inl rfl, .of_same rfl, told rfl, fun _ hnext => by cases hnext⟩
    · cases hs
      exact ⟨.inl rfl, .of_same rfl, told rfl, fun _ hnext => by cases hnext⟩
  · next id size lastSeenSeq =>
    obtain ⟨session, -, rfl⟩ := Option.map_eq_some_iff.mp hs
    have hattached : Unreported s ((s.detachClient i attached).attachClient i id size) :=
      (unreported_detachClient s attached).trans (unreported_setTerminal rfl (.inl rfl))
    have hstarts : StartsShell host s.registry
        ((s.detachClient i attached).attachClient i id size).registry :=
      .inl (congrArg Registry.processes (detachClient_registry attached))
    have hreplies : (attachedReplies c id session lastSeenSeq).all Reply.forDevices = true := by
      simp only [attachedReplies]
      cases session.exitCode with
      | none => rfl
      | some exitCode => rfl
    dsimp only
    split
    · split
      · exact ⟨hstarts, hattached.trans (unreported_detachClient _ (some id)), told hreplies,
          fun _ hnext => by cases hnext⟩
      · exact ⟨hstarts, hattached, told hreplies, fun _ hnext => by cases hnext⟩
    · exact ⟨hstarts, hattached, told rfl, fun _ hnext => by cases hnext⟩
  -- Input and a new size.
  · split at hs
    · cases hs
      exact ⟨.inl rfl, .of_same rfl, told rfl, fun _ hnext => by cases hnext⟩
    · next session =>
      split at hs
      · cases hs
        refine ⟨.inl rfl, unreported_setTerminal rfl ?_, told rfl, fun _ hnext => by cases hnext⟩
        dsimp only
        split
        · exact .inr rfl
        · exact .inl rfl
      · cases hs
        exact ⟨.inl rfl, .of_same rfl, told rfl, fun _ hnext => by cases hnext⟩
  · split at hs
    · cases hs
      exact ⟨.inl rfl, .of_same rfl, told rfl, fun _ hnext => by cases hnext⟩
    · cases hs
      exact ⟨.inl rfl, unreported_setTerminal rfl (.inl rfl), told rfl,
        fun _ hnext => by cases hnext⟩

/-- The other devices are as they were, in memory and in the store. -/
structure SameOthers (storageKey : String → String) (own : String) (t t' : DeviceState) : Prop where
  devices : ∀ id, id ≠ own → t'.devices.lookup id = t.devices.lookup id
  rows : ∀ key, key ≠ own → key ≠ storageKey own →
    t'.persisted.bind (·.lookup key) = t.persisted.bind (·.lookup key)
  revocations : ∀ id, id ≠ own → t'.revocations.lookup id = t.revocations.lookup id

section Others

variable {own : String} {t t' : DeviceState} {d : StoredDevice}

theorem SameOthers.refl (t : DeviceState) : SameOthers storageKey own t t :=
  ⟨fun _ _ => rfl, fun _ _ _ => rfl, fun _ _ => rfl⟩

theorem sameOthers_insert (d : StoredDevice) :
    SameOthers storageKey own t { t with devices := t.devices.insert own d } :=
  ⟨fun _ hid => Table.lookup_insert_ne _ _ hid, fun _ _ _ => rfl, fun _ _ => rfl⟩

theorem sameOthers_saveDevice (h : SameOthers storageKey own t t') (hd : d.deviceNodeId = own) :
    SameOthers storageKey own t (t'.saveDevice storageKey d) := by
  refine ⟨h.devices, fun key hkey hstored => ?_, h.revocations⟩
  rw [← h.rows key hkey hstored, DeviceState.saveDevice, hd]
  cases t'.persisted with
  | none => rfl
  | some rows =>
    exact (Table.lookup_insert_ne _ _ hstored).trans (Table.lookup_erase_ne _ hkey)

theorem sameOthers_removeDevice :
    SameOthers storageKey own t (t.removeDevice storageKey own) := by
  refine ⟨fun _ _ => rfl, fun key hkey hstored => ?_, fun _ _ => rfl⟩
  rw [DeviceState.removeDevice]
  cases t.persisted with
  | none => rfl
  | some rows => exact (Table.lookup_erase_ne _ hkey).trans (Table.lookup_erase_ne _ hstored)

theorem sameOthers_update (c : DeviceChoice) (change : DeviceUpdate) (hkeyed : t.Keyed) :
    SameOthers storageKey own t (updateStep storageKey c own change t).1 := by
  unfold updateStep
  split
  · exact .refl t
  · next d hd =>
    split
    · exact .refl t
    · next d' hchange =>
      have hid : d'.deviceNodeId = own := (DeviceUpdate.apply_id hchange).trans (hkeyed own d hd)
      dsimp only
      split
      · exact sameOthers_saveDevice (sameOthers_insert d') hid
      · exact sameOthers_insert d'

theorem sameOthers_pair {c : DeviceChoice} {ppc ppc' : PairPc} (hd : d.deviceNodeId = own)
    (hs : pairStep storageKey c d ppc t = some (t', ppc')) : SameOthers storageKey own t t' := by
  cases ppc with
  | waiting =>
    simp only [pairStep] at hs
    split at hs
    · cases hs
      exact ⟨fun _ _ => rfl, fun _ _ _ => rfl, fun _ _ => rfl⟩
    · cases hs
      exact .refl t
  | saving =>
    simp only [pairStep] at hs
    split at hs
    · cases hs
      exact sameOthers_saveDevice (.refl t) hd
    · cases hs
      exact .refl t
  | inserting =>
    cases hs
    rw [hd]
    exact sameOthers_insert d
  | watching =>
    cases hs
    split
    · exact .refl t
    · refine ⟨fun _ _ => rfl, fun _ _ _ => rfl, fun id hid => ?_⟩
      exact Table.lookup_insert_ne _ _ (hd.symm ▸ hid)
  | returned ok => cases hs

theorem sameOthers_remove {c : DeviceChoice} {rpc rpc' : RemovePc} (hrpc : rpc.Concerns own)
    (hs : removeStep storageKey c rpc t = some (t', rpc')) :
    SameOthers storageKey own t t' ∧ rpc'.Concerns own := by
  cases rpc with
  | finding name => cases hrpc
  | checking id =>
    obtain rfl : id = own := hrpc
    simp only [removeStep] at hs
    split at hs
    · cases hs
      exact ⟨.refl t, rfl⟩
    · cases hs
      exact ⟨⟨fun _ _ => rfl, fun _ _ _ => rfl, fun _ _ => rfl⟩, trivial⟩
  | erasingRow id =>
    obtain rfl : id = own := hrpc
    simp only [removeStep] at hs
    split at hs
    · cases hs
      exact ⟨sameOthers_removeDevice, rfl⟩
    · cases hs
      exact ⟨.refl t, trivial⟩
  | unmapping id =>
    obtain rfl : id = own := hrpc
    have herased (x : String) (hx : x ≠ id) :
        (t.devices.erase id).lookup x = t.devices.lookup x := Table.lookup_erase_ne _ hx
    simp only [removeStep] at hs
    split at hs
    · cases hs
      exact ⟨⟨herased, fun _ _ _ => rfl, fun _ _ => rfl⟩, rfl⟩
    · cases hs
      exact ⟨⟨herased, fun _ _ _ => rfl, fun _ _ => rfl⟩, trivial⟩
  | revoking id device =>
    obtain rfl : id = own := hrpc
    cases hs
    refine ⟨⟨fun _ _ => rfl, fun _ _ _ => rfl, fun x hx => ?_⟩, trivial⟩
    exact Table.lookup_modify_ne _ _ hx
  | returned id ok => cases hs

end Others

/-- No code has been begun and no request answered. -/
structure Unbegun (m m' : PairingManager) : Prop where
  codes : ∀ code pending, m'.codes.lookup code = some pending →
    ∃ pending', m.codes.lookup code = some pending' ∧ pending'.generation = pending.generation
  answers : m'.answers = m.answers

theorem Unbegun.refl (m : PairingManager) : Unbegun m m :=
  ⟨fun _ pending hp => ⟨pending, hp, rfl⟩, rfl⟩

theorem approvalStep_unbegun {call : ApprovalCall} {apc apc' : ApprovalPc} {c : PairingChoice}
    {now : Nat} {m m' : PairingManager} (hs : approvalStep c now call apc m = some (m', apc')) :
    Unbegun m m' := by
  cases apc with
  | taking =>
    simp only [approvalStep] at hs
    split at hs
    · cases hs
      exact ⟨fun code pending hp => ⟨pending, Table.includes_erase _ _ _ _ hp, rfl⟩, rfl⟩
    · cases hs
      refine ⟨fun code pending hp => ?_, rfl⟩
      obtain ⟨hp, -⟩ := Table.lookup_retain.mp hp
      rw [Table.lookup_mapVal] at hp
      obtain ⟨pending', hp', rfl⟩ := Option.map_eq_some_iff.mp hp
      exact ⟨pending', hp', rfl⟩
  | checking pending | sending pending approval =>
    simp only [approvalStep] at hs
    split at hs
    · cases hs
      exact ⟨fun code pending hp => ⟨pending, hp, rfl⟩, rfl⟩
    · cases hs
      exact .refl m
  | opening | holding | dropping =>
    cases hs
    exact ⟨fun code pending hp => ⟨pending, hp, rfl⟩, rfl⟩
  | waiting approval deadline =>
    simp only [approvalStep] at hs
    split at hs
    · cases hs
      exact .refl m
    · split at hs
      · cases hs
        exact ⟨fun code pending hp => ⟨pending, hp, rfl⟩, rfl⟩
      · split at hs
        · cases hs
          exact ⟨fun code pending hp => ⟨pending, hp, rfl⟩, rfl⟩
        · cases hs
  | returned result => cases hs

/-- What only the local socket can do has not been done, and nothing but the default shell has been
started. -/
structure OfDevice (host : HostEnv) (storageKey : String → String) (conn conn' : IrohConnection)
    (s s' : DaemonState) : Prop where
  createSession : StartsShell host s.registry s'.registry
  beginPairing : Unbegun s.pairing s'.pairing
  approvePairing : s'.approvals = s.approvals
  listDevices : ∃ rs, conn'.replies = conn.replies ++ rs ∧ ∀ r ∈ rs, r.forDevices = true
  removeDevice : SameOthers storageKey conn.remoteNodeId s.devices s'.devices
  agentStateEvent : Unreported s s'

/-- One step of a connection of a device. -/
theorem ofDevice_of_effect (hkeyed : s.devices.Keyed) (hL : OwnTask s i (.iroh conn pc))
    (he : IrohEffect host storageKey c i conn s pc s' conn' pc') :
    OfDevice host storageKey conn conn' s s' ∧ OwnTask s' i (.iroh conn' pc') := by
  obtain ⟨hkind, hown⟩ := hL
  have kept {conn' : IrohConnection} (hconn : conn.Continued conn') :
      requiresShellOnlySessions conn'.clientKind = true := by
    rcases hconn.clientKind with hsame | hmobile
    · rw [hsame]
      exact hkind
    · exact hmobile
  cases he with
  | quiet hconn hadmitted hsession hrequest hcomplete hremove =>
    refine ⟨⟨.inl rfl, .refl _, rfl, hconn.replies, .refl _, .of_same rfl⟩, kept hconn, ?_⟩
    rw [hconn.remoteNodeId]
    cases pc' with
    | session call =>
      cases call with
      | create clientKind create cpc =>
        obtain ⟨rfl, -⟩ := hsession _ rfl clientKind create cpc rfl
        exact hkind
      | kill | attach | join | input | resize => trivial
    | completing device ppc =>
      obtain ⟨call, -, hdevice⟩ := hcomplete device ppc rfl
      exact hdevice
    | unpairing rpc =>
      obtain rfl := hremove rpc rfl
      exact rfl
    | connecting | marking | rechecking | serving | requesting | updating | closing | closed =>
      trivial
  | @session call r hs =>
    obtain ⟨hdevices, hpairing, happrovals⟩ := sessionCallStep_beside hs
    obtain ⟨hstarts, hunreported, hreplies, hnext⟩ := sessionCallStep_ofDevice hown hs
    refine ⟨⟨hstarts, ?_, happrovals, ⟨_, rfl, hreplies⟩, ?_, hunreported⟩, hkind, ?_⟩
    · rw [hpairing]
      exact .refl _
    · rw [hdevices]
      exact .refl _
    · cases hcall : r.2.2.2 with
      | none => trivial
      | some call' => exact hnext call' hcall
  | update change hpc hconn hadmitted hpc' =>
    refine ⟨⟨.inl rfl, .refl _, rfl, hconn.replies, sameOthers_update _ change hkeyed,
      .of_same rfl⟩, kept hconn, ?_⟩
    rcases hpc' with rfl | rfl
    · trivial
    · trivial
  | request hs hconn hadmitted =>
    exact ⟨⟨.inl rfl, approvalStep_unbegun hs, rfl, hconn.replies, .refl _, .of_same rfl⟩,
      kept hconn, trivial⟩
  | complete answer hs =>
    exact ⟨⟨.inl rfl, .refl _, rfl, (IrohConnection.Continued.refl conn).replies,
      sameOthers_pair hown hs, .of_same rfl⟩, hkind, hown⟩
  | @remove pc rpc d rpc' conn' hpc hs =>
    have hrpc : rpc.Concerns conn.remoteNodeId ∧ conn.Continued conn' := by
      rcases hpc with ⟨rfl, rfl⟩ | ⟨rfl, rfl, rfl⟩
      · exact ⟨hown, .refl _⟩
      · exact ⟨rfl, .of_admitted (.refl _)⟩
    obtain ⟨hothers, hrpc'⟩ := sameOthers_remove hrpc.1 hs
    refine ⟨⟨.inl rfl, .refl _, rfl, hrpc.2.replies, hothers, .of_same rfl⟩, kept hrpc.2, ?_⟩
    rw [hrpc.2.remoteNodeId]
    exact hrpc'
  | close =>
    obtain ⟨hdevices, hpairing, happrovals⟩ :=
      detachClient_beside (s := s) (i := i) conn.attached
    refine ⟨⟨.inl (congrArg Registry.processes (detachClient_registry conn.attached)), ?_,
      happrovals, (IrohConnection.Continued.refl conn).replies, ?_,
      unreported_detachClient s conn.attached⟩, hkind, trivial⟩
    · rw [hpairing]
      exact .refl _
    · rw [hdevices]
      exact .refl _

end Frames

section Runs

variable {host : HostEnv} {storageKey : String → String}
  {pairingSas : String → String → String → Except String String} {c : DaemonChoice} {i : Nat}
  {s s' : DaemonState}

theorem keyed_of_local {desk desk' : LocalConnection} {lpc lpc' : LocalPc}
    (hkeyed : s.devices.Keyed)
    (he : LocalEffect host storageKey c i desk s lpc s' desk' lpc') : s'.devices.Keyed := by
  cases he with
  | quiet => exact hkeyed
  | begin => exact hkeyed
  | approve => exact hkeyed
  | session hs => exact (sessionCallStep_beside hs).1.symm ▸ hkeyed
  | remove hs => exact keyed_remove hkeyed hs
  | @hook id source state lastLine =>
    exact (hook_beside c desk s id source state lastLine).1.symm ▸ hkeyed
  | close => exact (detachClient_beside desk.attached).1.symm ▸ hkeyed

theorem keyed_of_iroh {conn conn' : IrohConnection} {pc pc' : IrohPc} (hkeyed : s.devices.Keyed)
    (he : IrohEffect host storageKey c i conn s pc s' conn' pc') : s'.devices.Keyed := by
  cases he with
  | quiet => exact hkeyed
  | request => exact hkeyed
  | session hs => exact (sessionCallStep_beside hs).1.symm ▸ hkeyed
  | update change => exact keyed_update c.device change hkeyed
  | complete answer hs => exact keyed_pair hkeyed hs
  | remove hpc hs => exact keyed_remove hkeyed hs
  | close => exact (detachClient_beside conn.attached).1.symm ▸ hkeyed

theorem own_step {x x' : DaemonTask} (hkeyed : s.devices.Keyed) (hL : OwnTask s i x)
    (hs : daemonAdvance host storageKey pairingSas c i x s = some (s', x')) :
    s'.devices.Keyed ∧ OwnTask s' i x' := by
  cases x with
  | iroh conn pc =>
    obtain ⟨⟨t, conn', pc'⟩, hstep, heq⟩ := Option.map_eq_some_iff.mp hs
    cases heq
    have he := iroh_effect hstep
    exact ⟨keyed_of_iroh hkeyed he, (ofDevice_of_effect hkeyed hL he).2⟩
  | desktop desk lpc =>
    obtain ⟨⟨t, desk', lpc'⟩, hstep, heq⟩ := Option.map_eq_some_iff.mp hs
    cases heq
    exact ⟨keyed_of_local hkeyed (local_effect hstep), trivial⟩
  | background task =>
    obtain ⟨⟨r, y⟩, -, hy⟩ := Option.bind_eq_some_iff.mp hs
    cases y with
    | session task' =>
      cases hy
      exact ⟨hkeyed, trivial⟩
    | create clientKind call pc => cases hy

theorem own_noninterference : (daemonTasking host storageKey pairingSas).Noninterference
    Machine.Any (fun s => s.devices.Keyed) OwnTask where
  init s h := h.devices.keyed
  fresh p i x _ _ hx := by
    rcases daemon_start hx with ⟨id, rfl⟩ | ⟨kind, rfl⟩ | ⟨task, rfl⟩
    · exact ⟨rfl, trivial⟩
    · trivial
    · trivial
  own p i c x s' x' _ hG _ hL hs := own_step hG hL hs
  others p i c x s' x' _ _ _ _ _ j y _ _ hy := hy
  environment p e s' keep _ hG hs := by
    rcases daemonEvent_beside hs with ⟨-, -, -, hdevices⟩ | ⟨-, rfl, -, hload⟩
    · exact ⟨hdevices.symm ▸ hG, fun _ j y _ hy => hy⟩
    · exact ⟨keyed_restart hload, fun h => by cases h⟩

/-- The same but for what the devices want to run. -/
structure Alike (p q : Pool DaemonState DaemonTask) : Prop where
  shared : q.shared = p.shared
  task : ∀ i, (q.task i).map DaemonTask.blank = (p.task i).map DaemonTask.blank

theorem alike_setTask {p q : Pool DaemonState DaemonTask} {x y : DaemonTask} (h : Alike p q)
    (hxy : y.blank = x.blank) : Alike (p.setTask i x) (q.setTask i y) := by
  refine ⟨h.shared, fun j => ?_⟩
  rw [Pool.setTask_task, Pool.setTask_task]
  split
  · exact congrArg some hxy
  · exact h.task j

/-- The same move, up to what the devices want to run, leads from like to like. -/
theorem alike_step {p q p' : Pool DaemonState DaemonTask}
    {a b : Move DaemonTask DaemonChoice DaemonEvent} (h : Alike p q)
    (hp : ∀ i x, p.task i = some x → OwnTask p.shared i x)
    (hq : ∀ i x, q.task i = some x → OwnTask q.shared i x) (hab : blankMove b = blankMove a)
    (hstep : (daemonTasking host storageKey pairingSas).machine.step a p = some p') :
    ∃ q', (daemonTasking host storageKey pairingSas).machine.step b q = some q' ∧
      Alike p' q' := by
  cases Tasking.stepped_of_step hstep with
  | spawn i x hx hi =>
    cases b with
    | spawn j y =>
      cases hab
      have hnone : q.task i = none := by simpa [hi] using h.task i
      have hspawn : ((daemonTasking host storageKey pairingSas).start x && (q.task i).isNone) =
          true := by rw [hx, hnone]; rfl
      exact ⟨q.setTask i x, if_pos hspawn, alike_setTask h rfl⟩
    | advance j c => cases hab
    | drop j => cases hab
    | environment e => cases hab
  | advance i c x x' s' hx hadvance =>
    cases b with
    | advance j c' =>
      obtain ⟨rfl, hc⟩ := Move.advance.inj hab
      have htask := h.task j
      rw [hx] at htask
      obtain ⟨y, hy, hxy⟩ := Option.map_eq_some_iff.mp htask
      have hblank : daemonAdvance host storageKey pairingSas c.blank j x.blank p.shared =
          some (s', x'.blank) :=
        (daemonAdvance_blank (hp j x hx)).trans (congrArg _ hadvance)
      rw [← hxy, ← hc, ← h.shared, daemonAdvance_blank (hq j y hy)] at hblank
      obtain ⟨⟨t, y'⟩, hadvance', heq⟩ := Option.map_eq_some_iff.mp hblank
      obtain ⟨rfl, hy'⟩ := Prod.mk.inj heq
      refine ⟨(q.setShared t).setTask j y', ?_, alike_setTask ⟨rfl, h.task⟩ hy'⟩
      simp only [Tasking.machine, daemonTasking, hy, Option.bind_some, hadvance', Option.map_some]
    | spawn j y => cases hab
    | drop j => cases hab
    | environment e => cases hab
  | drop i x hx hcancellable => cases hcancellable
  | keep e s' hevent =>
    cases b with
    | environment e' =>
      cases hab
      have hevent' : daemonEvent e q.shared = some (s', true) := by
        rw [h.shared]
        exact hevent
      refine ⟨q.setShared s', ?_, rfl, h.task⟩
      simp only [Tasking.machine, daemonTasking, hevent', Option.map_some, if_true]
    | spawn j y => cases hab
    | advance j c => cases hab
    | drop j => cases hab
  | clear e s' hevent =>
    cases b with
    | environment e' =>
      cases hab
      have hevent' : daemonEvent e q.shared = some (s', false) := by
        rw [h.shared]
        exact hevent
      refine ⟨Pool.empty s', ?_, rfl, fun _ => rfl⟩
      simp only [Tasking.machine, daemonTasking, hevent', Option.map_some, Bool.false_eq_true,
        if_false]
    | spawn j y => cases hab
    | advance j c => cases hab
    | drop j => cases hab

/-- Two runs with the same schedule, in which the devices ask for different things to run. -/
theorem alike_exec {p q p' : Pool DaemonState DaemonTask}
    {as bs : List (Move DaemonTask DaemonChoice DaemonEvent)} (h : Alike p q)
    (hp : Tasking.Safe (fun s => s.devices.Keyed) OwnTask p)
    (hq : Tasking.Safe (fun s => s.devices.Keyed) OwnTask q)
    (hab : bs.map blankMove = as.map blankMove)
    (hexec : (daemonTasking host storageKey pairingSas).machine.exec Machine.Any as p = some p') :
    ∃ q', (daemonTasking host storageKey pairingSas).machine.exec Machine.Any bs q = some q' ∧
      Alike p' q' := by
  induction as generalizing p q bs with
  | nil =>
    obtain rfl := List.map_eq_nil_iff.mp hab
    cases hexec
    exact ⟨q, rfl, h⟩
  | cons a as ih =>
    obtain ⟨b, bs, rfl, hb, hbs⟩ := List.map_eq_cons_iff.mp hab
    rw [Machine.exec_any_cons] at hexec
    obtain ⟨p₁, hstep, hrest⟩ := Option.bind_eq_some_iff.mp hexec
    obtain ⟨q₁, hstep', halike⟩ := alike_step h hp.2 hq.2 hb hstep
    obtain ⟨q', hrest', halike'⟩ := ih halike (own_noninterference.step hp trivial hstep)
      (own_noninterference.step hq trivial hstep') hbs hrest
    refine ⟨q', ?_, halike'⟩
    rw [Machine.exec_any_cons, hstep', Option.bind_some]
    exact hrest'

/-- What the devices ask to run decides nothing: with the same schedule every run ends in the same
state, with the same programs. And no step of a device's connection starts anything but the default
shell or does what only the local socket can do. -/
theorem remote_chooses_nothing {p q : Pool DaemonState DaemonTask}
    {as bs : List (Move DaemonTask DaemonChoice DaemonEvent)}
    (hinit : (daemonTasking host storageKey pairingSas).machine.init p)
    (hab : bs.map blankMove = as.map blankMove)
    (hexec : (daemonTasking host storageKey pairingSas).machine.exec Machine.Any as p = some q) :
    (∃ q', (daemonTasking host storageKey pairingSas).machine.exec Machine.Any bs p = some q' ∧
      q'.shared = q.shared) ∧
    ∀ i c r conn pc,
      (daemonTasking host storageKey pairingSas).machine.step (.advance i c) q = some r →
      q.task i = some (.iroh conn pc) → ∃ conn' pc', r.task i = some (.iroh conn' pc') ∧
        OfDevice host storageKey conn conn' q.shared r.shared := by
  have hsafe := own_noninterference.safe_init hinit
  constructor
  · obtain ⟨q', hexec', halike⟩ := alike_exec ⟨rfl, fun _ => rfl⟩ hsafe hsafe hab hexec
    exact ⟨q', hexec', halike.shared⟩
  · intro i c r conn pc hstep hconn
    have hreach : (daemonTasking host storageKey pairingSas).machine.Reachable q :=
      ⟨p, hinit, Machine.exec_run hexec⟩
    obtain ⟨hkeyed, hown⟩ := own_noninterference.invariant hreach
    cases Tasking.stepped_of_step hstep with
    | advance i c x x' s' hx hadvance =>
      obtain rfl := Option.some.inj (hx.symm.trans hconn)
      obtain ⟨⟨t, conn', pc'⟩, hirohs, heq⟩ := Option.map_eq_some_iff.mp hadvance
      cases heq
      refine ⟨conn', pc', ?_, (ofDevice_of_effect hkeyed (hown i _ hx) (iroh_effect hirohs)).1⟩
      rw [Pool.setTask_task, if_pos rfl]

end Runs

section Traces

/-- The phone is paired and asks for a session that runs this command. -/
private def asking (command : List String) : List (Move DaemonTask DaemonChoice DaemonEvent) :=
  List.flatten [pairedUp, Move.repeated 3 1 nodding,
    [.advance 1 { nodding with
      fromPhone := some (.createSession ⟨"", command, "/tmp", [("PATH", "/tmp")], ⟨80, 24⟩⟩) }],
    Move.repeated 3 1 nodding]

theorem remote_chooses_nothing_shell :
    ∃ q q' : Pool DaemonState DaemonTask,
      (daemonTasking household id oneSas).machine.exec Machine.Any (asking ["vi"])
        (Pool.empty newDaemon) = some q ∧
      (daemonTasking household id oneSas).machine.exec Machine.Any (asking ["sh", "-c", "exit"])
        (Pool.empty newDaemon) = some q' ∧
      q'.shared = q.shared ∧
      q.shared.registry.processes.lookup 0 = some (.spawn 0 ["/bin/zsh"] "/home" []) := by
  have hran : ((daemonTasking household id oneSas).machine.exec Machine.Any (asking ["vi"])
      (Pool.empty newDaemon)).any (fun q => q.shared.registry.processes.lookup 0 =
        some (.spawn 0 ["/bin/zsh"] "/home" [])) = true := by decide
  obtain ⟨q, hexec, hshell⟩ := (Option.any_eq_true _ _).mp hran
  have hsame : (asking ["sh", "-c", "exit"]).map blankMove = (asking ["vi"]).map blankMove :=
    rfl
  obtain ⟨⟨q', hexec', hshared⟩, -⟩ :=
    remote_chooses_nothing (Tasking.init_empty newDaemon_opened) hsame hexec
  exact ⟨q, q', hexec, hexec', hshared, of_decide_eq_true hshell⟩

end Traces

end Shelly.Daemon
