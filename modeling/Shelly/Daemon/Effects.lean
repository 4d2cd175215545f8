import Shelly.Daemon.Dispatch

namespace Shelly.Daemon

/-- A connection that stands here does not act on the sessions or the devices before it takes
another message, except for a pairing of its own. -/
def IrohPc.harmless : IrohPc → Bool
  | .connecting | .rechecking | .serving | .requesting _ _ | .completing _ _ => true
  | .unpairing (.returned _ _) => true
  | .closing | .closed => true
  | _ => false

/-- A reply that a device may get: codes for a pairing and the list of the devices are for the
desktop. -/
def Reply.forDevices : Reply → Bool
  | .pairingStarted _ _ _ | .deviceList _ => false
  | _ => true

/-- The connection goes on under its identity, for an app, with replies that a device may get. -/
structure IrohConnection.Continued (conn conn' : IrohConnection) : Prop where
  remoteNodeId : conn'.remoteNodeId = conn.remoteNodeId
  clientKind : conn'.clientKind = conn.clientKind ∨
    requiresShellOnlySessions conn'.clientKind = true
  replies : ∃ rs, conn'.replies = conn.replies ++ rs ∧ ∀ r ∈ rs, r.forDevices = true

namespace IrohConnection.Continued

variable {conn conn' : IrohConnection}

theorem refl (conn : IrohConnection) : conn.Continued conn :=
  ⟨rfl, .inl rfl, [], (List.append_nil _).symm, fun _ hr => by cases hr⟩

theorem reply (conn : IrohConnection) {r : Reply} (hr : r.forDevices = true) :
    conn.Continued (conn.reply r) :=
  ⟨rfl, .inl rfl, [r], rfl, fun _ hmem => List.mem_singleton.mp hmem ▸ hr⟩

/-- The history of a connection is no part of it. -/
theorem of_admitted {admitted : Bool} (h : { conn with admitted := admitted }.Continued conn') :
    conn.Continued conn' :=
  ⟨h.remoteNodeId, h.clientKind, h.replies⟩

end IrohConnection.Continued

section Effects

variable (host : HostEnv) (storageKey : String → String)
  (pairingSas : String → String → String → Except String String)

/-- Everything a step of a device's connection can do to the shared state. -/
inductive IrohEffect (c : DaemonChoice) (i : Nat) (conn : IrohConnection) (s : DaemonState) :
    IrohPc → DaemonState → IrohConnection → IrohPc → Prop
  | quiet {pc conn' pc'} (hconn : conn.Continued conn')
      (hadmitted : conn'.admitted = true ∨ pc'.harmless = true)
      (hsession : ∀ call, pc' = .session call → ∀ clientKind create cpc,
        call = .create clientKind create cpc → clientKind = conn.clientKind ∧ cpc = .start)
      (hrequest : ∀ call apc, pc' = .requesting call apc →
        apc = .taking ∧ call.deviceNodeId = conn.remoteNodeId)
      (hcomplete : ∀ device ppc, pc' = .completing device ppc →
        ∃ call, pc = .requesting call (.returned (.waited true)) ∧
          device.deviceNodeId = conn.remoteNodeId)
      (hremove : ∀ rpc, pc' = .unpairing rpc → rpc = .checking conn.remoteNodeId) :
      IrohEffect c i conn s pc s conn' pc'
  | session {call r} (hs : sessionCallStep host c i conn.attached s call = some r) :
      IrohEffect c i conn s (.session call) r.1
        { conn with attached := r.2.1, replies := conn.replies ++ r.2.2.1 }
        (r.2.2.2.elim .serving .session)
  | update {pc conn' pc'} (change : DeviceUpdate) (hpc : pc = .marking ∨ pc = .updating change)
      (hconn : conn.Continued conn') (hadmitted : conn'.admitted = conn.admitted)
      (hpc' : pc' = .serving ∨ pc' = .rechecking) :
      IrohEffect c i conn s pc
        { s with
          devices := (updateStep storageKey c.device conn.remoteNodeId change s.devices).1 }
        conn' pc'
  | request {call apc m apc' conn'}
      (hs : approvalStep c.toPairingChoice s.clock call apc s.pairing = some (m, apc'))
      (hconn : conn.Continued conn') (hadmitted : conn'.admitted = conn.admitted) :
      IrohEffect c i conn s (.requesting call apc) { s with pairing := m } conn'
        (.requesting call apc')
  | complete {device ppc d ppc'} (answer : DeviceChoice)
      (hs : pairStep storageKey answer device ppc s.devices = some (d, ppc')) :
      IrohEffect c i conn s (.completing device ppc) { s with devices := d } conn
        (.completing device ppc')
  | remove {pc rpc d rpc' conn'} (hpc : pc = .unpairing rpc ∧ conn' = conn ∨
        pc = .serving ∧ rpc = .checking conn.remoteNodeId ∧
          conn' = { conn with admitted := s.isDevicePaired conn.remoteNodeId })
      (hs : removeStep storageKey c.device rpc s.devices = some (d, rpc')) :
      IrohEffect c i conn s pc { s with devices := d } conn' (.unpairing rpc')
  | close : IrohEffect c i conn s .closing (s.detachClient i conn.attached)
      { conn with attached := none } .closed

/-- Everything a step of a connection over the local socket can do to the shared state. -/
inductive LocalEffect (c : DaemonChoice) (i : Nat) (conn : LocalConnection) (s : DaemonState) :
    LocalPc → DaemonState → LocalConnection → LocalPc → Prop
  | quiet {pc conn' pc'}
      (hbegin : ∀ bpc, pc' = .beginning bpc → pc' = pc ∨ bpc = .start)
      (happrove : ∀ requestId approved apc, pc' = .approving requestId approved apc →
        apc = .removing ∧ conn'.clientKind = .localCli) :
      LocalEffect c i conn s pc s conn' pc'
  | session {call r} (hs : sessionCallStep host c i conn.attached s call = some r) :
      LocalEffect c i conn s (.session call) r.1
        { conn with attached := r.2.1, replies := conn.replies ++ r.2.2.1 }
        (r.2.2.2.elim .serving .session)
  | begin {bpc m bpc'}
      (hs : beginPairingStep c.toPairingChoice s.clock bpc s.pairing = some (m, bpc')) :
      LocalEffect c i conn s (.beginning bpc) { s with pairing := m } conn (.beginning bpc')
  | approve {requestId approved apc m apc' approvals}
      (hs : approveStep requestId approved apc s.pairing = some (m, apc'))
      (happrovals : approvals = s.approvals ∧ apc ≠ .removing ∨
        approvals = (.localSocket conn.clientKind, requestId, approved) :: s.approvals) :
      LocalEffect c i conn s (.approving requestId approved apc)
        { s with pairing := m, approvals := approvals } conn (.approving requestId approved apc')
  | remove {name found rpc d rpc' found'}
      (hs : removeStep storageKey c.device rpc s.devices = some (d, rpc')) :
      LocalEffect c i conn s (.removing name found rpc) { s with devices := d } conn
        (.removing name found' rpc')
  | hook {id source state lastLine} :
      LocalEffect c i conn s (.hooking id source state lastLine)
        (Daemon.hook c conn s id source state lastLine).1
        (Daemon.hook c conn s id source state lastLine).2 .serving
  | close : LocalEffect c i conn s .closing (s.detachClient i conn.attached)
      { conn with attached := none } .closed

variable {host storageKey pairingSas}
variable {c : DaemonChoice} {i : Nat} {conn conn' : IrohConnection} {s s' : DaemonState}
  {pc pc' : IrohPc}

/-- A connection goes on to serve, or ends. -/
theorem IrohEffect.rest (hconn : conn.Continued conn')
    (hpc' : pc' = .serving ∨ pc' = .closing ∨ pc' = .closed) :
    IrohEffect host storageKey c i conn s pc s conn' pc' := by
  rcases hpc' with rfl | rfl | rfl <;>
    exact .quiet hconn (.inr rfl) (fun _ h => nomatch h) (fun _ _ h => nomatch h)
      (fun _ _ h => nomatch h) (fun _ h => nomatch h)

/-- What a message of its device makes of a connection. -/
inductive Dispatched (conn : IrohConnection) : IrohConnection × IrohPc → Prop
  | rest {conn' : IrohConnection} {pc : IrohPc} (hconn : conn.Continued conn')
      (hpc : pc = .serving ∨ pc = .closing) : Dispatched conn (conn', pc)
  | session {call} (hpaired : conn.paired = true)
      (hcall : ∀ clientKind create cpc, call = .create clientKind create cpc →
        clientKind = conn.clientKind ∧ cpc = .start) : Dispatched conn (conn, .session call)
  | updating {change} (hpaired : conn.paired = true) : Dispatched conn (conn, .updating change)
  | requesting {call} (hcall : call.deviceNodeId = conn.remoteNodeId) :
      Dispatched conn (conn, .requesting call .taking)
  | unpairing : Dispatched conn (conn, .unpairing (.checking conn.remoteNodeId))

theorem Dispatched.serving : Dispatched conn (conn, .serving) :=
  .rest (.refl conn) (.inl rfl)

theorem Dispatched.reply {r : Reply} (hr : r.forDevices = true) :
    Dispatched conn (conn.reply r, .serving) :=
  .rest (.reply conn hr) (.inl rfl)

theorem Dispatched.requirePaired {answer : IrohConnection × IrohPc}
    (h : conn.paired = true → Dispatched conn answer) :
    Dispatched conn (conn.requirePaired answer) := by
  unfold IrohConnection.requirePaired
  split
  · exact h ‹_›
  · exact .reply rfl

/-- A request with a size is refused, or goes on. -/
theorem Dispatched.sized {size : ClientSize} {call : SessionCall} (hpaired : conn.paired = true)
    (hcall : ∀ clientKind create cpc, call = .create clientKind create cpc →
      clientKind = conn.clientKind ∧ cpc = .start) :
    Dispatched conn (match sized size call with
      | .inl error => (conn.reply error, .serving)
      | .inr call => (conn, .session call)) := by
  unfold Daemon.sized
  split
  · next error heq =>
    split at heq
    · obtain rfl := Sum.inl.inj heq
      exact .reply rfl
    · cases heq
  · rename_i heq
    split at heq
    · cases heq
    · cases heq
      exact .session hpaired hcall

variable (pairingSas) in
theorem dispatched (conn : IrohConnection) (s : DaemonState) (m : ClientToServerMsg) :
    Dispatched conn (irohDispatch pairingSas s conn m) := by
  cases m with
  | hello clientKind protocolVersion => exact .requirePaired fun _ => .serving
  | listSessions => exact .requirePaired fun _ => .reply rfl
  | subscribeSessions => exact .requirePaired fun _ => .reply rfl
  | ping seq => exact .requirePaired fun _ => .reply rfl
  | detachSession => exact .requirePaired fun _ => .rest (.refl conn) (.inr rfl)
  | createSession call =>
    refine .requirePaired fun hp => .sized hp fun clientKind create cpc h => ?_
    cases h
    exact ⟨rfl, rfl⟩
  | attachSession id size lastSeenSeq =>
    exact .requirePaired fun hp => .sized hp fun _ _ _ h => nomatch h
  | resize id size => exact .requirePaired fun hp => .sized hp fun _ _ _ h => nomatch h
  | input id bytes => exact .requirePaired fun hp => .session hp fun _ _ _ h => nomatch h
  | killSession id => exact .requirePaired fun hp => .session hp fun _ _ _ h => nomatch h
  | registerPushToken platform token => exact .requirePaired fun hp => .updating hp
  | unregisterPushToken platform token => exact .requirePaired fun hp => .updating hp
  | beginPairing | approvePairing | listDevices | removeDevice | agentStateEvent =>
    exact .requirePaired fun _ => .reply rfl
  | unpairSelf =>
    simp only [irohDispatch]
    split
    · exact .reply rfl
    · exact .unpairing
  | pairWithCode code deviceName deviceNodeId =>
    simp only [irohDispatch]
    split
    · exact .reply rfl
    · split
      · next error herror =>
        rw [pairingPeerIdentityError, Option.ite_none_left_eq_some] at herror
        obtain rfl := Option.some.inj herror.2
        exact .reply rfl
      · split
        · exact .reply rfl
        · exact .requesting rfl

/-- Taking a message, with the look at the devices that belongs to it. -/
theorem take_effect {m : ClientToServerMsg}
    (hs : irohTake storageKey pairingSas c conn m s = some (s', conn', pc')) :
    IrohEffect host storageKey c i conn s .serving s' conn' pc' := by
  simp only [irohTake] at hs
  split at hs
  · cases hs
    exact .rest (.of_admitted (.refl _)) (.inr (.inl rfl))
  · rename_i hmark
    have hadmitted (hp : conn.paired = true) : s.isDevicePaired conn.remoteNodeId = true := by
      simpa [hp] using hmark
    have hd := dispatched pairingSas
      { conn with admitted := s.isDevicePaired conn.remoteNodeId } s m
    generalize irohDispatch pairingSas s
      { conn with admitted := s.isDevicePaired conn.remoteNodeId } m = d at hs hd
    cases hd with
    | rest hconn hpc =>
      rcases hpc with rfl | rfl
      · cases hs
        exact .rest hconn.of_admitted (.inl rfl)
      · cases hs
        exact .rest hconn.of_admitted (.inr (.inl rfl))
    | session hpaired hcall =>
      cases hs
      refine .quiet (.of_admitted (.refl _)) (.inl (hadmitted hpaired)) ?_ (fun _ _ h => nomatch h)
        (fun _ _ h => nomatch h) (fun _ h => nomatch h)
      rintro call h
      cases h
      exact hcall
    | updating hpaired =>
      cases hs
      exact .quiet (.of_admitted (.refl _)) (.inl (hadmitted hpaired)) (fun _ h => nomatch h)
        (fun _ _ h => nomatch h) (fun _ _ h => nomatch h) (fun _ h => nomatch h)
    | requesting hcall =>
      cases hs
      refine .quiet (.of_admitted (.refl _)) (.inr rfl) (fun _ h => nomatch h) ?_
        (fun _ _ h => nomatch h) (fun _ h => nomatch h)
      rintro call apc h
      cases h
      exact ⟨rfl, hcall⟩
    | unpairing =>
      change (if conn.paired = true then _ else _) = _ at hs
      split at hs
      · rename_i hp
        cases hs
        refine .quiet (.of_admitted (.refl _)) (.inl (hadmitted hp)) (fun _ h => nomatch h)
          (fun _ _ h => nomatch h) (fun _ _ h => nomatch h) ?_
        rintro rpc h
        cases h
        rfl
      · obtain ⟨⟨d, rpc⟩, hr, he⟩ := Option.map_eq_some_iff.mp hs
        cases he
        exact .remove (.inr ⟨rfl, rfl, rfl⟩) hr

/-- One step of a connection of a device. -/
theorem iroh_effect
    (hs : irohStep host storageKey pairingSas c i conn pc s = some (s', conn', pc')) :
    IrohEffect host storageKey c i conn s pc s' conn' pc' := by
  cases pc with
  | connecting =>
    simp only [irohStep] at hs
    split at hs
    · cases hs
      exact .rest (.refl conn) (.inr (.inr rfl))
    · next clientKind protocolVersion hhello =>
      split at hs
      · split at hs
        · next error herror =>
          cases hs
          rw [irohClientKindError, Option.ite_none_left_eq_some] at herror
          obtain rfl := Option.some.inj herror.2
          exact .rest (.reply conn rfl) (.inr (.inr rfl))
        · next hkind =>
          cases hs
          have hmobile : requiresShellOnlySessions clientKind = true := by
            cases clientKind with
            | localCli => cases hkind
            | iosApp | androidApp => rfl
          have hconn : conn.Continued { conn.reply .welcome with
              clientKind := clientKind
              protocolVersion := protocolVersion
              paired := s.isDevicePaired conn.remoteNodeId
              admitted := s.isDevicePaired conn.remoteNodeId } :=
            ⟨rfl, .inr hmobile, (IrohConnection.Continued.reply conn rfl).replies⟩
          split
          · next hinitially =>
            exact .quiet hconn (.inl hinitially) (fun _ h => nomatch h) (fun _ _ h => nomatch h)
              (fun _ _ h => nomatch h) (fun _ h => nomatch h)
          · exact .rest hconn (.inl rfl)
      · cases hs
        exact .rest (.reply conn rfl) (.inr (.inr rfl))
    · cases hs
      exact .rest (.reply conn rfl) (.inr (.inr rfl))
  | marking =>
    cases hs
    exact .update (.markSeen s.clock) (.inl rfl) (.refl conn) rfl (.inr rfl)
  | rechecking =>
    cases hs
    split
    · exact .rest (.refl conn) (.inl rfl)
    · exact .rest (.refl conn) (.inr (.inr rfl))
  | serving =>
    simp only [irohStep] at hs
    split at hs
    · cases hs
      exact .rest (.refl conn) (.inr (.inl rfl))
    · exact take_effect hs
  | session call =>
    obtain ⟨r, hr, he⟩ := Option.map_eq_some_iff.mp hs
    cases he
    exact .session hr
  | requesting call apc =>
    have hmove {apc : ApprovalPc} (reply : IrohConnection)
        (hconn : conn.Continued reply)
        (hadmitted : reply.admitted = conn.admitted)
        (hs : (approvalStep c.toPairingChoice s.clock call apc s.pairing).map
          (fun r => ({ s with pairing := r.1 }, reply, IrohPc.requesting call r.2)) =
            some (s', conn', pc')) :
        IrohEffect host storageKey c i conn s (.requesting call apc) s' conn' pc' := by
      obtain ⟨⟨m, apc'⟩, hr, he⟩ := Option.map_eq_some_iff.mp hs
      cases he
      exact .request hr hconn hadmitted
    cases apc with
    | returned result =>
      cases result with
      | waited approved =>
        cases approved with
        | true =>
          cases hs
          refine .quiet (.refl conn) (.inr rfl) (fun _ h => nomatch h) (fun _ _ h => nomatch h) ?_
            (fun _ h => nomatch h)
          rintro device ppc h
          cases h
          exact ⟨call, rfl, rfl⟩
        | false =>
          cases hs
          exact .rest (.reply conn rfl) (.inl rfl)
      | failed message =>
        cases hs
        exact .rest (.reply conn rfl) (.inl rfl)
      | abandoned =>
        cases hs
        exact .rest (.refl conn) (.inr (.inl rfl))
    | holding approval => exact hmove (conn.reply _) (.reply conn rfl) rfl hs
    | taking | checking | opening | sending | waiting | dropping =>
      exact hmove conn (.refl conn) rfl hs
  | completing device ppc =>
    have hmove {ppc : PairPc} (answer : DeviceChoice)
        (hs : (pairStep storageKey answer device ppc s.devices).map
          (fun r => ({ s with devices := r.1 }, conn, IrohPc.completing device r.2)) =
            some (s', conn', pc')) :
        IrohEffect host storageKey c i conn s (.completing device ppc) s' conn' pc' := by
      obtain ⟨⟨d, ppc'⟩, hr, he⟩ := Option.map_eq_some_iff.mp hs
      cases he
      exact .complete answer hr
    cases ppc with
    | returned ok =>
      cases ok with
      | true =>
        cases hs
        have hreplies := (IrohConnection.Continued.reply conn
          (r := .pairingComplete (s.irohNodeId.getD "")) rfl).replies
        exact .rest ⟨rfl, .inl rfl, hreplies⟩ (.inl rfl)
      | false =>
        cases hs
        exact .rest (.refl conn) (.inr (.inl rfl))
    | waiting => exact hmove ⟨true, none⟩ hs
    | saving | inserting | watching => exact hmove c.device hs
  | unpairing rpc =>
    have hmove {rpc : RemovePc}
        (hs : (removeStep storageKey c.device rpc s.devices).map
          (fun r => ({ s with devices := r.1 }, conn, IrohPc.unpairing r.2)) =
            some (s', conn', pc')) :
        IrohEffect host storageKey c i conn s (.unpairing rpc) s' conn' pc' := by
      obtain ⟨⟨d, rpc'⟩, hr, he⟩ := Option.map_eq_some_iff.mp hs
      cases he
      exact .remove (.inl ⟨rfl, rfl⟩) hr
    cases rpc with
    | returned id ok =>
      cases ok with
      | true =>
        cases hs
        have hreplies := (IrohConnection.Continued.reply conn (r := .pong 0) rfl).replies
        exact .rest ⟨rfl, .inl rfl, hreplies⟩ (.inl rfl)
      | false =>
        cases hs
        exact .rest (.reply conn rfl) (.inl rfl)
    | finding | checking | erasingRow | unmapping | revoking => exact hmove hs
  | updating change =>
    simp only [irohStep, Option.some.injEq, Prod.mk.injEq] at hs
    obtain ⟨rfl, rfl, rfl⟩ := hs
    refine .update change (.inr rfl) ?_ ?_ (.inl rfl)
    · split
      · exact .reply conn rfl
      · exact .reply conn rfl
      · exact .reply conn rfl
    · split <;> rfl
  | closing =>
    cases hs
    exact .close
  | closed => cases hs

variable {desk desk' : LocalConnection} {lpc lpc' : LocalPc}

/-- A connection goes on with something that has no rights of its own. -/
theorem LocalEffect.rest (hbegin : ∀ bpc, lpc' ≠ .beginning bpc)
    (happrove : ∀ requestId approved apc, lpc' ≠ .approving requestId approved apc) :
    LocalEffect host storageKey c i desk s lpc s desk' lpc' :=
  .quiet (fun bpc h => absurd h (hbegin bpc)) (fun _ _ _ h => absurd h (happrove _ _ _))

theorem LocalEffect.serving : LocalEffect host storageKey c i desk s lpc s desk' .serving :=
  .rest nofun nofun

/-- A request with a size is refused, or goes on. -/
theorem LocalEffect.sized {size : ClientSize} {call : SessionCall}
    (hs : (match Daemon.sized size call with
      | .inl error => (desk.reply error, LocalPc.serving)
      | .inr call => (desk, .session call)) = (desk', lpc')) :
    LocalEffect host storageKey c i desk s lpc s desk' lpc' := by
  split at hs
  · cases hs
    exact .serving
  · cases hs
    exact .rest nofun nofun

/-- Only the desktop's own client gets further than this. -/
theorem LocalEffect.requireCli {message : String} {answer : LocalConnection × LocalPc}
    (hanswer : desk.clientKind = .localCli → answer = (desk', lpc') →
      LocalEffect host storageKey c i desk s lpc s desk' lpc')
    (hs : desk.requireCli message answer = (desk', lpc')) :
    LocalEffect host storageKey c i desk s lpc s desk' lpc' := by
  unfold LocalConnection.requireCli at hs
  split at hs
  · exact hanswer ‹_› hs
  · cases hs
    exact .serving

/-- What a message over the local socket makes of a connection. -/
theorem localDispatch_effect {m : ClientToServerMsg}
    (hs : localDispatch s desk m = (desk', lpc')) :
    LocalEffect host storageKey c i desk s lpc s desk' lpc' := by
  cases m with
  | hello | listSessions | subscribeSessions | ping | pairWithCode | registerPushToken
  | unregisterPushToken | unpairSelf =>
    cases hs
    exact .serving
  | detachSession | input =>
    cases hs
    exact .rest nofun nofun
  | attachSession id size lastSeenSeq => exact .sized hs
  | resize id size => exact .sized hs
  | createSession call =>
    simp only [localDispatch] at hs
    split at hs
    · exact .sized hs
    · cases hs
      exact .serving
  | killSession id =>
    simp only [localDispatch] at hs
    split at hs
    · cases hs
      exact .rest nofun nofun
    · cases hs
      exact .serving
  | beginPairing =>
    refine .requireCli (fun _ he => ?_) hs
    cases he
    refine .quiet (fun bpc h => ?_) (fun _ _ _ h => nomatch h)
    cases h
    exact .inr rfl
  | approvePairing requestId approved =>
    refine .requireCli (fun hkind he => ?_) hs
    cases he
    refine .quiet (fun _ h => nomatch h) (fun _ _ _ h => ?_)
    cases h
    exact ⟨rfl, hkind⟩
  | removeDevice name =>
    refine .requireCli (fun _ he => ?_) hs
    cases he
    exact .rest nofun nofun
  | listDevices =>
    refine .requireCli (fun _ he => ?_) hs
    cases he
    exact .serving
  | agentStateEvent id source state lastLine =>
    simp only [localDispatch] at hs
    split at hs
    · cases hs
      exact .rest nofun nofun
    · cases hs
      exact .serving

/-- One step of a connection over the local socket. -/
theorem local_effect (hs : localStep host storageKey c i desk lpc s = some (s', desk', lpc')) :
    LocalEffect host storageKey c i desk s lpc s' desk' lpc' := by
  cases lpc with
  | connecting =>
    simp only [localStep] at hs
    split at hs
    · cases hs
      exact .rest (fun _ h => by cases h) (fun _ _ _ h => by cases h)
    · split at hs
      · cases hs
        exact .serving
      · cases hs
        exact .rest (fun _ h => by cases h) (fun _ _ _ h => by cases h)
    · cases hs
      exact .rest (fun _ h => by cases h) (fun _ _ _ h => by cases h)
  | serving =>
    simp only [localStep] at hs
    split at hs
    · cases hs
      exact .rest (fun _ h => by cases h) (fun _ _ _ h => by cases h)
    · obtain ⟨rfl, he⟩ := Prod.mk.inj (Option.some.inj hs)
      exact localDispatch_effect he
  | session call =>
    obtain ⟨r, hr, he⟩ := Option.map_eq_some_iff.mp hs
    cases he
    exact .session hr
  | beginning bpc =>
    cases bpc with
    | returned code expiresAt generation =>
      simp only [localStep] at hs
      split at hs
      · cases hs
        exact .serving
      · split at hs
        · cases hs
          exact .quiet (fun bpc h => .inl rfl) (fun _ _ _ h => by cases h)
        · cases hs
          exact .serving
    | start | pruning | generating | inserting =>
      simp only [localStep] at hs
      split at hs
      · rename_i r hr
        cases hs
        exact .begin hr
      · cases hs
        exact .serving
  | approving requestId approved apc =>
    have hmove {apc : ApprovePc} (approvals : List (Caller × Nat × Bool))
        (happrovals : approvals = s.approvals ∧ apc ≠ .removing ∨
          approvals = (.localSocket desk.clientKind, requestId, approved) :: s.approvals)
        (hs : (approveStep requestId approved apc s.pairing).map
          (fun r => ({ s with pairing := r.1, approvals := approvals }, desk,
            LocalPc.approving requestId approved r.2)) = some (s', desk', lpc')) :
        LocalEffect host storageKey c i desk s (.approving requestId approved apc) s' desk'
          lpc' := by
      obtain ⟨⟨m, apc'⟩, hr, he⟩ := Option.map_eq_some_iff.mp hs
      cases he
      exact .approve hr happrovals
    cases apc with
    | removing => exact hmove _ (.inr rfl) hs
    | sending channel => exact hmove _ (.inl ⟨rfl, by rintro ⟨⟩⟩) hs
    | returned ok =>
      cases ok with
      | true =>
        cases hs
        exact .serving
      | false =>
        cases hs
        exact .serving
  | removing name found rpc =>
    have hmove {rpc : RemovePc} (found' : Bool)
        (hs : (removeStep storageKey c.device rpc s.devices).map
          (fun r => ({ s with devices := r.1 }, desk, LocalPc.removing name found' r.2)) =
            some (s', desk', lpc')) :
        LocalEffect host storageKey c i desk s (.removing name found rpc) s' desk' lpc' := by
      obtain ⟨⟨d, rpc'⟩, hr, he⟩ := Option.map_eq_some_iff.mp hs
      cases he
      exact .remove hr
    cases rpc with
    | returned id ok =>
      cases hs
      exact .serving
    | finding | checking | erasingRow | unmapping | revoking => exact hmove _ hs
  | hooking id source state lastLine =>
    cases hs
    exact .hook
  | closing =>
    cases hs
    exact .close
  | closed => cases hs

end Effects

end Shelly.Daemon
