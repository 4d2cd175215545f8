import Mathlib.Logic.Function.Basic
import Shelly.Framework.Machine

namespace Shelly.Daemon

def dbOpenLockRetryAttempts : Nat := 200

/-- The user whose daemons these are, or anybody else. -/
inductive User
  | me | other
  deriving DecidableEq

/-- What lies at the path of the control socket. -/
inductive ControlFile
  | symlink (dangling : Bool)
  | other
  | socket (daemon : Nat) (mode : Nat)
  deriving DecidableEq

/-- A symbolic link leads nowhere, or to a directory of somebody. -/
inductive NodeKind
  | file
  | symlink (target : Option User)
  | directory (control : Option ControlFile)
  deriving DecidableEq

/-- What lies at the path of the directory of the control socket. -/
structure RuntimeNode where
  owner : User
  mode : Nat
  kind : NodeKind
  deriving DecidableEq

/-- How far the process of a daemon has come: `AppState::open`, then `serve` with its calls of
`prepare_control_socket` and `set_control_socket_permissions`, then the end. -/
inductive DaemonPc
  | absent
  | starting
  | openingSessions (attempt : Nat)
  | openingDevices (attempt : Nat)
  | loading
  | statingParent
  | creatingParent
  | chmodParent
  | verifyingParent
  | statingSocket
  | removingSocket
  | binding
  | chmodSocket
  | serving
  | dropping
  | flushing
  | exited
  deriving DecidableEq

namespace DaemonPc

def holdsSessions : DaemonPc → Bool
  | .absent | .starting | .openingSessions _ | .exited => false
  | _ => true

def holdsDevices : DaemonPc → Bool
  | .absent | .starting | .openingSessions _ | .openingDevices _ | .exited => false
  | _ => true

/-- The daemon has verified the directory of the socket and relies on it. -/
def verified : DaemonPc → Bool
  | .statingSocket | .removingSocket | .binding | .chmodSocket | .serving | .dropping => true
  | _ => false

/-- The daemon has a listener. -/
def listens : DaemonPc → Bool
  | .chmodSocket | .serving | .dropping => true
  | _ => false

end DaemonPc

/-- A host on which daemons start, with the same environment. Who has which database open is kept
by locks on their files. -/
structure Host where
  runtimeDir : Option RuntimeNode
  sessionsLock : Option Nat
  devicesLock : Option Nat
  daemons : Nat → DaemonPc

/-- What can happen next. A call of a daemon can fail, and a new file gets its mode from the mask.
Anybody else can do in a directory with the sticky bit what it allows them. -/
inductive HostAction
  | spawn (i : Nat)
  | advance (i : Nat) (ok : Bool) (mode : Nat)
  | shutdown (i : Nat)
  | kill (i : Nat)
  | meddle (node : Option RuntimeNode)
  | retarget (target : Option User)
  | intrude (control : Option ControlFile)

namespace Host

def setPc (i : Nat) (pc : DaemonPc) (s : Host) : Host :=
  { s with daemons := Function.update s.daemons i pc }

/-- The process is gone, and with it its locks. The file of its socket stays. -/
def exit (i : Nat) (s : Host) : Host :=
  { s with
    sessionsLock := if s.sessionsLock = some i then none else s.sessionsLock
    devicesLock := if s.devicesLock = some i then none else s.devicesLock
    daemons := Function.update s.daemons i .exited }

/-- `open_database_with_lock_retry` for one database, one call at a time. -/
def openDatabase (s : Host) (i : Nat) (lock : Option Nat) (attempt : Nat) (opened : Host)
    (retry : Nat → DaemonPc) : Host :=
  if lock.isNone then opened
  else if attempt < dbOpenLockRetryAttempts then s.setPc i (retry (attempt + 1))
  else s.exit i

/-- `exists` follows a link, and `symlink_metadata` does not. -/
def parentIsSymlink (s : Host) : Bool :=
  match s.runtimeDir with
  | some ⟨_, _, .symlink (some _)⟩ => true
  | _ => false

/-- `create_dir_all` for the directory of the socket. -/
def createParent (mode : Nat) (s : Host) : Option Host :=
  match s.runtimeDir with
  | none => some { s with runtimeDir := some ⟨.me, mode, .directory none⟩ }
  | some ⟨_, _, .directory _⟩ | some ⟨_, _, .symlink (some _)⟩ => some s
  | some ⟨_, _, .file⟩ | some ⟨_, _, .symlink none⟩ => none

/-- `set_permissions` for the directory of the socket, which follows a link. -/
def chmodParent (s : Host) : Option Host :=
  match s.runtimeDir with
  | none | some ⟨_, _, .symlink none⟩ | some ⟨_, _, .symlink (some .other)⟩ => none
  | some ⟨_, _, .symlink (some .me)⟩ => some s
  | some node =>
    if node.owner = .me then some { s with runtimeDir := some { node with mode := 0o700 } }
    else none

/-- `symlink_metadata` of the directory of the socket, and what is checked of it. -/
def parentVerified (s : Host) : Bool :=
  s.runtimeDir.any fun node => node.owner = .me ∧ node.mode = 0o700

/-- The file at the path of the socket. -/
def control (s : Host) : Option ControlFile :=
  match s.runtimeDir with
  | some ⟨_, _, .directory control⟩ => control
  | _ => none

def setControl (control : Option ControlFile) (s : Host) : Host :=
  match s.runtimeDir with
  | some ⟨owner, mode, .directory _⟩ =>
    { s with runtimeDir := some ⟨owner, mode, .directory control⟩ }
  | _ => s

def bind (i : Nat) (mode : Nat) (s : Host) : Option Host :=
  match s.runtimeDir with
  | some ⟨_, _, .directory none⟩ => some (s.setControl (some (.socket i mode)))
  | _ => none

/-- The next call of a daemon, unless it fails for a reason of its own. -/
def advance (i : Nat) (mode : Nat) (s : Host) : Host :=
  match s.daemons i with
  | .starting => s.setPc i (.openingSessions 0)
  | .openingSessions attempt =>
    s.openDatabase i s.sessionsLock attempt
      ({ s with sessionsLock := some i }.setPc i (.openingDevices 0)) .openingSessions
  | .openingDevices attempt =>
    s.openDatabase i s.devicesLock attempt
      ({ s with devicesLock := some i }.setPc i .loading) .openingDevices
  | .loading => s.setPc i .statingParent
  | .statingParent => if s.parentIsSymlink then s.exit i else s.setPc i .creatingParent
  | .creatingParent => ((s.createParent mode).map (setPc i .chmodParent)).getD (s.exit i)
  | .chmodParent => (s.chmodParent.map (setPc i .verifyingParent)).getD (s.exit i)
  | .verifyingParent => if s.parentVerified then s.setPc i .statingSocket else s.exit i
  | .statingSocket =>
    match s.control with
    -- A link that leads nowhere does not exist for `exists`.
    | none | some (.symlink true) => s.setPc i .binding
    | some (.symlink false) => s.exit i
    | some _ => s.setPc i .removingSocket
  | .removingSocket => (s.setControl none).setPc i .binding
  | .binding => ((s.bind i mode).map (setPc i .chmodSocket)).getD (s.exit i)
  | .chmodSocket => (s.setControl (some (.socket i 0o600))).setPc i .serving
  -- The listener removes the file of its socket.
  | .dropping => (s.setControl none).setPc i .flushing
  | .flushing => s.exit i
  | .absent | .serving | .exited => s

/-- A call that fails ends the daemon, which first drops its listener if it has one. -/
def fail (i : Nat) (s : Host) : Host :=
  match s.daemons i with
  | .chmodSocket => s.setPc i .dropping
  | _ => s.exit i

def step : HostAction → Host → Option Host
  | .spawn i, s => if s.daemons i = .absent then some (s.setPc i .starting) else none
  | .advance i ok mode, s =>
    match s.daemons i with
    | .absent | .serving | .exited => none
    | _ => some (if ok then s.advance i mode else s.fail i)
  | .shutdown i, s =>
    match s.daemons i with
    -- The signal can win the `select` before `serve` is polled.
    | .statingParent => some (s.setPc i .flushing)
    | .serving => some (s.setPc i .dropping)
    | _ => none
  | .kill i, s => some (s.exit i)
  | .meddle node, s =>
    -- A file of the user can get a second name here, a directory cannot.
    if (∀ n ∈ s.runtimeDir, n.owner = .other) ∧
        ∀ n ∈ node, n.owner = .other ∨ n.kind = .file then
      some { s with runtimeDir := node }
    else none
  | .retarget target, s =>
    match s.runtimeDir with
    | some ⟨owner, mode, .symlink _⟩ =>
      some { s with runtimeDir := some ⟨owner, mode, .symlink target⟩ }
    | _ => none
  | .intrude control, s =>
    match s.runtimeDir with
    | some ⟨owner, mode, .directory _⟩ =>
      -- Another mode may let others in.
      if owner = .me ∧ mode = 0o700 then none
      else some { s with runtimeDir := some ⟨owner, mode, .directory control⟩ }
    | _ => none

/-- The daemon that `connect_once` reaches. -/
def connectOnce (s : Host) : Option Nat :=
  match s.control with
  | some (.socket i _) => if (s.daemons i).listens then some i else none
  | _ => none

end Host

/-- No daemon runs, whatever lies about. The links of the user have another mode than `0700`. -/
def hostMachine : Machine Host HostAction where
  init s := s.sessionsLock = none ∧ s.devicesLock = none ∧ (∀ i, s.daemons i = .absent) ∧
    ∀ target, s.runtimeDir ≠ some ⟨.me, 0o700, .symlink target⟩
  step := Host.step

end Shelly.Daemon
