import Shelly.Daemon.SingleDaemon

namespace Shelly.Daemon

variable {s t : Host} {i j : Nat}

theorem DaemonPc.holdsSessions_of_devices {pc : DaemonPc} (h : pc.holdsDevices = true) :
    pc.holdsSessions = true := by
  cases pc <;> simp_all [holdsDevices, holdsSessions]

theorem DaemonPc.holdsDevices_of_verified {pc : DaemonPc} (h : pc.verified = true) :
    pc.holdsDevices = true := by
  cases pc <;> simp_all [holdsDevices, verified]

theorem DaemonPc.verified_of_listens {pc : DaemonPc} (h : pc.listens = true) :
    pc.verified = true := by
  cases pc <;> simp_all [listens, verified]

/-- What one daemon relies on, as far as it has come. -/
structure Settled (s : Host) (i : Nat) : Prop where
  sessions : (s.daemons i).holdsSessions = true → s.sessionsLock = some i
  devices : (s.daemons i).holdsDevices = true → s.devicesLock = some i
  verified : (s.daemons i).verified = true → ∃ kind, s.runtimeDir = some ⟨.me, 0o700, kind⟩
  listens : (s.daemons i).listens = true → ∃ mode,
    s.runtimeDir = some ⟨.me, 0o700, .directory (some (.socket i mode))⟩ ∧
      (s.daemons i = .serving → mode = 0o600)

structure HostInv (s : Host) : Prop where
  links : ∀ target, s.runtimeDir ≠ some ⟨.me, 0o700, .symlink target⟩
  settled : ∀ i, Settled s i

/-- A daemon that waits for the database relies on nothing. -/
theorem settled_of_waiting (h : (s.daemons i).holdsSessions = false) : Settled s i := by
  have hd : (s.daemons i).holdsDevices = false := by
    by_contra hc
    simp [DaemonPc.holdsSessions_of_devices (by simpa using hc)] at h
  have hv : (s.daemons i).verified = false := by
    by_contra hc
    simp [DaemonPc.holdsDevices_of_verified (by simpa using hc)] at hd
  have hl : (s.daemons i).listens = false := by
    by_contra hc
    simp [DaemonPc.verified_of_listens (by simpa using hc)] at hv
  constructor <;> simp [*]

/-- The lock of the database leaves everybody else waiting. -/
theorem HostInv.waiting (h : HostInv s) (hi : s.sessionsLock = some i ∨ s.sessionsLock = none)
    (hj : j ≠ i) : (s.daemons j).holdsSessions = false := by
  by_contra hc
  have hl := (h.settled j).sessions (by simpa using hc)
  rcases hi with hi | hi <;> simp [hl, hj] at hi

theorem HostInv.of_holder (h : HostInv s) (hi : s.sessionsLock = some i ∨ s.sessionsLock = none)
    (hd : ∀ j, j ≠ i → t.daemons j = s.daemons j)
    (hl : ∀ target, t.runtimeDir ≠ some ⟨.me, 0o700, .symlink target⟩) (hs : Settled t i) :
    HostInv t := by
  refine ⟨hl, fun j => ?_⟩
  by_cases hj : j = i
  · exact hj ▸ hs
  · exact settled_of_waiting (by rw [hd j hj]; exact h.waiting hi hj)

theorem Host.setPc_self (s : Host) (i : Nat) (pc : DaemonPc) : (s.setPc i pc).daemons i = pc := by
  simp [Host.setPc]

theorem Host.setPc_ne (s : Host) (pc : DaemonPc) (hj : j ≠ i) :
    (s.setPc i pc).daemons j = s.daemons j := by
  simp [Host.setPc, hj]

theorem Settled.setPc_ne (h : Settled s j) (hj : j ≠ i) (pc : DaemonPc) :
    Settled (s.setPc i pc) j := by
  have he : (s.setPc i pc).daemons j = s.daemons j := s.setPc_ne pc hj
  exact ⟨fun hc => h.sessions (he ▸ hc), fun hc => h.devices (he ▸ hc),
    fun hc => h.verified (he ▸ hc), fun hc => by
      rw [he] at hc ⊢
      exact h.listens hc⟩

theorem HostInv.setPc (h : HostInv s) (pc : DaemonPc) (hs : Settled (s.setPc i pc) i) :
    HostInv (s.setPc i pc) := by
  refine ⟨h.links, fun j => ?_⟩
  by_cases hj : j = i
  · exact hj ▸ hs
  · exact (h.settled j).setPc_ne hj pc

/-- A process that ends takes only its own locks with it. -/
theorem HostInv.exit (h : HostInv s) (i : Nat) : HostInv (s.exit i) := by
  refine ⟨h.links, fun j => ?_⟩
  by_cases hj : j = i
  · exact settled_of_waiting (by simp [Host.exit, hj, DaemonPc.holdsSessions])
  · have he : (s.exit i).daemons j = s.daemons j := by simp [Host.exit, hj]
    have hji : ¬ some j = some i := by simpa using hj
    constructor <;> rw [he]
    · intro hc
      simp [Host.exit, (h.settled j).sessions hc, hji]
    · intro hc
      simp [Host.exit, (h.settled j).devices hc, hji]
    · exact (h.settled j).verified
    · exact (h.settled j).listens

/-- Others change the directory only as long as no daemon relies on it. -/
theorem HostInv.of_runtimeDir (h : HostInv s) (node : Option RuntimeNode)
    (hn : ∀ target, node ≠ some ⟨.me, 0o700, .symlink target⟩)
    (ho : ∀ kind, s.runtimeDir ≠ some ⟨.me, 0o700, kind⟩) :
    HostInv { s with runtimeDir := node } := by
  refine ⟨hn, fun j => ?_⟩
  have hv : (s.daemons j).verified = false := by
    by_contra hc
    obtain ⟨kind, hk⟩ := (h.settled j).verified (by simpa using hc)
    exact ho kind hk
  have hl : (s.daemons j).listens = false := by
    by_contra hc
    simp [DaemonPc.verified_of_listens (by simpa using hc)] at hv
  exact ⟨(h.settled j).sessions, (h.settled j).devices, by simp [hv], by simp [hl]⟩

theorem settled_of_locks (hs : t.sessionsLock = some i) (hd : t.devicesLock = some i)
    (hv : (t.daemons i).verified = false) : Settled t i := by
  have hl : (t.daemons i).listens = false := by
    by_contra hc
    simp [DaemonPc.verified_of_listens (by simpa using hc)] at hv
  constructor <;> simp [*]

theorem settled_of_private (hs : t.sessionsLock = some i) (hd : t.devicesLock = some i)
    (hr : ∃ kind, t.runtimeDir = some ⟨.me, 0o700, kind⟩)
    (hl : (t.daemons i).listens = false) : Settled t i := by
  constructor <;> simp [*]

theorem settled_of_listener (hs : t.sessionsLock = some i) (hd : t.devicesLock = some i)
    {mode : Nat} (hr : t.runtimeDir = some ⟨.me, 0o700, .directory (some (.socket i mode))⟩)
    (hm : t.daemons i = .serving → mode = 0o600) : Settled t i := by
  constructor <;> simp [*]
  exact fun _ => hm

theorem HostInv.openDatabase (h : HostInv s) {lock : Option Nat} {attempt : Nat} {opened : Host}
    {retry : Nat → DaemonPc} (ho : lock = none → HostInv opened)
    (hr : ∀ n, Settled (s.setPc i (retry n)) i) :
    HostInv (s.openDatabase i lock attempt opened retry) := by
  unfold Host.openDatabase
  split
  · exact ho (by simpa using ‹lock.isNone = true›)
  · split
    · exact h.setPc _ (hr _)
    · exact h.exit i

theorem HostInv.openingSessions (h : HostInv s) {n : Nat} (hpc : s.daemons i = .openingSessions n)
    (mode : Nat) : HostInv (s.advance i mode) := by
  simp only [Host.advance, hpc]
  refine h.openDatabase (fun hn => ?_) (fun m => ?_)
  · refine h.of_holder (i := i) (.inr hn) (fun j hj => ?_) h.links ?_
    · exact Host.setPc_ne _ _ hj
    · have hp := Host.setPc_self { s with sessionsLock := some i } i (.openingDevices 0)
      constructor <;> rw [hp] <;> simp [Host.setPc, DaemonPc.holdsDevices, DaemonPc.verified,
        DaemonPc.listens]
  · exact settled_of_waiting (by simp [Host.setPc_self, DaemonPc.holdsSessions])

theorem HostInv.openingDevices (h : HostInv s) {n : Nat} (hpc : s.daemons i = .openingDevices n)
    (mode : Nat) : HostInv (s.advance i mode) := by
  have hl : s.sessionsLock = some i :=
    (h.settled i).sessions (by simp [hpc, DaemonPc.holdsSessions])
  simp only [Host.advance, hpc]
  refine h.openDatabase (fun hn => ?_) (fun m => ?_)
  · refine h.of_holder (.inl hl) (fun j hj => ?_) h.links ?_
    · exact Host.setPc_ne _ _ hj
    · refine settled_of_locks hl rfl ?_
      simp [Host.setPc, DaemonPc.verified]
  · have hp := s.setPc_self i (.openingDevices m)
    constructor <;> rw [hp] <;> simp [Host.setPc, hl, DaemonPc.holdsDevices, DaemonPc.verified,
      DaemonPc.listens]

/-- What the daemon with the locks does to the directory and to itself. -/
theorem HostInv.holder (h : HostInv s) (hl : s.sessionsLock = some i) {node : Option RuntimeNode}
    {pc : DaemonPc} (hn : ∀ target, node ≠ some ⟨.me, 0o700, .symlink target⟩)
    (hs : Settled ({ s with runtimeDir := node }.setPc i pc) i) :
    HostInv ({ s with runtimeDir := node }.setPc i pc) :=
  h.of_holder (.inl hl) (fun _ hj => Host.setPc_ne _ _ hj) hn hs

theorem createParent_eq {mode : Nat} (h : s.createParent mode = some t)
    (hl : ∀ target, s.runtimeDir ≠ some ⟨.me, 0o700, .symlink target⟩) :
    ∃ node, t = { s with runtimeDir := node } ∧
      ∀ target, node ≠ some ⟨.me, 0o700, .symlink target⟩ := by
  unfold Host.createParent at h
  split at h <;> cases h
  · exact ⟨_, rfl, by simp⟩
  · exact ⟨s.runtimeDir, rfl, hl⟩
  · exact ⟨s.runtimeDir, rfl, hl⟩

theorem chmodParent_eq (h : s.chmodParent = some t)
    (hl : ∀ target, s.runtimeDir ≠ some ⟨.me, 0o700, .symlink target⟩) :
    ∃ node, t = { s with runtimeDir := node } ∧
      ∀ target, node ≠ some ⟨.me, 0o700, .symlink target⟩ := by
  unfold Host.chmodParent at h
  split at h
  · cases h
  · cases h
  · cases h
  · cases h
    exact ⟨s.runtimeDir, rfl, hl⟩
  · next node h₁ h₂ h₃ hr =>
    split at h <;> cases h
    refine ⟨_, rfl, fun target hc => ?_⟩
    -- A link is none of the nodes whose own mode changes.
    obtain ⟨owner, mode, kind⟩ := node
    obtain ⟨-, rfl⟩ : owner = .me ∧ kind = .symlink target := by simpa using hc
    obtain _ | _ | _ := target
    · exact h₁ _ _ rfl
    · exact h₃ _ _ rfl
    · exact h₂ _ _ rfl

theorem Settled.locks (h : Settled s i) (hd : (s.daemons i).holdsDevices = true) :
    s.sessionsLock = some i ∧ s.devicesLock = some i :=
  ⟨h.sessions (DaemonPc.holdsSessions_of_devices hd), h.devices hd⟩

/-- The calls before the directory is verified, which anybody may still replace. -/
theorem HostInv.preparing (h : HostInv s) (mode : Nat)
    (hpc : s.daemons i = .loading ∨ s.daemons i = .statingParent ∨
      s.daemons i = .creatingParent ∨ s.daemons i = .chmodParent) :
    HostInv (s.advance i mode) := by
  have hd : (s.daemons i).holdsDevices = true := by
    rcases hpc with hpc | hpc | hpc | hpc <;> simp [hpc, DaemonPc.holdsDevices]
  obtain ⟨hs, hl⟩ := (h.settled i).locks hd
  have next : ∀ (node : Option RuntimeNode) (pc : DaemonPc), pc.verified = false →
      (∀ target, node ≠ some ⟨.me, 0o700, .symlink target⟩) →
      HostInv ({ s with runtimeDir := node }.setPc i pc) := fun node pc hv hn =>
    h.holder hs hn (settled_of_locks hs hl (by rw [Host.setPc_self, hv]))
  rcases hpc with hpc | hpc | hpc | hpc <;> simp only [Host.advance, hpc]
  · exact next s.runtimeDir _ rfl h.links
  · split
    · exact h.exit i
    · exact next s.runtimeDir _ rfl h.links
  · cases hc : s.createParent mode with
    | none => exact h.exit i
    | some t =>
      obtain ⟨node, rfl, hn⟩ := createParent_eq hc h.links
      exact next node _ rfl hn
  · cases hc : s.chmodParent with
    | none => exact h.exit i
    | some t =>
      obtain ⟨node, rfl, hn⟩ := chmodParent_eq hc h.links
      exact next node _ rfl hn

theorem parentVerified_eq (h : s.parentVerified = true) :
    ∃ kind, s.runtimeDir = some ⟨.me, 0o700, kind⟩ := by
  unfold Host.parentVerified at h
  cases hr : s.runtimeDir with
  | none => simp [hr] at h
  | some node =>
    obtain ⟨owner, mode, kind⟩ := node
    obtain ⟨rfl, rfl⟩ : owner = .me ∧ mode = 0o700 := by simpa [hr] using h
    exact ⟨kind, rfl⟩

theorem setControl_eq {kind : NodeKind} {control : Option ControlFile}
    (h : s.runtimeDir = some ⟨.me, 0o700, kind⟩) (hk : ∀ target, kind ≠ .symlink target) :
    ∃ kind', s.setControl control = { s with runtimeDir := some ⟨.me, 0o700, kind'⟩ } ∧
      ∀ target, kind' ≠ .symlink target := by
  unfold Host.setControl
  rw [h]
  cases kind with
  | directory c => exact ⟨.directory control, rfl, by simp⟩
  | file => exact ⟨.file, by simp [← h], by simp⟩
  | symlink target => exact absurd rfl (hk target)

/-- The calls on the verified directory before there is a socket in it. -/
theorem HostInv.clearing (h : HostInv s) (mode : Nat)
    (hpc : s.daemons i = .verifyingParent ∨ s.daemons i = .statingSocket ∨
      s.daemons i = .removingSocket ∨ s.daemons i = .dropping) :
    HostInv (s.advance i mode) := by
  have hd : (s.daemons i).holdsDevices = true := by
    rcases hpc with hpc | hpc | hpc | hpc <;> simp [hpc, DaemonPc.holdsDevices]
  obtain ⟨hs, hl⟩ := (h.settled i).locks hd
  have next : ∀ (kind : NodeKind) (pc : DaemonPc), pc.listens = false →
      (∀ target, kind ≠ .symlink target) →
      HostInv ({ s with runtimeDir := some ⟨.me, 0o700, kind⟩ }.setPc i pc) :=
    fun kind pc hp hk => h.holder hs (by simpa using hk)
      (settled_of_private hs hl ⟨kind, rfl⟩ (by rw [Host.setPc_self, hp]))
  have stay : (∃ kind, s.runtimeDir = some ⟨.me, 0o700, kind⟩) → ∀ pc : DaemonPc,
      pc.listens = false → HostInv (s.setPc i pc) := by
    rintro ⟨kind, hk⟩ pc hp
    have hn := next kind pc hp (fun target hc => h.links target (hc ▸ hk))
    rwa [← hk] at hn
  have clear : (∃ kind, s.runtimeDir = some ⟨.me, 0o700, kind⟩) → ∀ pc : DaemonPc,
      pc.listens = false → HostInv ((s.setControl none).setPc i pc) := by
    rintro ⟨kind, hk⟩ pc hp
    obtain ⟨kind', he, hk'⟩ := setControl_eq hk (fun target hc => h.links target (hc ▸ hk))
    rw [he]
    exact next kind' pc hp hk'
  rcases hpc with hpc | hpc | hpc | hpc
  · simp only [Host.advance, hpc]
    split
    · exact stay (parentVerified_eq ‹_›) _ rfl
    · exact h.exit i
  · have hr := (h.settled i).verified (by simp [hpc, DaemonPc.verified])
    simp only [Host.advance, hpc]
    split
    · exact stay hr _ rfl
    · exact stay hr _ rfl
    · exact h.exit i
    · exact stay hr _ rfl
  · have hr := (h.settled i).verified (by simp [hpc, DaemonPc.verified])
    simpa only [Host.advance, hpc] using clear hr _ rfl
  · have hr := (h.settled i).verified (by simp [hpc, DaemonPc.verified])
    simpa only [Host.advance, hpc] using clear hr _ rfl

/-- From the socket on, the path leads to the daemon. -/
theorem HostInv.listening (h : HostInv s) (mode : Nat)
    (hpc : s.daemons i = .binding ∨ s.daemons i = .chmodSocket) :
    HostInv (s.advance i mode) := by
  have hd : (s.daemons i).holdsDevices = true := by
    rcases hpc with hpc | hpc <;> simp [hpc, DaemonPc.holdsDevices]
  have hv : (s.daemons i).verified = true := by
    rcases hpc with hpc | hpc <;> simp [hpc, DaemonPc.verified]
  obtain ⟨hs, hl⟩ := (h.settled i).locks hd
  obtain ⟨kind, hk⟩ := (h.settled i).verified hv
  have next : ∀ (m : Nat) (pc : DaemonPc), (pc = .serving → m = 0o600) →
      HostInv ({ s with runtimeDir := some ⟨.me, 0o700, .directory (some (.socket i m))⟩ }.setPc
        i pc) := fun m pc hm => h.holder hs (by simp)
      (settled_of_listener hs hl rfl (by rwa [Host.setPc_self]))
  rcases hpc with hpc | hpc <;> simp only [Host.advance, hpc]
  · unfold Host.bind Host.setControl
    rw [hk]
    cases kind with
    | directory c =>
      cases c with
      | none => exact next mode .chmodSocket (by simp)
      | some c => exact h.exit i
    | file => exact h.exit i
    | symlink target => exact h.exit i
  · obtain ⟨m, hm, -⟩ := (h.settled i).listens (by simp [hpc, DaemonPc.listens])
    unfold Host.setControl
    rw [hm]
    exact next 0o600 .serving (fun _ => rfl)

theorem HostInv.advance (h : HostInv s) (i mode : Nat) : HostInv (s.advance i mode) := by
  cases hpc : s.daemons i with
  | absent | serving | exited => simpa only [Host.advance, hpc] using h
  | starting =>
    have hw := settled_of_waiting (s := s.setPc i (.openingSessions 0)) (i := i)
      (by simp [Host.setPc_self, DaemonPc.holdsSessions])
    simpa only [Host.advance, hpc] using h.setPc _ hw
  | openingSessions n => exact h.openingSessions hpc mode
  | openingDevices n => exact h.openingDevices hpc mode
  | loading => exact h.preparing mode (.inl hpc)
  | statingParent => exact h.preparing mode (.inr (.inl hpc))
  | creatingParent => exact h.preparing mode (.inr (.inr (.inl hpc)))
  | chmodParent => exact h.preparing mode (.inr (.inr (.inr hpc)))
  | verifyingParent => exact h.clearing mode (.inl hpc)
  | statingSocket => exact h.clearing mode (.inr (.inl hpc))
  | removingSocket => exact h.clearing mode (.inr (.inr (.inl hpc)))
  | dropping => exact h.clearing mode (.inr (.inr (.inr hpc)))
  | binding => exact h.listening mode (.inl hpc)
  | chmodSocket => exact h.listening mode (.inr hpc)
  | flushing => simpa only [Host.advance, hpc] using h.exit i

/-- A listener that is let go of leaves its file to be removed. -/
theorem HostInv.drop (h : HostInv s) (hi : (s.daemons i).listens = true) :
    HostInv (s.setPc i .dropping) := by
  have hd := DaemonPc.holdsDevices_of_verified (DaemonPc.verified_of_listens hi)
  obtain ⟨hs, hl⟩ := (h.settled i).locks hd
  obtain ⟨mode, hm, -⟩ := (h.settled i).listens hi
  refine h.setPc _ (settled_of_listener hs hl hm fun hc => ?_)
  rw [Host.setPc_self] at hc
  cases hc

theorem HostInv.fail (h : HostInv s) (i : Nat) : HostInv (s.fail i) := by
  unfold Host.fail
  split
  · exact h.drop (by simp [*, DaemonPc.listens])
  · exact h.exit i

theorem HostInv.step (h : HostInv s) {a : HostAction} (hstep : Host.step a s = some t) :
    HostInv t := by
  cases a with
  | spawn i =>
    simp only [Host.step] at hstep
    split at hstep <;> cases hstep
    exact h.setPc _ (settled_of_waiting (by simp [Host.setPc_self, DaemonPc.holdsSessions]))
  | advance i ok mode =>
    simp only [Host.step] at hstep
    split at hstep <;> cases hstep
    cases ok with
    | true => exact h.advance i mode
    | false => exact h.fail i
  | shutdown i =>
    simp only [Host.step] at hstep
    split at hstep <;> cases hstep
    · obtain ⟨hs, hl⟩ := (h.settled i).locks (by simp [*, DaemonPc.holdsDevices])
      exact h.setPc _ (settled_of_locks hs hl (by rw [Host.setPc_self]; rfl))
    · exact h.drop (by simp [*, DaemonPc.listens])
  | kill i =>
    cases hstep
    exact h.exit i
  | meddle node =>
    simp only [Host.step] at hstep
    split at hstep <;> cases hstep
    obtain ⟨ho, hn⟩ := ‹_ ∧ _›
    refine h.of_runtimeDir node (fun target hc => ?_) (fun kind hc => ?_)
    · simpa using hn _ hc
    · simpa using ho _ hc
  | retarget target =>
    simp only [Host.step] at hstep
    split at hstep <;> cases hstep
    rename_i owner mode old hr
    have hne : ¬(owner = .me ∧ mode = 0o700) := by
      rintro ⟨rfl, rfl⟩
      exact h.links old hr
    refine h.of_runtimeDir _ (fun target' hc => ?_) (fun kind hc => ?_)
    · exact hne (by simp_all)
    · exact hne (by simp_all)
  | intrude control =>
    simp only [Host.step] at hstep
    split at hstep
    · next owner mode old hr =>
      split at hstep <;> cases hstep
      refine h.of_runtimeDir _ (by simp) (fun kind hc => ?_)
      simp_all
    · cases hstep

theorem hostInv_of_reachable (h : hostMachine.Reachable s) : HostInv s := by
  refine Machine.ReachableWhen.invariant (I := HostInv) (fun s hi => ?_)
    (fun _ _ _ h _ hstep => h.step hstep) h
  obtain ⟨-, -, hp, hl⟩ := hi
  exact ⟨hl, fun i => settled_of_waiting (by rw [hp i]; rfl)⟩

/-- What one daemon does by itself, with no failure. -/
def HostAction.isCallOf (i : Nat) : HostAction → Prop
  | .spawn j => j = i
  | .advance j ok _ => j = i ∧ ok = true
  | _ => False

abbrev StartsAlone (i : Nat) (s t : Host) : Prop := hostMachine.Run (fun _ a => a.isCallOf i) s t

/-- The directory is private, and the daemon has come this far. -/
def Host.alone (daemons : Nat → DaemonPc) (i : Nat) (control : Option ControlFile)
    (sessionsLock devicesLock : Option Nat) (pc : DaemonPc) : Host :=
  ⟨some ⟨.me, 0o700, .directory control⟩, sessionsLock, devicesLock,
    Function.update daemons i pc⟩

/-- A daemon that has taken its next call. -/
theorem StartsAlone.advance {daemons : Nat → DaemonPc} {control control' : Option ControlFile}
    {l l' d d' : Option Nat} {pc pc' : DaemonPc}
    (h : StartsAlone i s (Host.alone daemons i control l d pc))
    (hpc : pc ≠ .absent ∧ pc ≠ .serving ∧ pc ≠ .exited)
    (he : Host.advance i 0 (Host.alone daemons i control l d pc) =
      Host.alone daemons i control' l' d' pc') :
    StartsAlone i s (Host.alone daemons i control' l' d' pc') := by
  refine .snoc (.advance i true 0) h ⟨rfl, rfl⟩ ?_
  have hp : (Host.alone daemons i control l d pc).daemons i = pc := by simp [Host.alone]
  obtain ⟨h₁, h₂, h₃⟩ := hpc
  simp only [hostMachine, Host.step, hp, if_true, he]

/-- The socket of a dead daemon does not keep a new one from serving. -/
theorem startsAlone_over_stale (daemons : Nat → DaemonPc) (k mode : Nat)
    (hi : daemons i = .absent) :
    StartsAlone i
      ⟨some ⟨.me, 0o700, .directory (some (.socket k mode))⟩, none, none, daemons⟩
      (Host.alone daemons i (some (.socket i 0o600)) (some i) (some i) .serving) := by
  let at' := Host.alone daemons i
  let stale := some (ControlFile.socket k mode)
  let start : Host := ⟨some ⟨.me, 0o700, .directory (some (.socket k mode))⟩, none, none, daemons⟩
  have r₀ : StartsAlone i start (at' stale none none .starting) :=
    .snoc (.spawn i) .refl rfl (by simp [start, at', stale, hostMachine, Host.step, Host.setPc,
      Host.alone, hi])
  have r₁ : StartsAlone i start (at' stale none none (.openingSessions 0)) :=
    r₀.advance (by simp) (by simp [Host.advance, Host.alone, Host.setPc])
  have r₂ : StartsAlone i start (at' stale (some i) none (.openingDevices 0)) :=
    r₁.advance (by simp) (by simp [Host.advance, Host.alone, Host.openDatabase, Host.setPc])
  have r₃ : StartsAlone i start (at' stale (some i) (some i) .loading) :=
    r₂.advance (by simp) (by simp [Host.advance, Host.alone, Host.openDatabase, Host.setPc])
  have r₄ : StartsAlone i start (at' stale (some i) (some i) .statingParent) :=
    r₃.advance (by simp) (by simp [Host.advance, Host.alone, Host.setPc])
  have r₅ : StartsAlone i start (at' stale (some i) (some i) .creatingParent) :=
    r₄.advance (by simp) (by simp [Host.advance, Host.alone, Host.parentIsSymlink, Host.setPc])
  have r₆ : StartsAlone i start (at' stale (some i) (some i) .chmodParent) :=
    r₅.advance (by simp) (by simp [Host.advance, Host.alone, Host.createParent, Host.setPc])
  have r₇ : StartsAlone i start (at' stale (some i) (some i) .verifyingParent) :=
    r₆.advance (by simp) (by simp [Host.advance, Host.alone, Host.chmodParent, Host.setPc])
  have r₈ : StartsAlone i start (at' stale (some i) (some i) .statingSocket) :=
    r₇.advance (by simp) (by simp [Host.advance, Host.alone, Host.parentVerified, Host.setPc])
  have r₉ : StartsAlone i start (at' stale (some i) (some i) .removingSocket) :=
    r₈.advance (by simp) (by simp [Host.advance, Host.alone, Host.control, Host.setPc, stale])
  have r₁₀ : StartsAlone i start (at' none (some i) (some i) .binding) :=
    r₉.advance (by simp) (by simp [Host.advance, Host.alone, Host.setControl, Host.setPc])
  have r₁₁ : StartsAlone i start (at' (some (.socket i 0)) (some i) (some i) .chmodSocket) :=
    r₁₀.advance (by simp) (by simp [Host.advance, Host.alone, Host.bind, Host.setControl,
      Host.setPc])
  exact r₁₁.advance (by simp) (by simp [Host.advance, Host.alone, Host.setControl, Host.setPc])

theorem connectOnce_eq {mode : Nat} (hi : (s.daemons i).listens = true)
    (h : s.runtimeDir = some ⟨.me, 0o700, .directory (some (.socket i mode))⟩) :
    s.connectOnce = some i := by
  simp [Host.connectOnce, Host.control, h, hi]

/-- After a daemon was killed, another one gets its place without anybody's help. -/
theorem HostInv.takeover (h : HostInv s) (hi : (s.daemons i).listens = true)
    (hj : s.daemons j = .absent) :
    ∃ t, StartsAlone j (s.exit i) t ∧ t.daemons j = .serving ∧ t.connectOnce = some j := by
  have hd := DaemonPc.holdsDevices_of_verified (DaemonPc.verified_of_listens hi)
  obtain ⟨hs, hl⟩ := (h.settled i).locks hd
  obtain ⟨mode, hm, -⟩ := (h.settled i).listens hi
  have hne : j ≠ i := by
    rintro rfl
    simp [hj, DaemonPc.listens] at hi
  have he : s.exit i = ⟨some ⟨.me, 0o700, .directory (some (.socket i mode))⟩, none, none,
      Function.update s.daemons i .exited⟩ := by simp [Host.exit, hs, hl, hm]
  have hj' : Function.update s.daemons i .exited j = .absent := by simp [hne, hj]
  have hp : ∀ control l d, (Host.alone (Function.update s.daemons i .exited) j control l d
      .serving).daemons j = .serving := by simp [Host.alone]
  refine ⟨_, he ▸ startsAlone_over_stale _ i mode hj', hp _ _ _, ?_⟩
  exact connectOnce_eq (by rw [hp]; rfl) rfl

theorem one_daemon_serves (h : hostMachine.Reachable s) :
    (∀ i j, (s.daemons i).holdsSessions = true → (s.daemons j).holdsSessions = true → i = j) ∧
    (∀ i, (s.daemons i).listens = true →
      s.sessionsLock = some i ∧ s.devicesLock = some i ∧ s.connectOnce = some i ∧
      ∃ mode, s.runtimeDir = some ⟨.me, 0o700, .directory (some (.socket i mode))⟩ ∧
        (s.daemons i = .serving → mode = 0o600)) ∧
    (∀ i j, s.daemons i = .removingSocket → (s.daemons j).listens = false) ∧
    ∀ i j, (s.daemons i).listens = true → s.daemons j = .absent →
      ∃ t, hostMachine.Run (fun _ a => a.isCallOf j) (s.exit i) t ∧
        t.daemons j = .serving ∧ t.connectOnce = some j := by
  have hinv := hostInv_of_reachable h
  have one : ∀ i j, (s.daemons i).holdsSessions = true → (s.daemons j).holdsSessions = true →
      i = j := by
    intro i j hi hj
    by_contra hne
    simp [hinv.waiting (.inl ((hinv.settled i).sessions hi)) (Ne.symm hne)] at hj
  refine ⟨one, fun i hi => ?_, fun i j hi => ?_, fun i j hi hj => hinv.takeover hi hj⟩
  · have hd := DaemonPc.holdsDevices_of_verified (DaemonPc.verified_of_listens hi)
    obtain ⟨hs, hl⟩ := (hinv.settled i).locks hd
    obtain ⟨mode, hm, hmode⟩ := (hinv.settled i).listens hi
    exact ⟨hs, hl, connectOnce_eq hi hm, mode, hm, hmode⟩
  · by_contra hj
    have hv := DaemonPc.verified_of_listens (by simpa using hj)
    have hh := DaemonPc.holdsSessions_of_devices (DaemonPc.holdsDevices_of_verified hv)
    obtain rfl := one i j (by rw [hi]; rfl) hh
    simp [hi, DaemonPc.listens] at hj

section Witness

/-- Somebody else put a link there, and took it away when the first daemon had failed over it. -/
private def contested : List HostAction :=
  [.spawn 0] ++ List.replicate 5 (.advance 0 true 0o755) ++ [.meddle none, .spawn 1] ++
    List.replicate 11 (.advance 1 true 0o755)

private def contestedHost : Host :=
  ⟨some ⟨.other, 0o777, .symlink (some .me)⟩, none, none, fun _ => .absent⟩

theorem one_daemon_serves_contested :
    ∃ s : Host, s.daemons 0 = .exited ∧ s.daemons 1 = .serving ∧
      ((s.daemons 1).listens = true →
        s.sessionsLock = some 1 ∧ s.devicesLock = some 1 ∧ s.connectOnce = some 1 ∧
        ∃ mode, s.runtimeDir = some ⟨.me, 0o700, .directory (some (.socket 1 mode))⟩ ∧
          (s.daemons 1 = .serving → mode = 0o600)) := by
  obtain ⟨s, hs, h₀, h₁⟩ := hostMachine.exists_reachable_of_exec Machine.Any
    (fun s => s.daemons 0 = .exited ∧ s.daemons 1 = .serving) contested
    (⟨rfl, rfl, fun _ => rfl, by simp [contestedHost]⟩ : hostMachine.init contestedHost) (by decide)
  exact ⟨s, h₀, h₁, (one_daemon_serves hs).2.1 1⟩

end Witness

end Shelly.Daemon
