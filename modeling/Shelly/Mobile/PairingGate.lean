import Shelly.Mobile.PendingPairing

namespace Shelly.Mobile.Pending

open Daemon

namespace PendingPairingGate

variable {g g' : PendingPairingGate}

/-- An attempt completes after both confirmations and not after a cancellation. -/
def Sound (g : PendingPairingGate) : Prop :=
  g.persisted = true → g.localConfirmed = true ∧ g.daemonCompleted = true ∧ g.cancelled = false

theorem sound_new : new.Sound := fun h => by cases h

/-- What has happened to an attempt stays so. -/
structure Later (g g' : PendingPairingGate) : Prop where
  cancelled : g.cancelled = true → g'.cancelled = true
  persisted : g.persisted = true → g'.persisted = true

theorem Later.refl (g : PendingPairingGate) : g.Later g := ⟨id, id⟩

theorem Later.trans {g'' : PendingPairingGate} (h : g.Later g') (h' : g'.Later g'') :
    g.Later g'' := ⟨h'.cancelled ∘ h.cancelled, h'.persisted ∘ h.persisted⟩

theorem confirmLocal_later (h : g.confirmLocal = .ok g') (hg : g.Sound) :
    g.Later g' ∧ g'.Sound := by
  unfold confirmLocal at h
  split at h
  · cases h
  · split at h
    · cases h
    · cases h
      exact ⟨⟨id, id⟩, fun hp => ⟨rfl, (hg hp).2⟩⟩

theorem complete_later (hg : g.Sound) : g.Later g.complete.1 ∧ g.complete.1.Sound := by
  unfold complete recordDaemonCompleted
  split
  · exact ⟨.refl g, hg⟩
  · next g' hrecord =>
    split at hrecord
    · cases hrecord
    · cases hrecord
      have hsound : ({ g with daemonCompleted := true } : PendingPairingGate).Sound :=
        fun hp => ⟨(hg hp).1, rfl, (hg hp).2.2⟩
      unfold markPersisted
      split
      · exact ⟨⟨id, id⟩, hsound⟩
      · next hready =>
        split at hready
        · next hboth =>
          cases hready
          simp only [readyToPersist, Bool.and_eq_true, Bool.not_eq_true'] at hboth
          exact ⟨⟨id, fun _ => rfl⟩, fun _ => ⟨hboth.1.1, rfl, hboth.2⟩⟩
        · cases hready

theorem persisted_of_complete {u : Unit} (h : g.complete.2 = .ok u) :
    g.complete.1.persisted = true := by
  unfold complete markPersisted at h ⊢
  split at h
  · cases h
  · split at h
    · cases h
    · next hrecord _ _ hready =>
      split at hready
      · cases hready
        rfl
      · cases hready

theorem cancel_later (h : g.cancel = .ok g') : g.Later g' ∧ g'.Sound ∧ g'.cancelled = true := by
  unfold cancel at h
  split at h
  · cases h
  · next hlive =>
    cases h
    exact ⟨⟨fun _ => rfl, id⟩, fun hp => absurd hp hlive, rfl⟩

end PendingPairingGate

namespace BiStream

variable {b b' b'' : BiStream}

/-- Messages are only added to what a host has written and to what the phone has read. -/
structure Grows (b b' : BiStream) : Prop where
  nodeId : b'.nodeId = b.nodeId
  read : b.read ≤ b'.read
  sent : b.sent <+: b'.sent

theorem Grows.refl (b : BiStream) : b.Grows b := ⟨rfl, le_refl _, List.prefix_rfl⟩

theorem Grows.trans (h : b.Grows b') (h' : b'.Grows b'') : b.Grows b'' :=
  ⟨h'.nodeId.trans h.nodeId, h.read.trans h'.read, h.sent.trans h'.sent⟩

theorem Grows.mem_taken (h : b.Grows b') {r : Daemon.Reply} (hr : r ∈ b.sent.take b.read) :
    r ∈ b'.sent.take b'.read := by
  obtain ⟨rest, hrest⟩ := h.sent
  rw [← hrest, List.take_append]
  refine List.mem_append_left _ ?_
  exact (List.take_subset_take_left _ h.read) hr

end BiStream

namespace ShellyClient

variable {s s' s'' : ShellyClient}

/-- Streams and attempts are only added, and what has happened to them stays so. -/
structure Grows (s s' : ShellyClient) : Prop where
  streams : ∀ k b, s.streams.lookup k = some b → ∃ b', s'.streams.lookup k = some b' ∧ b.Grows b'
  pairings : ∀ n p, s.pairings.lookup n = some p → ∃ p', s'.pairings.lookup n = some p' ∧
    p'.target = p.target ∧ p'.stream = p.stream ∧ p.gate.Later p'.gate

theorem Grows.refl (s : ShellyClient) : s.Grows s :=
  ⟨fun _ b h => ⟨b, h, .refl b⟩, fun _ p h => ⟨p, h, rfl, rfl, .refl _⟩⟩

theorem Grows.trans (h : s.Grows s') (h' : s'.Grows s'') : s.Grows s'' := by
  constructor
  · intro k b hb
    obtain ⟨b', hb', hgrows⟩ := h.streams k b hb
    obtain ⟨b'', hb'', hgrows'⟩ := h'.streams k b' hb'
    exact ⟨b'', hb'', hgrows.trans hgrows'⟩
  · intro n p hp
    obtain ⟨p', hp', htarget, hstream, hlater⟩ := h.pairings n p hp
    obtain ⟨p'', hp'', htarget', hstream', hlater'⟩ := h'.pairings n p' hp'
    exact ⟨p'', hp'', htarget'.trans htarget, hstream'.trans hstream, hlater.trans hlater'⟩

/-- The stream was opened to this identity. -/
def LeadsTo (s : ShellyClient) (k : Nat) (nodeId : String) : Prop :=
  ∃ b, s.streams.lookup k = some b ∧ b.nodeId = nodeId

/-- The phone has read on the stream of the attempt that the pairing is complete, under the
identity that it was made with. -/
def Completed (s : ShellyClient) (n : Nat) : Prop :=
  ∃ p b, s.pairings.lookup n = some p ∧ s.streams.lookup p.stream = some b ∧
    .pairingComplete p.target.nodeId ∈ b.sent.take b.read

def Gated (s : ShellyClient) (n : Nat) (P : PendingPairingGate → Prop) : Prop :=
  ∃ p, s.pairings.lookup n = some p ∧ P p.gate

/-- The attempt may set the stored target. -/
def Settled (s : ShellyClient) (n : Nat) : Prop :=
  s.Completed n ∧ s.Gated n (·.persisted = true)

theorem Grows.leadsTo (h : s.Grows s') {k : Nat} {nodeId : String} (hk : s.LeadsTo k nodeId) :
    s'.LeadsTo k nodeId := by
  obtain ⟨b, hb, rfl⟩ := hk
  obtain ⟨b', hb', hgrows⟩ := h.streams k b hb
  exact ⟨b', hb', hgrows.nodeId⟩

theorem Grows.completed (h : s.Grows s') {n : Nat} (hn : s.Completed n) : s'.Completed n := by
  obtain ⟨p, b, hp, hb, hread⟩ := hn
  obtain ⟨p', hp', htarget, hstream, -⟩ := h.pairings n p hp
  obtain ⟨b', hb', hgrows⟩ := h.streams p.stream b hb
  exact ⟨p', b', hp', hstream ▸ hb', htarget ▸ hgrows.mem_taken hread⟩

theorem Grows.gated (h : s.Grows s') {n : Nat} {P : PendingPairingGate → Prop}
    (hP : ∀ g g', P g → g.Later g' → P g') (hn : s.Gated n P) : s'.Gated n P := by
  obtain ⟨p, hp, hg⟩ := hn
  obtain ⟨p', hp', -, -, hlater⟩ := h.pairings n p hp
  exact ⟨p', hp', hP _ _ hg hlater⟩

theorem Grows.settled (h : s.Grows s') {n : Nat} (hn : s.Settled n) : s'.Settled n :=
  ⟨h.completed hn.1, h.gated (fun _ _ hp hlater => hlater.persisted hp) hn.2⟩

/-- Streams and attempts are numbered as they are made, every attempt has a stream to its target,
and an attempt that has set the stored target is complete. -/
structure Sound (s : ShellyClient) : Prop where
  streams : ∀ k, s.opened ≤ k → s.streams.lookup k = none
  pairings : ∀ n, s.made ≤ n → s.pairings.lookup n = none
  linked : ∀ n p, s.pairings.lookup n = some p → p.gate.Sound ∧ s.LeadsTo p.stream p.target.nodeId
  setBy : ∀ n ∈ s.setBy, s.Settled n

theorem sound_new (daemon : Option DaemonTarget) : (new daemon).Sound where
  streams _ _ := Table.lookup_empty _
  pairings _ _ := Table.lookup_empty _
  linked _ _ h := by cases (Table.lookup_empty _).symm.trans h
  setBy _ h := by cases h

end ShellyClient

/-- What a call knows of its attempt. -/
def Local (s : ShellyClient) (_ : Nat) : PhoneTask → Prop
  | .pair (.greeting _ target k) | .pair (.requesting _ target _ k) => s.LeadsTo k target.nodeId
  | .confirm n (.reading k) => ∃ p, s.pairings.lookup n = some p ∧ p.stream = k
  | .confirm n (.recording _) => s.Completed n
  | .confirm n (.storing _) => s.Settled n
  | .cancel n (.returned (.ok _)) => s.Gated n (·.cancelled = true)
  | _ => True

theorem local_grows {s s' : ShellyClient} {i : Nat} {x : PhoneTask} (hg : s.Grows s')
    (h : Local s i x) : Local s' i x := by
  cases x with
  | pair pc =>
    cases pc with
    | greeting | requesting => exact hg.leadsTo h
    | called | opening | returned => trivial
  | confirm n pc =>
    cases pc with
    | reading k =>
      obtain ⟨p, hp, hk⟩ := h
      obtain ⟨p', hp', -, hstream, -⟩ := hg.pairings n p hp
      exact ⟨p', hp', hstream.trans hk⟩
    | recording => exact hg.completed h
    | storing => exact hg.settled h
    | called | returned => trivial
  | cancel n pc =>
    cases pc with
    | called => trivial
    | returned result =>
      cases result with
      | ok => exact hg.gated (fun _ _ hp hlater => hlater.cancelled hp) h
      | error => trivial

namespace ShellyClient

variable {isDaemon : String → Bool} {s s' : ShellyClient}

/-- Where a stream comes from that is there after a step: it was opened by it, or is as it was but
for what the phone has read and for what a host other than the daemon has written. -/
structure Kept (isDaemon : String → Bool) (b b' : BiStream) : Prop where
  nodeId : b'.nodeId = b.nodeId
  peer : b'.peer = b.peer
  sent : b'.sent = b.sent ∨ isDaemon b.nodeId = false

def Fresh (isDaemon : String → Bool) (b : BiStream) : Prop :=
  b.peer = .waiting ∧ (b.sent = [] ∨ isDaemon b.nodeId = false)

/-- What a step of the phone preserves, whoever takes it. -/
structure Progress (isDaemon : String → Bool) (s s' : ShellyClient) : Prop where
  grows : s.Grows s'
  sound : s'.Sound
  streams : ∀ k b', s'.streams.lookup k = some b' → Fresh isDaemon b' ∨
    ∃ b, s.streams.lookup k = some b ∧ Kept isDaemon b b'

theorem kept_of_streams (h : s'.streams = s.streams) (k : Nat) (b' : BiStream)
    (hb' : s'.streams.lookup k = some b') :
    Fresh isDaemon b' ∨ ∃ b, s.streams.lookup k = some b ∧ Kept isDaemon b b' :=
  .inr ⟨b', h ▸ hb', rfl, rfl, .inl rfl⟩

theorem Sound.progress (h : s.Sound) : s.Progress isDaemon s :=
  ⟨.refl s, h, kept_of_streams rfl⟩

theorem Progress.trans {s'' : ShellyClient} (h : s.Progress isDaemon s')
    (h' : s'.Progress isDaemon s'') : s.Progress isDaemon s'' := by
  refine ⟨h.grows.trans h'.grows, h'.sound, fun k b'' hb'' => ?_⟩
  rcases h'.streams k b'' hb'' with hfresh | ⟨b', hb', hkept'⟩
  · exact .inl hfresh
  · rcases h.streams k b' hb' with ⟨hwaiting, hsent⟩ | ⟨b, hb, hkept⟩
    · refine .inl ⟨hkept'.peer.trans hwaiting, ?_⟩
      rw [hkept'.nodeId]
      rcases hkept'.sent with hsame | hother
      · exact hsent.imp_left hsame.trans
      · exact .inr hother
    · refine .inr ⟨b, hb, hkept'.nodeId.trans hkept.nodeId, hkept'.peer.trans hkept.peer, ?_⟩
      rcases hkept'.sent with hsame | hother
      · exact hkept.sent.imp_left hsame.trans
      · exact .inr (hkept.nodeId ▸ hother)

/-- A change of the streams that are there. -/
theorem Sound.of_streams (h : s.Sound) (hgrows : s.Grows s') (hopened : s'.opened = s.opened)
    (hstreams : ∀ k, s.streams.lookup k = none → s'.streams.lookup k = none)
    (hpairings : s'.pairings = s.pairings) (hmade : s'.made = s.made)
    (hsetBy : s'.setBy = s.setBy) : s'.Sound where
  streams k hk := hstreams k (h.streams k (hopened ▸ hk))
  pairings n hn := by
    rw [hpairings]
    exact h.pairings n (hmade ▸ hn)
  linked n p hp := by
    obtain ⟨hgate, hleads⟩ := h.linked n p (hpairings ▸ hp)
    exact ⟨hgate, hgrows.leadsTo hleads⟩
  setBy n hn := hgrows.settled (h.setBy n (hsetBy ▸ hn))

/-- One stream changes. -/
theorem Sound.setStream (h : s.Sound) {k : Nat} {b b' : BiStream} (hb : s.streams.lookup k = some b)
    (hgrows : b.Grows b') (hkept : Kept isDaemon b b') :
    s.Progress isDaemon { s with streams := s.streams.insert k b' } := by
  have hg : s.Grows { s with streams := s.streams.insert k b' } := by
    refine ⟨fun j a ha => ?_, fun n p hp => ⟨p, hp, rfl, rfl, .refl _⟩⟩
    by_cases hj : j = k
    · subst hj
      obtain rfl := Option.some.inj (hb.symm.trans ha)
      exact ⟨b', Table.lookup_insert_self _ _ _, hgrows⟩
    · exact ⟨a, (Table.lookup_insert_ne _ _ hj).trans ha, .refl a⟩
  refine ⟨hg, h.of_streams hg rfl (fun j hj => ?_) rfl rfl rfl, fun j a ha => ?_⟩
  · have hne : j ≠ k := by
      rintro rfl
      cases hb.symm.trans hj
    exact (Table.lookup_insert_ne _ _ hne).trans hj
  · by_cases hj : j = k
    · subst hj
      obtain rfl := Option.some.inj ((Table.lookup_insert_self _ _ _).symm.trans ha)
      exact .inr ⟨b, hb, hkept⟩
    · exact .inr ⟨a, (Table.lookup_insert_ne _ _ hj).symm.trans ha, rfl, rfl, .inl rfl⟩

theorem Sound.openStream (h : s.Sound) (nodeId : String) :
    s.Progress isDaemon (s.openStream nodeId) ∧
      (s.openStream nodeId).LeadsTo s.opened nodeId := by
  have hnew : (s.openStream nodeId).streams.lookup s.opened = some ⟨nodeId, .waiting, [], 0⟩ :=
    Table.lookup_insert_self _ _ _
  have hold {k : Nat} (hk : k ≠ s.opened) :
      (s.openStream nodeId).streams.lookup k = s.streams.lookup k := Table.lookup_insert_ne _ _ hk
  have hg : s.Grows (s.openStream nodeId) := by
    refine ⟨fun k b hb => ⟨b, ?_, .refl b⟩, fun n p hp => ⟨p, hp, rfl, rfl, .refl _⟩⟩
    rw [hold, hb]
    rintro rfl
    cases (h.streams _ (le_refl _)).symm.trans hb
  refine ⟨⟨hg, ⟨fun k hk => ?_, h.pairings, fun n p hp => ?_, fun n hn => ?_⟩, fun k b hb => ?_⟩,
    _, hnew, rfl⟩
  · rw [hold (Nat.ne_of_gt hk)]
    exact h.streams k (Nat.le_of_succ_le hk)
  · obtain ⟨hgate, hleads⟩ := h.linked n p hp
    exact ⟨hgate, hg.leadsTo hleads⟩
  · exact hg.settled (h.setBy n hn)
  · by_cases hk : k = s.opened
    · subst hk
      obtain rfl := Option.some.inj (hnew.symm.trans hb)
      exact .inl ⟨rfl, .inl rfl⟩
    · exact .inr ⟨b, (hold hk).symm.trans hb, rfl, rfl, .inl rfl⟩

variable (isDaemon) in
/-- What was read stands among what has been read. -/
theorem Sound.readMsg (h : s.Sound) {k : Nat} {r : Daemon.Reply} (hr : s.readMsg k = some (s', r)) :
    s.Progress isDaemon s' ∧ s'.pairings = s.pairings ∧
      ∃ b, s'.streams.lookup k = some b ∧ r ∈ b.sent.take b.read := by
  obtain ⟨b, hb, hr⟩ := Option.bind_eq_some_iff.mp hr
  obtain ⟨r', hget, heq⟩ := Option.map_eq_some_iff.mp hr
  obtain ⟨rfl, rfl⟩ := Prod.mk.inj heq
  have hgrows : b.Grows { b with read := b.read + 1 } := ⟨rfl, Nat.le_succ _, List.prefix_rfl⟩
  refine ⟨h.setStream hb hgrows ⟨rfl, rfl, .inl rfl⟩, rfl, _, Table.lookup_insert_self _ _ _, ?_⟩
  obtain ⟨hlt, hget⟩ := List.getElem?_eq_some_iff.mp hget
  exact List.mem_take_iff_getElem.mpr
    ⟨b.read, lt_min (Nat.lt_succ_self b.read) hlt, hget⟩

theorem Sound.addPairing (h : s.Sound) {p : PendingPairing} (hgate : p.gate.Sound)
    (hleads : s.LeadsTo p.stream p.target.nodeId) : s.Progress isDaemon (s.addPairing p) := by
  have hold {n : Nat} (hn : n ≠ s.made) :
      (s.addPairing p).pairings.lookup n = s.pairings.lookup n := Table.lookup_insert_ne _ _ hn
  have hg : s.Grows (s.addPairing p) := by
    refine ⟨fun k b hb => ⟨b, hb, .refl b⟩, fun n p' hp' => ⟨p', ?_, rfl, rfl, .refl _⟩⟩
    rw [hold, hp']
    rintro rfl
    cases (h.pairings _ (le_refl _)).symm.trans hp'
  refine ⟨hg, ⟨h.streams, fun n hn => ?_, fun n p' hp' => ?_, fun n hn => ?_⟩,
    kept_of_streams rfl⟩
  · rw [hold (Nat.ne_of_gt hn)]
    exact h.pairings n (Nat.le_of_succ_le hn)
  · by_cases hn : n = s.made
    · subst hn
      obtain rfl := Option.some.inj ((Table.lookup_insert_self _ _ _).symm.trans hp')
      exact ⟨hgate, hg.leadsTo hleads⟩
    · obtain ⟨hgate', hleads'⟩ := h.linked n p' ((hold hn).symm.trans hp')
      exact ⟨hgate', hg.leadsTo hleads'⟩
  · exact hg.settled (h.setBy n hn)

/-- An attempt moves on. -/
theorem Sound.setPairing (h : s.Sound) {n : Nat} {p : PendingPairing} (held : Bool)
    {gate : PendingPairingGate} (hp : s.pairings.lookup n = some p)
    (hlater : p.gate.Later gate) (hsound : gate.Sound) :
    s.Progress isDaemon (s.setPairing n { p with held := held, gate := gate }) ∧
      (s.setPairing n { p with held := held, gate := gate }).pairings.lookup n =
        some { p with held := held, gate := gate } := by
  have hnew : (s.setPairing n { p with held := held, gate := gate }).pairings.lookup n =
      some { p with held := held, gate := gate } := Table.lookup_insert_self _ _ _
  have hold {m : Nat} (hm : m ≠ n) :
      (s.setPairing n { p with held := held, gate := gate }).pairings.lookup m =
        s.pairings.lookup m := Table.lookup_insert_ne _ _ hm
  have hg : s.Grows (s.setPairing n { p with held := held, gate := gate }) := by
    refine ⟨fun k b hb => ⟨b, hb, .refl b⟩, fun m p' hp' => ?_⟩
    by_cases hm : m = n
    · subst hm
      obtain rfl := Option.some.inj (hp.symm.trans hp')
      exact ⟨_, hnew, rfl, rfl, hlater⟩
    · exact ⟨p', (hold hm).trans hp', rfl, rfl, .refl _⟩
  refine ⟨⟨hg, ⟨h.streams, fun m hm => ?_, fun m p' hp' => ?_, fun m hm => ?_⟩,
    kept_of_streams rfl⟩, hnew⟩
  · have hne : m ≠ n := by
      rintro rfl
      cases (h.pairings _ hm).symm.trans hp
    exact (hold hne).trans (h.pairings m hm)
  · by_cases hm : m = n
    · subst hm
      obtain rfl := Option.some.inj (hnew.symm.trans hp')
      exact ⟨hsound, hg.leadsTo (h.linked m p hp).2⟩
    · obtain ⟨hgate', hleads'⟩ := h.linked m p' ((hold hm).symm.trans hp')
      exact ⟨hgate', hg.leadsTo hleads'⟩
  · exact hg.settled (h.setBy m hm)

theorem Sound.setDaemon (h : s.Sound) {n : Nat} (target : DaemonTarget) (hn : s.Settled n) :
    s.Progress isDaemon (s.setDaemon n target) := by
  have hg : s.Grows (s.setDaemon n target) :=
    ⟨fun _ b hb => ⟨b, hb, .refl b⟩, fun _ p hp => ⟨p, hp, rfl, rfl, .refl _⟩⟩
  refine ⟨hg, ⟨h.streams, h.pairings, h.linked, fun m hm => ?_⟩, kept_of_streams rfl⟩
  rcases List.mem_cons.mp hm with rfl | hm
  · exact hn
  · exact h.setBy m hm

end ShellyClient

section Steps

variable {phoneNodeId : String} {secretKey : List UInt8}
  {pairingSas : String → String → String → Except String String} {isDaemon : String → Bool}
variable {c : PhoneChoice} {i n : Nat} {s s' : ShellyClient}

theorem awaited {α : Type} {k : Nat} {failed : ShellyError → α}
    {received : ShellyClient → Daemon.Reply → ShellyClient × α} {r : ShellyClient × α}
    (h : awaitMsg c s k failed received = some r) :
    (∃ error, r = (s, failed error)) ∨ ∃ t m, s.readMsg k = some (t, m) ∧ r = received t m := by
  unfold awaitMsg at h
  split at h
  · exact .inl ⟨_, (Option.some.inj h).symm⟩
  · obtain ⟨⟨t, m⟩, hread, heq⟩ := Option.map_eq_some_iff.mp h
    exact .inr ⟨t, m, hread, heq.symm⟩

theorem pair_progress {pc pc' : PairPc} (hs : s.Sound) (hl : Local s i (.pair pc))
    (h : pairStep phoneNodeId pairingSas c s pc = some (s', pc')) :
    s.Progress isDaemon s' ∧ Local s' i (.pair pc') := by
  cases pc with
  | called ticket =>
    simp only [pairStep] at h
    split at h
    all_goals
      cases h
      exact ⟨hs.progress, trivial⟩
  | opening code target =>
    simp only [pairStep] at h
    split at h
    · cases h
      exact ⟨hs.progress, trivial⟩
    · cases h
      exact hs.openStream target.nodeId
  | greeting code target k =>
    simp only [pairStep] at h
    rcases awaited h with ⟨error, heq⟩ | ⟨t, m, hread, heq⟩
    · cases heq
      exact ⟨hs.progress, trivial⟩
    · obtain ⟨rfl, rfl⟩ := Prod.mk.inj heq
      obtain ⟨hprogress, -⟩ := hs.readMsg isDaemon hread
      refine ⟨hprogress, ?_⟩
      split
      · exact hprogress.grows.leadsTo hl
      · trivial
      · trivial
  | requesting code target welcome k =>
    simp only [pairStep] at h
    rcases awaited h with ⟨error, heq⟩ | ⟨t, m, hread, heq⟩
    · cases heq
      exact ⟨hs.progress, trivial⟩
    · obtain ⟨hprogress, -⟩ := hs.readMsg isDaemon hread
      split at heq
      · next sas =>
        split at heq
        · cases heq
          exact ⟨hprogress, trivial⟩
        · split at heq
          · cases heq
            let pairing : PendingPairing := ⟨sas, target, welcome, phoneNodeId, k, true, .new⟩
            have hadd : t.Progress isDaemon (t.addPairing pairing) :=
              hprogress.sound.addPairing PendingPairingGate.sound_new (hprogress.grows.leadsTo hl)
            exact ⟨hprogress.trans hadd, trivial⟩
          · cases heq
            exact ⟨hprogress, trivial⟩
      · cases heq
        exact ⟨hprogress, trivial⟩
      · cases heq
        exact ⟨hprogress, trivial⟩
  | returned result => cases h

theorem confirm_progress {pairing : PendingPairing} {pc pc' : ConfirmPc} (hs : s.Sound)
    (hn : s.pairings.lookup n = some pairing) (hl : Local s i (.confirm n pc))
    (h : confirmStep secretKey c n s pairing pc = some (s', pc')) :
    s.Progress isDaemon s' ∧ Local s' i (.confirm n pc') := by
  have hgate := (hs.linked n pairing hn).1
  cases pc with
  | called =>
    simp only [confirmStep] at h
    split at h
    · cases h
      exact ⟨hs.progress, trivial⟩
    · next gate hconfirm =>
      obtain ⟨hlater, hsound⟩ := PendingPairingGate.confirmLocal_later hconfirm hgate
      obtain ⟨rfl, rfl⟩ := Prod.mk.inj (Option.some.inj h)
      obtain ⟨hprogress, hnew⟩ := hs.setPairing false hn hlater hsound
      refine ⟨hprogress, ?_⟩
      split
      · exact ⟨_, hnew, rfl⟩
      · trivial
  | reading k =>
    simp only [confirmStep] at h
    rcases awaited h with ⟨error, heq⟩ | ⟨t, m, hread, heq⟩
    · cases heq
      exact ⟨hs.progress, trivial⟩
    · obtain ⟨rfl, rfl⟩ := Prod.mk.inj heq
      obtain ⟨hprogress, hpairings, b, hb, hmem⟩ := hs.readMsg isDaemon hread
      refine ⟨hprogress, ?_⟩
      split
      · split
        · next hsame =>
          obtain ⟨p, hp, rfl⟩ := hl
          obtain rfl := Option.some.inj (hn.symm.trans hp)
          exact ⟨pairing, b, hpairings ▸ hn, hb, hsame ▸ hmem⟩
        · trivial
      · trivial
      · trivial
  | recording daemonNodeId =>
    obtain ⟨rfl, rfl⟩ := Prod.mk.inj (Option.some.inj h)
    obtain ⟨hlater, hsound⟩ := PendingPairingGate.complete_later hgate
    obtain ⟨hprogress, hnew⟩ := hs.setPairing pairing.held hn hlater hsound
    refine ⟨hprogress, ?_⟩
    split
    · trivial
    · next hcomplete =>
      exact ⟨hprogress.grows.completed hl, _, hnew,
        PendingPairingGate.persisted_of_complete hcomplete⟩
  | storing daemonNodeId =>
    cases h
    exact ⟨hs.setDaemon pairing.target hl, trivial⟩
  | returned result => cases h

theorem cancel_progress {pairing : PendingPairing} {pc pc' : CancelPc} (hs : s.Sound)
    (hn : s.pairings.lookup n = some pairing)
    (h : cancelStep n s pairing pc = some (s', pc')) :
    s.Progress isDaemon s' ∧ Local s' i (.cancel n pc') := by
  cases pc with
  | called =>
    simp only [cancelStep] at h
    split at h
    · cases h
      exact ⟨hs.progress, trivial⟩
    · next gate hcancel =>
      obtain ⟨hlater, hsound, hcancelled⟩ := PendingPairingGate.cancel_later hcancel
      cases h
      obtain ⟨hprogress, hnew⟩ := hs.setPairing false hn hlater hsound
      exact ⟨hprogress, _, hnew, hcancelled⟩
  | returned result => cases h

variable (isDaemon) in
theorem phone_progress {x x' : PhoneTask} (hs : s.Sound) (hl : Local s i x)
    (h : phoneAdvance phoneNodeId secretKey pairingSas c i x s = some (s', x')) :
    s.Progress isDaemon s' ∧ Local s' i x' := by
  cases x with
  | pair pc =>
    obtain ⟨⟨t, pc'⟩, hstep, heq⟩ := Option.map_eq_some_iff.mp h
    cases heq
    exact pair_progress hs hl hstep
  | confirm n pc =>
    obtain ⟨pairing, hn, h⟩ := Option.bind_eq_some_iff.mp h
    obtain ⟨⟨t, pc'⟩, hstep, heq⟩ := Option.map_eq_some_iff.mp h
    cases heq
    exact confirm_progress hs hn hl hstep
  | cancel n pc =>
    obtain ⟨pairing, hn, h⟩ := Option.bind_eq_some_iff.mp h
    obtain ⟨⟨t, pc'⟩, hstep, heq⟩ := Option.map_eq_some_iff.mp h
    cases heq
    exact cancel_progress hs hn hstep

theorem event_progress {e : PhoneEvent} {keep : Bool} (hs : s.Sound)
    (h : phoneEvent isDaemon e s = some (s', keep)) : s.Progress isDaemon s' := by
  cases e with
  | deliver k r =>
    obtain ⟨b, hb, h⟩ := Option.bind_eq_some_iff.mp h
    split at h
    · cases h
    · next hother =>
      cases h
      exact hs.setStream hb ⟨rfl, le_refl _, List.prefix_append _ _⟩
        ⟨rfl, rfl, .inr (Bool.eq_false_iff.mpr hother)⟩
  | unpairSelf =>
    cases h
    have hgrows : s.Grows { s with daemon := none } :=
      ⟨fun _ b hb => ⟨b, hb, .refl b⟩, fun _ p hp => ⟨p, hp, rfl, rfl, .refl _⟩⟩
    exact ⟨hgrows, hs.of_streams hgrows rfl (fun _ hk => hk) rfl rfl rfl,
      ShellyClient.kept_of_streams rfl⟩

theorem local_called {x : PhoneTask}
    (h : (phoneTasking phoneNodeId secretKey pairingSas isDaemon).start x = true) :
    Local s i x := by
  cases x with
  | pair pc =>
    cases pc with
    | called => trivial
    | opening | greeting | requesting | returned => cases h
  | confirm n pc =>
    cases pc with
    | called => trivial
    | reading | recording | storing | returned => cases h
  | cancel n pc =>
    cases pc with
    | called => trivial
    | returned => cases h

theorem phone_noninterference :
    (phoneTasking phoneNodeId secretKey pairingSas isDaemon).Noninterference Machine.Any
      ShellyClient.Sound Local where
  init s := by
    rintro ⟨daemon, rfl⟩
    exact ShellyClient.sound_new daemon
  fresh p i x _ _ hx := local_called hx
  own p i c x s' x' _ hs _ hl h := by
    obtain ⟨hprogress, hlocal⟩ := phone_progress isDaemon hs hl h
    exact ⟨hprogress.sound, hlocal⟩
  others p i c x s' x' _ hs _ hl h j y _ _ hly :=
    local_grows (phone_progress isDaemon hs hl h).1.grows hly
  environment p e s' keep _ hs h :=
    ⟨(event_progress hs h).sound, fun _ j y _ hly => local_grows (event_progress hs h).grows hly⟩

/-- The stored target is left alone. -/
def Unset (s s' : ShellyClient) : Prop := s'.setBy = s.setBy ∧ s'.daemon = s.daemon

theorem readMsg_unset {k : Nat} {t : ShellyClient} {m : Daemon.Reply}
    (h : s.readMsg k = some (t, m)) :
    Unset s t := by
  obtain ⟨b, -, h⟩ := Option.bind_eq_some_iff.mp h
  obtain ⟨r, -, heq⟩ := Option.map_eq_some_iff.mp h
  obtain ⟨rfl, -⟩ := Prod.mk.inj heq
  exact ⟨rfl, rfl⟩

theorem pair_unset {pc pc' : PairPc}
    (h : pairStep phoneNodeId pairingSas c s pc = some (s', pc')) : Unset s s' := by
  cases pc with
  | called ticket =>
    simp only [pairStep] at h
    split at h
    all_goals
      cases h
      exact ⟨rfl, rfl⟩
  | opening code target =>
    simp only [pairStep] at h
    split at h
    all_goals
      cases h
      exact ⟨rfl, rfl⟩
  | greeting code target k =>
    simp only [pairStep] at h
    rcases awaited h with ⟨error, heq⟩ | ⟨t, m, hread, heq⟩
    · cases heq
      exact ⟨rfl, rfl⟩
    · obtain ⟨rfl, -⟩ := Prod.mk.inj heq
      exact readMsg_unset hread
  | requesting code target welcome k =>
    simp only [pairStep] at h
    rcases awaited h with ⟨error, heq⟩ | ⟨t, m, hread, heq⟩
    · cases heq
      exact ⟨rfl, rfl⟩
    · have hunset := readMsg_unset hread
      split at heq
      · split at heq
        · cases heq
          exact hunset
        · split at heq
          all_goals
            cases heq
            exact hunset
      · cases heq
        exact hunset
      · cases heq
        exact hunset
  | returned result => cases h

/-- Only a confirmation that succeeds sets the stored target, to that of its attempt. -/
theorem phone_sets {x x' : PhoneTask}
    (h : phoneAdvance phoneNodeId secretKey pairingSas c i x s = some (s', x')) :
    Unset s s' ∨ ∃ n pairing info, x' = .confirm n (.returned (.ok info)) ∧
      s.pairings.lookup n = some pairing ∧ s' = s.setDaemon n pairing.target := by
  cases x with
  | pair pc =>
    obtain ⟨⟨t, pc'⟩, hstep, heq⟩ := Option.map_eq_some_iff.mp h
    cases heq
    exact .inl (pair_unset hstep)
  | confirm n pc =>
    obtain ⟨pairing, hn, h⟩ := Option.bind_eq_some_iff.mp h
    obtain ⟨⟨t, pc'⟩, hstep, heq⟩ := Option.map_eq_some_iff.mp h
    cases heq
    cases pc with
    | called =>
      simp only [confirmStep] at hstep
      split at hstep
      all_goals
        cases hstep
        exact .inl ⟨rfl, rfl⟩
    | reading k =>
      simp only [confirmStep] at hstep
      rcases awaited hstep with ⟨error, heq⟩ | ⟨t, m, hread, heq⟩
      · cases heq
        exact .inl ⟨rfl, rfl⟩
      · obtain ⟨rfl, -⟩ := Prod.mk.inj heq
        exact .inl (readMsg_unset hread)
    | recording daemonNodeId =>
      cases hstep
      exact .inl ⟨rfl, rfl⟩
    | storing daemonNodeId =>
      cases hstep
      exact .inr ⟨n, pairing, _, rfl, hn, rfl⟩
    | returned result => cases hstep
  | cancel n pc =>
    obtain ⟨pairing, -, h⟩ := Option.bind_eq_some_iff.mp h
    obtain ⟨⟨t, pc'⟩, hstep, heq⟩ := Option.map_eq_some_iff.mp h
    cases heq
    cases pc with
    | called =>
      simp only [cancelStep] at hstep
      split at hstep
      all_goals
        cases hstep
        exact .inl ⟨rfl, rfl⟩
    | returned result => cases hstep

end Steps

end Shelly.Mobile.Pending
