import Shelly.Framework.Machine
import Shelly.Framework.Table
import Shelly.Mobile.Attachments

namespace Shelly.Mobile

/-- The phone: the sessions at its daemon, the cache of the repository, the attaches of terminals
that are being opened, and all terminals that were. -/
structure Phone where
  hosts : Table SessionId Host
  lastSeenSeqBySession : Table SessionId Nat
  opening : List (SessionId × Option Nat)
  controllers : List (SessionId × TerminalController)

namespace Phone

inductive Action
  | spawn (id : SessionId) (name : String) (createdAt : Nat)
  | record (id : SessionId) (bytes : List UInt8)
  | remove (id : SessionId)
  | openTerminal (id : SessionId)
  | attached (i : Nat) (live : Bool) (screen : List UInt8)
  | attachFailed (i : Nat)
  | controller (i : Nat) (a : TerminalController.Action)
  | sessionKilled (id : SessionId)
  | clear
  deriving DecidableEq

variable (p : Phone)

/-- Without a number of its own an attach takes the cached one. -/
def attach (id : SessionId) (lastSeenSeq : Option Nat) : SessionId × Option Nat :=
  (id, lastSeenSeq <|> p.lastSeenSeqBySession.lookup id)

def recordLastSeenSeq (id : SessionId) (seq : Option Nat) : Phone :=
  match seq with
  | some seq => { p with lastSeenSeqBySession := p.lastSeenSeqBySession.insert id seq }
  | none => p

def step : Action → Phone → Option Phone
  | .spawn id name createdAt, p =>
    if p.hosts.contains id then none
    else some { p with hosts := p.hosts.insert id ⟨.spawn id name createdAt, []⟩ }
  | .record id bytes, p => some { p with hosts := p.hosts.modify id (·.record bytes) }
  | .remove id, p => some { p with hosts := p.hosts.erase id }
  | .openTerminal id, p => some { p with opening := p.opening ++ [p.attach id none] }
  | .attached i live screen, p =>
    p.opening[i]?.bind fun o => (p.hosts.lookup o.1).map fun h =>
      { p with
        opening := p.opening.eraseIdx i
        controllers := p.controllers ++ [(o.1, .new (h.attach live o.2 screen))] }
  | .attachFailed i, p => some { p with opening := p.opening.eraseIdx i }
  | .controller i a, p =>
    p.controllers[i]?.bind fun c =>
      (TerminalController.step (p.hosts.lookup c.1) a c.2).map fun r =>
        { p with controllers := p.controllers.set i (c.1, r.1) }.recordLastSeenSeq c.1 r.2
  -- The daemon has confirmed that the session is gone.
  | .sessionKilled id, p =>
    if p.hosts.contains id then none
    else some { p with lastSeenSeqBySession := p.lastSeenSeqBySession.erase id }
  | .clear, p => some { p with lastSeenSeqBySession := .empty }

def machine : Machine Phone Action where
  init p := p.lastSeenSeqBySession = .empty ∧ p.opening = [] ∧ p.controllers = []
  step := step

end Phone

/-- Up to where the output has been shown after a delivery. A replay and an output add to what has
been shown only if it reaches up to where they start. -/
def Delivery.shown (upTo : Option Nat) : Delivery → Option Nat
  | .initial none seq _ => some (max (upTo.getD 0) seq)
  | .initial (some base) seq _ => upTo.map fun p => if base ≤ p then max p seq else p
  | .output seq bytes => upTo.map fun p => if seq ≤ p + bytes.length then max p seq else p

/-- The emulator has been given the screen or the output up to a number. -/
def Shows (emulator : List Delivery) (seq : Nat) : Prop :=
  ∃ p ∈ emulator.foldl Delivery.shown none, seq ≤ p

/-- No replay is given to an emulator that has not been given everything before it. -/
def Grounded (emulator : List Delivery) : Prop :=
  ∀ before base seq bytes after, emulator = before ++ .initial (some base) seq bytes :: after →
    Shows before base

namespace AttachedSession

variable (x : AttachedSession)

/-- Initial bytes, or a chunk up to the number, that the subscription is still to hand over. -/
def owes (seq : Nat) : Bool :=
  x.initialBytes.isSome ||
    match x.subscription with
    | some (.delivering _) => true
    | some (.writing last _) => last ≤ seq
    | _ => false

/-- The number that the subscription is about to deliver a replay from. -/
def replaying : Option Nat :=
  match x.subscription with
  | some (.delivering _) => x.reply.replayedFrom
  | _ => none

end AttachedSession

namespace Phone

/-- A replay is delivered only after the attachment before it has delivered what came up to the
number. -/
def Settled (c : TerminalController) : TerminalController.Action → Prop
  | .callback a => ∀ x ∈ c.attachments[a]?, ∀ base ∈ x.replaying,
    ∀ y ∈ (c.attachments.take a).getLast?, y.owes base = false
  | _ => True

/-- A terminal that is opened is not answered with a replay, and a replacement delivers its replay
only after what it replaces has delivered everything up to there. -/
def Careful (p : Phone) : Action → Prop
  | .attached i live _ => ∀ o ∈ p.opening[i]?, ∀ h ∈ p.hosts.lookup o.1,
    live = true → h.session.replays o.2 = false
  | .controller i a => ∀ c ∈ p.controllers[i]?, Settled c.2 a
  | _ => True

instance (c : TerminalController) (a : TerminalController.Action) : Decidable (Settled c a) :=
  match a with
  | .callback a =>
    inferInstanceAs (Decidable (∀ x ∈ c.attachments[a]?, ∀ base ∈ x.replaying,
      ∀ y ∈ (c.attachments.take a).getLast?, y.owes base = false))
  | .start | .subscribe _ | .breakOff _ | .command | .commandReturned _ | .commandFailed _
  | .enterRecovery _ | .recover | .reattach _ _ | .giveUp | .detach | .release | .forward _ _
  | .arrive _ _ | .stopForwarding _ => isTrue trivial

instance (p : Phone) (a : Action) : Decidable (Careful p a) :=
  match a with
  | .attached i live _ =>
    inferInstanceAs (Decidable (∀ o ∈ p.opening[i]?, ∀ h ∈ p.hosts.lookup o.1,
      live = true → h.session.replays o.2 = false))
  | .controller i a => inferInstanceAs (Decidable (∀ c ∈ p.controllers[i]?, Settled c.2 a))
  | .spawn _ _ _ | .record _ _ | .remove _ | .openTerminal _ | .attachFailed _ | .sessionKilled _
  | .clear => isTrue trivial

end Phone

section Shown

variable {emulator : List Delivery} {d : Delivery} {seq seq' : Nat}

theorem Shows.of_le (h : Shows emulator seq) (hle : seq' ≤ seq) : Shows emulator seq' := by
  obtain ⟨p, hp, hseq⟩ := h
  exact ⟨p, hp, hle.trans hseq⟩

/-- What has been shown stays shown. -/
theorem Shows.append (h : Shows emulator seq) (d : Delivery) : Shows (emulator ++ [d]) seq := by
  obtain ⟨p, hp, hle⟩ := h
  rw [Shows, List.foldl_append, hp]
  match d with
  | .initial none last bytes => exact ⟨_, rfl, hle.trans (le_max_left p last)⟩
  | .initial (some base) last bytes | .output last bytes =>
    refine ⟨_, rfl, ?_⟩
    dsimp only
    split
    · exact hle.trans (le_max_left p last)
    · exact hle

theorem shows_screen (bytes : List UInt8) : Shows (emulator ++ [.initial none seq bytes]) seq := by
  rw [Shows, List.foldl_append]
  exact ⟨_, rfl, le_max_right _ _⟩

theorem Shows.replay {base : Nat} (h : Shows emulator base) (bytes : List UInt8) :
    Shows (emulator ++ [.initial (some base) seq bytes]) seq := by
  obtain ⟨p, hp, hle⟩ := h
  rw [Shows, List.foldl_append, hp]
  exact ⟨_, rfl, (le_max_right p seq).trans_eq (if_pos hle).symm⟩

theorem Shows.output {bytes : List UInt8} (h : Shows emulator (seq - bytes.length)) :
    Shows (emulator ++ [.output seq bytes]) seq := by
  obtain ⟨p, hp, hle⟩ := h
  rw [Shows, List.foldl_append, hp]
  exact ⟨_, rfl, (le_max_right p seq).trans_eq (if_pos (Nat.sub_le_iff_le_add.mp hle)).symm⟩

theorem Grounded.append (h : Grounded emulator)
    (hd : ∀ base seq bytes, d = .initial (some base) seq bytes → Shows emulator base) :
    Grounded (emulator ++ [d]) := by
  intro before base seq bytes after heq
  rcases List.eq_nil_or_concat after with rfl | ⟨rest, e, rfl⟩
  · obtain ⟨rfl, hlast⟩ := List.append_inj' heq rfl
    exact hd base seq bytes (List.cons.inj hlast).1
  · rw [List.concat_eq_append, ← List.cons_append, ← List.append_assoc] at heq
    exact h before base seq bytes rest (List.append_inj' heq rfl).1

end Shown

namespace AttachedSession

variable {h : Option Host} {own : Bool} {x y : AttachedSession} {emulator : List Delivery}
  {seq : Nat}

/-- The initial bytes have been handed over. -/
def Opened (x : AttachedSession) : Prop :=
  x.initialBytes = none ∧ ∀ bytes, x.subscription ≠ some (.delivering bytes)

/-- Up to where the attachment has handed over what it received. -/
def handedOver (x : AttachedSession) : Nat :=
  match x.subscription with
  | some (.writing last bytes) => last - bytes.length
  | _ => x.lastSeenSeq

/-- An attachment that has been opened has brought the emulator to where it is itself. -/
def Shown (emulator : List Delivery) (x : AttachedSession) : Prop :=
  x.Opened → Shows emulator x.handedOver

theorem Shown.append (hx : x.Shown emulator) (d : Delivery) : x.Shown (emulator ++ [d]) :=
  fun hopened => (hx hopened).append d

theorem shown_new (reply : Reply) : (new reply).Shown emulator := fun h => nomatch h.1

/-- What has been read from an attachment that owes nothing up to there has been shown. -/
theorem Shown.read (hx : x.Shown emulator) (hn : x.Numbered) (hread : x.readSeq = some seq)
    (howes : x.owes seq = false) : Shows emulator seq := by
  simp only [owes, Bool.or_eq_false_iff, Option.isSome_eq_false_iff, Option.isNone_iff_eq_none]
    at howes
  obtain ⟨hnone, hpc⟩ := howes
  obtain ⟨hle, hcut⟩ := hn.readSeq seq hread
  have hopened : x.Opened := by
    refine ⟨hnone, fun bytes h => ?_⟩
    rw [h] at hpc
    cases hpc
  refine (hx hopened).of_le ?_
  unfold handedOver
  split
  · rename_i last bytes h
    simp only [h, decide_eq_false_iff_not] at hpc
    rcases hcut last bytes h with hlast | hlast
    · exact absurd hlast hpc
    · omega
  · exact hle

theorem Evolves.shown (hn : x.Numbered) (hx : x.Shown emulator) (hy : Evolves h x own y) :
    y.Shown emulator := by
  intro hopened
  cases hy with
  | flags => exact hx hopened
  | launch hpc | refuse hpc | finish hpc | skip hpc =>
    have hshown := hx ⟨hopened.1, by rw [hpc]; simp⟩
    simpa [handedOver, goto, hpc] using hshown
  | take bytes hpc hbytes => exact absurd rfl (hopened.2 bytes)
  | proceed own pc recvTaken hidle hpc =>
    have hwriting : ∀ bytes, x.subscription ≠ some (.delivering bytes) := by
      intro bytes h
      rcases hidle with h' | h' | h' | h' <;> cases h.symm.trans h'
    have hshown := hx ⟨hopened.1, hwriting⟩
    have hplace : x.handedOver = x.lastSeenSeq := by
      rcases hidle with h | h | h | h <;> simp only [handedOver, h]
    rw [hplace] at hshown
    rcases hpc with rfl | rfl | rfl <;> exact hshown
  | dispatch m rest hpc hin =>
    have hshown := hx ⟨hn.begun (.inl (.inr (.inl hpc))), by rw [hpc]; simp⟩
    have hplace : x.handedOver = x.lastSeenSeq := by simp only [handedOver, hpc]
    rw [hplace] at hshown
    cases m with
    | output id seq bytes =>
      have htrail := hn.incoming
      rw [hin] at htrail
      obtain ⟨mid, ⟨-, hseq⟩, -⟩ := Trail.cons_iff.mp htrail
      exact hshown.of_le (by change seq - bytes.length ≤ _; omega)
    | lag | sessionExited | error => exact hshown
    | _ => simpa [handedOver, dispatchStreamMessage, hpc] using hshown
  | forward => exact hx hopened
  | arrive => exact hx hopened

end AttachedSession

namespace TerminalController

variable {h : Option Host} {c c' : TerminalController} {a : Action}

/-- The first attachment shows the screen, and every attachment that has been opened has brought the
emulator to where it is. -/
structure Based (c : TerminalController) : Prop where
  wired : c.Wired
  numbered : ∀ x ∈ c.attachments, x.Numbered
  first : (c.attachments.map (·.reply.replayedFrom)).head? = some none
  shown : ∀ x ∈ c.attachments, x.Shown c.emulator

theorem based_new {reply : Reply} (hreply : reply.replayedFrom = none) : (new reply).Based where
  wired := wired_new reply
  numbered := List.forall_mem_singleton.mpr (AttachedSession.numbered_new reply)
  first := congrArg some hreply
  shown := List.forall_mem_singleton.mpr (AttachedSession.shown_new reply)

/-- A replay is delivered to an emulator that shows everything before it. -/
theorem Based.shows_base {older newer : List AttachedSession} {x : AttachedSession}
    {bytes : List UInt8} {base : Nat} (hc : c.Based)
    (ha : Phone.Settled c (.callback older.length)) (hx : c.attachments = older ++ x :: newer)
    (hpc : x.subscription = some (.delivering bytes)) (hbase : x.reply.replayedFrom = some base) :
    Shows c.emulator base := by
  rcases List.eq_nil_or_concat older with rfl | ⟨older, y, rfl⟩
  · have hfirst := hc.first
    rw [hx] at hfirst
    cases hbase.symm.trans (Option.some.inj hfirst)
  · rw [List.concat_eq_append] at hx ha
    have hy : y ∈ c.attachments := by rw [hx]; simp
    have hread : y.readSeq = some base := by
      have hchain := hc.wired.chain
      rw [links, hx, List.map_append, List.map_append, List.append_assoc] at hchain
      obtain ⟨seq, hseq, hsame⟩ := (List.isChain_append_cons_cons.mp hchain).2.1
      rw [hsame base hbase]
      exact hseq
    refine (hc.shown y hy).read (hc.numbered y hy) hread ?_
    have htake : c.attachments.take (older ++ [y]).length = older ++ [y] := by
      rw [hx, List.take_left]
    have hreplaying : x.replaying = some base := by
      simpa only [AttachedSession.replaying, hpc] using hbase
    refine ha x (by rw [hx]; simp) base hreplaying y ?_
    rw [htake, List.getLast?_concat]
    rfl

theorem Stepped.based (hc : c.Based) (ha : Phone.Settled c a) (hs : Stepped h c a c') :
    c'.Based := by
  have hwired := hs.wired hc.wired
  have hnumbered := hs.numbered hc.numbered
  have hfirst {older newer : List AttachedSession} {x y : AttachedSession}
      (hx : c.attachments = older ++ x :: newer) (hreply : y.reply = x.reply) :
      ((older ++ y :: newer).map (·.reply.replayedFrom)).head? = some none := by
    rw [map_changed (·.reply.replayedFrom) hx (by rw [hreply])]
    exact hc.first
  have hmem {older newer : List AttachedSession} {x : AttachedSession}
      (hx : c.attachments = older ++ x :: newer) : x.Numbered ∧ x.Shown c.emulator :=
    ⟨hc.numbered x (by rw [hx]; simp), hc.shown x (by rw [hx]; simp)⟩
  have happend (d : Delivery) : ∀ z ∈ c.attachments, z.Shown (c.emulator ++ [d]) :=
    fun z hz => (hc.shown z hz).append d
  cases hs with
  | quiet | enter | abandon | record | leave | install =>
    exact ⟨hwired, hnumbered, hc.first, hc.shown⟩
  | evolve hx hy _ | launch _ hx hy =>
    refine ⟨hwired, hnumbered, hfirst hx hy.keeps.2, ?_⟩
    exact forall_mem_changed hc.shown hx fun hxs => hy.shown (hmem hx).1 hxs
  | @deliver older newer x bytes hx hpc =>
    refine ⟨hwired, hnumbered, hfirst hx rfl, forall_mem_changed (happend _) hx fun _ _ => ?_⟩
    have hseq := ((hmem hx).1.delivering bytes hpc).2
    change Shows _ x.lastSeenSeq
    rw [hseq]
    cases hbase : x.reply.replayedFrom with
    | none => exact shows_screen bytes
    | some base => exact (hc.shows_base ha hx hpc hbase).replay bytes
  | @write older newer x seq bytes hx hpc =>
    refine ⟨hwired, hnumbered, hfirst hx rfl, forall_mem_changed (happend _) hx fun _ _ => ?_⟩
    obtain ⟨hn, hxs⟩ := hmem hx
    have hopened : x.Opened := ⟨hn.begun (.inr (.inr ⟨seq, bytes, hpc⟩)), by rw [hpc]; simp⟩
    have hshown : Shows c.emulator (seq - bytes.length) := by
      simpa only [AttachedSession.handedOver, hpc] using hxs hopened
    change Shows _ x.lastSeenSeq
    rw [← hn.writing seq bytes hpc]
    exact hshown.output
  | @read older x hx hrec =>
    exact ⟨hwired, hnumbered, hfirst hx rfl, forall_mem_changed hc.shown hx fun hxs => hxs⟩
  | @clear older x seq hx hrec =>
    exact ⟨hwired, hnumbered, hfirst hx rfl, forall_mem_changed hc.shown hx fun hxs => hxs⟩
  | answer h' live screen hh hrec =>
    refine ⟨hwired, hnumbered, ?_, List.forall_mem_append.mpr ⟨hc.shown, ?_⟩⟩
    · have hne : c.attachments.map (·.reply.replayedFrom) ≠ [] := by
        intro hnil
        have hhead := hc.first
        rw [hnil] at hhead
        cases hhead
      rw [List.map_append, List.head?_append_of_ne_nil _ hne]
      exact hc.first
    · exact List.forall_mem_singleton.mpr (AttachedSession.shown_new _)

theorem Stepped.grounded (hc : c.Based) (ha : Phone.Settled c a) (hg : Grounded c.emulator)
    (hs : Stepped h c a c') : Grounded c'.emulator := by
  cases hs with
  | deliver hx hpc =>
    refine hg.append fun base seq bytes heq => ?_
    obtain ⟨hbase, -, -⟩ := Delivery.initial.inj heq
    exact hc.shows_base ha hx hpc hbase
  | write hx hpc => exact hg.append fun _ _ _ heq => nomatch heq
  | _ => exact hg

end TerminalController

namespace Phone

variable {p q : Phone}

/-- What holds of every terminal that was ever opened. -/
def Kept (p : Phone) : Prop :=
  ∀ c ∈ p.controllers, Grounded c.2.emulator ∧ (c.2.detached = false → c.2.Based)

theorem recordLastSeenSeq_controllers (p : Phone) (id : SessionId) (seq : Option Nat) :
    (p.recordLastSeenSeq id seq).controllers = p.controllers := by
  unfold recordLastSeenSeq
  split <;> rfl

/-- A terminal that is opened shows the screen first. -/
theorem kept_new {h : Host} {live : Bool} {lastSeenSeq : Option Nat} (screen : List UInt8)
    (ha : live = true → h.session.replays lastSeenSeq = false) :
    Grounded (TerminalController.new (h.attach live lastSeenSeq screen)).emulator ∧
      (TerminalController.new (h.attach live lastSeenSeq screen)).Based := by
  refine ⟨fun before base seq bytes after heq => ?_, TerminalController.based_new ?_⟩
  · cases List.append_ne_nil_of_right_ne_nil before (List.cons_ne_nil _ after) heq.symm
  · cases live with
    | true => simp only [Host.attach, if_true, ha rfl, Bool.false_eq_true, if_false]
    | false => rfl

theorem kept_step {a : Action} (hp : Kept p) (ha : Careful p a) (hs : machine.step a p = some q) :
    Kept q := by
  cases a with
  | spawn id name createdAt | sessionKilled id =>
    obtain ⟨-, hs⟩ := Option.ite_none_left_eq_some.mp hs
    obtain rfl := Option.some.inj hs
    exact hp
  | record | remove | openTerminal | attachFailed | clear =>
    obtain rfl := Option.some.inj hs
    exact hp
  | attached i live screen =>
    obtain ⟨o, ho, hs⟩ := Option.bind_eq_some_iff.mp hs
    obtain ⟨h, hh, rfl⟩ := Option.map_eq_some_iff.mp hs
    obtain ⟨hgrounded, hbased⟩ := kept_new screen (ha o ho h hh)
    exact List.forall_mem_append.mpr
      ⟨hp, List.forall_mem_singleton.mpr ⟨hgrounded, fun _ => hbased⟩⟩
  | controller i a =>
    obtain ⟨c, hc, hs⟩ := Option.bind_eq_some_iff.mp hs
    obtain ⟨r, hr, rfl⟩ := Option.map_eq_some_iff.mp hs
    obtain ⟨hgrounded, hbased⟩ := hp c (List.mem_of_getElem? hc)
    intro d hd
    rw [recordLastSeenSeq_controllers] at hd
    rcases List.mem_or_eq_of_mem_set hd with hd | rfl
    · exact hp d hd
    · cases hlive : r.1.detached with
      | true =>
        refine ⟨?_, fun hfalse => nomatch hfalse⟩
        rw [TerminalController.emulator_of_step hr hlive]
        exact hgrounded
      | false =>
        have hbased := hbased (TerminalController.detached_of_step hr hlive)
        have hstepped := TerminalController.stepped_of_step hbased.wired hlive hr
        have hsettled := ha c hc
        exact ⟨hstepped.grounded hbased hsettled hgrounded,
          fun _ => hstepped.based hbased hsettled⟩

/-- In every run in which no terminal is opened with a replay and every replay waits for what comes
before it, no emulator is given a replay from a number that it does not show. -/
theorem replay_grounded (h : machine.ReachableWhen Careful p) :
    ∀ c ∈ p.controllers, Grounded c.2.emulator := by
  have hkept : Kept p := h.invariant
    (fun p hi c hc => by
      rw [hi.2.2] at hc
      cases hc)
    fun _ _ _ hp ha hs => kept_step hp ha hs
  exact fun c hc => (hkept c hc).1

section Traces

private def closed : Phone := ⟨.empty, .empty, [], []⟩

/-- A session with one byte of output, and a terminal of it that shows the byte. -/
private def shown : List Action :=
  [Action.spawn 7 "shell" 0, .openTerminal 7, .attached 0 true [0]] ++
    [Action.controller 0 .start, .controller 0 (.subscribe 0), .controller 0 (.callback 0),
      .controller 0 (.subscribe 0), .record 7 [1], .controller 0 (.forward 0 1),
      .controller 0 (.subscribe 0), .controller 0 (.callback 0)]

/-- A lag makes the terminal attach again, from the number that it has seen. -/
theorem replay_grounded_lagged : ∃ p : Phone,
    p.controllers.map (·.2.emulator) =
      [[.initial none 0 [0], .output 1 [1], .initial (some 1) 2 [2]]] ∧
    ∀ c ∈ p.controllers, Grounded c.2.emulator := by
  obtain ⟨p, hr, hemulator⟩ := machine.exists_reachable_of_exec (s := closed) Careful
    (fun p => p.controllers.map (·.2.emulator) =
      [[.initial none 0 [0], .output 1 [1], .initial (some 1) 2 [2]]])
    (List.flatten [shown, [.controller 0 (.arrive 0 (.lag 7 5)), .controller 0 (.subscribe 0),
      .controller 0 (.callback 0), .controller 0 (.enterRecovery 0)],
      List.replicate 4 (.controller 0 .recover),
      [.record 7 [2], .controller 0 (.reattach true []), .controller 0 .recover,
        .controller 0 .recover, .controller 0 (.subscribe 1), .controller 0 (.callback 1)]])
    ⟨rfl, rfl, rfl⟩ (by decide)
  exact ⟨p, hemulator, replay_grounded hr⟩

/-- The number that a terminal leaves in the cache when it is closed is what the next one attaches
from, whose emulator is blank. -/
theorem reopened_replays_onto_blank :
    ¬ ∀ p : Phone, machine.Reachable p → ∀ c ∈ p.controllers, Grounded c.2.emulator := by
  intro hall
  obtain ⟨p, hr, hemulator⟩ := machine.exists_reachable_of_exec (s := closed) Machine.Any
    (fun p => p.controllers.map (·.2.emulator) =
      [[.initial none 0 [0], .output 1 [1]], [.initial (some 1) 2 [2]]])
    (List.flatten [shown,
      [.controller 0 .detach, .controller 0 .release, .record 7 [2], .openTerminal 7,
      .attached 0 true [3], .controller 1 .start, .controller 1 (.subscribe 0),
      .controller 1 (.callback 0)]])
    ⟨rfl, rfl, rfl⟩ (by decide)
  obtain ⟨c, hc, hblank⟩ : ∃ c ∈ p.controllers, c.2.emulator = [.initial (some 1) 2 [2]] := by
    obtain ⟨c, hc, heq⟩ := List.mem_map.mp (hemulator ▸ .tail _ (.head _) :
      [.initial (some 1) 2 [2]] ∈ p.controllers.map (·.2.emulator))
    exact ⟨c, hc, heq⟩
  obtain ⟨n, hn, -⟩ := hall p hr c hc [] 1 2 [2] [] hblank
  cases hn

end Traces

end Phone

end Shelly.Mobile
