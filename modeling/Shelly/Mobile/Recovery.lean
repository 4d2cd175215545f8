import Shelly.Framework.Machine
import Shelly.Mobile.Attachments

namespace Shelly.Mobile

/-- The number that an attach of the recovery asks from. -/
def Recovery.reattachingFrom : Recovery → Option Nat
  | .reattaching seq => some seq
  | _ => none

/-- A session at the daemon and a terminal of it on the phone. -/
structure Terminal where
  host : Host
  controller : TerminalController
  deriving DecidableEq

namespace Terminal

inductive Action
  | record (bytes : List UInt8)
  | controller (a : TerminalController.Action)
  deriving DecidableEq

def step : Action → Terminal → Option Terminal
  | .record bytes, t => some { t with host := t.host.record bytes }
  | .controller a, t =>
    (TerminalController.step (some t.host) a t.controller).map fun r => { t with controller := r.1 }

def machine : Machine Terminal Action where
  init t := t.host.Sound ∧ ∃ live lastSeenSeq screen,
    t.controller = .new (t.host.attach live lastSeenSeq screen)
  step := step

/-- A replacement is answered with the stream after the number, which is inside the window. -/
def Assumed (t : Terminal) : Action → Prop
  | .record bytes => (t.host.stream ++ bytes).length ≤ u64Max
  | .controller (.reattach live _) =>
    ∀ seq ∈ t.controller.recovery.bind Recovery.reattachingFrom,
      live = true ∧ t.host.session.replays (some seq) = true
  | .controller _ => True

end Terminal

namespace AttachedSession

variable (x : AttachedSession)

def receivesOutput : Bool :=
  match x.subscription, x.incoming with
  | some .reading, .output _ _ _ :: _ => true
  | _, _ => false

/-- The subscription is about to find its attachment destroyed. -/
def refused : Bool := x.destroyed && x.subscription = some .launched

/-- The attachment has bytes that its subscription is still to write. -/
def waiting : Bool :=
  x.subscription = none || x.subscription = some .launched || x.held ≠ []

end AttachedSession

namespace Terminal

/-- No output is taken from an attachment after a recovery has read its number, no initial bytes are
left in an attachment that was destroyed before its subscription began, and no bytes are written
while an older attachment still has some. -/
def InOrder (c : TerminalController) : TerminalController.Action → Prop
  | .subscribe a => ∀ x ∈ c.attachments[a]?,
    (x.receivesOutput = true → x.readSeq = none) ∧ (x.refused = true → x.pending = [])
  | .callback a => ∀ x ∈ c.attachments[a]?,
    x.held = [] ∨ ∀ y ∈ c.attachments.take a, y.pending = []
  | _ => True

def Careful (t : Terminal) (a : Action) : Prop :=
  Assumed t a ∧
    match a with
    | .controller a => InOrder t.controller a
    | .record _ => True

instance (t : Terminal) (a : Action) : Decidable (Assumed t a) :=
  match a with
  | .record bytes => inferInstanceAs (Decidable ((t.host.stream ++ bytes).length ≤ u64Max))
  | .controller (.reattach live _) =>
    inferInstanceAs (Decidable (∀ seq ∈ t.controller.recovery.bind Recovery.reattachingFrom,
      live = true ∧ t.host.session.replays (some seq) = true))
  | .controller .start | .controller (.subscribe _) | .controller (.breakOff _)
  | .controller (.callback _) | .controller .command | .controller (.commandReturned _)
  | .controller (.commandFailed _) | .controller (.enterRecovery _) | .controller .recover
  | .controller .giveUp | .controller .detach | .controller .release | .controller (.forward _ _)
  | .controller (.arrive _ _) | .controller (.stopForwarding _) => isTrue trivial

instance (c : TerminalController) (a : TerminalController.Action) : Decidable (InOrder c a) :=
  match a with
  | .subscribe a =>
    inferInstanceAs (Decidable (∀ x ∈ c.attachments[a]?,
      (x.receivesOutput = true → x.readSeq = none) ∧ (x.refused = true → x.pending = [])))
  | .callback a =>
    inferInstanceAs (Decidable (∀ x ∈ c.attachments[a]?,
      x.held = [] ∨ ∀ y ∈ c.attachments.take a, y.pending = []))
  | .start | .breakOff _ | .command | .commandReturned _ | .commandFailed _ | .enterRecovery _
  | .recover | .reattach _ _ | .giveUp | .detach | .release | .forward _ _ | .arrive _ _
  | .stopForwarding _ => isTrue trivial

instance (t : Terminal) (a : Action) : Decidable (Careful t a) :=
  match a with
  | .controller a =>
    inferInstanceAs (Decidable (Assumed t (.controller a) ∧ InOrder t.controller a))
  | .record bytes => inferInstanceAs (Decidable (Assumed t (.record bytes) ∧ True))

/-- The bytes are the first initial bytes and the part of the stream that follows up to here. -/
def WrittenUpTo (t : Terminal) (seq : Nat) : Prop :=
  ∃ first ∈ t.controller.attachments.head?.map (·.reply),
    first.seq ≤ seq ∧ seq ≤ t.host.stream.length ∧
      t.controller.bytes = first.initialBytes ++ t.host.stream.extract first.seq seq

/-- No chunk is out of order or written twice, and none is lost: when no subscription has bytes left
to write, everything that was seen has been written. -/
structure Contiguous (t : Terminal) : Prop where
  written : t.controller.bytes = [] ∨ ∃ seq, t.WrittenUpTo seq
  complete : (∀ x ∈ t.controller.attachments, x.waiting = false) →
    ∃ last ∈ t.controller.attachments.getLast?, t.WrittenUpTo last.lastSeenSeq

end Terminal

namespace AttachedSession

variable {h : Option Host} {own : Bool} {x y : AttachedSession} {stream : List UInt8}

/-- Every output is the part of the stream that ends at its number. -/
structure Cut (stream : List UInt8) (x : AttachedSession) : Prop where
  lastSeenSeq : x.lastSeenSeq ≤ stream.length
  forwarded : x.forwarded ≤ stream.length
  incoming : ∀ id seq bytes, .output id seq bytes ∈ x.incoming →
    seq ≤ stream.length ∧ bytes = stream.extract (seq - bytes.length) seq

/-- What holds of each attachment while everything is in order. -/
structure Orderly (stream : List UInt8) (x : AttachedSession) : Prop where
  numbered : x.Numbered
  cut : x.Cut stream
  readSeq : ∀ seq, x.readSeq = some seq → seq = x.lastSeenSeq
  settled : x.subscription = some .failed ∨ x.subscription = some .ended → x.pending = []

theorem orderly_new {reply : Reply} (hreply : reply.seq ≤ stream.length) :
    (new reply).Orderly stream where
  numbered := numbered_new reply
  cut := ⟨hreply, hreply, fun _ _ _ h => nomatch h⟩
  readSeq _ h := nomatch h
  settled h := by rcases h with h | h <;> cases h

theorem Cut.append (hx : x.Cut stream) (bytes : List UInt8) : x.Cut (stream ++ bytes) := by
  have hle : stream.length ≤ (stream ++ bytes).length := by simp
  refine ⟨hx.lastSeenSeq.trans hle, hx.forwarded.trans hle, fun id seq b hb => ?_⟩
  obtain ⟨hseq, heq⟩ := hx.incoming id seq b hb
  exact ⟨hseq.trans hle, by rw [extract_append_left hseq]; exact heq⟩

theorem Orderly.append (hx : x.Orderly stream) (bytes : List UInt8) :
    x.Orderly (stream ++ bytes) := { hx with cut := hx.cut.append bytes }

/-- An attachment whose call has taken the initial bytes and holds nothing has nothing to write. -/
theorem Numbered.pending_idle (hx : x.Numbered) (hidle : x.Idle) : x.pending = [] := by
  have hheld : x.held = [] := by rcases hidle with h | h | h | h <;> simp only [held, h]
  rw [pending, hx.begun (.inl hidle), hheld]
  rfl

/-- An output that is taken is the next part of the stream. -/
theorem Orderly.dispatched {id : SessionId} {seq : Nat} {bytes : List UInt8}
    {rest : List ServerToClientMsg} (hx : x.Orderly stream)
    (hin : x.incoming = .output id seq bytes :: rest) :
    x.lastSeenSeq ≤ seq ∧ seq ≤ stream.length ∧ bytes = stream.extract x.lastSeenSeq seq := by
  have htrail := hx.numbered.incoming
  rw [hin] at htrail
  obtain ⟨mid, ⟨-, hseq⟩, -⟩ := Trail.cons_iff.mp htrail
  obtain ⟨hle, hbytes⟩ := hx.cut.incoming id seq bytes (hin ▸ List.mem_cons_self)
  have hlast : seq - bytes.length = x.lastSeenSeq := by omega
  rw [hlast] at hbytes
  exact ⟨by omega, hle, hbytes⟩

/-- What an attachment does by itself to the bytes that it has to write: it keeps them and its
number, or it has none and takes the next part of the stream. -/
theorem Evolves.pending_eq (hx : x.Orderly stream) (hy : Evolves h x own y) :
    y.pending = x.pending ∧ y.lastSeenSeq = x.lastSeenSeq ∨
      own = true ∧ x.receivesOutput = true ∧ x.pending = [] ∧ x.lastSeenSeq ≤ y.lastSeenSeq ∧
        y.lastSeenSeq ≤ stream.length ∧ y.pending = stream.extract x.lastSeenSeq y.lastSeenSeq := by
  cases hy with
  | flags | arrive | forward => exact .inl ⟨rfl, rfl⟩
  | launch hpc | refuse hpc | skip hpc | finish hpc =>
    left
    simp [pending, held, goto, hpc]
  | take bytes hpc hbytes =>
    left
    simp [pending, held, hpc, hbytes]
  | proceed own pc recvTaken hidle hpc =>
    left
    have hnil := hx.numbered.pending_idle hidle
    have hnone := hx.numbered.begun (.inl hidle)
    refine ⟨?_, rfl⟩
    rw [hnil]
    rcases hpc with rfl | rfl | rfl <;> simp [pending, held, hnone]
  | dispatch m rest hpc hin =>
    have hidle : x.Idle := .inr (.inl hpc)
    have hnil := hx.numbered.pending_idle hidle
    have hnone := hx.numbered.begun (.inl hidle)
    cases m with
    | output id seq bytes =>
      obtain ⟨hle, hmax, hbytes⟩ := hx.dispatched hin
      refine .inr ⟨rfl, by simp [receivesOutput, hpc, hin], hnil, hle, hmax, ?_⟩
      simpa [pending, held, dispatchStreamMessage, hnone] using hbytes
    | _ =>
      left
      simp [pending, held, dispatchStreamMessage, goto, replaceRecv, hpc, hnone]

theorem Evolves.cut {h : Host} (hx : x.Orderly h.stream) (hy : Evolves (some h) x own y) :
    y.Cut h.stream := by
  have hcut := hx.cut
  cases hy with
  | flags | launch | refuse | take | skip | proceed | finish => exact { hcut with }
  | dispatch m rest hpc hin =>
    have hrest (id : SessionId) (seq : Nat) (bytes : List UInt8)
        (hb : .output id seq bytes ∈ rest) := hcut.incoming id seq bytes (hin ▸ .tail m hb)
    cases m with
    | output id seq bytes => exact ⟨(hx.dispatched hin).2.1, hcut.forwarded, hrest⟩
    | _ => exact ⟨hcut.lastSeenSeq, hcut.forwarded, hrest⟩
  | forward n h' hh hn =>
    obtain rfl := Option.some.inj hh
    refine ⟨hcut.lastSeenSeq, hn, fun id seq bytes hb => ?_⟩
    rcases List.mem_append.mp hb with hb | hb
    · exact hcut.incoming id seq bytes hb
    · obtain ⟨-, rfl, rfl⟩ := ServerToClientMsg.output.inj (List.mem_singleton.mp hb)
      refine ⟨hn, ?_⟩
      rw [length_extract_of_le hn, Nat.add_sub_cancel_left, Nat.add_sub_cancel]
  | arrive m forwarding hm =>
    refine ⟨hcut.lastSeenSeq, hcut.forwarded, fun id seq bytes hb => ?_⟩
    rcases List.mem_append.mp hb with hb | hb
    · exact hcut.incoming id seq bytes hb
    · exact absurd (List.mem_singleton.mp hb).symm (hm id seq bytes)

theorem Evolves.orderly {h : Host} (hx : x.Orderly h.stream) (hy : Evolves (some h) x own y)
    (hown : own = true → (x.receivesOutput = true → x.readSeq = none) ∧
      (x.refused = true → x.pending = [])) : y.Orderly h.stream where
  numbered := hy.numbered hx.numbered
  cut := hy.cut hx
  readSeq seq hseq := by
    rw [hy.keeps.1] at hseq
    rcases hy.pending_eq hx with ⟨-, hlast⟩ | ⟨htrue, hout, -⟩
    · exact (hx.readSeq seq hseq).trans hlast.symm
    · cases ((hown htrue).1 hout).symm.trans hseq
  settled hpc := by
    have hpending := hy.pending_eq hx
    cases hy with
    | flags => exact hx.settled hpc
    | forward => exact hx.settled hpc
    | arrive => exact hx.settled hpc
    | launch | take | skip => rcases hpc with h | h <;> cases h
    | refuse hlaunched hd =>
      have hnil := (hown rfl).2 (by simp [refused, hd, hlaunched])
      simpa [pending, held, goto, hlaunched] using hnil
    | proceed own pc recvTaken hidle hpc' =>
      rcases hpending with ⟨heq, -⟩ | ⟨-, -, -, hle, -, heq⟩
      · exact heq.trans (hx.numbered.pending_idle hidle)
      · exact heq.trans extract_self
    | finish hfailed => simpa [pending, held, goto, hfailed] using hx.settled (.inl hfailed)
    | dispatch m rest hreading hin =>
      have hnone := hx.numbered.begun (.inl (.inr (.inl hreading)))
      cases m with
      | output => rcases hpc with h | h <;> cases h
      | _ => simp [pending, held, dispatchStreamMessage, goto, replaceRecv, hreading, hnone]

/-- An attachment that has nothing left to write when its call is over or waits. -/
theorem Orderly.pending_eq_nil (hx : x.Orderly stream) (hwaiting : x.waiting = false) :
    x.pending = [] := by
  simp only [waiting, Bool.or_eq_false_iff, decide_eq_false_iff_not, not_not] at hwaiting
  obtain ⟨⟨hstarted, hlaunched⟩, hheld⟩ := hwaiting
  cases hpc : x.subscription with
  | none => exact absurd hpc hstarted
  | some pc =>
    cases pc with
    | launched => exact absurd hpc hlaunched
    | failed => exact hx.settled (.inl hpc)
    | ended => exact hx.settled (.inr hpc)
    | delivering bytes =>
      rw [pending, hheld, hx.numbered.begun (.inr (.inl ⟨bytes, hpc⟩))]
      rfl
    | writing seq bytes =>
      rw [pending, hheld, hx.numbered.begun (.inr (.inr ⟨seq, bytes, hpc⟩))]
      rfl
    | takingRecv => exact hx.numbered.pending_idle (.inl hpc)
    | reading => exact hx.numbered.pending_idle (.inr (.inl hpc))
    | lagging => exact hx.numbered.pending_idle (.inr (.inr (.inl hpc)))
    | exiting => exact hx.numbered.pending_idle (.inr (.inr (.inr hpc)))

/-- The sink has taken the bytes, and the call goes on. -/
theorem Orderly.goto {pc : Subscription} (hx : x.Orderly stream) (hnone : x.initialBytes = none)
    (hpc : pc = .takingRecv ∨ pc = .reading) :
    (x.goto pc).Orderly stream ∧ (x.goto pc).pending = [] := by
  refine ⟨⟨hx.numbered.goto (.inl hnone) x.recvTaken ?_, { hx.cut with }, hx.readSeq, ?_⟩, ?_⟩
  · rcases hpc with rfl | rfl <;> simp
  · rcases hpc with rfl | rfl <;> rintro (h | h) <;> cases h
  · rcases hpc with rfl | rfl <;> simp [pending, held, AttachedSession.goto, hnone]

end AttachedSession

namespace Terminal

open TerminalController

variable {first : Reply} {t u : Terminal} {seq : Nat}

/-- What is written and what is still to be written make up what has been seen. -/
def Accounted (first : Reply) (t : Terminal) : Prop :=
  ∃ seq ∈ (t.controller.attachments.map (·.lastSeenSeq)).getLast?, first.seq ≤ seq ∧
    t.controller.bytes ++ (t.controller.attachments.map (·.pending)).flatten =
      first.initialBytes ++ t.host.stream.extract first.seq seq

/-- The first initial bytes are the first that is written. -/
def Opened (first : Reply) (c : TerminalController) : Prop :=
  c.bytes = [] ∧ (c.attachments.map (·.pending)).head? = some first.initialBytes ∨
    first.initialBytes <+: c.bytes

structure Ordered (first : Reply) (t : Terminal) : Prop where
  host : t.host.Sound
  wired : t.controller.Wired
  orderly : ∀ x ∈ t.controller.attachments, x.Orderly t.host.stream
  head : (t.controller.attachments.map (·.reply)).head? = some first
  accounted : Accounted first t
  opened : Opened first t.controller

theorem ordered_init (hi : machine.init t) : ∃ first, Ordered first t := by
  obtain ⟨hh, live, lastSeenSeq, screen, hc⟩ := hi
  obtain ⟨host, controller⟩ := t
  change controller = new (host.attach live lastSeenSeq screen) at hc
  subst hc
  have hseq : (host.attach live lastSeenSeq screen).seq = host.stream.length :=
    hh.attach_seq live lastSeenSeq screen
  refine ⟨host.attach live lastSeenSeq screen, hh, wired_new _, ?_, rfl, ?_, .inl ⟨rfl, ?_⟩⟩
  · exact List.forall_mem_singleton.mpr (AttachedSession.orderly_new hseq.le)
  · refine ⟨_, rfl, Nat.le_refl _, ?_⟩
    simp [TerminalController.new, TerminalController.bytes, AttachedSession.new,
      AttachedSession.pending, AttachedSession.held]
  · simp [TerminalController.new, AttachedSession.new, AttachedSession.pending,
      AttachedSession.held]

theorem Ordered.record (ht : Ordered first t) {bytes : List UInt8}
    (hmax : (t.host.stream ++ bytes).length ≤ u64Max) :
    Ordered first { t with host := t.host.record bytes } := by
  obtain ⟨seq, hseq, hle, heq⟩ := ht.accounted
  refine ⟨ht.host.record hmax, ht.wired, fun x hx => (ht.orderly x hx).append bytes, ht.head,
    ⟨seq, hseq, hle, ?_⟩, ht.opened⟩
  have hmax : seq ≤ t.host.stream.length := by
    obtain ⟨x, hx, rfl⟩ := List.mem_map.mp (List.mem_of_getLast? hseq)
    exact (ht.orderly x hx).cut.lastSeenSeq
  exact heq.trans (congrArg _ (extract_append_left hmax).symm)

/-- A step that leaves the bytes and the numbers alone. -/
theorem Ordered.congr {c : TerminalController} (ht : Ordered first t) (hwired : c.Wired)
    (horderly : ∀ x ∈ c.attachments, x.Orderly t.host.stream)
    (hreply : c.attachments.map (·.reply) = t.controller.attachments.map (·.reply))
    (hlast : c.attachments.map (·.lastSeenSeq) = t.controller.attachments.map (·.lastSeenSeq))
    (hpending : c.attachments.map (·.pending) = t.controller.attachments.map (·.pending))
    (hemulator : c.emulator = t.controller.emulator) :
    Ordered first { t with controller := c } := by
  have hbytes : c.bytes = t.controller.bytes := congrArg (List.flatMap _) hemulator
  refine ⟨ht.host, hwired, horderly, by rw [hreply, ht.head], ?_, ?_⟩
  · rw [Accounted, hlast, hpending, hbytes]
    exact ht.accounted
  · rw [Opened, hpending, hbytes]
    exact ht.opened

/-- The last attachment takes the next part of the stream. -/
theorem Ordered.dispatched {c : TerminalController} {older : List AttachedSession}
    {x y : AttachedSession} (ht : Ordered first t) (hwired : c.Wired)
    (hx : t.controller.attachments = older ++ [x]) (hy : y.Orderly t.host.stream)
    (hreply : y.reply = x.reply) (hnil : x.pending = []) (hle : x.lastSeenSeq ≤ y.lastSeenSeq)
    (hpending : y.pending = t.host.stream.extract x.lastSeenSeq y.lastSeenSeq)
    (hc : c.attachments = older ++ [y]) (hemulator : c.emulator = t.controller.emulator) :
    Ordered first { t with controller := c } := by
  have hbytes : c.bytes = t.controller.bytes := congrArg (List.flatMap _) hemulator
  refine ⟨ht.host, hwired, ?_, ?_, ?_, ?_⟩
  · have horderly := ht.orderly
    rw [hx, List.forall_mem_append] at horderly
    change ∀ z ∈ c.attachments, _
    rw [hc, List.forall_mem_append]
    exact ⟨horderly.1, List.forall_mem_singleton.mpr hy⟩
  · change (c.attachments.map (·.reply)).head? = _
    rw [hc, map_changed (·.reply) hx hreply, ht.head]
  · obtain ⟨seq, hseq, hfirst, heq⟩ := ht.accounted
    rw [hx] at hseq heq
    rw [List.map_append, List.map_singleton, List.getLast?_concat] at hseq
    obtain rfl := Option.some.inj hseq
    rw [List.map_append, List.map_singleton, hnil, List.flatten_concat, List.append_nil] at heq
    refine ⟨y.lastSeenSeq, by rw [hc, List.map_append]; exact List.getLast?_concat, by omega, ?_⟩
    calc c.bytes ++ (c.attachments.map (·.pending)).flatten
        = t.controller.bytes ++ (older.map (·.pending)).flatten ++
            t.host.stream.extract x.lastSeenSeq y.lastSeenSeq := by
          rw [hbytes, hc, List.map_append, List.map_singleton, hpending, List.flatten_concat,
            List.append_assoc]
      _ = first.initialBytes ++ t.host.stream.extract first.seq y.lastSeenSeq := by
          rw [heq, List.append_assoc, extract_append_extract hfirst hle]
  · rw [Opened, hbytes, hc]
    rcases ht.opened with ⟨hb, hhead⟩ | hpre
    · rw [hx] at hhead
      cases older with
      | nil =>
        have hfirst : first.initialBytes = [] := (Option.some.inj hhead).symm.trans hnil
        exact .inr (hfirst ▸ List.nil_prefix)
      | cons o older => exact .inl ⟨hb, hhead⟩
    · exact .inr hpre

/-- The subscription hands its bytes to the sink, while no older attachment has any. -/
theorem Ordered.delivered {c : TerminalController} {older newer : List AttachedSession}
    {x y : AttachedSession} {d : Delivery} (ht : Ordered first t) (hwired : c.Wired)
    (hx : t.controller.attachments = older ++ x :: newer) (hy : y.Orderly t.host.stream)
    (hreply : y.reply = x.reply) (hlast : y.lastSeenSeq = x.lastSeenSeq)
    (hbytes : x.pending = d.bytes) (hnil : y.pending = [])
    (hfirst : d.bytes = [] ∨ ∀ z ∈ older, z.pending = [])
    (hc : c.attachments = older ++ y :: newer)
    (hemulator : c.emulator = t.controller.emulator ++ [d]) :
    Ordered first { t with controller := c } := by
  have hwritten : c.bytes = t.controller.bytes ++ d.bytes := by
    simp only [TerminalController.bytes, hemulator, List.flatMap_append, List.flatMap_singleton]
  refine ⟨ht.host, hwired, ?_, ?_, ?_, ?_⟩
  · change ∀ z ∈ c.attachments, _
    rw [hc]
    exact forall_mem_changed ht.orderly hx fun _ => hy
  · change (c.attachments.map (·.reply)).head? = _
    rw [hc, map_changed (·.reply) hx hreply, ht.head]
  · obtain ⟨seq, hseq, hle, heq⟩ := ht.accounted
    refine ⟨seq, by rw [hc, map_changed (·.lastSeenSeq) hx hlast]; exact hseq, hle, ?_⟩
    rw [← heq, hwritten, hc, hx]
    simp only [List.map_append, List.map_cons, List.flatten_append, List.flatten_cons, hnil, hbytes,
      List.append_assoc, List.nil_append]
    congr 1
    rcases hfirst with hd | hold
    · rw [hd]
      rfl
    · have hflat : (older.map (·.pending)).flatten = [] := by
        rw [List.flatten_eq_nil_iff]
        intro l hl
        obtain ⟨z, hz, rfl⟩ := List.mem_map.mp hl
        exact hold z hz
      rw [hflat, List.nil_append, List.nil_append]
  · rw [Opened, hwritten, hc]
    rcases ht.opened with ⟨hb, hhead⟩ | hpre
    · rw [hx] at hhead
      cases older with
      | nil =>
        have hfirst : first.initialBytes = d.bytes := (Option.some.inj hhead).symm.trans hbytes
        have hall : t.controller.bytes ++ d.bytes = first.initialBytes := by
          rw [hb, hfirst, List.nil_append]
        exact .inr (hall ▸ List.prefix_rfl)
      | cons o older =>
        rcases hfirst with hd | hold
        · exact .inl ⟨by rw [hb, hd]; rfl, hhead⟩
        · have ho : first.initialBytes = [] :=
            (Option.some.inj hhead).symm.trans (hold o List.mem_cons_self)
          exact .inr (ho ▸ List.nil_prefix)
    · exact .inr (hpre.trans (List.prefix_append _ _))

/-- A replacement is made from the number of the last attachment. -/
theorem Ordered.answered {c : TerminalController} {reply : Reply} (ht : Ordered first t)
    (hwired : c.Wired) (hseq : reply.seq = t.host.stream.length)
    (hlast : (t.controller.attachments.map (·.lastSeenSeq)).getLast? = some seq)
    (hbytes : reply.initialBytes = t.host.stream.extract seq reply.seq)
    (hc : c.attachments = t.controller.attachments ++ [.new reply])
    (hemulator : c.emulator = t.controller.emulator) :
    Ordered first { t with controller := c } := by
  have hwritten : c.bytes = t.controller.bytes := congrArg (List.flatMap _) hemulator
  have hnew : (AttachedSession.new reply).pending = reply.initialBytes := List.append_nil _
  have hhead {β : Type} (f : AttachedSession → β) :
      (c.attachments.map f).head? = (t.controller.attachments.map f).head? := by
    rw [hc, List.map_append]
    refine List.head?_append_of_ne_nil _ fun hnil => ?_
    rw [List.map_eq_nil_iff] at hnil
    rw [hnil] at hlast
    cases hlast
  have hseen : seq ≤ t.host.stream.length := by
    obtain ⟨x, hx, rfl⟩ := List.mem_map.mp (List.mem_of_getLast? hlast)
    exact (ht.orderly x hx).cut.lastSeenSeq
  refine ⟨ht.host, hwired, ?_, (hhead _).trans ht.head, ?_, ?_⟩
  · change ∀ z ∈ c.attachments, _
    rw [hc, List.forall_mem_append]
    exact ⟨ht.orderly, List.forall_mem_singleton.mpr (AttachedSession.orderly_new hseq.le)⟩
  · obtain ⟨seq', hseq', hfirst, heq⟩ := ht.accounted
    obtain rfl := Option.some.inj (hlast.symm.trans hseq')
    refine ⟨reply.seq, by rw [hc, List.map_append]; exact List.getLast?_concat, by omega, ?_⟩
    calc c.bytes ++ (c.attachments.map (·.pending)).flatten
        = t.controller.bytes ++ (t.controller.attachments.map (·.pending)).flatten ++
            t.host.stream.extract seq reply.seq := by
          rw [hwritten, hc, List.map_append, List.map_singleton, hnew, hbytes, List.flatten_concat,
            List.append_assoc]
      _ = first.initialBytes ++ t.host.stream.extract first.seq reply.seq := by
          rw [heq, List.append_assoc, extract_append_extract hfirst (by omega)]
  · rw [Opened, hwritten, hhead]
    exact ht.opened

/-- An attachment takes a step of its own. -/
theorem Ordered.evolved {c : TerminalController} {own : Bool} {older newer : List AttachedSession}
    {x y : AttachedSession} (ht : Ordered first t) (hwired : c.Wired)
    (hx : t.controller.attachments = older ++ x :: newer) (hy : x.Evolves (some t.host) own y)
    (hown : own = true → (x.receivesOutput = true → x.readSeq = none) ∧
      (x.refused = true → x.pending = []))
    (hc : c.attachments = older ++ y :: newer) (hemulator : c.emulator = t.controller.emulator) :
    Ordered first { t with controller := c } := by
  have hmem : x ∈ t.controller.attachments := by rw [hx]; simp
  have hxo := ht.orderly x hmem
  have hyo := hy.orderly hxo hown
  rcases hy.pending_eq hxo with ⟨hpending, hlast⟩ | ⟨htrue, hout, hnil, hle, -, hpending⟩
  · refine ht.congr hwired ?_ ?_ ?_ ?_ hemulator
    · rw [hc]
      exact forall_mem_changed ht.orderly hx fun _ => hyo
    · rw [hc, map_changed (·.reply) hx hy.keeps.2]
    · rw [hc, map_changed (·.lastSeenSeq) hx hlast]
    · rw [hc, map_changed (·.pending) hx hpending]
  · -- The number of the attachment has not been read, so that it is the last one.
    obtain rfl := ht.wired.newer_eq_nil hx ((hown htrue).1 hout)
    exact ht.dispatched hwired hx hyo hy.keeps.2 hnil hle hpending hc hemulator

theorem Ordered.controller_step {a : TerminalController.Action} {c : TerminalController}
    (ht : Ordered first t) (hc : Careful t (.controller a))
    (hs : Stepped (some t.host) t.controller a c) : Ordered first { t with controller := c } := by
  have hwired := hs.wired ht.wired
  have hnumbered := hs.numbered fun x hx => (ht.orderly x hx).numbered
  obtain ⟨hassumed, hcareful⟩ := hc
  have hget {older newer : List AttachedSession} {x : AttachedSession}
      (hx : t.controller.attachments = older ++ x :: newer) :
      t.controller.attachments[older.length]? = some x := by rw [hx]; simp
  have htake {older newer : List AttachedSession} {x : AttachedSession}
      (hx : t.controller.attachments = older ++ x :: newer) :
      t.controller.attachments.take older.length = older := by rw [hx]; simp
  have hmem {older newer : List AttachedSession} {x : AttachedSession}
      (hx : t.controller.attachments = older ++ x :: newer) :
      x.Orderly t.host.stream := ht.orderly x (by rw [hx]; simp)
  cases hs with
  | quiet | enter | abandon | record | leave | install =>
    exact ht.congr hwired ht.orderly rfl rfl rfl rfl
  | evolve hx hy hact =>
    refine ht.evolved hwired hx hy (fun htrue => ?_) rfl rfl
    rw [hact htrue] at hcareful
    exact hcareful _ (hget hx)
  | launch hrec hx hy => exact ht.evolved hwired hx hy nofun rfl rfl
  | @deliver older newer x bytes hx hpc =>
    have hxo := hmem hx
    have hnone := hxo.numbered.begun (.inr (.inl ⟨bytes, hpc⟩))
    have hheld : x.held = bytes := by simp only [AttachedSession.held, hpc]
    obtain ⟨hyo, hnil⟩ := hxo.goto hnone (.inl rfl)
    refine ht.delivered hwired hx hyo rfl rfl ?_ hnil ?_ rfl rfl
    · rw [AttachedSession.pending, hnone, hheld]
      rfl
    · have hold := hcareful x (hget hx)
      rwa [hheld, htake hx] at hold
  | @write older newer x seq bytes hx hpc =>
    have hxo := hmem hx
    have hnone := hxo.numbered.begun (.inr (.inr ⟨seq, bytes, hpc⟩))
    have hheld : x.held = bytes := by simp only [AttachedSession.held, hpc]
    obtain ⟨hyo, hnil⟩ := hxo.goto hnone (.inr rfl)
    refine ht.delivered hwired hx hyo rfl rfl ?_ hnil ?_ rfl rfl
    · rw [AttachedSession.pending, hnone, hheld]
      rfl
    · have hold := hcareful x (hget hx)
      rwa [hheld, htake hx] at hold
  | @read older x hx hrec =>
    refine ht.congr hwired ?_ (map_changed (·.reply) hx rfl) (map_changed (·.lastSeenSeq) hx rfl)
      (map_changed (·.pending) hx rfl) rfl
    refine forall_mem_changed ht.orderly hx fun hxo => ?_
    exact {
      numbered := hnumbered _ (List.mem_append_right _ List.mem_cons_self)
      cut := { hxo.cut with }
      readSeq := fun seq hseq => (Option.some.inj hseq).symm
      settled := hxo.settled }
  | @clear older x seq hx hrec =>
    refine ht.congr hwired ?_ (map_changed (·.reply) hx rfl) (map_changed (·.lastSeenSeq) hx rfl)
      (map_changed (·.pending) hx rfl) rfl
    exact forall_mem_changed ht.orderly hx fun hxo =>
      { hxo with numbered := { hxo.numbered with }, cut := { hxo.cut with } }
  | @answer seq h' live screen hh hrec =>
    obtain rfl := Option.some.inj hh
    have hanswer : live = true ∧ t.host.session.replays (some seq) = true :=
      hassumed seq (by rw [hrec]; rfl)
    have hbase : (t.host.attach live (some seq) screen).replayedFrom = some seq := by
      simp only [Host.attach, hanswer.1, if_true, hanswer.2]
    have hseq := ht.host.attach_seq live (some seq) screen
    obtain ⟨-, -, hbytes⟩ := ht.host.attach_replay hbase
    -- The number that the recovery has read is still that of the last attachment.
    have hphase := ht.wired.phase
    rw [hrec] at hphase
    obtain ⟨-, links, base, hlinks⟩ := hphase
    have hlast : (t.controller.attachments.map (·.lastSeenSeq)).getLast? = some seq := by
      have hlink : (t.controller.attachments.map (·.link)).getLast? = some (some seq, base) := by
        change t.controller.links.getLast? = _
        rw [hlinks, List.getLast?_concat]
      rw [List.getLast?_map] at hlink ⊢
      obtain ⟨x, hx, hread⟩ := Option.map_eq_some_iff.mp hlink
      have hseq' := (ht.orderly x (List.mem_of_getLast? hx)).readSeq seq (Prod.mk.inj hread).1
      rw [hx, Option.map_some, hseq']
    exact ht.answered hwired hseq hlast (by rw [hbytes, hseq]) rfl rfl

theorem Ordered.step {a : Action} (ht : t.controller.detached = false → ∃ first, Ordered first t)
    (hc : Careful t a) (hs : machine.step a t = some u) (hlive : u.controller.detached = false) :
    ∃ first, Ordered first u := by
  cases a with
  | record bytes =>
    obtain rfl := Option.some.inj hs
    obtain ⟨first, ht⟩ := ht hlive
    exact ⟨first, ht.record hc.1⟩
  | controller a =>
    obtain ⟨r, hr, rfl⟩ := Option.map_eq_some_iff.mp hs
    obtain ⟨first, ht⟩ := ht (detached_of_step hr hlive)
    exact ⟨first, ht.controller_step hc (stepped_of_step ht.wired hlive hr)⟩

theorem Ordered.contiguous (ht : Ordered first t) : Contiguous t := by
  obtain ⟨seq, hseq, hle, heq⟩ := ht.accounted
  have hfirst : first ∈ t.controller.attachments.head?.map (·.reply) := by
    rw [← List.head?_map]
    exact ht.head
  obtain ⟨last, hlast, rfl⟩ :
      ∃ last ∈ t.controller.attachments.getLast?, last.lastSeenSeq = seq := by
    rw [List.getLast?_map] at hseq
    exact Option.map_eq_some_iff.mp hseq
  have hmax := (ht.orderly last (List.mem_of_getLast? hlast)).cut.lastSeenSeq
  constructor
  · rcases ht.opened with ⟨hb, -⟩ | ⟨rest, hrest⟩
    · exact .inl hb
    · rw [← hrest, List.append_assoc] at heq
      have hprefix := (List.append_cancel_left heq) ▸ List.prefix_append rest _
      obtain ⟨hend, hpart⟩ := eq_extract_of_prefix hprefix hle hmax
      exact .inr ⟨_, first, hfirst, Nat.le_add_right _ _, hend.trans hmax, hpart ▸ hrest.symm⟩
  · intro hover
    refine ⟨last, hlast, first, hfirst, hle, hmax, ?_⟩
    rw [← heq]
    have hnil : (t.controller.attachments.map (·.pending)).flatten = [] := by
      rw [List.flatten_eq_nil_iff]
      intro l hl
      obtain ⟨x, hx, rfl⟩ := List.mem_map.mp hl
      exact (ht.orderly x hx).pending_eq_nil (hover x hx)
    rw [hnil, List.append_nil]

/-- In every run in which replacements are answered from inside the window and everything happens in
order, the emulator of a controller that is not detached has been given its first initial bytes and
then a contiguous part of the stream, and nothing that was seen is missing in the end. -/
theorem recovery_loses_nothing (h : machine.ReachableWhen Careful t)
    (hlive : t.controller.detached = false) : Contiguous t := by
  obtain ⟨first, ht⟩ := h.invariant (I := fun t => t.controller.detached = false →
    ∃ first, Ordered first t) (fun _ hi _ => ordered_init hi)
    (fun _ _ _ ht hc hs hlive => Ordered.step ht hc hs hlive) hlive
  exact ht.contiguous

section Traces

/-- A terminal that is opened on an empty session, whose screen is one byte here. -/
def opened : Terminal :=
  ⟨⟨.spawn 7 "shell" 0, []⟩, .new ((⟨.spawn 7 "shell" 0, []⟩ : Host).attach true none [0])⟩

theorem opened_init : machine.init opened :=
  ⟨⟨Daemon.PtyRingBuffer.new_mirrors _, Nat.zero_le _⟩, true, none, [0], rfl⟩

/-- The terminal shows the screen, and a byte has arrived. -/
private def shown : List Action :=
  [.controller .start, .controller (.subscribe 0), .controller (.callback 0),
    .controller (.subscribe 0), .record [1], .controller (.forward 0 1), .controller (.subscribe 0)]

/-- A command fails and its recovery replaces the attachment, while the session goes on. -/
private def recovered : List Action :=
  [Action.controller .command, .controller (.commandFailed 0), .controller (.enterRecovery 0)] ++
    List.replicate 4 (Action.controller .recover) ++
    [Action.record [2], .controller (.reattach true []), .controller .recover, .controller .recover,
      .controller (.subscribe 1), .controller (.callback 1)]

/-- The byte is written before the recovery begins. -/
theorem recovery_loses_nothing_written : ∃ t : Terminal,
    t.controller.bytes = [0, 1, 2] ∧ Contiguous t := by
  obtain ⟨t, hr, hlive, hbytes⟩ := machine.exists_reachable_of_exec (s := opened) Careful
    (fun t => t.controller.detached = false ∧ t.controller.bytes = [0, 1, 2])
    (List.flatten [shown, [.controller (.callback 0)], recovered]) opened_init (by decide)
  exact ⟨t, hbytes, recovery_loses_nothing hr hlive⟩

/-- The number of an output is stored before the output is written, so that a recovery may write
what follows before it. -/
theorem recovery_overtakes_output :
    ¬ ∀ t : Terminal, machine.ReachableWhen Assumed t → t.controller.detached = false →
      Contiguous t := by
  intro hall
  obtain ⟨t, hr, hlive, hbytes, hstream, hfirst⟩ :=
    machine.exists_reachable_of_exec (s := opened) Assumed
      (fun t => t.controller.detached = false ∧ t.controller.bytes = [0, 2, 1] ∧
        t.host.stream = [1, 2] ∧
        t.controller.attachments.head?.map (·.reply) = some ⟨none, 0, [0]⟩)
      (List.flatten [shown, recovered, [.controller (.callback 0)]]) opened_init (by decide)
  rcases (hall t hr hlive).written with hnil | ⟨seq, first, hhead, -, hmax, heq⟩
  · cases hbytes.symm.trans hnil
  · obtain rfl := Option.some.inj (hfirst.symm.trans hhead)
    rw [hbytes, hstream] at heq
    rw [hstream] at hmax
    have hseq : seq = 0 ∨ seq = 1 ∨ seq = 2 := by
      have hle : seq ≤ 2 := hmax
      omega
    rcases hseq with rfl | rfl | rfl <;> cases heq

end Traces

end Terminal

end Shelly.Mobile
