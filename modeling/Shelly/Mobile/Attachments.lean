import Mathlib.Data.List.Chain
import Shelly.Mobile.TerminalController

namespace Shelly.Mobile

/-- What a message does to the place in the output that has arrived. -/
def Advances (seq : Nat) (m : ServerToClientMsg) (seq' : Nat) : Prop :=
  match m with
  | .output _ last bytes => seq' = last ∧ last = seq + bytes.length
  | _ => seq' = seq

namespace AttachedSession

/-- The subscription has taken the initial bytes and holds nothing. -/
def Idle (x : AttachedSession) : Prop :=
  x.subscription = some .takingRecv ∨ x.subscription = some .reading ∨
    x.subscription = some .lagging ∨ x.subscription = some .exiting

/-- The call runs, and has taken the initial bytes. -/
def Begun (x : AttachedSession) : Prop :=
  x.Idle ∨ (∃ bytes, x.subscription = some (.delivering bytes)) ∨
    ∃ seq bytes, x.subscription = some (.writing seq bytes)

/-- What the numbers of an attachment say about the bytes that go to the sink. -/
structure Numbered (x : AttachedSession) : Prop where
  incoming : Trail Advances x.lastSeenSeq x.incoming x.forwarded
  initial : ∀ bytes, x.initialBytes = some bytes →
    bytes = x.reply.initialBytes ∧ x.lastSeenSeq = x.reply.seq ∧ x.held = []
  begun : x.Begun → x.initialBytes = none
  delivering : ∀ bytes, x.subscription = some (.delivering bytes) →
    bytes = x.reply.initialBytes ∧ x.lastSeenSeq = x.reply.seq
  writing : ∀ seq bytes, x.subscription = some (.writing seq bytes) → seq = x.lastSeenSeq
  readSeq : ∀ seq, x.readSeq = some seq → seq ≤ x.lastSeenSeq ∧
    ∀ last bytes, x.subscription = some (.writing last bytes) →
      last ≤ seq ∨ seq + bytes.length ≤ last

/-- The number that was read from an attachment, and the number that it is a replay from. -/
def link (x : AttachedSession) : Option Nat × Option Nat := (x.readSeq, x.reply.replayedFrom)

/-- What an attachment does by itself, while nothing is written. The flag marks a step that only the
call of `subscribe` takes. -/
inductive Evolves (h : Option Host) (x : AttachedSession) : Bool → AttachedSession → Prop
  | flags (destroyed forwarding : Bool) : Evolves h x false { x with destroyed, forwarding }
  | launch (hpc : x.subscription = none) : Evolves h x false (x.goto .launched)
  | refuse (hpc : x.subscription = some .launched) (hx : x.destroyed = true) :
      Evolves h x true (x.goto .failed)
  | take (bytes : List UInt8) (hpc : x.subscription = some .launched)
      (hbytes : x.initialBytes = some bytes) :
      Evolves h x true { x with initialBytes := none, subscription := some (.delivering bytes) }
  | skip (hpc : x.subscription = some .launched) (hbytes : x.initialBytes = none) :
      Evolves h x true (x.goto .takingRecv)
  | proceed (own : Bool) (pc : Subscription) (recvTaken : Bool) (hx : x.Idle)
      (hpc : pc = .reading ∨ pc = .failed ∨ pc = .ended) :
      Evolves h x own { x with recvTaken, subscription := some pc }
  | finish (hpc : x.subscription = some .failed) : Evolves h x false (x.goto .ended)
  | dispatch (m : ServerToClientMsg) (rest : List ServerToClientMsg)
      (hpc : x.subscription = some .reading) (hin : x.incoming = m :: rest) :
      Evolves h x true ({ x with incoming := rest }.dispatchStreamMessage m)
  | forward (n : Nat) (h' : Host) (hh : h = some h') (hn : x.forwarded + n ≤ h'.stream.length) :
      Evolves h x false { x with
        incoming := x.incoming ++ [.output h'.session.id (x.forwarded + n)
          (h'.stream.extract x.forwarded (x.forwarded + n))]
        forwarded := x.forwarded + n }
  | arrive (m : ServerToClientMsg) (forwarding : Bool)
      (hm : ∀ id seq bytes, m ≠ .output id seq bytes) :
      Evolves h x false { x with incoming := x.incoming ++ [m], forwarding }

theorem Evolves.keeps {h : Option Host} {own : Bool} {x y : AttachedSession}
    (hy : Evolves h x own y) :
    y.readSeq = x.readSeq ∧ y.reply = x.reply := by
  cases hy with
  | dispatch m rest => cases m <;> exact ⟨rfl, rfl⟩
  | _ => exact ⟨rfl, rfl⟩

theorem Evolves.link_eq {h : Option Host} {own : Bool} {x y : AttachedSession}
    (hy : Evolves h x own y) : y.link = x.link := by
  rw [link, link, hy.keeps.1, hy.keeps.2]

theorem Evolves.launched (h : Option Host) (x : AttachedSession) : Evolves h x false x.launch := by
  unfold AttachedSession.launch
  split
  · exact .launch ‹_›
  · exact .flags x.destroyed x.forwarding

theorem Evolves.of_subscribe {h : Option Host} {x y : AttachedSession}
    (hs : x.subscribe = some y) : Evolves h x true y := by
  unfold subscribe at hs
  split at hs
  · rename_i hpc
    obtain rfl := Option.some.inj hs
    split
    · exact .refuse hpc ‹_›
    · split
      · exact .take _ hpc ‹_›
      · exact .skip hpc ‹_›
  · rename_i hpc
    obtain rfl := Option.some.inj hs
    split
    · exact .proceed true .failed x.recvTaken (.inl hpc) (.inr (.inl rfl))
    · exact .proceed true .reading true (.inl hpc) (.inl rfl)
  · rename_i hpc
    split at hs
    · obtain rfl := Option.some.inj hs
      exact .dispatch _ _ hpc ‹_›
    · cases hs
  · cases hs

theorem Evolves.of_breakOff {h : Option Host} {x y : AttachedSession}
    (hs : x.breakOff = some y) : Evolves h x false y := by
  obtain ⟨hpc, hy⟩ := Option.ite_none_right_eq_some.mp hs
  obtain rfl := Option.some.inj hy
  exact .proceed false .failed x.recvTaken (.inr (.inl hpc)) (.inr (.inl rfl))

theorem Evolves.of_forward {h : Host} {x y : AttachedSession} {n : Nat}
    (hs : x.forward h n = some y) : Evolves (some h) x false y := by
  obtain ⟨⟨-, -, hn⟩, hy⟩ := Option.ite_none_right_eq_some.mp hs
  obtain rfl := Option.some.inj hy
  exact .forward n h rfl hn

theorem Evolves.of_arrive {h : Option Host} {x y : AttachedSession} {m : ServerToClientMsg}
    (hs : x.arrive m = some y) : Evolves h x false y := by
  unfold AttachedSession.arrive at hs
  split at hs
  · cases hs
  all_goals
    obtain ⟨-, hy⟩ := Option.ite_none_right_eq_some.mp hs
    obtain rfl := Option.some.inj hy
  · exact .arrive _ false fun _ _ _ => nofun
  · exact .arrive _ false fun _ _ _ => nofun
  · rename_i hm _ _
    exact .arrive m x.forwarding hm

theorem numbered_new (reply : Reply) : (new reply).Numbered where
  incoming := .nil _
  initial _ hbytes := ⟨(Option.some.inj hbytes).symm, rfl, rfl⟩
  begun h := by rcases h with (h | h | h | h) | ⟨_, h⟩ | ⟨_, _, h⟩ <;> cases h
  delivering _ h := nomatch h
  writing _ _ h := nomatch h
  readSeq _ h := nomatch h

/-- A subscription that holds nothing says nothing about the numbers. -/
theorem Numbered.idle {x y : AttachedSession} (hx : x.Numbered)
    (hincoming : y.incoming = x.incoming) (hforwarded : y.forwarded = x.forwarded)
    (hinitial : y.initialBytes = x.initialBytes) (hlast : y.lastSeenSeq = x.lastSeenSeq)
    (hreply : y.reply = x.reply) (hread : y.readSeq = x.readSeq) (hheld : y.held = [])
    (hdelivering : ∀ bytes, y.subscription ≠ some (.delivering bytes))
    (hwriting : ∀ seq bytes, y.subscription ≠ some (.writing seq bytes))
    (hbegun : y.Idle → x.initialBytes = none) : y.Numbered where
  incoming := by rw [hlast, hincoming, hforwarded]; exact hx.incoming
  initial bytes hbytes := by
    obtain ⟨hb, hseq, -⟩ := hx.initial bytes (hinitial ▸ hbytes)
    exact ⟨hreply ▸ hb, by rw [hlast, hreply, hseq], hheld⟩
  begun h := by
    rw [hinitial]
    rcases h with h | ⟨bytes, h⟩ | ⟨seq, bytes, h⟩
    · exact hbegun h
    · exact absurd h (hdelivering bytes)
    · exact absurd h (hwriting seq bytes)
  delivering bytes h := absurd h (hdelivering bytes)
  writing seq bytes h := absurd h (hwriting seq bytes)
  readSeq seq h := by
    rw [hlast]
    exact ⟨(hx.readSeq seq (hread ▸ h)).1, fun last bytes h => absurd h (hwriting last bytes)⟩

/-- The subscription goes on to a place where it holds nothing. -/
theorem Numbered.goto {x : AttachedSession} {pc : Subscription} (hx : x.Numbered)
    (hbegun : x.initialBytes = none ∨ pc = .launched ∨ pc = .failed ∨ pc = .ended)
    (recvTaken : Bool) (hpc : pc ∈ [.launched, .takingRecv, .reading, .failed, .ended]) :
    Numbered { x with recvTaken, subscription := some pc } := by
  have hne : (∀ bytes, pc ≠ .delivering bytes) ∧ (∀ seq bytes, pc ≠ .writing seq bytes) := by
    simp only [List.mem_cons, List.not_mem_nil, or_false] at hpc
    rcases hpc with rfl | rfl | rfl | rfl | rfl <;> exact ⟨nofun, nofun⟩
  refine hx.idle rfl rfl rfl rfl rfl rfl ?_ (fun bytes h => hne.1 bytes (Option.some.inj h))
    (fun seq bytes h => hne.2 seq bytes (Option.some.inj h)) ?_
  · simp only [List.mem_cons, List.not_mem_nil, or_false] at hpc
    rcases hpc with rfl | rfl | rfl | rfl | rfl <;> rfl
  · intro hidle
    rcases hbegun with h | rfl | rfl | rfl
    · exact h
    all_goals rcases hidle with h | h | h | h <;> cases h

/-- An output is the only message that moves the number, and it moves it to its own end. -/
theorem Numbered.dispatched {x : AttachedSession} {m : ServerToClientMsg}
    {rest : List ServerToClientMsg} (hx : x.Numbered) (hpc : x.subscription = some .reading)
    (hin : x.incoming = m :: rest) :
    ({ x with incoming := rest }.dispatchStreamMessage m).Numbered := by
  have hnone : x.initialBytes = none := hx.begun (.inl (.inr (.inl hpc)))
  have htrail := hx.incoming
  rw [hin] at htrail
  obtain ⟨mid, hm, hrest⟩ := Trail.cons_iff.mp htrail
  cases m with
  | output id seq bytes =>
    obtain ⟨rfl, hseq⟩ := hm
    exact {
      incoming := hrest
      initial := fun _ h => nomatch hnone.symm.trans h
      begun := fun _ => hnone
      delivering := fun _ h => nomatch h
      writing := fun _ _ h => (Subscription.writing.inj (Option.some.inj h)).1.symm
      readSeq := fun seq hseq' => by
        have hle := (hx.readSeq seq hseq').1
        refine ⟨by change seq ≤ mid; omega, fun last bytes' h => .inr ?_⟩
        obtain ⟨rfl, rfl⟩ := Subscription.writing.inj (Option.some.inj h)
        omega }
  | lag | sessionExited | error =>
    obtain rfl := hm
    exact Numbered.idle (x := { x with incoming := rest }) { hx with incoming := hrest }
      rfl rfl rfl rfl rfl rfl rfl nofun nofun fun _ => hnone
  | _ =>
    obtain rfl := hm
    exact { hx with incoming := hrest }

theorem Evolves.numbered {h : Option Host} {own : Bool} {x y : AttachedSession} (hx : x.Numbered)
    (hy : Evolves h x own y) : y.Numbered := by
  cases hy with
  | flags destroyed forwarding => exact { hx with }
  | launch hpc => exact hx.goto (.inr (.inl rfl)) _ (by simp)
  | refuse hpc hd => exact hx.goto (.inr (.inr (.inl rfl))) _ (by simp)
  | take bytes hpc hbytes =>
    exact {
      incoming := hx.incoming
      initial := fun _ h => nomatch h
      begun := fun _ => rfl
      delivering := fun bytes' h => by
        obtain rfl := Subscription.delivering.inj (Option.some.inj h)
        obtain ⟨hb, hseq, -⟩ := hx.initial bytes hbytes
        exact ⟨hb, hseq⟩
      writing := fun _ _ h => nomatch h
      readSeq := fun seq hseq => ⟨(hx.readSeq seq hseq).1, fun _ _ h => nomatch h⟩ }
  | skip hpc hbytes => exact hx.goto (.inl hbytes) _ (by simp)
  | proceed _ pc recvTaken hidle hpc =>
    refine hx.goto (.inl (hx.begun (.inl hidle))) recvTaken ?_
    rcases hpc with rfl | rfl | rfl <;> simp
  | finish hpc => exact hx.goto (.inr (.inr (.inr rfl))) _ (by simp)
  | dispatch m rest hpc hin => exact hx.dispatched hpc hin
  | forward n h' hh hn =>
    refine { hx with incoming := hx.incoming.snoc ?_ }
    exact ⟨rfl, congrArg _ (length_extract_of_le hn ▸ Nat.add_sub_cancel_left _ _).symm⟩
  | arrive m forwarding hm =>
    refine { hx with incoming := hx.incoming.snoc ?_ }
    cases m with
    | output id seq bytes => exact absurd rfl (hm id seq bytes)
    | _ => rfl

end AttachedSession

namespace TerminalController

def links (c : TerminalController) : List (Option Nat × Option Nat) := c.attachments.map (·.link)

/-- Which attachment is current while a recovery runs. A controller has never more than the last one
in use. -/
def Phase (links : List (Option Nat × Option Nat)) (current : Option Nat) :
    Option Recovery → Prop
  | none => ∃ a, current = some a ∧ a + 1 = links.length
  | some (.checked a) | some (.installed a) => current = some a ∧ a + 1 = links.length
  | some (.recording a seq) | some (.detaching a seq) | some (.clearing a seq) =>
    current = some a ∧ ∃ older base, links = older ++ [(some seq, base)] ∧ older.length = a
  | some (.reattaching seq) => current = none ∧ ∃ older base, links = older ++ [(some seq, base)]
  | some (.answered a) => current = none ∧ a + 1 = links.length

/-- Every attachment but the first was made from the number that was read from the one before. -/
structure Wired (c : TerminalController) : Prop where
  chain : c.links.IsChain fun x y => ∃ seq, x.1 = some seq ∧ ∀ base, y.2 = some base → base = seq
  phase : Phase c.links c.attachedSession c.recovery

/-- What a step does to the attachments, the emulator and the recovery. -/
inductive Stepped (h : Option Host) (c : TerminalController) :
    Action → TerminalController → Prop
  | quiet (act : Action) (started : Bool) (commands recovering : List Nat) :
      Stepped h c act { c with started, commands, recovering }
  | evolve {act : Action} {own started : Bool} {commands recovering : List Nat}
      {older newer : List AttachedSession} {x y : AttachedSession}
      (hx : c.attachments = older ++ x :: newer) (hy : x.Evolves h own y)
      (hact : own = true → act = .subscribe older.length) :
      Stepped h c act { c with started, commands, recovering, attachments := older ++ y :: newer }
  | deliver {older newer : List AttachedSession} {x : AttachedSession} {bytes : List UInt8}
      (hx : c.attachments = older ++ x :: newer) (hpc : x.subscription = some (.delivering bytes)) :
      Stepped h c (.callback older.length) { c with
        attachments := older ++ x.goto .takingRecv :: newer
        emulator := c.emulator ++ [.initial x.reply.replayedFrom x.reply.seq bytes] }
  | write {older newer : List AttachedSession} {x : AttachedSession} {seq : Nat}
      {bytes : List UInt8} (hx : c.attachments = older ++ x :: newer)
      (hpc : x.subscription = some (.writing seq bytes)) :
      Stepped h c (.callback older.length) { c with
        attachments := older ++ x.goto .reading :: newer
        emulator := c.emulator ++ [.output seq bytes] }
  | enter {act : Action} {a : Nat} {recovering : List Nat} (hrec : c.recovery = none)
      (hcur : c.attachedSession = some a) :
      Stepped h c act { c with recovering, recovery := some (.checked a) }
  | abandon {a : Nat} (hrec : c.recovery = some (.checked a)) :
      Stepped h c .recover { c with recovery := none }
  | read {older : List AttachedSession} {x : AttachedSession} (hx : c.attachments = older ++ [x])
      (hrec : c.recovery = some (.checked older.length)) :
      Stepped h c .recover { c with
        attachments := older ++ [{ x with readSeq := some x.lastSeenSeq }]
        recovery := some (.recording older.length x.lastSeenSeq) }
  | record {a seq : Nat} (hrec : c.recovery = some (.recording a seq)) :
      Stepped h c .recover { c with recovery := some (.detaching a seq) }
  | leave {a seq : Nat} (hrec : c.recovery = some (.detaching a seq)) :
      Stepped h c .recover { c with recovery := some (.clearing a seq) }
  | clear {older : List AttachedSession} {x : AttachedSession} {seq : Nat}
      (hx : c.attachments = older ++ [x])
      (hrec : c.recovery = some (.clearing older.length seq)) :
      Stepped h c .recover { c with
        attachments := older ++ [{ x with destroyed := true }]
        attachedSession := none
        recovery := some (.reattaching seq) }
  | answer {seq : Nat} (h' : Host) (live : Bool) (screen : List UInt8) (hh : h = some h')
      (hrec : c.recovery = some (.reattaching seq)) :
      Stepped h c (.reattach live screen) { c with
        attachments := c.attachments ++ [.new (h'.attach live (some seq) screen)]
        recovery := some (.answered c.attachments.length) }
  | install {a : Nat} (hrec : c.recovery = some (.answered a)) :
      Stepped h c .recover { c with attachedSession := some a, recovery := some (.installed a) }
  | launch {older newer : List AttachedSession} {x y : AttachedSession} {a : Nat}
      (hrec : c.recovery = some (.installed a))
      (hx : c.attachments = older ++ x :: newer) (hy : x.Evolves h false y) :
      Stepped h c .recover { c with attachments := older ++ y :: newer, recovery := none }

section Steps

variable {h : Option Host} {c c' : TerminalController}

/-- Whether the controller is detached stays as it is, and nothing is written if it is. -/
def Keeps (c c' : TerminalController) : Prop :=
  c'.detached = c.detached ∧ (c.detached = true → c'.emulator = c.emulator)

theorem keeps_launchSubscribe (c : TerminalController) : Keeps c c.launchSubscribe := by
  unfold launchSubscribe
  split
  · exact ⟨rfl, fun _ => rfl⟩
  · split <;> exact ⟨rfl, fun _ => rfl⟩

theorem keeps_write (c : TerminalController) (d : Delivery) : Keeps c (c.write d) := by
  unfold write
  split
  · exact ⟨rfl, fun _ => rfl⟩
  · exact ⟨rfl, fun hdetached => absurd hdetached ‹_›⟩

/-- The end of a split list is its last element when the place of the split says so. -/
theorem newer_eq_nil {α : Type*} {l older newer : List α} {x : α} (hx : l = older ++ x :: newer)
    (hlast : older.length + 1 = l.length) : newer = [] := by
  rw [hx, List.length_append, List.length_cons] at hlast
  exact List.eq_nil_of_length_eq_zero (by omega)

/-- An attachment splits the list, and a change of it changes only its own place. -/
theorem modify_eq {a : Nat} {x : AttachedSession} (hx : c.attachments[a]? = some x)
    (f : AttachedSession → AttachedSession) :
    ∃ older newer, c.attachments = older ++ x :: newer ∧ older.length = a ∧
      c.attachments.modify a f = older ++ f x :: newer := by
  obtain ⟨hlt, hget⟩ := List.getElem?_eq_some_iff.mp hx
  obtain ⟨older, z, newer, hl, hlen, hmod⟩ := List.exists_of_modify f hlt
  have hz : c.attachments[a]? = some z := by rw [hl, ← hlen]; simp
  obtain rfl := Option.some.inj (hx.symm.trans hz)
  exact ⟨older, newer, hl, hlen, hmod⟩

/-- The current attachment is subscribed to, if it is not already. -/
theorem launchSubscribe_eq {a : Nat} {x : AttachedSession} (hlive : c.detached = false)
    (hcur : c.attachedSession = some a) (hx : c.attachments[a]? = some x) :
    ∃ older newer, c.attachments = older ++ x :: newer ∧
      c.launchSubscribe = { c with attachments := older ++ x.launch :: newer } := by
  obtain ⟨older, newer, hl, -, hmod⟩ := modify_eq hx (·.launch)
  refine ⟨older, newer, hl, ?_⟩
  simp only [launchSubscribe, hlive, hcur, update, hmod, Bool.false_eq_true, if_false]

theorem move_stepped {act : Action} {own : Bool} {a : Nat}
    {f : AttachedSession → Option AttachedSession} (hf : ∀ x y, f x = some y → x.Evolves h own y)
    (hact : own = true → act = .subscribe a) (hs : c.move a f = some c') : Stepped h c act c' := by
  obtain ⟨y, hy, rfl⟩ := Option.map_eq_some_iff.mp hs
  obtain ⟨x, hx, hxy⟩ := Option.bind_eq_some_iff.mp hy
  obtain ⟨older, newer, hl, rfl, hmod⟩ := modify_eq hx fun _ => y
  rw [update, hmod]
  exact .evolve hl (hf x y hxy) hact

theorem callback_stepped {a : Nat} {x : AttachedSession} {r : TerminalController × Option Nat}
    (hlive : c.detached = false) (hx : c.attachments[a]? = some x)
    (hs : c.callback a x = some r) : Stepped h c (.callback a) r.1 := by
  have hwrite (d : Delivery) : c.write d = { c with emulator := c.emulator ++ [d] } := by
    rw [write, hlive]
    rfl
  have hsplit (f : AttachedSession → AttachedSession) := modify_eq hx f
  unfold callback at hs
  split at hs
  · rename_i bytes hpc
    obtain rfl := Option.some.inj hs
    obtain ⟨older, newer, hl, rfl, hmod⟩ := hsplit (·.goto .takingRecv)
    simp only [hwrite, update, hmod]
    exact .deliver hl hpc
  · rename_i seq bytes hpc
    obtain rfl := Option.some.inj hs
    obtain ⟨older, newer, hl, rfl, hmod⟩ := hsplit (·.goto .reading)
    simp only [hwrite, update, hmod]
    exact .write hl hpc
  · rename_i hpc
    obtain ⟨older, newer, hl, rfl, hmod⟩ := hsplit (·.replaceRecv .ended)
    have hy : x.Evolves h false (x.replaceRecv .ended) :=
      .proceed false .ended false (.inr (.inr (.inl hpc))) (.inr (.inr rfl))
    simp only [update, hmod] at hs
    split at hs
    all_goals
      obtain rfl := Option.some.inj hs
      exact .evolve hl hy nofun
  · rename_i hpc
    obtain ⟨older, newer, hl, rfl, hmod⟩ := hsplit (·.replaceRecv .ended)
    obtain rfl := Option.some.inj hs
    simp only [update, hmod]
    exact .evolve hl (.proceed false .ended false (.inr (.inr (.inr hpc))) (.inr (.inr rfl))) nofun
  · rename_i hpc
    obtain ⟨older, newer, hl, rfl, hmod⟩ := hsplit (·.goto .ended)
    obtain rfl := Option.some.inj hs
    simp only [update, hmod]
    exact .evolve hl (.finish hpc) nofun
  · cases hs

theorem exists_of_last {a : Nat} (ha : a + 1 = c.links.length) :
    ∃ x, c.attachments[a]? = some x := by
  rw [links, List.length_map] at ha
  exact ⟨_, List.getElem?_eq_getElem (by omega)⟩

/-- The current attachment is the last one. -/
theorem Wired.current (hc : c.Wired) {a : Nat} (hcur : c.attachedSession = some a) :
    a + 1 = c.links.length := by
  have hphase := hc.phase
  rw [hcur] at hphase
  unfold Phase at hphase
  split at hphase
  · obtain ⟨b, hb, hlen⟩ := hphase
    rwa [Option.some.inj hb]
  · rw [Option.some.inj hphase.1]
    exact hphase.2
  · rw [Option.some.inj hphase.1]
    exact hphase.2
  all_goals first
    | (obtain ⟨hb, older, base, hlinks, hlen⟩ := hphase
       rw [Option.some.inj hb, hlinks, List.length_append, hlen]
       rfl)
    | cases hphase.1

theorem modify_last_eq {a : Nat} {x : AttachedSession} (hx : c.attachments[a]? = some x)
    (ha : a + 1 = c.links.length) (f : AttachedSession → AttachedSession) :
    ∃ older, c.attachments = older ++ [x] ∧ older.length = a ∧
      c.attachments.modify a f = older ++ [f x] := by
  obtain ⟨older, newer, hl, hlen, hmod⟩ := modify_eq hx f
  have hnil : newer = [] := newer_eq_nil hl (by rw [hlen, ha, links, List.length_map])
  rw [hnil] at hl hmod
  exact ⟨older, hl, hlen, hmod⟩

theorem recover_stepped {r : TerminalController × Option Nat} (hc : c.Wired)
    (hlive : c.detached = false) (hs : c.recover = some r) : Stepped h c .recover r.1 := by
  have hphase := hc.phase
  unfold recover at hs
  split at hs
  · rename_i a hrec
    rw [hrec] at hphase
    split at hs
    · rename_i seq hseq
      obtain rfl := Option.some.inj hs
      obtain ⟨x, hx, hseq⟩ := Option.bind_eq_some_iff.mp hseq
      have hseq : x.lastSeenSeq = seq := by
        split at hseq
        · cases hseq
        · exact Option.some.inj hseq
      obtain ⟨older, hl, hlen, hmod⟩ :=
        modify_last_eq hx hphase.2 fun x => { x with readSeq := some seq }
      subst hseq hlen
      simp only [update, hmod]
      exact .read hl hrec
    · obtain rfl := Option.some.inj hs
      exact .abandon hrec
  · obtain rfl := Option.some.inj hs
    exact .record ‹_›
  · obtain rfl := Option.some.inj hs
    exact .leave ‹_›
  · rename_i a seq hrec
    rw [hrec] at hphase
    obtain ⟨hcur, older, base, hlinks, hlen⟩ := hphase
    rw [if_pos hcur] at hs
    obtain rfl := Option.some.inj hs
    have ha := hc.current hcur
    obtain ⟨x, hx⟩ := exists_of_last ha
    obtain ⟨older, hl, hlen, hmod⟩ := modify_last_eq hx ha fun x => { x with destroyed := true }
    subst hlen
    simp only [destroy, update, hmod]
    exact .clear hl hrec
  · rename_i b hrec
    rw [hrec] at hphase
    rw [if_neg (by rw [hlive, hphase.1]; simp)] at hs
    obtain rfl := Option.some.inj hs
    exact .install hrec
  · rename_i b hrec
    rw [if_neg (by rw [hlive]; simp)] at hs
    obtain rfl := Option.some.inj hs
    rw [hrec] at hphase
    obtain ⟨hcur, hb⟩ := hphase
    obtain ⟨x, hx⟩ := exists_of_last hb
    obtain ⟨older, newer, hl, heq⟩ :=
      launchSubscribe_eq (c := { c with recovery := none }) hlive hcur hx
    rw [heq]
    exact .launch hrec hl (.launched h x)
  · cases hs

theorem keeps_move {a : Nat} {f : AttachedSession → Option AttachedSession}
    (hs : c.move a f = some c') : Keeps c c' := by
  obtain ⟨y, -, rfl⟩ := Option.map_eq_some_iff.mp hs
  exact ⟨rfl, fun _ => rfl⟩

theorem keeps_callback {a : Nat} {x : AttachedSession} {r : TerminalController × Option Nat}
    (hs : c.callback a x = some r) : Keeps c r.1 := by
  unfold callback at hs
  split at hs
  · obtain rfl := Option.some.inj hs
    exact keeps_write c _
  · obtain rfl := Option.some.inj hs
    exact keeps_write c _
  · split at hs
    all_goals
      obtain rfl := Option.some.inj hs
      exact ⟨rfl, fun _ => rfl⟩
  · obtain rfl := Option.some.inj hs
    exact ⟨rfl, fun _ => rfl⟩
  · obtain rfl := Option.some.inj hs
    exact ⟨rfl, fun _ => rfl⟩
  · cases hs

theorem keeps_recover {r : TerminalController × Option Nat} (hs : c.recover = some r) :
    Keeps c r.1 := by
  unfold recover at hs
  repeat' split at hs
  all_goals cases hs
  all_goals first
    | exact ⟨rfl, fun _ => rfl⟩
    | exact keeps_launchSubscribe { c with recovery := none }

theorem keeps_of_step {a : Action} {r : TerminalController × Option Nat}
    (hs : step h a c = some r) (ha : a ≠ .detach) : Keeps c r.1 := by
  cases a with
  | detach => exact absurd rfl ha
  | callback a =>
    obtain ⟨x, -, hs⟩ := Option.bind_eq_some_iff.mp hs
    exact keeps_callback hs
  | recover => exact keeps_recover hs
  | start =>
    obtain ⟨c', hstart, rfl⟩ := Option.map_eq_some_iff.mp hs
    obtain ⟨-, hstart⟩ := Option.ite_none_left_eq_some.mp hstart
    obtain rfl := Option.some.inj hstart
    exact keeps_launchSubscribe { c with started := true }
  | subscribe a | breakOff a | arrive a m | stopForwarding a =>
    obtain ⟨c', hmove, rfl⟩ := Option.map_eq_some_iff.mp hs
    exact keeps_move hmove
  | forward a n =>
    obtain ⟨c', hmove, rfl⟩ := Option.map_eq_some_iff.mp hs
    obtain ⟨h', -, hmove⟩ := Option.bind_eq_some_iff.mp hmove
    exact keeps_move hmove
  | reattach live screen =>
    obtain ⟨c', hreattach, rfl⟩ := Option.map_eq_some_iff.mp hs
    obtain ⟨h', -, hreattach⟩ := Option.bind_eq_some_iff.mp hreattach
    unfold reattach at hreattach
    split at hreattach
    · obtain rfl := Option.some.inj hreattach
      exact ⟨rfl, fun _ => rfl⟩
    · cases hreattach
  | release =>
    obtain ⟨-, hs⟩ := Option.ite_none_right_eq_some.mp hs
    obtain ⟨a, -, rfl⟩ := Option.map_eq_some_iff.mp hs
    exact ⟨rfl, fun _ => rfl⟩
  | command =>
    obtain ⟨c', hcommand, rfl⟩ := Option.map_eq_some_iff.mp hs
    obtain ⟨-, hcommand⟩ := Option.ite_none_left_eq_some.mp hcommand
    obtain ⟨a, -, rfl⟩ := Option.map_eq_some_iff.mp hcommand
    exact ⟨rfl, fun _ => rfl⟩
  | commandReturned a | commandFailed a | enterRecovery a | giveUp =>
    simp only [step, commandReturned, commandFailed, enterRecovery, giveUp] at hs
    unfold Keeps
    grind

/-- A controller stays detached. -/
theorem detached_of_step {a : Action} {r : TerminalController × Option Nat}
    (hs : step h a c = some r) (hlive : r.1.detached = false) : c.detached = false := by
  by_cases ha : a = .detach
  · subst ha
    obtain ⟨c', hdetach, rfl⟩ := Option.map_eq_some_iff.mp hs
    obtain ⟨-, hdetach⟩ := Option.ite_none_left_eq_some.mp hdetach
    obtain rfl := Option.some.inj hdetach
    cases hlive
  · exact (keeps_of_step hs ha).1.symm.trans hlive

/-- Nothing is written by a step that leaves the controller detached. -/
theorem emulator_of_step {a : Action} {r : TerminalController × Option Nat}
    (hs : step h a c = some r) (hdetached : r.1.detached = true) : r.1.emulator = c.emulator := by
  by_cases ha : a = .detach
  · subst ha
    obtain ⟨c', hdetach, rfl⟩ := Option.map_eq_some_iff.mp hs
    obtain ⟨-, hdetach⟩ := Option.ite_none_left_eq_some.mp hdetach
    obtain rfl := Option.some.inj hdetach
    rfl
  · obtain ⟨heq, hwritten⟩ := keeps_of_step hs ha
    exact hwritten (heq.symm.trans hdetached)

/-- Every step of a controller that is not detached is one of these. -/
theorem stepped_of_step {a : Action} {r : TerminalController × Option Nat} (hc : c.Wired)
    (hlive : r.1.detached = false) (hs : step h a c = some r) : Stepped h c a r.1 := by
  have hs' := hs
  cases a with
  | start =>
    obtain ⟨c', hstart, rfl⟩ := Option.map_eq_some_iff.mp hs
    obtain ⟨-, hstart⟩ := Option.ite_none_left_eq_some.mp hstart
    obtain rfl := Option.some.inj hstart
    rw [(keeps_launchSubscribe _).1] at hlive
    rcases Option.eq_none_or_eq_some c.attachedSession with hcur | ⟨a, hcur⟩
    · have heq : { c with started := true }.launchSubscribe = { c with started := true } := by
        simp [launchSubscribe, hcur]
      rw [heq]
      exact .quiet _ true c.commands c.recovering
    · obtain ⟨x, hx⟩ := exists_of_last (hc.current hcur)
      obtain ⟨older, newer, hl, heq⟩ :=
        launchSubscribe_eq (c := { c with started := true }) hlive hcur hx
      rw [heq]
      exact .evolve hl (.launched h x) nofun
  | subscribe a =>
    obtain ⟨c', hmove, rfl⟩ := Option.map_eq_some_iff.mp hs
    exact move_stepped (fun _ _ => .of_subscribe) (fun _ => rfl) hmove
  | breakOff a =>
    obtain ⟨c', hmove, rfl⟩ := Option.map_eq_some_iff.mp hs
    exact move_stepped (fun _ _ => .of_breakOff) nofun hmove
  | callback a =>
    obtain ⟨x, hx, hs⟩ := Option.bind_eq_some_iff.mp hs
    exact callback_stepped (detached_of_step hs' hlive) hx hs
  | command =>
    obtain ⟨c', hcommand, rfl⟩ := Option.map_eq_some_iff.mp hs
    obtain ⟨-, hcommand⟩ := Option.ite_none_left_eq_some.mp hcommand
    obtain ⟨a, -, rfl⟩ := Option.map_eq_some_iff.mp hcommand
    exact .quiet _ _ _ _
  | commandReturned a =>
    obtain ⟨c', hreturned, rfl⟩ := Option.map_eq_some_iff.mp hs
    obtain ⟨-, hreturned⟩ := Option.ite_none_right_eq_some.mp hreturned
    obtain rfl := Option.some.inj hreturned
    exact .quiet _ _ _ _
  | commandFailed a =>
    obtain ⟨c', hfailed, rfl⟩ := Option.map_eq_some_iff.mp hs
    obtain ⟨c', hreturned, rfl⟩ := Option.map_eq_some_iff.mp hfailed
    obtain ⟨-, hreturned⟩ := Option.ite_none_right_eq_some.mp hreturned
    obtain rfl := Option.some.inj hreturned
    split
    · exact .quiet _ _ _ _
    · exact .quiet _ _ _ _
  | enterRecovery a =>
    obtain ⟨c', henter, rfl⟩ := Option.map_eq_some_iff.mp hs
    obtain ⟨⟨-, hrec⟩, henter⟩ := Option.ite_none_right_eq_some.mp henter
    obtain rfl := Option.some.inj henter
    split
    · exact .quiet _ _ _ _
    · rename_i hcur
      rw [not_or, not_not] at hcur
      exact .enter hrec hcur.2
  | recover => exact recover_stepped hc (detached_of_step hs' hlive) hs
  | reattach live screen =>
    obtain ⟨c', hreattach, rfl⟩ := Option.map_eq_some_iff.mp hs
    obtain ⟨h', rfl, hreattach⟩ := Option.bind_eq_some_iff.mp hreattach
    unfold reattach at hreattach
    split at hreattach
    · obtain rfl := Option.some.inj hreattach
      exact .answer h' live screen rfl ‹_›
    · cases hreattach
  | giveUp =>
    obtain ⟨c', hgive, rfl⟩ := Option.map_eq_some_iff.mp hs
    have hdetached := detached_of_step hs' hlive
    unfold giveUp at hgive
    split at hgive
    · rw [hdetached] at hgive
      cases hgive
    · cases hgive
  | detach =>
    obtain ⟨c', hdetach, rfl⟩ := Option.map_eq_some_iff.mp hs
    obtain ⟨-, hdetach⟩ := Option.ite_none_left_eq_some.mp hdetach
    obtain rfl := Option.some.inj hdetach
    cases hlive
  | release =>
    obtain ⟨hdetached, hs⟩ := Option.ite_none_right_eq_some.mp hs
    rw [detached_of_step hs' hlive] at hdetached
    cases hdetached
  | forward a n =>
    obtain ⟨c', hmove, rfl⟩ := Option.map_eq_some_iff.mp hs
    obtain ⟨h', rfl, hmove⟩ := Option.bind_eq_some_iff.mp hmove
    exact move_stepped (fun _ _ => .of_forward) nofun hmove
  | arrive a m =>
    obtain ⟨c', hmove, rfl⟩ := Option.map_eq_some_iff.mp hs
    exact move_stepped (fun _ _ => .of_arrive) nofun hmove
  | stopForwarding a =>
    obtain ⟨c', hmove, rfl⟩ := Option.map_eq_some_iff.mp hs
    have hstop (x y : AttachedSession) (hy : some { x with forwarding := false } = some y) :
        x.Evolves h false y := by
      obtain rfl := Option.some.inj hy
      exact .flags x.destroyed false
    exact move_stepped hstop nofun hmove

theorem wired_new (reply : Reply) : (new reply).Wired := ⟨.singleton _, 0, rfl, rfl⟩

/-- What a change of one attachment leaves alone, it leaves alone in the list. -/
theorem map_changed {β : Type*} (f : AttachedSession → β) {older newer : List AttachedSession}
    {x y : AttachedSession} (hx : c.attachments = older ++ x :: newer) (hf : f y = f x) :
    (older ++ y :: newer).map f = c.attachments.map f := by
  rw [hx, List.map_append, List.map_append, List.map_cons, List.map_cons, hf]

/-- Only the last attachment has not been read. -/
theorem Wired.newer_eq_nil (hc : c.Wired) {older newer : List AttachedSession} {x : AttachedSession}
    (hx : c.attachments = older ++ x :: newer) (hread : x.readSeq = none) : newer = [] := by
  cases newer with
  | nil => rfl
  | cons z newer =>
    have hchain := hc.chain
    rw [links, hx, List.map_append, List.map_cons, List.map_cons] at hchain
    obtain ⟨seq, hseq, -⟩ := (List.isChain_append_cons_cons.mp hchain).2.1
    cases hread.symm.trans hseq

theorem Stepped.wired {a : Action} (hc : c.Wired) (hs : Stepped h c a c') : c'.Wired := by
  have hphase := hc.phase
  cases hs with
  | quiet => exact ⟨hc.chain, hphase⟩
  | evolve hx hy hact =>
    have hlinks := map_changed AttachedSession.link hx hy.link_eq
    exact ⟨by rw [links, hlinks]; exact hc.chain, by rw [links, hlinks]; exact hphase⟩
  | deliver hx hpc =>
    have hlinks := map_changed AttachedSession.link (y := AttachedSession.goto _ .takingRecv) hx rfl
    exact ⟨by rw [links, hlinks]; exact hc.chain, by rw [links, hlinks]; exact hphase⟩
  | write hx hpc =>
    have hlinks := map_changed AttachedSession.link (y := AttachedSession.goto _ .reading) hx rfl
    exact ⟨by rw [links, hlinks]; exact hc.chain, by rw [links, hlinks]; exact hphase⟩
  | enter hrec hcur => exact ⟨hc.chain, hcur, hc.current hcur⟩
  | abandon hrec =>
    rw [hrec] at hphase
    exact ⟨hc.chain, _, hphase.1, hphase.2⟩
  | @read older x hx hrec =>
    rw [hrec] at hphase
    have hlinks : c.links = older.map (·.link) ++ [x.link] := by
      rw [links, hx, List.map_append]
      rfl
    -- The last attachment has no successor yet that was made from its number.
    have hchain := hc.chain
    rw [hlinks, List.isChain_append] at hchain
    refine ⟨?_, hphase.1, older.map _, x.reply.replayedFrom, List.map_append, List.length_map _⟩
    rw [links, List.map_append, List.isChain_append]
    refine ⟨hchain.1, .singleton _, fun y hy z hz => ?_⟩
    obtain rfl := Option.some.inj hz
    exact hchain.2.2 y hy x.link rfl
  | record hrec =>
    rw [hrec] at hphase
    exact ⟨hc.chain, hphase⟩
  | leave hrec =>
    rw [hrec] at hphase
    exact ⟨hc.chain, hphase⟩
  | @clear _ x seq hx hrec =>
    rw [hrec] at hphase
    obtain ⟨-, older, base, hlast, -⟩ := hphase
    have hlinks := map_changed AttachedSession.link (y := { x with destroyed := true }) hx rfl
    exact ⟨by rw [links, hlinks]; exact hc.chain, rfl, older, base, hlinks.trans hlast⟩
  | @answer seq h' live screen hh hrec =>
    rw [hrec] at hphase
    obtain ⟨hcur, older, base, hlast⟩ := hphase
    refine ⟨?_, hcur, by rw [links, List.length_map, List.length_append]; rfl⟩
    rw [links, List.map_append, List.isChain_append]
    refine ⟨hc.chain, .singleton _, fun y hy z hz => ?_⟩
    obtain rfl := Option.some.inj hz
    change y ∈ c.links.getLast? at hy
    rw [hlast, List.getLast?_concat] at hy
    obtain rfl := Option.some.inj hy
    exact ⟨seq, rfl, fun base (hbase : (h'.attach live _ screen).replayedFrom = _) =>
      h'.replayedFrom_eq hbase⟩
  | install hrec =>
    rw [hrec] at hphase
    exact ⟨hc.chain, rfl, hphase.2⟩
  | launch hrec hx hy =>
    rw [hrec] at hphase
    have hlinks := map_changed AttachedSession.link hx hy.link_eq
    exact ⟨by rw [links, hlinks]; exact hc.chain, _, hphase.1,
      by rw [links, hlinks]; exact hphase.2⟩

/-- A property of every attachment is left to be shown of the one that has changed. -/
theorem forall_mem_changed {P : AttachedSession → Prop} {older newer : List AttachedSession}
    {x y : AttachedSession} (hc : ∀ z ∈ c.attachments, P z)
    (hx : c.attachments = older ++ x :: newer) (hy : P x → P y) :
    ∀ z ∈ older ++ y :: newer, P z := by
  rw [hx] at hc
  rw [List.forall_mem_append, List.forall_mem_cons] at hc ⊢
  exact ⟨hc.1, hy hc.2.1, hc.2.2⟩

theorem Stepped.numbered {a : Action} (hc : ∀ x ∈ c.attachments, x.Numbered)
    (hs : Stepped h c a c') : ∀ x ∈ c'.attachments, x.Numbered := by
  cases hs with
  | evolve hx hy _ | launch _ hx hy => exact forall_mem_changed hc hx fun hn => hy.numbered hn
  | @deliver _ _ x bytes hx hpc =>
    exact forall_mem_changed hc hx fun hn =>
      hn.goto (.inl (hn.begun (.inr (.inl ⟨bytes, hpc⟩)))) _ (by simp)
  | @write _ _ x seq bytes hx hpc =>
    exact forall_mem_changed hc hx fun hn =>
      hn.goto (.inl (hn.begun (.inr (.inr ⟨seq, bytes, hpc⟩)))) _ (by simp)
  | @read older x hx hrec =>
    refine forall_mem_changed hc hx fun hn => { hn with readSeq := fun seq hseq => ?_ }
    obtain rfl := Option.some.inj hseq
    exact ⟨Nat.le_refl _, fun last bytes hpc => .inl (hn.writing last bytes hpc).le⟩
  | clear hx hrec => exact forall_mem_changed hc hx fun hn => { hn with }
  | answer h' live screen hh hrec =>
    refine List.forall_mem_append.mpr ⟨hc, List.forall_mem_singleton.mpr ?_⟩
    exact AttachedSession.numbered_new _
  | _ => exact hc

end Steps

end TerminalController

end Shelly.Mobile
