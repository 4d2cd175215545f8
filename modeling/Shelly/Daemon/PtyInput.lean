import Mathlib.Data.List.Induction
import Shelly.Daemon.Projection
import Shelly.Framework.Machine

namespace Shelly.Daemon.PtyInput

/-- A message in the queue. The number is history: its place among all that were offered. -/
structure Message where
  number : Nat
  bytes : List UInt8
  deriving DecidableEq

/-- What `poll` reports. -/
inductive PollResult
  | interrupted
  | failed
  | timeout
  | ready (readable writable : Bool)
  deriving DecidableEq

/-- What `write` reports. The terminal may take any part of what it is given. -/
inductive WriteResult
  | wrote (n : Nat)
  | interrupted
  | wouldBlock
  | failed
  deriving DecidableEq

/-- The thread that reads and writes the terminal, by its place in the loop. -/
inductive PtyThread
  | checkingShutdown
  | receiving
  | checkingChild
  | polling
  | reading (writable : Bool)
  | writing
  | stopped
  | gone
  deriving DecidableEq

/-- The queue, the thread and the message it is writing, with the offset up to which it is
written. The last two fields are history: every message offered with its answer, and every
byte written with the number of the message that it is of. -/
structure State where
  queue : List Message
  pc : PtyThread
  pendingWrite : Option (Message × Nat)
  offered : List (List UInt8 × Except PtyWriteError Unit)
  written : List (Nat × UInt8)

inductive Action
  | trySend (bytes : List UInt8)
  | checkShutdown (shutdown : Bool)
  | tryRecv
  | checkChild (exited : Bool)
  | poll (result : PollResult)
  | drain (closed : Bool)
  | write (result : WriteResult)
  | exit
  deriving DecidableEq

def Message.tagged (m : Message) : List (Nat × UInt8) := m.bytes.map fun b => (m.number, b)

/-- The part of a message that is yet to be written. -/
def remaining : Option (Message × Nat) → List (Nat × UInt8)
  | none => []
  | some (m, offset) => m.tagged.drop offset

namespace State

/-- Offers a message to the queue. Nothing is queued for an empty one. -/
def trySend (s : State) (bytes : List UInt8) : State :=
  if bytes.isEmpty then { s with offered := s.offered ++ [(bytes, .ok ())] }
  else if s.pc = .gone then { s with offered := s.offered ++ [(bytes, .error .closed)] }
  else if ptyWriteQueueCapacity ≤ s.queue.length then
    { s with offered := s.offered ++ [(bytes, .error .backpressure)] }
  else
    { s with
      queue := s.queue ++ [⟨s.offered.length, bytes⟩]
      offered := s.offered ++ [(bytes, .ok ())] }

/-- Takes the next message, unless one is still being written. -/
def tryRecv (s : State) : State :=
  match s.pendingWrite, s.queue with
  | none, m :: queue => { s with pc := .checkingChild, pendingWrite := some (m, 0), queue }
  | _, _ => { s with pc := .checkingChild }

def poll (s : State) : PollResult → State
  | .interrupted | .timeout => { s with pc := .checkingShutdown }
  | .failed => { s with pc := .stopped }
  | .ready true writable => { s with pc := .reading writable }
  | .ready false true => { s with pc := .writing }
  | .ready false false => { s with pc := .checkingShutdown }

/-- One `write` of the rest of the message. -/
def write (s : State) (result : WriteResult) : Option State :=
  match s.pendingWrite with
  | none => some { s with pc := .checkingShutdown }
  | some (m, offset) =>
    match result with
    | .wrote n =>
      if m.bytes.length - offset < n then none
      else some { s with
        pc := .checkingShutdown
        pendingWrite := if offset + n = m.bytes.length then none else some (m, offset + n)
        written := s.written ++ (m.tagged.drop offset).take n }
    | .interrupted | .wouldBlock => some { s with pc := .checkingShutdown }
    | .failed => some { s with pc := .stopped }

end State

def step : Action → State → Option State
  | .trySend bytes, s => some (s.trySend bytes)
  | .checkShutdown shutdown, s =>
    if s.pc = .checkingShutdown then
      some { s with pc := if shutdown then .stopped else .receiving }
    else none
  | .tryRecv, s => if s.pc = .receiving then some s.tryRecv else none
  | .checkChild exited, s =>
    if s.pc = .checkingChild then some { s with pc := if exited then .stopped else .polling }
    else none
  | .poll result, s => if s.pc = .polling then some (s.poll result) else none
  | .drain closed, s =>
    match s.pc with
    | .reading writable =>
      some { s with
        pc := if closed then .stopped else if writable then .writing else .checkingShutdown }
    | _ => none
  | .write result, s => if s.pc = .writing then s.write result else none
  -- The end of the thread drops the message it was writing and the queue.
  | .exit, s =>
    if s.pc = .stopped then some { s with pc := .gone, pendingWrite := none, queue := [] }
    else none

def initial : State where
  queue := []
  pc := .checkingShutdown
  pendingWrite := none
  offered := []
  written := []

def machine : Machine State Action where
  init s := s = initial
  step := step

/-- The bytes of the messages that were accepted, in the order of their acceptance, each with
the number of its message. -/
def acceptedTagged (offered : List (List UInt8 × Except PtyWriteError Unit)) :
    List (Nat × UInt8) :=
  offered.zipIdx.flatMap fun o =>
    match o.1.2 with
    | .ok () => o.1.1.map fun b => (o.2, b)
    | .error _ => []

/-- The bytes of the messages that were accepted. -/
def accepted (offered : List (List UInt8 × Except PtyWriteError Unit)) : List UInt8 :=
  offered.flatMap fun o =>
    match o.2 with
    | .ok () => o.1
    | .error _ => []

section Accepted

variable (offered : List (List UInt8 × Except PtyWriteError Unit)) (bytes : List UInt8)

@[simp] theorem acceptedTagged_ok : acceptedTagged (offered ++ [(bytes, .ok ())]) =
    acceptedTagged offered ++ bytes.map fun b => (offered.length, b) := by
  simp [acceptedTagged, List.zipIdx_append]

@[simp] theorem acceptedTagged_error (e : PtyWriteError) :
    acceptedTagged (offered ++ [(bytes, .error e)]) = acceptedTagged offered := by
  simp [acceptedTagged, List.zipIdx_append]

theorem acceptedTagged_bytes : (acceptedTagged offered).map Prod.snd = accepted offered := by
  induction offered using List.reverseRecOn with
  | nil => rfl
  | append_singleton offered o ih =>
    obtain ⟨bytes, result⟩ := o
    cases result with
    | ok =>
      rw [acceptedTagged_ok, List.map_append, ih]
      simp [accepted, Function.comp_def]
    | error e =>
      rw [acceptedTagged_error, ih]
      simp [accepted]

variable {offered}

/-- Every byte is one of a message that was accepted. -/
theorem mem_acceptedTagged {p : Nat × UInt8} (h : p ∈ acceptedTagged offered) :
    ∃ bytes, offered[p.1]? = some (bytes, .ok ()) ∧ p.2 ∈ bytes := by
  obtain ⟨⟨⟨bytes, result⟩, i⟩, ho, hp⟩ := List.mem_flatMap.mp h
  cases result with
  | ok =>
    obtain ⟨b, hb, rfl⟩ := List.mem_map.mp hp
    exact ⟨bytes, List.mem_zipIdx_iff_getElem?.mp ho, hb⟩
  | error e => cases hp

end Accepted

/-- What was written, the rest of the message in hand and the queue are what was accepted. Once
the thread has dropped them, what was written is a part at the front. -/
structure Inv (s : State) : Prop where
  delivered : s.pc ≠ .gone → s.written ++ remaining s.pendingWrite ++
    s.queue.flatMap Message.tagged = acceptedTagged s.offered
  dropped : s.pc = .gone → s.queue = [] ∧ s.pendingWrite = none ∧
    s.written <+: acceptedTagged s.offered
  unfinished : ∀ m offset, s.pendingWrite = some (m, offset) → offset < m.bytes.length
  nonempty : ∀ m ∈ s.queue, m.bytes ≠ []

/-- A step of the thread that moves no byte. -/
theorem Inv.moved {s : State} (h : Inv s) {pc : PtyThread} (hpc : s.pc ≠ .gone)
    (hpc' : pc ≠ .gone) : Inv { s with pc } :=
  ⟨fun _ => h.delivered hpc, fun hgone => absurd hgone hpc', h.unfinished, h.nonempty⟩

theorem Inv.front {s : State} (h : Inv s) : s.written <+: acceptedTagged s.offered := by
  by_cases hpc : s.pc = .gone
  · exact (h.dropped hpc).2.2
  · rw [← h.delivered hpc, List.append_assoc]
    exact List.prefix_append _ _

theorem Inv.trySend {s : State} (h : Inv s) (bytes : List UInt8) : Inv (s.trySend bytes) := by
  unfold State.trySend
  by_cases hempty : bytes.isEmpty
  · rw [if_pos hempty, List.isEmpty_iff.mp hempty]
    have hsame : acceptedTagged (s.offered ++ [([], .ok ())]) = acceptedTagged s.offered := by
      rw [acceptedTagged_ok, List.map_nil, List.append_nil]
    refine ⟨fun hpc => ?_, fun hpc => ?_, h.unfinished, h.nonempty⟩
    · rw [hsame]
      exact h.delivered hpc
    · rw [hsame]
      exact h.dropped hpc
  · rw [if_neg hempty]
    by_cases hgone : s.pc = .gone
    · rw [if_pos hgone]
      refine ⟨fun hpc => absurd hgone hpc, fun hpc => ?_, h.unfinished, h.nonempty⟩
      rw [acceptedTagged_error]
      exact h.dropped hpc
    · rw [if_neg hgone]
      by_cases hfull : ptyWriteQueueCapacity ≤ s.queue.length
      · rw [if_pos hfull]
        refine ⟨fun hpc => ?_, fun hpc => absurd hpc hgone, h.unfinished, h.nonempty⟩
        rw [acceptedTagged_error]
        exact h.delivered hpc
      · rw [if_neg hfull]
        refine ⟨fun hpc => ?_, fun hpc => absurd hpc hgone, h.unfinished, fun m hm => ?_⟩
        · rw [acceptedTagged_ok, ← h.delivered hpc, List.flatMap_append, List.flatMap_cons,
            List.flatMap_nil, List.append_nil, ← List.append_assoc]
          rfl
        · rcases List.mem_append.mp hm with hm | hm
          · exact h.nonempty m hm
          · rw [List.mem_singleton.mp hm]
            exact fun hnil => hempty (List.isEmpty_iff.mpr hnil)

theorem Inv.tryRecv {s : State} (h : Inv s) (hpc : s.pc ≠ .gone) : Inv s.tryRecv := by
  unfold State.tryRecv
  split
  · rename_i m queue hpending hqueue
    refine ⟨fun _ => ?_, fun hgone => (by cases hgone), fun m' offset heq => ?_, fun m' hm => ?_⟩
    · have hdelivered := h.delivered hpc
      rw [hpending, hqueue, List.flatMap_cons] at hdelivered
      rw [← hdelivered]
      simp only [remaining, List.drop_zero, List.append_nil, List.append_assoc]
    · obtain ⟨rfl, rfl⟩ := Prod.mk.inj (Option.some.inj heq)
      have hne := h.nonempty m (by rw [hqueue]; exact List.mem_cons_self)
      exact List.length_pos_iff.mpr hne
    · exact h.nonempty m' (by rw [hqueue]; exact List.mem_cons_of_mem m hm)
  · exact h.moved hpc (by decide)

/-- The offset moves on by exactly what was written. -/
theorem Inv.wrote {s t : State} {result : WriteResult} (h : Inv s) (hpc : s.pc ≠ .gone)
    (ht : s.write result = some t) : Inv t := by
  unfold State.write at ht
  cases hpending : s.pendingWrite with
  | none =>
    rw [hpending] at ht
    obtain rfl := Option.some.inj ht
    exact hpending ▸ h.moved hpc (by decide)
  | some w =>
    obtain ⟨m, offset⟩ := w
    rw [hpending] at ht
    have hoffset := h.unfinished m offset hpending
    cases result with
    | wrote n =>
      simp only at ht
      split at ht
      · cases ht
      · rename_i hfits
        obtain rfl := Option.some.inj ht
        have htagged : m.tagged.length = m.bytes.length := List.length_map _
        have hrest : remaining (if offset + n = m.bytes.length then none
            else some (m, offset + n)) = m.tagged.drop (offset + n) := by
          split
          · rename_i hdone
            exact (List.drop_eq_nil_of_le (by omega)).symm
          · rfl
        have hsplit : (m.tagged.drop offset).take n ++ m.tagged.drop (offset + n) =
            m.tagged.drop offset := by
          rw [← List.drop_drop]
          exact List.take_append_drop n _
        refine ⟨fun _ => ?_, fun hgone => (by cases hgone), fun m' offset' heq => ?_, h.nonempty⟩
        · have hdelivered := h.delivered hpc
          rw [hpending] at hdelivered
          rw [← hdelivered, hrest, List.append_assoc s.written, hsplit]
          rfl
        · split at heq
          · cases heq
          · obtain ⟨rfl, rfl⟩ := Prod.mk.inj (Option.some.inj heq)
            omega
    | interrupted =>
      obtain rfl := Option.some.inj ht
      exact hpending ▸ h.moved hpc (by decide)
    | wouldBlock =>
      obtain rfl := Option.some.inj ht
      exact hpending ▸ h.moved hpc (by decide)
    | failed =>
      obtain rfl := Option.some.inj ht
      exact hpending ▸ h.moved hpc (by decide)

theorem Inv.step {a : Action} {s t : State} (h : Inv s) (ht : step a s = some t) : Inv t := by
  cases a with
  | trySend bytes =>
    obtain rfl := Option.some.inj ht
    exact h.trySend bytes
  | checkShutdown shutdown =>
    simp only [PtyInput.step, Option.ite_none_right_eq_some, Option.some.injEq] at ht
    obtain ⟨hpc, rfl⟩ := ht
    exact h.moved (by rw [hpc]; decide) (by cases shutdown <;> decide)
  | tryRecv =>
    simp only [PtyInput.step, Option.ite_none_right_eq_some, Option.some.injEq] at ht
    obtain ⟨hpc, rfl⟩ := ht
    exact h.tryRecv (by rw [hpc]; decide)
  | checkChild exited =>
    simp only [PtyInput.step, Option.ite_none_right_eq_some, Option.some.injEq] at ht
    obtain ⟨hpc, rfl⟩ := ht
    exact h.moved (by rw [hpc]; decide) (by cases exited <;> decide)
  | poll result =>
    simp only [PtyInput.step, Option.ite_none_right_eq_some, Option.some.injEq] at ht
    obtain ⟨hpc, rfl⟩ := ht
    have hrun : s.pc ≠ .gone := by rw [hpc]; decide
    cases result with
    | interrupted => exact h.moved hrun (by decide)
    | failed => exact h.moved hrun (by decide)
    | timeout => exact h.moved hrun (by decide)
    | ready readable writable =>
      cases readable with
      | true => exact h.moved hrun (by cases writable <;> decide)
      | false => cases writable <;> exact h.moved hrun (by decide)
  | drain closed =>
    simp only [PtyInput.step] at ht
    split at ht
    · rename_i writable hpc
      obtain rfl := Option.some.inj ht
      exact h.moved (by rw [hpc]; cases writable <;> decide)
        (by cases closed <;> cases writable <;> decide)
    · cases ht
  | write result =>
    simp only [PtyInput.step, Option.ite_none_right_eq_some] at ht
    exact h.wrote (by rw [ht.1]; decide) ht.2
  | exit =>
    simp only [PtyInput.step, Option.ite_none_right_eq_some, Option.some.injEq] at ht
    obtain ⟨-, rfl⟩ := ht
    refine ⟨fun hpc => absurd rfl hpc, fun _ => ⟨rfl, rfl, h.front⟩, fun m offset heq => ?_,
      fun m hm => ?_⟩
    · cases heq
    · cases hm

theorem reachable_inv {s : State} (h : machine.Reachable s) : Inv s := by
  refine h.invariant ?_ fun t a u ht _ hu => ht.step hu
  rintro s rfl
  exact ⟨fun _ => rfl, fun hgone => (by cases hgone), fun m offset heq => (by cases heq),
    fun m hm => by cases hm⟩

/-- At every moment the terminal was given a front part of the bytes of the accepted messages,
and every byte it was given is of a message that was accepted. -/
theorem input_in_order {s : State} (h : machine.Reachable s) :
    s.written.map Prod.snd <+: accepted s.offered ∧
      ∀ p ∈ s.written, ∃ bytes, s.offered[p.1]? = some (bytes, .ok ()) ∧ p.2 ∈ bytes := by
  have hfront := (reachable_inv h).front
  constructor
  · rw [← acceptedTagged_bytes]
    exact hfront.map Prod.snd
  · intro p hp
    exact mem_acceptedTagged (hfront.subset hp)

/-- While the thread runs nothing that was accepted is lost: what was not written yet is in hand
or in the queue. -/
theorem input_not_lost {s : State} (h : machine.Reachable s) (hpc : s.pc ≠ .gone) :
    s.written ++ remaining s.pendingWrite ++ s.queue.flatMap Message.tagged =
      acceptedTagged s.offered :=
  (reachable_inv h).delivered hpc

/-- One message written in two parts, with a second one refused after the end. -/
theorem input_in_order_run : ∃ s : State, machine.Reachable s ∧
    s.written = [(0, 97), (0, 98), (0, 99)] ∧
    s.offered = [([97, 98, 99], .ok ()), ([100], .error .closed)] ∧
    s.written.map Prod.snd <+: accepted s.offered := by
  have hrun : ∃ s, machine.exec Machine.Any
      [.trySend [97, 98, 99], .checkShutdown false, .tryRecv, .checkChild false,
        .poll (.ready true true), .drain false, .write (.wrote 2), .checkShutdown false, .tryRecv,
        .checkChild false, .poll (.ready false true), .write .wouldBlock, .checkShutdown false,
        .tryRecv, .checkChild false, .poll (.ready false true), .write (.wrote 1),
        .checkShutdown true, .exit, .trySend [100]] initial = some s ∧
      s.written = [(0, 97), (0, 98), (0, 99)] ∧
      s.offered = [([97, 98, 99], .ok ()), ([100], .error .closed)] := ⟨_, rfl, rfl, rfl⟩
  obtain ⟨s, hexec, hwritten, hoffered⟩ := hrun
  have hr : machine.Reachable s := ⟨initial, rfl, Machine.exec_run hexec⟩
  exact ⟨s, hr, hwritten, hoffered, (input_in_order hr).1⟩

end Shelly.Daemon.PtyInput
