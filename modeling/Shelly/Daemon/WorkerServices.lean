import Shelly.Daemon.PushWorker

namespace Shelly.Daemon

/-- The identity under which the daemon posts, and whether the relay has accepted its key for it. -/
structure Standing where
  daemonNodeId : Option String
  registered : Bool
  deriving DecidableEq

def Standing.take (st : Standing) : WorkerCommand → Standing
  | .setDaemonNodeId daemonNodeId => ⟨some daemonNodeId, false⟩
  | _ => st

section Services

variable (id : String) (request : Option RelayOperation)

def failures (errors : List RelayError) : List WorkerEvent :=
  errors.map fun error => .posted id request (.error error)

/-- One request: attempts that may go better the next time, and a last one. -/
inductive Tries : Bool → List WorkerEvent → Prop
  | intro (errors : List RelayError) (last : Except RelayError Unit)
      (hretry : ∀ error ∈ errors, isRetryableRelayError error = true) :
    Tries last.isOk (failures id request errors ++ [.posted id request last])

/-- Every one of some operations is tried, in their order, however those before it ended. -/
inductive AllTried : List RelayOperation → List WorkerEvent → Prop
  | nil : AllTried [] []
  | snoc {ops : List RelayOperation} {events tried : List WorkerEvent} {op : RelayOperation}
      {ok : Bool} (h : AllTried ops events) (htried : Tries id (some op) ok tried) :
    AllTried (ops ++ [op]) (events ++ tried)

variable {id} in
theorem AllTried.extend {ops : List RelayOperation} {events : List WorkerEvent}
    (h : AllTried id ops events) (rest : List RelayOperation) :
    ∃ more, AllTried id (ops ++ rest) (events ++ more) := by
  induction rest generalizing ops events with
  | nil => exact ⟨[], by rwa [List.append_nil, List.append_nil]⟩
  | cons op rest ih =>
    have htried : Tries id (some op) true (failures id (some op) [] ++
        [.posted id (some op) (.ok ())]) := .intro [] (.ok ()) fun _ h => absurd h List.not_mem_nil
    obtain ⟨more, hmore⟩ := ih (h.snoc htried)
    rw [List.append_assoc, List.append_assoc, List.singleton_append] at hmore
    exact ⟨_, hmore⟩

/-- A registration is posted if the relay has not accepted one. -/
inductive Registers : Bool → List WorkerEvent → Prop
  | before : Registers true []
  | now {tried : List WorkerEvent} (h : Tries id none true tried) : Registers false tried

/-- All that the worker does for one command, and the standing it leaves. -/
inductive Service (command : WorkerCommand) (st : Standing) : List WorkerEvent → Standing → Prop
  | unready (h : (st.take command).daemonNodeId = none) :
    Service command st [.received command] (st.take command)
  | refused {id : String} {tried : List WorkerEvent} (hid : st.take command = ⟨some id, false⟩)
      (h : Tries id none false tried) :
    Service command st (.received command :: tried) ⟨some id, false⟩
  | served {id : String} {registered : Bool} {registration attempts : List WorkerEvent}
      (devices : List StoredDevice) (hid : st.take command = ⟨some id, registered⟩)
      (hregistration : Registers id registered registration)
      (hattempts : AllTried id (command.operations devices) attempts) :
    Service command st
      (.received command :: (registration ++ (command.listing devices ++ attempts)))
      ⟨some id, true⟩

/-- One command after the other, from a worker that knows no identity. -/
inductive Services : List (WorkerCommand × List WorkerEvent) → Standing → Prop
  | nil : Services [] ⟨none, false⟩
  | snoc {done : List (WorkerCommand × List WorkerEvent)} {st after : Standing}
      {command : WorkerCommand} {events : List WorkerEvent} (h : Services done st)
      (hservice : Service command st events after) :
    Services (done ++ [(command, events)]) after

end Services

section Rounds

variable {id label : String} {request : Option RelayOperation} {attempt : Attempt}
  {delay : Option Nat} {deadline now next : Nat} {error : RelayError}

theorem failures_snoc (errors : List RelayError) :
    failures id request (errors ++ [error]) =
      failures id request errors ++ [.posted id request (.error error)] := List.map_append

/-- A round before another one is an attempt that may go better the next time. -/
theorem attempted_inr (h : retryRound label attempt delay deadline now = .inr next) :
    ∃ error, isRetryableRelayError error = true ∧
      PushWorker.attempted id request label attempt deadline now =
        failures id request [error] := by
  unfold retryRound at h
  split_ifs at h with hlate
  simp only at h
  split at h
  · cases h
  · rename_i error _ htimeout
    split_ifs at h with hretry
    refine ⟨error, hretry, ?_⟩
    rw [PushWorker.attempted, if_neg hlate]
    simp only [htimeout]
    rfl

theorem attempted_ok (h : retryRound label attempt delay deadline now = .inl (.ok (), next)) :
    PushWorker.attempted id request label attempt deadline now =
      [.posted id request (.ok ())] := by
  unfold retryRound at h
  split_ifs at h with hlate
  · cases h
  · simp only at h
    split at h
    · rename_i htimeout
      rw [PushWorker.attempted, if_neg hlate]
      simp only [htimeout]
    · split_ifs at h
      · split at h
        · cases h
        · split_ifs at h
          cases h
      · cases h

/-- A round that gives up has made an attempt, or comes after the deadline. -/
theorem attempted_error (id : String) (request : Option RelayOperation)
    (h : retryRound label attempt delay deadline now = .inl (.error error, next)) :
    (deadline < now ∧ PushWorker.attempted id request label attempt deadline now = []) ∨
      ∃ last, PushWorker.attempted id request label attempt deadline now =
        [.posted id request (.error last)] := by
  by_cases hlate : deadline < now
  · exact .inl ⟨hlate, if_pos hlate⟩
  · right
    unfold retryRound at h
    simp only [if_neg hlate] at h
    split at h
    · cases h
    · rename_i last _ htimeout
      refine ⟨last, ?_⟩
      rw [PushWorker.attempted, if_neg hlate]
      simp only [htimeout]

variable {errors : List RelayError} {d : Option Nat}

/-- A loop that ends well has tried its request. -/
theorem tries_ok (hretry : ∀ error ∈ errors, isRetryableRelayError error = true)
    (h : retryRound label attempt delay deadline now = .inl (.ok (), next)) :
    Tries id request true (failures id request errors ++
      PushWorker.attempted id request label attempt deadline now) := by
  rw [attempted_ok h]
  exact .intro errors (.ok ()) hretry

/-- So has one that gives up: past the deadline it made an attempt before. -/
theorem tries_error (hretry : ∀ error ∈ errors, isRetryableRelayError error = true)
    (hd : errors = [] → d = none)
    (h : retryRound label attempt delay (d.getD (now + relayRetryTotalDelay)) now =
      .inl (.error error, next)) :
    Tries id request false (failures id request errors ++
      PushWorker.attempted id request label attempt (d.getD (now + relayRetryTotalDelay)) now) := by
  rcases attempted_error id request h with ⟨hlate, hnone⟩ | ⟨last, hlast⟩
  · have hne : errors ≠ [] := by
      intro hnil
      rw [hd hnil, Option.getD_none] at hlate
      omega
    obtain ⟨before, last, rfl⟩ := List.eq_nil_or_concat errors |>.resolve_left hne
    rw [List.concat_eq_append] at hretry ⊢
    rw [hnone, List.append_nil, failures_snoc]
    exact .intro before (.error last) fun error he => hretry error (List.mem_append_left _ he)
  · rw [hlast]
    exact .intro errors (.error last) hretry

/-- And one that goes on has failed once more. -/
theorem failures_again (id : String) (request : Option RelayOperation)
    (hretry : ∀ error ∈ errors, isRetryableRelayError error = true)
    (h : retryRound label attempt delay deadline now = .inr next) :
    ∃ more, (∀ error ∈ more, isRetryableRelayError error = true) ∧ more ≠ [] ∧
      failures id request errors ++ PushWorker.attempted id request label attempt deadline now =
        failures id request more := by
  obtain ⟨error, herror, hattempted⟩ := attempted_inr h
  refine ⟨errors ++ [error], ?_, by simp, ?_⟩
  · intro e he
    rcases List.mem_append.mp he with he | he
    · exact hretry e he
    · exact List.mem_singleton.mp he ▸ herror
  · rw [hattempted, failures_snoc]
    rfl

end Rounds

section Invariant

namespace PushWorker

def standing (s : PushWorker) : Standing := ⟨s.daemonNodeId, s.daemonRegistered⟩

end PushWorker

/-- What is done of the command at hand, with the standing before it. -/
inductive AtHand (st : Standing) :
    WorkerPc → Standing → List WorkerCommand → List WorkerEvent → Prop
  | receiving : AtHand st .receiving st [] []
  | registering {command : WorkerCommand} {id : String} {deadline : Option Nat}
      {errors : List RelayError} (hid : st.take command = ⟨some id, false⟩)
      (hretry : ∀ error ∈ errors, isRetryableRelayError error = true)
      (hd : errors = [] → deadline = none) :
    AtHand st (.registering command id deadline) ⟨some id, false⟩ [command]
      (.received command :: failures id none errors)
  | operating {command : WorkerCommand} {id : String} {registered : Bool}
      {registration attempts : List WorkerEvent} {devices : List StoredDevice}
      {op : RelayOperation} {before rest : List RelayOperation} {deadline : Option Nat}
      {firstError : Option RelayError} {errors : List RelayError}
      (hid : st.take command = ⟨some id, registered⟩)
      (hregistration : Registers id registered registration)
      (hops : command.operations devices = before ++ op :: rest)
      (hattempts : AllTried id before attempts)
      (hretry : ∀ error ∈ errors, isRetryableRelayError error = true)
      (hd : errors = [] → deadline = none) :
    AtHand st (.operating id op rest deadline firstError) ⟨some id, true⟩ [command]
      (.received command :: (registration ++ (command.listing devices ++
        (attempts ++ failures id (some op) errors))))

/-- The services that were finished, and the one at hand. -/
structure Serving (s : PushWorker) (done : List (WorkerCommand × List WorkerEvent))
    (st : Standing) (current : List WorkerCommand) (events : List WorkerEvent) : Prop where
  services : Services done st
  atHand : AtHand st s.pc s.standing current events
  history : s.history = done.flatMap Prod.snd ++ events
  sent : s.sent = done.map Prod.fst ++ (current ++ s.queue)

variable {s t : PushWorker} {done : List (WorkerCommand × List WorkerEvent)} {st : Standing}
  {current : List WorkerCommand} {events : List WorkerEvent} {command : WorkerCommand} {id : String}

theorem Serving.finish {after : Standing} (hservices : Services done st)
    (hservice : Service command st events after) (hpc : s.pc = .receiving)
    (hstanding : s.standing = after) (hhistory : s.history = done.flatMap Prod.snd ++ events)
    (hsent : s.sent = done.map Prod.fst ++ ([command] ++ s.queue)) :
    Serving s (done ++ [(command, events)]) after [] [] where
  services := hservices.snoc hservice
  atHand := by
    rw [hpc, hstanding]
    exact .receiving
  history := by simp [hhistory]
  sent := by simp [hsent]

/-- The operations that are left of a command that is being served. -/
theorem serving_operate {registered : Bool} {registration attempts : List WorkerEvent}
    {devices : List StoredDevice} {before rest : List RelayOperation}
    (firstError : Option RelayError) (hservices : Services done st)
    (hid : st.take command = ⟨some id, registered⟩) (hstanding : s.standing = ⟨some id, true⟩)
    (hregistration : Registers id registered registration)
    (hops : command.operations devices = before ++ rest) (hattempts : AllTried id before attempts)
    (hhistory : s.history = done.flatMap Prod.snd ++
      (.received command :: (registration ++ (command.listing devices ++ attempts))))
    (hsent : s.sent = done.map Prod.fst ++ ([command] ++ s.queue)) :
    ∃ done st current events, Serving (s.operate id firstError rest) done st current events := by
  cases rest with
  | nil =>
    rw [List.append_nil] at hops
    rw [← hops] at hattempts
    exact ⟨_, _, _, _, .finish hservices (.served devices hid hregistration hattempts) rfl
      hstanding hhistory hsent⟩
  | cons op rest =>
    have hat : AtHand st (.operating id op rest none firstError) ⟨some id, true⟩ [command]
        (.received command :: (registration ++ (command.listing devices ++
          (attempts ++ failures id (some op) [])))) :=
      .operating hid hregistration hops hattempts (fun _ h => absurd h List.not_mem_nil)
        fun _ => rfl
    have hnone : attempts ++ failures id (some op) [] = attempts := List.append_nil _
    rw [hnone] at hat
    exact ⟨done, st, [command], _, hservices, hstanding ▸ hat, hhistory, hsent⟩

theorem serving_serve {registered : Bool} {registration : List WorkerEvent}
    (hservices : Services done st) (hid : st.take command = ⟨some id, registered⟩)
    (hstanding : s.standing = ⟨some id, true⟩)
    (hregistration : Registers id registered registration)
    (hhistory : s.history = done.flatMap Prod.snd ++ (.received command :: registration))
    (hsent : s.sent = done.map Prod.fst ++ ([command] ++ s.queue)) :
    ∃ done st current events, Serving (s.serve command id) done st current events := by
  have hops : command.operations s.devices = [] ++ command.operations s.devices := rfl
  refine serving_operate none hservices hid hstanding hregistration hops .nil ?_ hsent
  simp [PushWorker.log, hhistory]

theorem serving_receive {queue : List WorkerCommand} (h : Serving s done st current events)
    (hpc : s.pc = .receiving) (hqueue : s.queue = command :: queue) :
    ∃ done st current events,
      Serving ({ s with queue := queue }.receive command) done st current events := by
  obtain ⟨hservices, hat, hhistory, hsent⟩ := h
  rw [hpc] at hat
  generalize hstanding : s.standing = standing at hat
  cases hat
  -- The worker as it is once the command is stored and logged.
  obtain ⟨t, ht⟩ : ∃ t, t = ({ s with queue := queue }.take command).log [.received command] :=
    ⟨_, rfl⟩
  have htaken : t.standing = st.take command ∧ t.pc = .receiving ∧ t.queue = queue ∧
      t.history = s.history ++ [.received command] ∧ t.sent = s.sent := by
    rw [ht, ← hstanding]
    cases command <;> exact ⟨rfl, hpc, rfl, rfl, rfl⟩
  obtain ⟨htstanding, htpc, htqueue, hthistory, htsent⟩ := htaken
  rw [hhistory, List.append_nil] at hthistory
  rw [hsent, hqueue, List.nil_append, ← htqueue] at htsent
  rw [PushWorker.receive, ← ht]
  cases hid : t.daemonNodeId with
  | none =>
    have hnone : (st.take command).daemonNodeId = none := by rw [← htstanding]; exact hid
    exact ⟨_, _, _, _, .finish hservices (.unready hnone) htpc htstanding hthistory htsent⟩
  | some id =>
    by_cases hregistered : t.daemonRegistered = true
    · have htake : st.take command = ⟨some id, true⟩ := by
        rw [← htstanding, PushWorker.standing, hid, hregistered]
      simp only [hregistered, if_true]
      exact serving_serve hservices htake (htstanding.trans htake) .before hthistory htsent
    · have hfalse := Bool.eq_false_of_not_eq_true hregistered
      have htake : st.take command = ⟨some id, false⟩ := by
        rw [← htstanding, PushWorker.standing, hid, hfalse]
      simp only [hfalse, Bool.false_eq_true, if_false]
      have hat : AtHand st (.registering command id none) ⟨some id, false⟩ [command]
          (.received command :: failures id none []) :=
        .registering htake (fun _ h => absurd h List.not_mem_nil) fun _ => rfl
      exact ⟨done, st, [command], _, hservices, hat, hthistory, htsent⟩

theorem serving_register {deadline : Option Nat} {attempt : Attempt} {delay : Option Nat}
    (h : Serving s done st current events) (hpc : s.pc = .registering command id deadline)
    (hstep : s.step (.round attempt delay) = some t) :
    ∃ done st current events, Serving t done st current events := by
  obtain ⟨hservices, hat, hhistory, hsent⟩ := h
  simp only [PushWorker.step, hpc] at hstep
  rw [hpc] at hat
  generalize hstanding : s.standing = standing at hat
  cases hat with
  | @registering _ _ _ errors hid hretry hd =>
    have hlogged (tried : List WorkerEvent) : s.history ++ tried = done.flatMap Prod.snd ++
        (.received command :: (failures id none errors ++ tried)) := by
      rw [hhistory, List.append_assoc, List.cons_append]
    split at hstep
    · rename_i now hround
      obtain rfl := Option.some.inj hstep
      have hknown : s.daemonNodeId = some id := congrArg Standing.daemonNodeId hstanding
      have hregistered : (⟨s.daemonNodeId, true⟩ : Standing) = ⟨some id, true⟩ := by rw [hknown]
      exact serving_serve hservices hid hregistered (.now (tries_ok hretry hround)) (hlogged _)
        hsent
    · rename_i error now hround
      obtain rfl := Option.some.inj hstep
      exact ⟨_, _, _, _, .finish hservices (.refused hid (tries_error hretry hd hround)) rfl
        hstanding (hlogged _) hsent⟩
    · rename_i now hround
      obtain rfl := Option.some.inj hstep
      obtain ⟨more, hmore, hne, hfailures⟩ := failures_again id none hretry hround
      have hat : AtHand st (.registering command id (some (deadline.getD
          (s.clock + relayRetryTotalDelay)))) ⟨some id, false⟩ [command]
          (.received command :: failures id none more) :=
        .registering hid hmore fun h => absurd h hne
      exact ⟨done, st, [command], _, hservices, hstanding ▸ hat,
        (hlogged _).trans (by rw [hfailures]), hsent⟩

theorem serving_operating {op : RelayOperation} {rest : List RelayOperation}
    {firstError : Option RelayError} {deadline : Option Nat} {attempt : Attempt}
    {delay : Option Nat} (h : Serving s done st current events)
    (hpc : s.pc = .operating id op rest deadline firstError)
    (hstep : s.step (.round attempt delay) = some t) :
    ∃ done st current events, Serving t done st current events := by
  obtain ⟨hservices, hat, hhistory, hsent⟩ := h
  simp only [PushWorker.step, hpc] at hstep
  rw [hpc] at hat
  generalize hstanding : s.standing = standing at hat
  cases hat with
  | @operating command _ registered registration attempts devices _ before _ _ _ errors hid
      hregistration hops hattempts hretry hd =>
    have hlogged (tried : List WorkerEvent) : s.history ++ tried = done.flatMap Prod.snd ++
        (.received command :: (registration ++ (command.listing devices ++
          (attempts ++ (failures id (some op) errors ++ tried))))) := by
      simp only [hhistory, List.append_assoc, List.cons_append]
    have hdone : command.operations devices = (before ++ [op]) ++ rest := by
      rw [hops, List.append_assoc, List.singleton_append]
    split at hstep
    · rename_i now hround
      obtain rfl := Option.some.inj hstep
      exact serving_operate firstError hservices hid hstanding hregistration hdone
        (hattempts.snoc (tries_ok hretry hround)) (hlogged _) hsent
    · rename_i error now hround
      obtain rfl := Option.some.inj hstep
      exact serving_operate _ hservices hid hstanding hregistration hdone
        (hattempts.snoc (tries_error hretry hd hround)) (hlogged _) hsent
    · rename_i now hround
      obtain rfl := Option.some.inj hstep
      obtain ⟨more, hmore, hne, hfailures⟩ := failures_again id (some op) hretry hround
      have hat : AtHand st (.operating id op rest (some (deadline.getD
          (s.clock + relayRetryTotalDelay))) firstError) ⟨some id, true⟩ [command]
          (.received command :: (registration ++ (command.listing devices ++
            (attempts ++ failures id (some op) more)))) :=
        .operating hid hregistration hops hattempts hmore fun h => absurd h hne
      exact ⟨done, st, [command], _, hservices, hstanding ▸ hat,
        (hlogged _).trans (by rw [hfailures]), hsent⟩

theorem serving_step {a : WorkerAction} (h : Serving s done st current events)
    (hstep : s.step a = some t) :
    ∃ done st current events, Serving t done st current events := by
  cases a with
  | tick ms =>
    obtain rfl := Option.some.inj hstep
    exact ⟨done, st, current, events, h.services, h.atHand, h.history, h.sent⟩
  | send command =>
    obtain rfl := Option.some.inj hstep
    refine ⟨done, st, current, events, h.services, h.atHand, h.history, ?_⟩
    simp [h.sent]
  | setDevices devices =>
    obtain rfl := Option.some.inj hstep
    exact ⟨done, st, current, events, h.services, h.atHand, h.history, h.sent⟩
  | receive =>
    simp only [PushWorker.step] at hstep
    split at hstep
    · rename_i command queue hpc hqueue
      obtain rfl := Option.some.inj hstep
      exact serving_receive h hpc hqueue
    · cases hstep
  | round attempt delay =>
    cases hpc : s.pc with
    | receiving =>
      simp only [PushWorker.step, hpc] at hstep
      cases hstep
    | registering command id deadline => exact serving_register h hpc hstep
    | operating id op rest deadline firstError => exact serving_operating h hpc hstep

/-- What is at hand begins a service. -/
theorem AtHand.begins {pc : WorkerPc} {standing : Standing}
    (h : AtHand st pc standing current events) :
    current = [] ∧ events = [] ∨
      ∃ command rest after, current = [command] ∧ Service command st (events ++ rest) after := by
  cases h with
  | receiving => exact .inl ⟨rfl, rfl⟩
  | @registering command id _ errors hid hretry _ =>
    have htries : Tries id none false
        (failures id none errors ++ [.posted id none (.error (.message ""))]) :=
      .intro errors (.error (.message "")) hretry
    exact .inr ⟨command, _, _, rfl, .refused hid htries⟩
  | @operating command id _ registration attempts devices op before rest _ _ errors hid
      hregistration hops hattempts hretry _ =>
    have hop : Tries id (some op) true
        (failures id (some op) errors ++ [.posted id (some op) (.ok ())]) :=
      .intro errors (.ok ()) hretry
    obtain ⟨more, hmore⟩ := (hattempts.snoc hop).extend rest
    rw [List.append_assoc, List.singleton_append, ← hops] at hmore
    have hservice := Service.served devices hid hregistration hmore
    refine .inr ⟨command, .posted id (some op) (.ok ()) :: more, ⟨some id, true⟩, rfl, ?_⟩
    simpa using hservice

end Invariant

section Standing

def Standing.after (st : Standing) : WorkerEvent → Standing
  | .received command => st.take command
  | .posted daemonNodeId none (.ok ()) => ⟨some daemonNodeId, true⟩
  | _ => st

/-- The standing that some events leave. -/
def standingOf (events : List WorkerEvent) (st : Standing) : Standing :=
  events.foldl Standing.after st

/-- Every operation is posted under an identity that the relay has accepted. -/
def SignedAfter (st : Standing) (events : List WorkerEvent) : Prop :=
  ∀ before id op result rest, events = before ++ .posted id (some op) result :: rest →
    standingOf before st = ⟨some id, true⟩

variable {st after : Standing} {events more tried : List WorkerEvent} {id : String}
  {request : Option RelayOperation} {command : WorkerCommand} {ok : Bool}

theorem standingOf_append :
    standingOf (events ++ more) st = standingOf more (standingOf events st) := List.foldl_append

theorem SignedAfter.append (h : SignedAfter st events)
    (hmore : SignedAfter (standingOf events st) more) : SignedAfter st (events ++ more) := by
  intro before id op result rest heq
  rcases List.append_eq_append_iff.mp heq with ⟨x, rfl, hx⟩ | ⟨x, rfl, hx⟩
  · rw [standingOf_append]
    exact hmore x id op result rest hx
  · cases x with
    | nil =>
      rw [List.append_nil] at *
      exact hmore [] id op result rest hx.symm
    | cons e x =>
      obtain ⟨rfl, -⟩ := List.cons.inj hx
      exact h before id op result x rfl

theorem SignedAfter.of_append (h : SignedAfter st (events ++ more)) : SignedAfter st events := by
  rintro before id op result rest rfl
  exact h before id op result (rest ++ more) (by simp)

theorem SignedAfter.nil : SignedAfter st [] := by
  intro before id op result rest h
  cases before <;> cases h

theorem SignedAfter.cons {e : WorkerEvent}
    (he : ∀ id op result, e = .posted id (some op) result → st = ⟨some id, true⟩)
    (h : SignedAfter (st.after e) events) : SignedAfter st (e :: events) := by
  intro before id op result rest heq
  cases before with
  | nil =>
    obtain ⟨hfirst, -⟩ := List.cons.inj heq
    exact he id op result hfirst
  | cons _ before =>
    obtain ⟨rfl, htail⟩ := List.cons.inj heq
    exact h before id op result rest htail

/-- Events that leave the standing as it is, under an identity that needs no registration. -/
theorem signed_tries (hrequest : request = none ∨ st = ⟨some id, true⟩)
    (h : Tries id request ok tried) :
    SignedAfter st tried ∧
      standingOf tried st = if ok = true ∧ request = none then ⟨some id, true⟩ else st := by
  obtain ⟨errors, last, -⟩ := h
  have hid : ∀ (other : String) (op : RelayOperation) (result result' : Except RelayError Unit),
      WorkerEvent.posted id request result' = .posted other (some op) result →
        st = ⟨some other, true⟩ := by
    rintro other op result result' heq
    cases heq
    exact hrequest.resolve_left (Option.some_ne_none op)
  induction errors with
  | nil =>
    refine ⟨.cons (fun other op result => hid other op result last) .nil, ?_⟩
    cases request <;> cases last <;> simp [failures, standingOf, Standing.after, Except.isOk,
      Except.toBool]
  | cons error errors ih =>
    have hkept : st.after (.posted id request (.error error)) = st := by
      cases request <;> rfl
    obtain ⟨hsigned, hstanding⟩ := ih
    refine ⟨.cons (fun other op result => hid other op result (.error error)) ?_, ?_⟩
    · rw [hkept]
      exact hsigned
    · rw [← hstanding]
      change standingOf _ (st.after _) = _
      rw [hkept]
      rfl

theorem signed_allTried {ops : List RelayOperation} (h : AllTried id ops events) :
    SignedAfter ⟨some id, true⟩ events ∧ standingOf events ⟨some id, true⟩ = ⟨some id, true⟩ := by
  induction h with
  | nil => exact ⟨.nil, rfl⟩
  | snoc _ htried ih =>
    obtain ⟨hsigned, hstanding⟩ := ih
    have hop := signed_tries (.inr rfl) htried
    refine ⟨hsigned.append (hstanding.symm ▸ hop.1), ?_⟩
    rw [standingOf_append, hstanding, hop.2, ite_self]

theorem signed_service (h : Service command st events after) :
    SignedAfter st events ∧ standingOf events st = after := by
  cases h with
  | unready h => exact ⟨.cons (fun _ _ _ => by rintro ⟨⟩) .nil, rfl⟩
  | @refused id tried hid h =>
    have htried : SignedAfter (st.take command) tried ∧ _ := signed_tries (.inl rfl) h
    refine ⟨.cons (fun _ _ _ => by rintro ⟨⟩) htried.1, ?_⟩
    change standingOf tried (st.take command) = _
    rw [htried.2, ← hid]
    rfl
  | @served id registered registration attempts devices hid hregistration hattempts =>
    obtain ⟨hsigned, hstanding⟩ := signed_allTried hattempts
    have hregistered : SignedAfter (st.take command) registration ∧
        standingOf registration (st.take command) = ⟨some id, true⟩ := by
      cases hregistration with
      | before => exact ⟨.nil, hid⟩
      | now h =>
        exact signed_tries (.inl rfl) h
    have hlisting : SignedAfter ⟨some id, true⟩ (command.listing devices) ∧
        standingOf (command.listing devices) ⟨some id, true⟩ = ⟨some id, true⟩ := by
      cases command with
      | awaitingInput | sessionCrashed | buildFinished =>
        exact ⟨.cons (fun _ _ _ => by rintro ⟨⟩) .nil, rfl⟩
      | _ => exact ⟨.nil, rfl⟩
    constructor
    · refine .cons (fun _ _ _ => by rintro ⟨⟩) (hregistered.1.append ?_)
      rw [hregistered.2]
      refine hlisting.1.append ?_
      rw [hlisting.2]
      exact hsigned
    · change standingOf _ (st.take command) = _
      rw [standingOf_append, hregistered.2, standingOf_append, hlisting.2, hstanding]

theorem signed_services {done : List (WorkerCommand × List WorkerEvent)} (h : Services done st) :
    SignedAfter ⟨none, false⟩ (done.flatMap Prod.snd) ∧
      standingOf (done.flatMap Prod.snd) ⟨none, false⟩ = st := by
  induction h with
  | nil => exact ⟨.nil, rfl⟩
  | snoc _ hservice ih =>
    obtain ⟨hsigned, hstanding⟩ := ih
    obtain ⟨hthis, hafter⟩ := signed_service hservice
    rw [List.flatMap_append, List.flatMap_singleton]
    exact ⟨hsigned.append (hstanding.symm ▸ hthis), by rw [standingOf_append, hstanding, hafter]⟩

end Standing

section Witness

/-- The relay answers at once. -/
private def answered : WorkerAction := .round ⟨1, .ok ()⟩ none

/-- A daemon that registers, and then takes a token back. -/
private theorem spawned_reachable :
    ∃ s, workerMachine.Reachable s ∧
      s.sent = [.setDaemonNodeId "daemon", .unregisterToken "token"] ∧ s.queue = [] := by
  refine workerMachine.exists_reachable_of_exec Machine.Any
    (fun s => s.sent = [.setDaemonNodeId "daemon", .unregisterToken "token"] ∧ s.queue = [])
    [.send (.setDaemonNodeId "daemon"), .receive, answered, .send (.unregisterToken "token"),
      .receive, answered] (⟨[], 0, rfl⟩ : workerMachine.init (.spawned [] 0)) ?_
  decide

end Witness

end Shelly.Daemon
