import Mathlib.Logic.Function.Basic
import Shelly.Cli.Calls
import Shelly.Daemon.Authorized
import Shelly.Daemon.Conversations
import Shelly.Mobile.Calls

namespace Shelly.Daemon

open Mobile.Calls (ShellyCall)
open Cli (CliCall)

section Clients

variable {debug : Reply → String} {shown : String} {m : ClientToServerMsg}
  {ms sent : List ClientToServerMsg} {r : Reply} {rs as : List Reply}

/-- A client that has said nothing has been told nothing, and any other one begins with its
greeting. -/
theorem ClientSent.eq_hello {requests : List ClientToServerMsg} {later : ClientToServerMsg → Bool}
    (h : ClientSent requests later sent) :
    sent = [] ∨ ∃ k v ms, sent = .hello k v :: ms ∧
      (ms <+: requests ∨ ∃ more, ms = requests ++ more ∧ more.all later = true) := by
  obtain ⟨k, v, hsent | ⟨more, rfl, hmore⟩⟩ := h
  · cases sent with
    | nil => exact .inl rfl
    | cons m ms =>
      obtain ⟨rfl, hms⟩ := List.cons_prefix_cons.mp hsent
      exact .inr ⟨k, v, ms, rfl, .inl hms⟩
  · exact .inr ⟨k, v, _, rfl, .inr ⟨more, rfl, hmore⟩⟩

theorem Transcript.nil (h : Transcript [] rs) : rs = [] := by
  generalize hsent : ([] : List ClientToServerMsg) = sent at h
  cases h with
  | silent => rfl
  | turnedAway => cases hsent
  | complete hconv =>
    obtain ⟨k, v, ms', rs', rfl, -⟩ := hconv.told .nil
    cases hsent
  | broken hconv =>
    have hlength := congrArg List.length hsent
    rw [List.length_append] at hlength
    cases hlength

theorem Told.nil_iff : Told [] rs ↔ rs = [] := by
  constructor
  · rintro ⟨⟩
    rfl
  · rintro rfl
    exact .nil

/-- What holds of every answer to every message holds of all that was told. -/
theorem Told.forall {P : Reply → Prop} (h : Told ms rs)
    (hP : ∀ m ∈ ms, ∀ as, Answers m as ∨ Interrupted m as → ∀ r ∈ as, P r) : ∀ r ∈ rs, P r := by
  induction h with
  | nil =>
    intro r hr
    cases hr
  | last hm => exact hP _ List.mem_cons_self _ (.inr hm)
  | cons hm _ ih =>
    intro r hr
    rcases List.mem_append.mp hr with hr | hr
    · exact hP _ List.mem_cons_self _ (.inl hm) r hr
    · exact ih (fun m hm => hP m (List.mem_cons_of_mem _ hm)) r hr

end Clients

section Phone

variable {debug : Reply → String} {shown : String} {call : ShellyCall}
  {ms sent : List ClientToServerMsg} {r : Reply} {rs as : List Reply}

/-- The call knows what to do with the reply. -/
def Known (debug : Reply → String) (call : ShellyCall) (r : Reply) : Prop :=
  ∀ shown, call.reads debug r ≠ .unexpected shown

theorem known_error (code : ErrorCode) (message : String) :
    Known debug call (.error code message) := by
  intro shown
  cases call <;> nofun

/-- Every answer to the request of a call begins with a reply that the call knows. -/
theorem known_of_answers (h : Answers call.request as) : ∃ r tail, as = r :: tail ∧
    Known debug call r := by
  cases call with
  | listSessions =>
    cases h with
    | refused => exact ⟨_, _, rfl, known_error _ _⟩
    | listSessions sessions => exact ⟨_, _, rfl, nofun⟩
  | createSession name =>
    cases h with
    | refused => exact ⟨_, _, rfl, known_error _ _⟩
    | createSession => exact ⟨_, _, rfl, nofun⟩
  | killSession id =>
    cases h with
    | refused => exact ⟨_, _, rfl, known_error _ _⟩
    | killSession =>
      refine ⟨_, _, rfl, fun shown hshown => ?_⟩
      simp only [ShellyCall.reads, Mobile.Calls.confirmSessionKilled, if_pos] at hshown
      cases hshown
  | attachSessionFrom id lastSeenSeq =>
    cases h with
    | refused => exact ⟨_, _, rfl, known_error _ _⟩
    | attachSession => exact ⟨_, _, rfl, nofun⟩
    | attachExited => exact ⟨_, _, rfl, nofun⟩
  | subscribeSessions =>
    cases h with
    | refused => exact ⟨_, _, rfl, known_error _ _⟩
    | subscribeSessions => exact ⟨_, _, rfl, nofun⟩
  | registerPushToken platform token =>
    cases h with
    | refused => exact ⟨_, _, rfl, known_error _ _⟩
    | registerPushToken => exact ⟨_, _, rfl, nofun⟩
  | unregisterPushToken platform token =>
    cases h with
    | refused => exact ⟨_, _, rfl, known_error _ _⟩
    | unregisterPushToken => exact ⟨_, _, rfl, nofun⟩
  | unpairSelf =>
    cases h with
    | refused => exact ⟨_, _, rfl, known_error _ _⟩
    | unpairSelf => exact ⟨_, _, rfl, nofun⟩
  | pairWithTicket code deviceName deviceNodeId =>
    cases h with
    | refused => exact ⟨_, _, rfl, known_error _ _⟩
    | paired => exact ⟨_, _, rfl, nofun⟩
    | denied => exact ⟨_, _, rfl, nofun⟩

/-- The first thing that a call is told is known to it. -/
theorem known_of_told (h : Told (call.request :: ms) (r :: rs)) : Known debug call r := by
  generalize hm : call.request = m at h
  generalize hrs : r :: rs = replies at h
  cases h with
  | last hbroken =>
    cases hbroken with
    | unanswered => cases hrs
    | pending code deviceName deviceNodeId sas =>
      cases call with
      | pairWithTicket =>
        cases hrs
        nofun
      | _ => cases hm
  | cons hanswers htold =>
    subst hm
    obtain ⟨r', tail, rfl, hknown⟩ := known_of_answers hanswers
    obtain ⟨rfl, -⟩ := List.cons.inj hrs
    exact hknown

/-- A heartbeat is answered by a reply that the subscription knows. -/
theorem known_of_ping {seq : Nat} (h : Answers (.ping seq) as ∨ Interrupted (.ping seq) as) :
    ∀ r ∈ as, Known debug .subscribeSessions r := by
  intro r hr
  rcases h with h | h
  · cases h with
    | refused =>
      obtain rfl := List.mem_singleton.mp hr
      exact known_error _ _
    | ping =>
      obtain rfl := List.mem_singleton.mp hr
      nofun
  · cases h
    cases hr

theorem known_of_subscription (hpings : ms.all (ShellyCall.sendsLater .subscribeSessions) = true)
    (h : Told (.subscribeSessions :: ms) rs) : ∀ r ∈ rs, Known debug .subscribeSessions r := by
  refine h.forall fun m hm as has r hr => ?_
  rcases List.mem_cons.mp hm with rfl | hm
  · rcases has with has | has
    · cases has with
      | refused =>
        obtain rfl := List.mem_singleton.mp hr
        exact known_error _ _
      | subscribeSessions =>
        obtain rfl := List.mem_singleton.mp hr
        nofun
    · cases has
      cases hr
  · have hping := List.all_eq_true.mp hpings m hm
    cases m with
    | ping seq => exact known_of_ping has r hr
    | _ => cases hping

theorem readAll_known {reads : Reply → Reading Mobile.Pending.ShellyError}
    (h : ∀ r ∈ rs, ∀ shown, reads r ≠ .unexpected shown) :
    ShellyCall.readAll reads rs ≠ some (.unexpected shown) := by
  induction rs with
  | nil => nofun
  | cons r rs ih =>
    have hr := h r List.mem_cons_self
    have hrs := ih fun r' hr' => h r' (List.mem_cons_of_mem r hr')
    rw [ShellyCall.readAll]
    split
    · exact hrs
    · intro hshown
      exact hr shown (Option.some.inj hshown)

/-- Of two replies to a pairing that was pending the second one is known too. -/
theorem confirm_known {code deviceName deviceNodeId : String} {r' : Reply}
    (hlater : ms.all (ShellyCall.sendsLater (.pairWithTicket code deviceName deviceNodeId)) = true)
    (h : Told (.pairWithCode code deviceName deviceNodeId :: ms) (r :: r' :: rs)) :
    Mobile.Calls.confirm debug r' ≠ .unexpected shown := by
  cases ms with
  | cons m ms =>
    rw [List.all_cons] at hlater
    cases m <;> cases hlater
  | nil =>
    generalize hrs : r :: r' :: rs = replies at h
    cases h with
    | last hbroken =>
      cases hbroken with
      | unanswered => cases hrs
      | pending => cases hrs
    | cons hanswers htold =>
      obtain rfl := Told.nil_iff.mp htold
      cases hanswers with
      | refused => cases hrs
      | paired =>
        cases hrs
        nofun
      | denied =>
        cases hrs
        nofun

theorem answer_known (hlater : ms.all call.sendsLater = true)
    (h : Told (call.request :: ms) rs) : call.answer debug rs ≠ some (.unexpected shown) := by
  unfold ShellyCall.answer
  split
  · exact readAll_known (known_of_subscription hlater h)
  · split
    · intro hshown
      exact confirm_known hlater h (Option.some.inj hshown)
    · intro hshown
      exact known_of_told h shown (Option.some.inj hshown)
  · intro hshown
    exact known_of_told h shown (Option.some.inj hshown)
  · nofun

/-- A call of the mobile core reads what it asked for, or an error of the daemon. -/
theorem outcome_known (h : Transcript sent rs)
    (hsent : ClientSent [call.request] call.sendsLater sent) :
    call.outcome debug rs ≠ some (.unexpected shown) := by
  rcases hsent.eq_hello with rfl | ⟨k, v, ms, rfl, hms⟩
  · rw [h.nil]
    nofun
  · rcases h.told with ⟨-, code, message, rfl⟩ | ⟨rs', rfl, htold⟩
    · nofun
    · change call.answer debug rs' ≠ _
      rcases hms with hms | ⟨more, rfl, hmore⟩
      · cases ms with
        | nil =>
          rw [Told.nil_iff.mp htold]
          cases call <;> nofun
        | cons m ms =>
          obtain ⟨rfl, hnil⟩ := List.cons_prefix_cons.mp hms
          obtain rfl := List.prefix_nil.mp hnil
          exact answer_known rfl htold
      · exact answer_known hmore htold

end Phone

section Desktop

variable {debug : Reply → String} {shown : String} {call : CliCall} {m : ClientToServerMsg}
  {ms requests sent : List ClientToServerMsg} {r : Reply} {rs as : List Reply}

/-- The message is answered by one reply, which a command that sends it knows. -/
def AnsweredOnce (debug : Reply → String) (m : ClientToServerMsg) : Prop :=
  (∀ as, Answers m as → ∃ r, as = [r] ∧ ∀ shown, Cli.reads debug m r ≠ .unexpected shown) ∧
    ∀ as, Interrupted m as → as = []

theorem unanswered_of_interrupted (hpair : ∀ code deviceName deviceNodeId,
    m ≠ .pairWithCode code deviceName deviceNodeId) : ∀ as, Interrupted m as → as = [] := by
  intro as h
  cases h with
  | unanswered => rfl
  | pending code deviceName deviceNodeId => exact absurd rfl (hpair code deviceName deviceNodeId)

theorem answeredOnce_listSessions : AnsweredOnce debug .listSessions := by
  refine ⟨fun as h => ?_, unanswered_of_interrupted nofun⟩
  cases h with
  | refused => exact ⟨_, rfl, nofun⟩
  | listSessions => exact ⟨_, rfl, nofun⟩

theorem answeredOnce_listDevices : AnsweredOnce debug .listDevices := by
  refine ⟨fun as h => ?_, unanswered_of_interrupted nofun⟩
  cases h with
  | refused => exact ⟨_, rfl, nofun⟩
  | listDevices => exact ⟨_, rfl, nofun⟩

theorem answeredOnce_removeDevice (name : String) : AnsweredOnce debug (.removeDevice name) := by
  refine ⟨fun as h => ?_, unanswered_of_interrupted nofun⟩
  cases h with
  | refused => exact ⟨_, rfl, nofun⟩
  | removeDevice => exact ⟨_, rfl, nofun⟩

theorem answeredOnce_beginPairing : AnsweredOnce debug .beginPairing := by
  refine ⟨fun as h => ?_, unanswered_of_interrupted nofun⟩
  cases h with
  | refused => exact ⟨_, rfl, nofun⟩
  | beginPairing => exact ⟨_, rfl, nofun⟩

theorem answeredOnce_createSession (call : CreateCall) :
    AnsweredOnce debug (.createSession call) := by
  refine ⟨fun as h => ?_, unanswered_of_interrupted nofun⟩
  cases h with
  | refused => exact ⟨_, rfl, nofun⟩
  | createSession => exact ⟨_, rfl, nofun⟩

/-- The acknowledgement names the session that was to be killed. -/
theorem answeredOnce_killSession (id : SessionId) : AnsweredOnce debug (.killSession id) := by
  refine ⟨fun as h => ?_, unanswered_of_interrupted nofun⟩
  cases h with
  | refused => exact ⟨_, rfl, nofun⟩
  | killSession =>
    refine ⟨_, rfl, fun shown hshown => ?_⟩
    simp only [Cli.reads, Cli.killSessionById, if_pos] at hshown
    cases hshown

/-- What is applied is the state of the event, in its session. -/
theorem answeredOnce_agentStateEvent (id : SessionId) (source : AgentSource) (state : AgentState)
    (lastLine : Option String) :
    AnsweredOnce debug (.agentStateEvent id source state lastLine) := by
  refine ⟨fun as h => ?_, unanswered_of_interrupted nofun⟩
  cases h with
  | refused => exact ⟨_, rfl, nofun⟩
  | agentStateEvent _ _ _ _ line =>
    refine ⟨_, rfl, fun shown hshown => ?_⟩
    simp only [Cli.reads, Cli.emitAgentStateEvent, Cli.readReply, and_self, decide_true,
      if_pos] at hshown
    cases hshown

theorem answeredOnce_of_request (hm : m ∈ call.requests) : AnsweredOnce debug m := by
  cases call with
  | removeDevice name =>
    obtain rfl := List.mem_singleton.mp hm
    exact answeredOnce_removeDevice name
  | pairDevice =>
    obtain rfl := List.mem_singleton.mp hm
    exact answeredOnce_beginPairing
  | listDevices =>
    obtain rfl := List.mem_singleton.mp hm
    exact answeredOnce_listDevices
  | runHook id source events =>
    obtain ⟨e, -, rfl⟩ := List.mem_map.mp hm
    exact answeredOnce_agentStateEvent id source e.1 e.2
  | fetchSessions =>
    obtain rfl := List.mem_singleton.mp hm
    exact answeredOnce_listSessions
  | createSessionSummary call =>
    obtain rfl := List.mem_singleton.mp hm
    exact answeredOnce_createSession call
  | killSession id =>
    rcases List.mem_cons.mp hm with rfl | hm
    · exact answeredOnce_listSessions
    · obtain rfl := List.mem_singleton.mp hm
      exact answeredOnce_killSession id
  | killAllSessions ids =>
    obtain ⟨id, -, rfl⟩ := List.mem_map.mp hm
    exact answeredOnce_killSession id

/-- Replies are read in step with the requests, whether all of them were sent yet or more than
them. -/
theorem readEach_known (honce : ∀ m ∈ requests, AnsweredOnce debug m) (h : Told ms rs)
    (hms : ms <+: requests ∨ requests <+: ms) :
    Cli.readEach debug requests rs ≠ some (.unexpected shown) := by
  induction requests generalizing ms rs with
  | nil => nofun
  | cons m requests ih =>
    obtain ⟨hanswers, hinterrupted⟩ := honce m List.mem_cons_self
    have hrest := fun m' hm' => honce m' (List.mem_cons_of_mem m hm')
    cases h with
    | nil => nofun
    | @last m' _ hbroken =>
      have hsame : m' = m := by
        rcases hms with hms | hms
        · exact (List.cons_prefix_cons.mp hms).1
        · exact (List.cons_prefix_cons.mp hms).1.symm
      subst hsame
      rw [hinterrupted _ hbroken]
      nofun
    | @cons m' ms as rs has htold =>
      have hsame : m' = m ∧ (ms <+: requests ∨ requests <+: ms) := by
        rcases hms with hms | hms
        · exact (List.cons_prefix_cons.mp hms).imp_right .inl
        · obtain ⟨heq, hms⟩ := List.cons_prefix_cons.mp hms
          exact ⟨heq.symm, .inr hms⟩
      obtain ⟨rfl, hms'⟩ := hsame
      obtain ⟨r, rfl, hknown⟩ := hanswers as has
      rw [List.singleton_append, Cli.readEach]
      split
      · exact ih hrest htold hms'
      · intro hshown
        exact hknown shown (Option.some.inj hshown)

/-- A command reads what it asked for, or an error of the daemon. -/
theorem cli_outcome_known (h : Transcript sent rs)
    (hsent : ClientSent call.requests call.sendsLater sent) :
    call.outcome debug rs ≠ some (.unexpected shown) := by
  rcases hsent.eq_hello with rfl | ⟨k, v, ms, rfl, hms⟩
  · rw [h.nil]
    nofun
  · rcases h.told with ⟨-, code, message, rfl⟩ | ⟨rs', rfl, htold⟩
    · nofun
    · refine readEach_known (fun m hm => answeredOnce_of_request hm) htold (hms.imp_right ?_)
      rintro ⟨more, rfl, -⟩
      exact List.prefix_append _ _

end Desktop

section Runs

variable (host : HostEnv) (storageKey : String → String)
  (pairingSas : String → String → String → Except String String)

/-- What a task takes in its next step. -/
def DaemonTask.takes (c : DaemonChoice) : DaemonTask → List ClientToServerMsg
  | .iroh _ pc => pc.takes c
  | .desktop _ pc => pc.takes c
  | .background _ => []

/-- Keeps for every task the messages that it has taken since it began. -/
def hear (a : Move DaemonTask DaemonChoice DaemonEvent) (p _ : Pool DaemonState DaemonTask)
    (heard : Nat → List ClientToServerMsg) : Nat → List ClientToServerMsg :=
  match a with
  | .spawn i _ => Function.update heard i []
  | .advance i c => Function.update heard i (heard i ++ (p.task i).elim [] (·.takes c))
  | .drop _ | .environment _ => heard

/-- The daemon, and what its connections have taken. -/
def listening : Machine (Pool DaemonState DaemonTask × (Nat → List ClientToServerMsg))
    (Move DaemonTask DaemonChoice DaemonEvent) :=
  (daemonTasking host storageKey pairingSas).machine.watched (fun _ _ => []) hear

def DaemonTask.Talks (heard : List ClientToServerMsg) : DaemonTask → Prop
  | .iroh conn pc => IrohTalk heard conn.replies pc
  | .desktop conn pc => LocalTalk heard conn.replies pc
  | .background _ => True

variable {host storageKey pairingSas} {c : DaemonChoice} {i : Nat} {s s' : DaemonState}

theorem advance_talks {x x' : DaemonTask} {heard : List ClientToServerMsg} (h : x.Talks heard)
    (hs : daemonAdvance host storageKey pairingSas c i x s = some (s', x')) :
    x'.Talks (heard ++ x.takes c) := by
  cases x with
  | iroh conn pc =>
    obtain ⟨⟨t, conn', pc'⟩, hstep, heq⟩ := Option.map_eq_some_iff.mp hs
    cases heq
    exact irohStep_talk h hstep
  | desktop conn pc =>
    obtain ⟨⟨t, conn', pc'⟩, hstep, heq⟩ := Option.map_eq_some_iff.mp hs
    cases heq
    exact localStep_talk h hstep
  | background task =>
    obtain ⟨⟨r, y⟩, -, heq⟩ := Option.bind_eq_some_iff.mp hs
    cases y with
    | session task' =>
      cases heq
      trivial
    | create => cases heq

theorem talks_step {p q : Pool DaemonState DaemonTask} {heard : Nat → List ClientToServerMsg}
    {a : Move DaemonTask DaemonChoice DaemonEvent}
    (hp : ∀ i x, p.task i = some x → x.Talks (heard i))
    (hs : (daemonTasking host storageKey pairingSas).machine.step a p = some q) :
    ∀ i x, q.task i = some x → x.Talks (hear a p q heard i) := by
  intro j y hy
  cases Tasking.stepped_of_step hs with
  | spawn i x hx hi =>
    simp only [hear, Function.update_apply]
    rw [Pool.setTask_task] at hy
    split at hy
    · rename_i hji
      obtain rfl := Option.some.inj hy
      rw [if_pos hji]
      rcases daemon_start hx with ⟨id, rfl⟩ | ⟨kind, rfl⟩ | ⟨task, rfl⟩
      · exact ⟨rfl, rfl⟩
      · exact ⟨rfl, rfl⟩
      · trivial
    · rename_i hji
      rw [if_neg hji]
      exact hp j y hy
  | advance i c x x' s' hx hr =>
    simp only [hear, Function.update_apply]
    rw [Pool.setTask_task] at hy
    split at hy
    · rename_i hji
      obtain rfl := Option.some.inj hy
      rw [if_pos hji, hx]
      exact advance_talks (hp i x hx) hr
    · rename_i hji
      rw [if_neg hji]
      exact hp j y hy
  | drop i x hx hdrop => cases hdrop
  | keep e s' hr => exact hp j y hy
  | clear e s' hr =>
    rw [Pool.empty_task] at hy
    cases hy

theorem talks_of_reachable
    {q : Pool DaemonState DaemonTask × (Nat → List ClientToServerMsg)}
    (h : (listening host storageKey pairingSas).Reachable q) :
    ∀ i x, q.1.task i = some x → x.Talks (q.2 i) := by
  refine h.invariant (I := fun q => ∀ i x, q.1.task i = some x → x.Talks (q.2 i)) ?_ ?_
  · intro q hinit i x hx
    rw [hinit.1.2 i] at hx
    cases hx
  · intro q a q' hq _ hstep
    obtain ⟨hmove, hheard⟩ := Machine.watched_step hstep
    rw [hheard]
    exact talks_step hq hmove

/-- While a message is served the connection has written a part of its answer. -/
theorem transcript_of_irohTalk {heard : List ClientToServerMsg} {rs : List Reply} {pc : IrohPc}
    (h : IrohTalk heard rs pc) : Transcript heard rs := by
  have hserved {ms : List ClientToServerMsg} {m : ClientToServerMsg} {rs as : List Reply}
      (hms : Conversation ms rs) (has : as = [] ∨ Interrupted m as) :
      Transcript (ms ++ [m]) (rs ++ as) := by
    rcases has with rfl | has
    · exact .broken hms (.unanswered m)
    · exact .broken hms has
  cases pc with
  | connecting =>
    obtain ⟨rfl, rfl⟩ := h
    exact .silent
  | marking | rechecking | serving => exact .complete h
  | closing | closed => exact h
  | session call =>
    obtain ⟨ms, m, rs, as, rfl, rfl, hms, hserves⟩ := h
    exact hserved hms (.inl hserves.2)
  | requesting call apc =>
    obtain ⟨ms, m, rs, as, rfl, rfl, hms, ⟨code, deviceName, deviceNodeId, rfl⟩, rfl⟩ := h
    refine hserved hms ?_
    split
    · exact .inr (.pending _ _ _ _)
    · exact .inl rfl
  | completing device ppc =>
    obtain ⟨ms, m, rs, as, rfl, rfl, hms, ⟨code, deviceName, deviceNodeId, rfl⟩, sas, rfl⟩ := h
    exact hserved hms (.inr (.pending _ _ _ _))
  | unpairing rpc =>
    obtain ⟨ms, m, rs, as, rfl, rfl, hms, hserves⟩ := h
    exact hserved hms (.inl hserves.2)
  | updating change =>
    obtain ⟨ms, m, rs, as, rfl, rfl, hms, hserves⟩ := h
    cases change with
    | markSeen now => exact hserves.elim
    | setPush | clearPush => exact hserved hms (.inl hserves.2)

theorem transcript_of_localTalk {heard : List ClientToServerMsg} {rs : List Reply} {pc : LocalPc}
    (h : LocalTalk heard rs pc) : Transcript heard rs := by
  cases pc with
  | connecting =>
    obtain ⟨rfl, rfl⟩ := h
    exact .silent
  | serving => exact .complete h
  | closing | closed => exact h
  | session | beginning | approving | removing | hooking =>
    obtain ⟨ms, m, rfl, hms, -⟩ := h
    have hbroken := Transcript.broken hms (.unanswered m)
    rwa [List.append_nil] at hbroken

/-- However the connections of a daemon are interleaved, each one answers its messages in full, one
after the other and by what they ask for; and a client that sends what a call of the mobile core or
a command sends never reads a reply that it has no use for. -/
theorem calls_understood {q : Pool DaemonState DaemonTask × (Nat → List ClientToServerMsg)}
    (h : (listening host storageKey pairingSas).Reachable q) (i : Nat) :
    (∀ conn pc, q.1.task i = some (.iroh conn pc) → Transcript (q.2 i) conn.replies ∧
      ∀ (call : ShellyCall), ClientSent [call.request] call.sendsLater (q.2 i) →
        ∀ debug shown, call.outcome debug conn.replies ≠ some (.unexpected shown)) ∧
    ∀ conn pc, q.1.task i = some (.desktop conn pc) → Transcript (q.2 i) conn.replies ∧
      ∀ (call : CliCall), ClientSent call.requests call.sendsLater (q.2 i) →
        ∀ debug shown, call.outcome debug conn.replies ≠ some (.unexpected shown) := by
  constructor
  · intro conn pc hx
    have htalk := transcript_of_irohTalk (talks_of_reachable h i _ hx)
    exact ⟨htalk, fun call hsent debug shown => outcome_known htalk hsent⟩
  · intro conn pc hx
    have htalk := transcript_of_localTalk (talks_of_reachable h i _ hx)
    exact ⟨htalk, fun call hsent debug shown => cli_outcome_known htalk hsent⟩

end Runs

section Traces

/-- What the phone has said when it is paired, and what it was told. -/
private def pairingHeard : List ClientToServerMsg :=
  [.hello .iosApp contractVersion, .pairWithCode pairingCode "Phone" "phone"]

private def pairingTold : IrohConnection :=
  ⟨"phone", .iosApp, contractVersion, true, none, false,
    [.welcome, .pairingPending "1234-5678", .pairingComplete "daemon"]⟩

theorem calls_understood_paired :
    ∃ q, (listening household id oneSas).Reachable q ∧ q.2 1 = pairingHeard ∧
      ∀ debug shown, (ShellyCall.pairWithTicket pairingCode "Phone" "phone").outcome debug
        pairingTold.replies ≠ some (.unexpected shown) := by
  obtain ⟨q, hreach, htask, hheard⟩ :=
    (listening household id oneSas).exists_reachable_of_exec Machine.Any
      (fun q => q.1.task 1 = some (.iroh pairingTold .serving) ∧ q.2 1 = pairingHeard)
      (pairedUp ++ Move.repeated 3 1 nodding)
      (Machine.watched_init (Tasking.init_empty newDaemon_opened)) (by decide)
  refine ⟨q, hreach, hheard, fun debug shown => ?_⟩
  have hsent : ClientSent [(ShellyCall.pairWithTicket pairingCode "Phone" "phone").request]
      (ShellyCall.sendsLater (.pairWithTicket pairingCode "Phone" "phone")) (q.2 1) := by
    rw [hheard]
    exact ⟨_, _, .inl (List.prefix_refl _)⟩
  exact ((calls_understood hreach 1).1 _ _ htask).2 _ hsent debug shown

end Traces

end Shelly.Daemon
