import Shelly.Framework.Pool
import Shelly.Mobile.PairingStore

namespace Shelly.Mobile.PushTombstone

/-- A client of the repository. One that a pairing attempt made knows no daemon before the attempt
is confirmed. -/
structure Client where
  attempt : Option Nat
  daemon : Option DaemonCredentials
  deriving DecidableEq

/-- `owed` is history: the tokens that were written to the tombstone and whose daemon has not
acknowledged that it forgot them. -/
structure Shared where
  store : PairingStore
  savedPairing : Option PairedDaemonRecord
  client : Option Client
  owed : List Obligation
  deriving DecidableEq

/-- How a call to the daemon ends. -/
inductive Reply
  | success
  | unauthorized
  | failed
  | interrupted
  | confirmed (record : PairedDaemonRecord)
  deriving DecidableEq

structure Choice where
  reply : Reply
  now : Int
  deriving DecidableEq

inductive ClientPc
  | calling
  | reading
  | creating (record : Option DaemonCredentials)
  deriving DecidableEq

inductive UnregisterPc
  | client (pc : ClientPc)
  | requested (daemon : Option DaemonCredentials)
  | acknowledging
  | saving (loaded : PushUnregisterTombstone)
  deriving DecidableEq

/-- The loop over the tokens. The first of them is being unregistered. -/
inductive LoopPc
  | unregistering (tokens : List String) (pc : UnregisterPc)
  | finished (interrupted : Bool)
  deriving DecidableEq

inductive CleanupPc
  | persisting (tokens : List String)
  | writing (pairing : PairedDaemonRecord) (tokens : List String)
  | loop (pc : LoopPc)
  deriving DecidableEq

inductive ClearPc
  | revoking
  | clearing
  | dropping
  | done
  deriving DecidableEq

inductive UnpairPc
  | cleanup (pc : CleanupPc)
  | unpairingSelf (pc : ClientPc)
  | clear (pc : ClearPc)
  deriving DecidableEq

inductive RetryPc
  | loading
  | loop (daemon : DaemonCredentials) (pc : LoopPc)
  | restoring
  | restored (record : Option PairedDaemonRecord)
  | done
  deriving DecidableEq

inductive PairPc
  | starting
  | pending
  | confirmed (record : PairedDaemonRecord)
  | replacing (record : PairedDaemonRecord)
  | done
  deriving DecidableEq

inductive PushTask
  | disable (pc : CleanupPc)
  | unpair (pc : UnpairPc)
  | retry (pc : RetryPc)
  | pair (pc : PairPc)
  | revoke (pc : ClearPc)
  deriving DecidableEq

inductive Event
  | restart
  deriving DecidableEq

def platformFcm : String := "fcm"

def normalizedTokens (tokens : List String) : List String :=
  ((tokens.map trimToken).filter (· ≠ "")).eraseDups

/-- The tombstone of a pairing that is written for some tokens. -/
def tombstone (pairing : PairedDaemonRecord) (tokens : List String) (now : Int) :
    PushUnregisterTombstone where
  toDaemonCredentials := pairing.toDaemonCredentials
  tokens := (normalizedTokens tokens).map fun token => ⟨platformFcm, token, now⟩

/-- Takes the client that there is, or makes one for the saved pairing. The client is looked for a
second time before the new one is put in its place. -/
def requireClientStep (s : Shared) : ClientPc → Shared × (ClientPc ⊕ Option DaemonCredentials)
  | .calling => (s, s.client.elim (.inl .reading) fun client => .inr client.daemon)
  | .reading => (s, .inl (.creating (s.savedPairing.map (·.toDaemonCredentials))))
  | .creating record =>
    let winner := s.client.getD ⟨none, record⟩
    ({ s with client := some winner }, .inr winner.daemon)

/-- What is acknowledged when the daemon answers. A client without a daemon gets no answer. -/
def answered (c : Choice) (token : String) (daemon : Option DaemonCredentials) :
    Option Obligation :=
  if c.reply = .success ∨ c.reply = .unauthorized then
    daemon.map fun credentials => ⟨token, credentials.readBack⟩
  else none

def unregisterStep (c : Choice) (token : String) (s : Shared) :
    UnregisterPc → Shared × Option UnregisterPc
  | .client pc =>
    match requireClientStep s pc with
    | (s', .inl pc') => (s', some (.client pc'))
    | (s', .inr daemon) => (s', some (.requested daemon))
  | .requested daemon =>
    match answered c token daemon with
    | none => (s, none)
    | some done => ({ s with owed := s.owed.filter (· ≠ done) }, some .acknowledging)
  | .acknowledging => (s, s.store.loadPushUnregisterTombstone.map .saving)
  | .saving loaded => ({ s with store := s.store.acknowledgePushToken loaded token }, none)

def UnregisterPc.suspended : UnregisterPc → Bool
  | .requested _ => true
  | _ => false

/-- A retry has a client of its own. -/
def firstPc (own : Option DaemonCredentials) : UnregisterPc :=
  own.elim (.client .calling) fun credentials => .requested (some credentials)

def loopStep (own : Option DaemonCredentials) (c : Choice) (s : Shared) : LoopPc → Shared × LoopPc
  | .unregistering [] _ => (s, .finished false)
  | .unregistering (token :: rest) pc =>
    if pc.suspended ∧ c.reply = .interrupted then (s, .finished true)
    else
      match unregisterStep c token s pc with
      | (s', some pc') => (s', .unregistering (token :: rest) pc')
      | (s', none) => (s', .unregistering rest (firstPc own))
  | .finished interrupted => (s, .finished interrupted)

def cleanupStep (c : Choice) (s : Shared) : CleanupPc → Shared × CleanupPc
  | .persisting tokens =>
    match s.savedPairing with
    | none => (s, .loop (.unregistering tokens (firstPc none)))
    | some pairing =>
      if (normalizedTokens tokens).isEmpty then (s, .loop (.unregistering tokens (firstPc none)))
      else (s, .writing pairing tokens)
  | .writing pairing tokens =>
    let written := tombstone pairing tokens c.now
    ({ s with
        store := s.store.savePushUnregisterTombstone written
        owed := s.owed ++ written.obligations },
      .loop (.unregistering tokens (firstPc none)))
  | .loop pc => ((loopStep none c s pc).1, .loop (loopStep none c s pc).2)

def clearStep (s : Shared) : ClearPc → Shared × ClearPc
  | .revoking =>
    ({ s with store := s.store.clearPushUnregisterTombstone, owed := [] }, .clearing)
  | .clearing => ({ s with store := s.store.clear }, .dropping)
  | .dropping => ({ s with savedPairing := none, client := none }, .done)
  | .done => (s, .done)

def unpairStep (c : Choice) (s : Shared) : UnpairPc → Shared × UnpairPc
  | .cleanup (.loop (.finished interrupted)) =>
    (s, if interrupted then .clear .clearing else .unpairingSelf .calling)
  | .cleanup pc => ((cleanupStep c s pc).1, .cleanup (cleanupStep c s pc).2)
  | .unpairingSelf pc =>
    match requireClientStep s pc with
    | (s', .inl pc') => (s', .unpairingSelf pc')
    | (s', .inr _) => (s', .clear .clearing)
  | .clear pc => ((clearStep s pc).1, .clear (clearStep s pc).2)

def retryStep (c : Choice) (s : Shared) : RetryPc → Shared × RetryPc
  | .loading =>
    match s.store.loadPushUnregisterTombstone with
    | none => (s, .restoring)
    | some loaded =>
      let tokens := (loaded.tokens.filter (·.platform = platformFcm)).map (·.token)
      let own := loaded.toDaemonCredentials
      (s, if c.reply = .failed then .restoring else .loop own (.unregistering tokens (firstPc own)))
  | .loop _ (.finished interrupted) => (s, if interrupted then .done else .restoring)
  | .loop own pc => ((loopStep own c s pc).1, .loop own (loopStep own c s pc).2)
  | .restoring => (s, .restored s.store.load)
  | .restored record =>
    if s.client = none ∧ s.savedPairing = none then
      ({ s with
          savedPairing := record
          client := record.map fun r => ⟨none, some r.toDaemonCredentials⟩ },
        .done)
    else (s, .done)
  | .done => (s, .done)

/-- Drops the client of a pairing attempt that failed. -/
def discardPairingClient (i : Nat) (s : Shared) : Shared :=
  if s.client.any (·.attempt = some i) then { s with client := none } else s

def pairStep (c : Choice) (i : Nat) (s : Shared) : PairPc → Shared × PairPc
  | .starting => ({ s with client := some ⟨some i, none⟩ }, .pending)
  | .pending =>
    match c.reply with
    | .confirmed record =>
      ({ s with
          client := s.client.map fun client =>
            if client.attempt = some i then
              { client with daemon := some record.toDaemonCredentials }
            else client },
        .confirmed record)
    | _ => (discardPairingClient i s, .done)
  | .confirmed record =>
    if c.reply = .interrupted then (discardPairingClient i s, .done)
    else ({ s with store := s.store.save record }, .replacing record)
  | .replacing record =>
    ({ s with savedPairing := some record, client := some ⟨none, some record.toDaemonCredentials⟩ },
      .done)
  | .done => (s, .done)

def step (c : Choice) (i : Nat) (s : Shared) : PushTask → Shared × PushTask
  | .disable pc => ((cleanupStep c s pc).1, .disable (cleanupStep c s pc).2)
  | .unpair pc => ((unpairStep c s pc).1, .unpair (unpairStep c s pc).2)
  | .retry pc => ((retryStep c s pc).1, .retry (retryStep c s pc).2)
  | .pair pc => ((pairStep c i s pc).1, .pair (pairStep c i s pc).2)
  | .revoke pc => ((clearStep s pc).1, .revoke (clearStep s pc).2)

/-- The app starts with the obligations of the tombstone that it finds. The pairing of a worker is
not the one of the screen, so its retry ends before it restores one and its revocation before it
drops one. -/
def tasking : Tasking Shared PushTask Choice Event where
  init s := s.savedPairing = none ∧ s.client = none ∧
    s.owed = s.store.pushUnregisterTombstone.elim [] PushUnregisterTombstone.obligations
  start
    | .disable (.persisting _) | .unpair (.cleanup (.persisting _)) => true
    | .unpair (.clear .clearing) => true
    | .retry .loading | .pair .starting | .revoke .revoking => true
    | _ => false
  cancellable
    | .disable (.persisting _) => true
    | .retry .loading | .retry .restoring | .revoke .dropping => true
    | _ => false
  advance c i x s := some (step c i s x)
  environment
    | .restart, s => some ({ s with savedPairing := none, client := none }, false)

def LoopPc.call : LoopPc → Option (String × UnregisterPc)
  | .unregistering (token :: _) pc => some (token, pc)
  | _ => none

def CleanupPc.call : CleanupPc → Option (String × UnregisterPc)
  | .loop pc => pc.call
  | _ => none

/-- The token that a task is unregistering, and how far it is. -/
def PushTask.call : PushTask → Option (String × UnregisterPc)
  | .disable pc | .unpair (.cleanup pc) => pc.call
  | .retry (.loop _ pc) => pc.call
  | _ => none

def CleanupPc.writes (c : Choice) : CleanupPc → Option PushUnregisterTombstone
  | .writing pairing tokens => some (tombstone pairing tokens c.now)
  | _ => none

/-- The tombstone that the next step of a task writes. -/
def PushTask.writes (c : Choice) : PushTask → Option PushUnregisterTombstone
  | .disable pc | .unpair (.cleanup pc) => pc.writes c
  | _ => none

def acknowledges (c : Choice) : String × UnregisterPc → Option Obligation
  | (token, .requested daemon) => answered c token daemon
  | _ => none

/-- The obligation that the next step of a task sees acknowledged. -/
def PushTask.acknowledges (c : Choice) (x : PushTask) : Option Obligation :=
  x.call.bind (PushTombstone.acknowledges c)

/-- An acknowledgement that goes on would take something out of a tombstone written now. -/
def drops (t : PushUnregisterTombstone) : String × UnregisterPc → Bool
  | (token, .acknowledging) => t.obligations.any (·.token = token)
  | (token, .saving loaded) => t.obligations.any fun o => o.token = token || !loaded.covers o
  | _ => false

/-- Everything owed is in the tombstone. -/
def Shared.NothingLost (s : Shared) : Prop := ∀ o ∈ s.owed, s.store.holds o = true

/-- A tombstone is written only when it carries all that is owed and no other task would take
something out of it, and a token is acknowledged only by the one daemon that it is owed to. -/
def KeepsOwed (p : Pool Shared PushTask) : Move PushTask Choice Event → Prop
  | .advance i c => ∀ x ∈ p.task i,
      (∀ t ∈ x.writes c, (∀ o ∈ p.shared.owed, t.covers o = true) ∧
        p.Lacks fun j y => j ≠ i && y.call.any (drops t)) ∧
      ∀ d ∈ x.acknowledges c, ∀ o ∈ p.shared.owed, o.token = d.token → o = d
  | _ => True

instance : ∀ p a, Decidable (KeepsOwed p a)
  | p, .advance i c => inferInstanceAs (Decidable (∀ x ∈ p.task i,
      (∀ t ∈ x.writes c, (∀ o ∈ p.shared.owed, t.covers o = true) ∧
        p.Lacks fun j y => j ≠ i && y.call.any (drops t)) ∧
      ∀ d ∈ x.acknowledges c, ∀ o ∈ p.shared.owed, o.token = d.token → o = d))
  | _, .spawn _ _ | _, .drop _ | _, .environment _ => isTrue trivial

/-- What is still owed is left alone by an acknowledgement that goes on. -/
def Spares (s : Shared) : String × UnregisterPc → Prop
  | (token, .acknowledging) => ∀ o ∈ s.owed, o.token ≠ token
  | (token, .saving loaded) => ∀ o ∈ s.owed, o.token ≠ token ∧ loaded.covers o = true
  | _ => True

def Local (s : Shared) (_ : Nat) (x : PushTask) : Prop := ∀ call ∈ x.call, Spares s call

/-- What a step that writes no tombstone leaves of what is owed, and of its own task. -/
structure Keeps (s s' : Shared) (call : Option (String × UnregisterPc)) : Prop where
  owed : ∀ o ∈ s'.owed, o ∈ s.owed
  lost : s'.NothingLost
  spares : ∀ k ∈ call, Spares s' k

theorem Keeps.quiet {s s' : Shared} (hg : s.NothingLost)
    (hstore : s'.store.pushUnregisterTombstone = s.store.pushUnregisterTombstone)
    (howed : s'.owed = s.owed) : Keeps s s' none := by
  refine ⟨fun o ho => howed ▸ ho, fun o ho => ?_, fun k hk => (by cases hk)⟩
  unfold PairingStore.holds
  rw [hstore]
  exact hg o (howed ▸ ho)

theorem Keeps.next {s s' : Shared} {call : Option (String × UnregisterPc)} (h : Keeps s s' none)
    (hspares : ∀ k ∈ call, Spares s' k) : Keeps s s' call := ⟨h.owed, h.lost, hspares⟩

/-- An acknowledgement spares what it spared, and what was written when it dropped nothing of it. -/
theorem spares_frame {s s' : Shared} {k : String × UnregisterPc} (h : Spares s k)
    (howed : ∀ o ∈ s'.owed, o ∈ s.owed ∨ ∃ t, drops t k = false ∧ o ∈ t.obligations) :
    Spares s' k := by
  obtain ⟨token, pc⟩ := k
  cases pc with
  | acknowledging =>
    intro o ho
    rcases howed o ho with hold | ⟨t, hdrops, hnew⟩
    · exact h o hold
    · have hall := List.any_eq_false.mp hdrops o hnew
      exact fun heq => hall (decide_eq_true heq)
  | saving loaded =>
    intro o ho
    rcases howed o ho with hold | ⟨t, hdrops, hnew⟩
    · exact h o hold
    · have hall := List.any_eq_false.mp hdrops o hnew
      simp only [Bool.or_eq_true, decide_eq_true_eq, Bool.not_eq_true', not_or,
        Bool.not_eq_false] at hall
      exact hall
  | client pc => trivial
  | requested daemon => trivial

theorem spares_firstPc (s : Shared) (token : String) (own : Option DaemonCredentials) :
    Spares s (token, firstPc own) := by
  cases own <;> trivial

theorem requireClientStep_keeps {s : Shared} (hg : s.NothingLost) (pc : ClientPc) :
    Keeps s (requireClientStep s pc).1 none := by
  cases pc <;> exact .quiet hg rfl rfl

theorem unregisterStep_keeps {c : Choice} {token : String} {s : Shared} {pc : UnregisterPc}
    (hg : s.NothingLost) (hl : Spares s (token, pc))
    (hc : ∀ d ∈ acknowledges c (token, pc), ∀ o ∈ s.owed, o.token = d.token → o = d) :
    Keeps s (unregisterStep c token s pc).1 ((unregisterStep c token s pc).2.map (token, ·)) := by
  cases pc with
  | client pc =>
    have hkeeps := requireClientStep_keeps hg pc
    simp only [unregisterStep]
    split
    · rename_i s' pc' heq
      rw [heq] at hkeeps
      refine hkeeps.next fun k hk => ?_
      obtain rfl := Option.some.inj hk
      trivial
    · rename_i s' daemon heq
      rw [heq] at hkeeps
      refine hkeeps.next fun k hk => ?_
      obtain rfl := Option.some.inj hk
      trivial
  | requested daemon =>
    simp only [unregisterStep]
    split
    · exact .quiet hg rfl rfl
    · rename_i done hanswered
      have hone := hc done hanswered
      have htoken : done.token = token := by
        unfold answered at hanswered
        obtain ⟨-, hmap⟩ := Option.ite_none_right_eq_some.mp hanswered
        obtain ⟨credentials, -, rfl⟩ := Option.map_eq_some_iff.mp hmap
        rfl
      refine ⟨fun o ho => (List.mem_filter.mp ho).1, fun o ho => hg o (List.mem_filter.mp ho).1,
        fun k hk => ?_⟩
      obtain rfl := Option.some.inj hk
      intro o ho heq
      obtain ⟨hmem, hne⟩ := List.mem_filter.mp ho
      exact of_decide_eq_true hne (hone o hmem (heq.trans htoken.symm))
  | acknowledging =>
    refine (Keeps.quiet hg rfl rfl).next fun k hk => ?_
    obtain ⟨pc', hpc', rfl⟩ := Option.map_eq_some_iff.mp hk
    obtain ⟨loaded, hloaded, rfl⟩ := Option.map_eq_some_iff.mp hpc'
    exact fun o ho => ⟨hl o ho, s.store.covers_of_load hloaded (hg o ho)⟩
  | saving loaded =>
    refine ⟨fun o ho => ho, fun o ho => ?_, fun k hk => (by cases hk)⟩
    obtain ⟨hother, hcovers⟩ := hl o ho
    exact s.store.holds_acknowledge hother hcovers

theorem loopStep_keeps {own : Option DaemonCredentials} {c : Choice} {s : Shared} {pc : LoopPc}
    (hg : s.NothingLost) (hl : ∀ k ∈ pc.call, Spares s k)
    (hc : ∀ d ∈ pc.call.bind (acknowledges c), ∀ o ∈ s.owed, o.token = d.token → o = d) :
    Keeps s (loopStep own c s pc).1 (loopStep own c s pc).2.call := by
  cases pc with
  | finished interrupted => exact .quiet hg rfl rfl
  | unregistering tokens pc =>
    cases tokens with
    | nil => exact .quiet hg rfl rfl
    | cons token rest =>
      have hkeeps := unregisterStep_keeps hg (hl (token, pc) rfl) hc
      simp only [loopStep]
      split
      · exact .quiet hg rfl rfl
      · split
        · rename_i s' pc' heq
          rw [heq] at hkeeps
          exact hkeeps
        · rename_i s' heq
          rw [heq] at hkeeps
          refine hkeeps.next fun k hk => ?_
          cases rest with
          | nil => cases hk
          | cons next rest =>
            obtain rfl := Option.some.inj hk
            exact spares_firstPc s' next own

theorem spares_start (s : Shared) (tokens : List String) (own : Option DaemonCredentials) :
    ∀ k ∈ (LoopPc.unregistering tokens (firstPc own)).call, Spares s k := by
  intro k hk
  cases tokens with
  | nil => cases hk
  | cons token rest =>
    obtain rfl := Option.some.inj hk
    exact spares_firstPc s token own

theorem cleanupStep_keeps {c : Choice} {s : Shared} {pc : CleanupPc} (hg : s.NothingLost)
    (hw : pc.writes c = none) (hl : ∀ k ∈ pc.call, Spares s k)
    (hc : ∀ d ∈ pc.call.bind (acknowledges c), ∀ o ∈ s.owed, o.token = d.token → o = d) :
    Keeps s (cleanupStep c s pc).1 (cleanupStep c s pc).2.call := by
  cases pc with
  | persisting tokens =>
    have hsame : Keeps s s none := .quiet hg rfl rfl
    simp only [cleanupStep]
    split
    · exact hsame.next (spares_start s tokens none)
    · split
      · exact hsame.next (spares_start s tokens none)
      · exact hsame
  | writing pairing tokens => cases hw
  | loop pc => exact loopStep_keeps hg hl hc

theorem clearStep_keeps {s : Shared} (hg : s.NothingLost) (pc : ClearPc) :
    Keeps s (clearStep s pc).1 none := by
  cases pc with
  | revoking =>
    exact ⟨fun o ho => (by cases ho), fun o ho => (by cases ho), fun k hk => (by cases hk)⟩
  | _ => exact .quiet hg rfl rfl

theorem discardPairingClient_keeps {s : Shared} (hg : s.NothingLost) (i : Nat) :
    Keeps s (discardPairingClient i s) none := by
  unfold discardPairingClient
  split <;> exact .quiet hg rfl rfl

theorem pairStep_keeps {c : Choice} {i : Nat} {s : Shared} (hg : s.NothingLost) (pc : PairPc) :
    Keeps s (pairStep c i s pc).1 none := by
  cases pc with
  | pending =>
    simp only [pairStep]
    split
    · exact .quiet hg rfl rfl
    · exact discardPairingClient_keeps hg i
  | confirmed record =>
    simp only [pairStep]
    split
    · exact discardPairingClient_keeps hg i
    · exact .quiet hg rfl rfl
  | _ => exact .quiet hg rfl rfl

theorem unpairStep_keeps {c : Choice} {s : Shared} {pc : UnpairPc} (hg : s.NothingLost)
    (hw : (PushTask.unpair pc).writes c = none) (hl : ∀ k ∈ (PushTask.unpair pc).call, Spares s k)
    (hc : ∀ d ∈ (PushTask.unpair pc).acknowledges c, ∀ o ∈ s.owed, o.token = d.token → o = d) :
    Keeps s (unpairStep c s pc).1 (PushTask.unpair (unpairStep c s pc).2).call := by
  cases pc with
  | cleanup pc =>
    cases pc with
    | loop pc =>
      cases pc with
      | finished interrupted => cases interrupted <;> exact .quiet hg rfl rfl
      | unregistering tokens pc => exact loopStep_keeps hg hl hc
    | persisting tokens => exact cleanupStep_keeps hg hw hl hc
    | writing pairing tokens => cases hw
  | unpairingSelf pc =>
    have hkeeps := requireClientStep_keeps hg pc
    simp only [unpairStep]
    split
    · rename_i heq
      rw [heq] at hkeeps
      exact hkeeps
    · rename_i heq
      rw [heq] at hkeeps
      exact hkeeps
  | clear pc => exact clearStep_keeps hg pc

theorem retryStep_keeps {c : Choice} {s : Shared} {pc : RetryPc} (hg : s.NothingLost)
    (hl : ∀ k ∈ (PushTask.retry pc).call, Spares s k)
    (hc : ∀ d ∈ (PushTask.retry pc).acknowledges c, ∀ o ∈ s.owed, o.token = d.token → o = d) :
    Keeps s (retryStep c s pc).1 (PushTask.retry (retryStep c s pc).2).call := by
  have hsame : Keeps s s none := .quiet hg rfl rfl
  cases pc with
  | loading =>
    simp only [retryStep]
    split
    · exact hsame
    · split
      · exact hsame
      · exact hsame.next (spares_start s _ _)
  | loop own pc =>
    cases pc with
    | finished interrupted => cases interrupted <;> exact hsame
    | unregistering tokens pc => exact loopStep_keeps hg hl hc
  | restored record =>
    simp only [retryStep]
    split
    · exact .quiet hg rfl rfl
    · exact hsame
  | _ => exact hsame

theorem step_keeps {c : Choice} {i : Nat} {s : Shared} {x : PushTask} (hg : s.NothingLost)
    (hl : Local s i x) (hw : x.writes c = none)
    (hc : ∀ d ∈ x.acknowledges c, ∀ o ∈ s.owed, o.token = d.token → o = d) :
    Keeps s (step c i s x).1 (step c i s x).2.call := by
  cases x with
  | disable pc => exact cleanupStep_keeps hg hw hl hc
  | unpair pc => exact unpairStep_keeps hg hw hl hc
  | retry pc => exact retryStep_keeps hg hl hc
  | pair pc => exact pairStep_keeps hg pc
  | revoke pc => exact clearStep_keeps hg pc

/-- The one step that writes a tombstone owes what it wrote. -/
theorem step_writes {c : Choice} {i : Nat} {s : Shared} {x : PushTask}
    {t : PushUnregisterTombstone} (h : x.writes c = some t) :
    (step c i s x).1.store = s.store.savePushUnregisterTombstone t ∧
      (step c i s x).1.owed = s.owed ++ t.obligations ∧
      ∀ k ∈ (step c i s x).2.call, Spares (step c i s x).1 k := by
  have hcleanup (pc : CleanupPc) (h : pc.writes c = some t) :
      (cleanupStep c s pc).1.store = s.store.savePushUnregisterTombstone t ∧
        (cleanupStep c s pc).1.owed = s.owed ++ t.obligations ∧
        ∀ k ∈ (cleanupStep c s pc).2.call, Spares (cleanupStep c s pc).1 k := by
    cases pc with
    | writing pairing tokens =>
      obtain rfl := Option.some.inj h
      exact ⟨rfl, rfl, spares_start _ tokens none⟩
    | persisting tokens => cases h
    | loop pc => cases h
  cases x with
  | disable pc => exact hcleanup pc h
  | unpair pc =>
    cases pc with
    | cleanup pc =>
      cases pc with
      | writing pairing tokens => exact hcleanup (.writing pairing tokens) h
      | persisting tokens => cases h
      | loop pc => cases h
    | unpairingSelf pc => cases h
    | clear pc => cases h
  | retry pc => cases h
  | pair pc => cases h
  | revoke pc => cases h

theorem noninterference :
    tasking.Noninterference KeepsOwed Shared.NothingLost Local where
  init s := by
    rintro ⟨-, -, howed⟩ o ho
    rw [howed] at ho
    unfold PairingStore.holds
    cases hsaved : s.store.pushUnregisterTombstone with
    | none =>
      rw [hsaved] at ho
      cases ho
    | some t =>
      rw [hsaved] at ho
      exact t.covers_of_mem_obligations ho
  fresh p i x _ _ hx k hk := by
    simp only [tasking] at hx
    split at hx <;> first | cases hk | cases hx
  own p i c x s' x' hc hg hx hl h := by
    have hstep : step c i p.shared x = (s', x') := Option.some.inj h
    obtain ⟨hwrites, hanswered⟩ := hc x hx
    cases hw : x.writes c with
    | none =>
      have hkeeps := step_keeps hg hl hw hanswered
      rw [hstep] at hkeeps
      exact ⟨hkeeps.lost, hkeeps.spares⟩
    | some t =>
      obtain ⟨hstore, howed, hspares⟩ := step_writes (i := i) (s := p.shared) hw
      rw [hstep] at hstore howed hspares
      refine ⟨fun o ho => ?_, hspares⟩
      rw [hstore, PairingStore.holds_save]
      rw [howed] at ho
      rcases List.mem_append.mp ho with hold | hnew
      · exact (hwrites t hw).1 o hold
      · exact t.covers_of_mem_obligations hnew
  others p i c x s' x' hc hg hx hl h j y hj hy hly k hk := by
    have hstep : step c i p.shared x = (s', x') := Option.some.inj h
    obtain ⟨hwrites, hanswered⟩ := hc x hx
    refine spares_frame (hly k hk) fun o ho => ?_
    cases hw : x.writes c with
    | none =>
      have hkeeps := step_keeps hg hl hw hanswered
      rw [hstep] at hkeeps
      exact .inl (hkeeps.owed o ho)
    | some t =>
      have howed := (step_writes (i := i) (s := p.shared) hw).2.1
      rw [hstep] at howed
      rw [howed] at ho
      rcases List.mem_append.mp ho with hold | hnew
      · exact .inl hold
      · have hlacks := (hwrites t hw).2 j y hy
        change (decide (j ≠ i) && y.call.any (drops t)) = false at hlacks
        rw [decide_eq_true hj, Bool.true_and] at hlacks
        refine .inr ⟨t, ?_, hnew⟩
        rw [Option.mem_def.mp hk] at hlacks
        exact hlacks
  environment p e s' keep _ hg h := by
    cases e with
    | restart =>
      obtain ⟨rfl, rfl⟩ := Prod.mk.inj (Option.some.inj h)
      exact ⟨hg, fun hkeep => by cases hkeep⟩

/-- In a run that writes and acknowledges with care for what is still owed, nothing owed is
lost. -/
theorem nothing_lost {p : Pool Shared PushTask} (h : tasking.machine.ReachableWhen KeepsOwed p) :
    p.shared.NothingLost :=
  (noninterference.invariant h).1

def laptop : DaemonCredentials := ⟨"laptop", none, ["10.0.0.2:4433"], "phone", [7]⟩

/-- An app that was paired before it started. -/
def paired : Shared where
  store := ⟨some ⟨laptop, 1, "1.0", "host", 1⟩, none⟩
  savedPairing := none
  client := none
  owed := []

theorem paired_init : tasking.machine.init (Pool.empty paired) := Tasking.init_empty ⟨rfl, rfl, rfl⟩

/-- The app reads its pairing. -/
def restores : List (Move PushTask Choice Event) :=
  .spawn 0 (.retry .loading) :: Move.repeated 3 0 ⟨.failed, 0⟩

/-- An unpairing whose daemon does not answer, and a restart: the token is still owed, to the daemon
that is no longer paired. -/
theorem nothing_lost_unpair : ∃ p, tasking.machine.ReachableWhen KeepsOwed p ∧
    p.shared.owed = [⟨"t1", laptop⟩] ∧ p.shared.store.daemon = none ∧ p.shared.NothingLost := by
  obtain ⟨p, hr, howed, hdaemon⟩ := tasking.machine.exists_reachable_of_exec KeepsOwed
    (fun p => p.shared.owed = [⟨"t1", laptop⟩] ∧ p.shared.store.daemon = none)
    (List.flatten [restores, .spawn 1 (.unpair (.cleanup (.persisting [" t1 "]))) ::
      Move.repeated 9 1 ⟨.failed, 5⟩, [.environment .restart]])
    paired_init (by decide)
  exact ⟨p, hr, howed, hdaemon, nothing_lost hr⟩

/-- Push is turned off while the daemon does not answer, and later turned off again with the token
of that time: the first token is gone from the tombstone. -/
theorem second_token_overwrites :
    ¬ ∀ p, tasking.machine.Reachable p → p.shared.NothingLost := by
  intro hall
  obtain ⟨p, hr, howed, hlost⟩ := tasking.machine.exists_reachable_of_exec Machine.Any
    (fun p => ⟨"t1", laptop⟩ ∈ p.shared.owed ∧ p.shared.store.holds ⟨"t1", laptop⟩ = false)
    (List.flatten [restores,
      .spawn 1 (.disable (.persisting ["t1"])) :: Move.repeated 5 1 ⟨.failed, 5⟩,
      .spawn 2 (.disable (.persisting ["t2"])) :: Move.repeated 2 2 ⟨.failed, 9⟩])
    paired_init (by decide)
  rw [hall p hr _ howed] at hlost
  cases hlost

end Shelly.Mobile.PushTombstone
