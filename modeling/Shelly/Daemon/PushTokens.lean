import Shelly.Daemon.Devices

namespace Shelly.Daemon

/-- What the worker of the push dispatcher is asked to do about a token. -/
inductive TokenCommand
  | register (platform : PushPlatform) (token : String)
  | unregister (token : String)
  deriving DecidableEq

/-- What the relay does. It binds a token to the daemon whatever its platform. -/
def TokenCommand.apply (relay : Finset String) : TokenCommand → Finset String
  | .register _ token => insert token relay
  | .unregister token => relay.erase token

/-- The registry of the devices, the queue of the push dispatcher, and the tokens that the relay
holds for the daemon. -/
structure TokenState extends DeviceState where
  queue : List TokenCommand
  relay : Finset String

/-- The tokens that the relay will hold, once the queue has been processed. -/
def TokenState.due (s : TokenState) : Finset String := s.queue.foldl TokenCommand.apply s.relay

/-- The token of a device. -/
def TokenState.tokenOf (s : TokenState) (id : String) : Option String :=
  (s.devices.lookup id).bind (·.pushToken)

/-- A task of the registry, or a removal that has revoked the connections of the device and is about
to unregister its token. -/
inductive TokenTask
  | device (x : DeviceTask)
  | unregistering (id token : String)
  deriving DecidableEq

/-- What a stored update asks of the relay. -/
def DeviceUpdate.commands (d : StoredDevice) : DeviceUpdate → List TokenCommand
  | .markSeen _ => []
  | .setPush platform token _ => [.register platform token]
  | .clearPush platform token _ =>
    if d.pushPlatform = some platform ∧ d.pushToken = some token then [.unregister token] else []

def TokenState.commands (s : TokenState) (id : String) (change : DeviceUpdate) :
    UpdateResult → List TokenCommand
  | .updated => (s.devices.lookup id).elim [] fun d => change.commands d
  | .missing | .failed => []

section Store

variable (storageKey : String → String)

/-- `update_device_push` and `clear_device_push` enqueue their command while they still hold the
entry, a removal after it has let go of the entry. -/
def tokenAdvance (c : DeviceChoice) (i : Nat) :
    TokenTask → TokenState → Option (TokenState × TokenTask)
  | .device (.update id change none), s =>
    let r := updateStep storageKey c id change s.toDeviceState
    some ({ s with toDeviceState := r.1, queue := s.queue ++ s.commands id change r.2 },
      .device (.update id change (some r.2)))
  | .device (.remove (.revoking id d)), s =>
    (removeStep storageKey c (.revoking id d) s.toDeviceState).map fun r =>
      ({ s with toDeviceState := r.1 },
        match d.pushToken with
        | some token => .unregistering id token
        | none => .device (.remove r.2))
  | .device x, s =>
    (deviceAdvance storageKey c i x s.toDeviceState).map fun r =>
      ({ s with toDeviceState := r.1 }, .device r.2)
  | .unregistering id token, s =>
    some ({ s with queue := s.queue ++ [.unregister token] },
      .device (.remove (.returned (some id) true)))

/-- The worker processes the next command. -/
inductive TokenEvent
  | process
  deriving DecidableEq

def tokenEvent : TokenEvent → TokenState → Option (TokenState × Bool)
  | .process, s =>
    match s.queue with
    | [] => none
    | command :: queue => some ({ s with queue, relay := command.apply s.relay }, true)

/-- The daemon has a push dispatcher, and at the start the relay holds the tokens of the
registry. -/
def tokenTasking : Tasking TokenState TokenTask DeviceChoice TokenEvent where
  init s := s.queue = [] ∧ ∀ token, token ∈ s.relay ↔ ∃ id, s.tokenOf id = some token
  start
    | .device x => (deviceTasking storageKey).start x
    | .unregistering _ _ => false
  cancellable
    | .device x => (deviceTasking storageKey).cancellable x
    | .unregistering _ _ => false
  advance := tokenAdvance storageKey
  environment := tokenEvent

end Store

/-- The token that a removal has taken out of the registry and has yet to unregister. -/
def TokenTask.leaves : TokenTask → Option String
  | .unregistering _ token => some token
  | .device (.remove (.revoking _ d)) => d.pushToken
  | .device _ => none

/-- The operation is over, or has changed nothing yet. -/
def TokenTask.idle : TokenTask → Bool
  | .device (.remove (.returned _ _)) | .device (.update _ _ (some _)) => true
  | .device (.pair _ .waiting) | .device (.pair _ (.returned _)) => true
  | _ => false

namespace PushTokens

section Conditions

variable (s : TokenState) (p : Pool TokenState TokenTask)

/-- The token is stored for another device. -/
def HeldBeside (id : Option String) (token : String) : Prop :=
  ∃ other, some other ≠ id ∧ s.tokenOf other = some token

/-- A removal will unregister the token. -/
def Leaving (token : String) : Prop := ∃ j x, p.task j = some x ∧ x.leaves = some token

/-- A token that a device loses is stored for another one, or will be unregistered. -/
def Accounted (id token : String) : Prop :=
  HeldBeside p.shared (some id) token ∨ Leaving p token

/-- The step keeps account of the tokens: one that it takes out of the registry without
unregistering it is accounted for, one that it stores without registering it is registered anyway,
and one that it unregisters is stored nowhere else. -/
def TaskCareful (ok : Bool) : TokenTask → Prop
  | .device (.update id (.setPush _ token _) none) =>
    (∀ old ∈ p.shared.tokenOf id, old ≠ token → Accounted p id old) ∧
      (p.shared.devices.contains id = true ∧ p.shared.persisted.isSome = true ∧ ok = false →
        token ∈ p.shared.due)
  | .device (.update id (.clearPush platform token _) none) =>
    (∃ d ∈ p.shared.devices.lookup id, d.pushPlatform = some platform ∧ d.pushToken = some token) →
      if p.shared.persisted.isNone || ok then ¬ HeldBeside p.shared (some id) token
      else Accounted p id token
  | .device (.pair d .inserting) =>
    (∀ old ∈ p.shared.tokenOf d.deviceNodeId, d.pushToken ≠ some old →
        Accounted p d.deviceNodeId old) ∧
      ∀ token ∈ d.pushToken, token ∈ p.shared.due
  | .unregistering _ token => ¬ HeldBeside p.shared none token
  | _ => True

def Careful : Move TokenTask DeviceChoice TokenEvent → Prop
  | .advance i c => ∀ x ∈ p.task i, TaskCareful p c.ok x
  | .spawn _ _ | .drop _ | .environment _ => True

instance (id : Option String) (token : String) : Decidable (HeldBeside s id token) :=
  decidable_of_iff (∃ e ∈ s.devices.entries, some e.1 ≠ id ∧ e.2.pushToken = some token) <| by
    constructor
    · rintro ⟨e, he, hid, htoken⟩
      exact ⟨e.1, hid, by rw [TokenState.tokenOf, Table.mem_entries.mp he]; exact htoken⟩
    · rintro ⟨other, hid, htoken⟩
      obtain ⟨d, hd, htoken⟩ := Option.bind_eq_some_iff.mp htoken
      exact ⟨⟨other, d⟩, Table.mem_entries.mpr hd, hid, htoken⟩

instance (token : String) : Decidable (Leaving p token) :=
  decidable_of_iff (∃ e ∈ p.tasks.entries, e.2.leaves = some token) <| by
    constructor
    · rintro ⟨e, he, hleaves⟩
      exact ⟨e.1, e.2, Table.mem_entries.mp he, hleaves⟩
    · rintro ⟨j, x, hx, hleaves⟩
      exact ⟨⟨j, x⟩, Table.mem_entries.mpr hx, hleaves⟩

instance (id token : String) : Decidable (Accounted p id token) :=
  inferInstanceAs (Decidable (_ ∨ _))

instance (ok : Bool) (x : TokenTask) : Decidable (TaskCareful p ok x) :=
  match x with
  | .device (.update id (.setPush _ token _) none) =>
    inferInstanceAs (Decidable ((∀ old ∈ p.shared.tokenOf id, old ≠ token → Accounted p id old) ∧
      (p.shared.devices.contains id = true ∧ p.shared.persisted.isSome = true ∧ ok = false →
        token ∈ p.shared.due)))
  | .device (.update id (.clearPush platform token _) none) =>
    inferInstanceAs (Decidable ((∃ d ∈ p.shared.devices.lookup id,
      d.pushPlatform = some platform ∧ d.pushToken = some token) →
        if p.shared.persisted.isNone || ok then ¬ HeldBeside p.shared (some id) token
        else Accounted p id token))
  | .device (.pair d .inserting) =>
    inferInstanceAs (Decidable ((∀ old ∈ p.shared.tokenOf d.deviceNodeId, d.pushToken ≠ some old →
      Accounted p d.deviceNodeId old) ∧ ∀ token ∈ d.pushToken, token ∈ p.shared.due))
  | .unregistering _ token => inferInstanceAs (Decidable (¬ HeldBeside p.shared none token))
  | .device (.update _ (.markSeen _) none) | .device (.update _ (.markSeen _) (some _))
  | .device (.update _ (.setPush _ _ _) (some _)) | .device (.update _ (.clearPush _ _ _) (some _))
  | .device (.pair _ .waiting) | .device (.pair _ .saving) | .device (.pair _ .watching)
  | .device (.pair _ (.returned _)) | .device (.remove _) => isTrue trivial

instance (a : Move TokenTask DeviceChoice TokenEvent) : Decidable (Careful p a) :=
  match a with
  | .advance i c => inferInstanceAs (Decidable (∀ x ∈ p.task i, TaskCareful p c.ok x))
  | .spawn _ _ | .drop _ | .environment _ => isTrue trivial

/-- No operation is in flight, and every command has been processed. -/
def Quiescent : Prop := p.Lacks (fun _ x => !x.idle) ∧ p.shared.queue = []

/-- The relay holds the tokens of the registry and no other. -/
def Agrees : Prop := ∀ token, token ∈ s.relay ↔ ∃ id, s.tokenOf id = some token

end Conditions

section Tokens

variable {s s' : TokenState} {id token : String} {d : StoredDevice}

theorem tokenOf_insert {r : DeviceState} (h : r.devices = s.devices.insert id d)
    (queue : List TokenCommand) (relay : Finset String) (other : String) :
    TokenState.tokenOf ⟨r, queue, relay⟩ other =
      if other = id then d.pushToken else s.tokenOf other := by
  unfold TokenState.tokenOf
  rw [h, Table.lookup_insert]
  split <;> rfl

theorem tokenOf_erase {r : DeviceState} (h : r.devices = s.devices.erase id)
    (queue : List TokenCommand) (relay : Finset String) (other : String) :
    TokenState.tokenOf ⟨r, queue, relay⟩ other =
      if other = id then none else s.tokenOf other := by
  unfold TokenState.tokenOf
  rw [h, Table.lookup_erase]
  split <;> rfl

theorem due_enqueue (s : TokenState) (r : DeviceState) (commands : List TokenCommand) :
    TokenState.due ⟨r, s.queue ++ commands, s.relay⟩ =
      commands.foldl TokenCommand.apply s.due := by
  unfold TokenState.due
  exact List.foldl_append

theorem due_of_same (hrelay : s'.relay = s.relay) (hqueue : s'.queue = s.queue) :
    s'.due = s.due := by
  unfold TokenState.due
  rw [hrelay, hqueue]

end Tokens

section Steps

variable {storageKey : String → String} {c : DeviceChoice} {i : Nat} {x x' : TokenTask}
  {s s' : TokenState} {others : String → Prop}

/-- Every token of the registry is due at the relay, and every token that is due there is in the
registry or about to be unregistered, by a task that stands at `x` or by one of the others. -/
structure Balance (s : TokenState) (x : TokenTask) (others : String → Prop) : Prop where
  held : ∀ id token, s.tokenOf id = some token → token ∈ s.due
  due : ∀ token ∈ s.due,
    (∃ id, s.tokenOf id = some token) ∨ x.leaves = some token ∨ others token

theorem Balance.of_same (h : Balance s x others) (htokens : ∀ id, s'.tokenOf id = s.tokenOf id)
    (hdue : s'.due = s.due) (hleaves : ∀ token, x.leaves = some token → x'.leaves = some token) :
    Balance s' x' others := by
  refine ⟨fun id token htoken => ?_, fun token htoken => ?_⟩
  · rw [hdue]
    exact h.held id token (htokens id ▸ htoken)
  · rw [hdue] at htoken
    refine (h.due token htoken).imp ?_ (Or.imp_left (hleaves token))
    exact fun ⟨id, hid⟩ => ⟨id, (htokens id).trans hid⟩

/-- A device gets another token, or none. Its old one is accounted for, and its new one is due. -/
theorem Balance.replaced (h : Balance s x others) {id : String} {new : Option String}
    (htokens : ∀ other, s'.tokenOf other = if other = id then new else s.tokenOf other)
    (hleaves : ∀ token, x.leaves = some token → x'.leaves = some token)
    (hold : ∀ old ∈ s.tokenOf id, new ≠ some old → old ∈ s'.due →
      HeldBeside s (some id) old ∨ x'.leaves = some old ∨ others old)
    (hheld : ∀ token, HeldBeside s (some id) token → token ∈ s.due → token ∈ s'.due)
    (hnew : ∀ token ∈ new, token ∈ s'.due)
    (hdue : ∀ token ∈ s'.due, token ∈ s.due ∨ new = some token) : Balance s' x' others := by
  have hbeside {token : String} (hb : HeldBeside s (some id) token) :
      ∃ other, s'.tokenOf other = some token := by
    obtain ⟨other, hother, htoken⟩ := hb
    exact ⟨other, by rw [htokens, if_neg fun heq => hother (congrArg some heq)]; exact htoken⟩
  refine ⟨fun other token htoken => ?_, fun token htoken => ?_⟩
  · rw [htokens] at htoken
    split at htoken
    · exact hnew token htoken
    · rename_i hother
      refine hheld token ⟨other, fun heq => hother (Option.some.inj heq), htoken⟩ ?_
      exact h.held other token htoken
  · by_cases hgets : new = some token
    · exact .inl ⟨id, by rw [htokens, if_pos rfl, hgets]⟩
    · rcases h.due token ((hdue token htoken).resolve_right hgets) with ⟨other, hother⟩ | hrest
      · by_cases hid : other = id
        · subst hid
          exact (hold token hother hgets htoken).imp_left hbeside
        · exact .inl (hbeside ⟨other, fun heq => hid (Option.some.inj heq), hother⟩)
      · exact .inr (hrest.imp_left (hleaves token))

theorem updateStep_none {r : DeviceState} {id : String} {change : DeviceUpdate}
    (h : r.devices.lookup id = none) : updateStep storageKey c id change r = (r, .missing) := by
  unfold updateStep
  rw [h]

theorem updateStep_unchanged {r : DeviceState} {id : String} {d : StoredDevice}
    {change : DeviceUpdate} (h : r.devices.lookup id = some d) (hd : change.apply d = none) :
    updateStep storageKey c id change r = (r, .updated) := by
  unfold updateStep
  rw [h]
  dsimp only
  rw [hd]

theorem updateStep_some (key : String → String) (c : DeviceChoice) {r : DeviceState} {id : String}
    {d d' : StoredDevice} {change : DeviceUpdate} (h : r.devices.lookup id = some d)
    (hd : change.apply d = some d') :
    (updateStep key c id change r).1.devices = r.devices.insert id d' ∧
      (updateStep key c id change r).2 =
        if r.persisted.isNone || c.ok then .updated else .failed := by
  unfold updateStep
  rw [h]
  dsimp only
  rw [hd]
  dsimp only
  split <;> exact ⟨rfl, rfl⟩

variable {p : Pool TokenState TokenTask}

theorem update_balance {id : String} {change : DeviceUpdate}
    (hc : TaskCareful p c.ok (.device (.update id change none)))
    (hothers : ∀ token, Leaving p token → others token)
    (h : Balance p.shared (.device (.update id change none)) others)
    (hs : tokenAdvance storageKey c i (.device (.update id change none)) p.shared =
      some (s', x')) : Balance s' x' others := by
  cases hs
  cases hd : p.shared.devices.lookup id with
  | none =>
    rw [updateStep_none hd]
    exact h.of_same (fun _ => rfl) (due_enqueue ..) fun _ hleaves => by cases hleaves
  | some d =>
    have hold : p.shared.tokenOf id = d.pushToken := by rw [TokenState.tokenOf, hd]; rfl
    have hcommands : p.shared.commands id change .updated = change.commands d := by
      rw [TokenState.commands, hd]
      rfl
    cases hd' : change.apply d with
    | none =>
      rw [updateStep_unchanged hd hd']
      refine h.of_same (fun _ => rfl) ?_ fun _ hleaves => by cases hleaves
      have hno : change.commands d = [] := by
        cases change with
        | markSeen | setPush => cases hd'
        | clearPush platform token now =>
          simp only [DeviceUpdate.apply, ite_eq_right_iff, reduceCtorEq, imp_false] at hd'
          rw [DeviceUpdate.commands, if_neg hd']
      rw [due_enqueue, hcommands, hno]
      rfl
    | some d' =>
      obtain ⟨hdevices, hresult⟩ := updateStep_some storageKey c hd hd'
      have htokens := tokenOf_insert (s := p.shared) hdevices
      cases change with
      | markSeen now =>
        cases hd'
        have hno (result : UpdateResult) : p.shared.commands id (.markSeen now) result = [] := by
          cases result with
          | updated => exact hcommands
          | missing | failed => rfl
        refine h.of_same (fun other => ?_) ?_ fun _ hleaves => by cases hleaves
        · refine (htokens _ _ other).trans ?_
          split
          · subst other
            exact hold.symm
          · rfl
        · rw [due_enqueue, hno]
          rfl
      | setPush platform token now =>
        cases hd'
        have hdue (result : UpdateResult) (t : String) :
            t ∈ (TokenState.due ⟨(updateStep storageKey c id (.setPush platform token now)
              p.shared.toDeviceState).1, p.shared.queue ++
                p.shared.commands id (.setPush platform token now) result, p.shared.relay⟩) ↔
              t ∈ p.shared.due ∨ result = .updated ∧ t = token := by
          rw [due_enqueue]
          cases result with
          | updated =>
            rw [hcommands]
            exact (Finset.mem_insert).trans (by simp [or_comm])
          | missing | failed => exact (by simp [TokenState.commands])
        refine h.replaced (htokens _ _) (fun _ hleaves => by cases hleaves) ?_ ?_ ?_ ?_
        · intro old hhas hne _
          exact (hc.1 old hhas fun heq => hne (congrArg some heq.symm)).imp_right
            fun hleaving => .inr (hothers old hleaving)
        · exact fun t _ ht => (hdue _ t).mpr (.inl ht)
        · rintro t ⟨⟩
          refine (hdue _ token).mpr ?_
          rw [hresult]
          by_cases hstored : (p.shared.persisted.isNone || c.ok) = true
          · exact .inr ⟨if_pos hstored, rfl⟩
          · left
            simp only [Bool.or_eq_true, not_or, Bool.not_eq_true] at hstored
            refine hc.2 ⟨?_, ?_, hstored.2⟩
            · rw [Table.contains, hd]
              rfl
            · cases hpersisted : p.shared.persisted <;> simp [hpersisted] at hstored ⊢
        · exact fun t ht => ((hdue _ t).mp ht).imp_right fun h => congrArg some h.2.symm
      | clearPush platform token now =>
        obtain ⟨hmatch, hcleared⟩ := Option.ite_none_right_eq_some.mp hd'
        cases hcleared
        have hcareful := hc ⟨d, hd, hmatch⟩
        have hdue (result : UpdateResult) (t : String) :
            t ∈ (TokenState.due ⟨(updateStep storageKey c id (.clearPush platform token now)
              p.shared.toDeviceState).1, p.shared.queue ++
                p.shared.commands id (.clearPush platform token now) result, p.shared.relay⟩) ↔
              t ∈ p.shared.due ∧ (result = .updated → t ≠ token) := by
          rw [due_enqueue]
          cases result with
          | updated =>
            rw [hcommands, DeviceUpdate.commands, if_pos hmatch]
            exact (Finset.mem_erase).trans (by simp [and_comm])
          | missing | failed => exact (by simp [TokenState.commands])
        refine h.replaced (htokens _ _) (fun _ hleaves => by cases hleaves) ?_ ?_ ?_ ?_
        · intro old hhas _ hold'
          rw [hold, hmatch.2] at hhas
          obtain rfl := Option.some.inj hhas
          split at hcareful
          · rename_i hstored
            exact absurd rfl (((hdue _ _).mp hold').2 (hresult.trans (if_pos hstored)))
          · exact hcareful.imp_right fun hleaving => .inr (hothers _ hleaving)
        · intro t hbeside ht
          refine (hdue _ t).mpr ⟨ht, fun hupdated => ?_⟩
          rintro rfl
          split at hcareful
          · exact hcareful hbeside
          · rename_i hstored
            rw [hresult, if_neg hstored] at hupdated
            cases hupdated
        · exact fun t ht => by cases ht
        · exact fun t ht => .inl ((hdue _ t).mp ht).1

theorem advance_balance (hc : TaskCareful p c.ok x)
    (hothers : ∀ token, Leaving p token → x.leaves = some token ∨ others token)
    (h : Balance p.shared x others) (hs : tokenAdvance storageKey c i x p.shared = some (s', x')) :
    Balance s' x' others := by
  cases x with
  | unregistering id token =>
    cases hs
    have hdue := due_enqueue p.shared p.shared.toDeviceState [.unregister token]
    refine ⟨fun other held hheld => ?_, fun due hmem => ?_⟩
    · rw [hdue]
      refine Finset.mem_erase.mpr ⟨?_, h.held other held hheld⟩
      rintro rfl
      exact hc ⟨other, by simp, hheld⟩
    · rw [hdue] at hmem
      obtain ⟨hne, hmem⟩ := Finset.mem_erase.mp hmem
      refine (h.due due hmem).imp_right fun hrest => .inr (hrest.resolve_left ?_)
      exact fun heq => hne (Option.some.inj heq).symm
  | device x =>
    -- A step that leaves the devices and the queue alone.
    have hsame {r : DeviceState} {y : TokenTask} (hdevices : r.devices = p.shared.devices)
        (hleaves : ∀ token, (TokenTask.device x).leaves = some token → y.leaves = some token)
        (heq : (⟨r, p.shared.queue, p.shared.relay⟩, y) = (s', x')) : Balance s' x' others := by
      cases heq
      refine h.of_same (fun id => ?_) rfl hleaves
      unfold TokenState.tokenOf
      rw [hdevices]
    cases x with
    | remove pc =>
      cases pc with
      | unmapping id =>
        obtain ⟨⟨r, y⟩, hr, heq⟩ := Option.map_eq_some_iff.mp hs
        obtain ⟨⟨r', y'⟩, hr', heq'⟩ := Option.map_eq_some_iff.mp hr
        cases heq'
        cases heq
        have hdevices : r'.devices = p.shared.devices.erase id := by
          simp only [removeStep] at hr'
          split at hr' <;> cases hr' <;> rfl
        refine h.replaced (tokenOf_erase hdevices _ _) (fun _ hleaves => by cases hleaves) ?_
          (fun _ _ ht => ht) (fun _ ht => by cases ht) fun _ ht => .inl ht
        intro old hhas _ _
        obtain ⟨d, hd, hold⟩ := Option.bind_eq_some_iff.mp hhas
        simp only [removeStep, hd] at hr'
        cases hr'
        exact .inr (.inl hold)
      | revoking id d =>
        refine hsame ?_ (fun token hleaves => ?_) (Option.some.inj hs)
        · rfl
        · have hleaves : d.pushToken = some token := hleaves
          rw [hleaves]
          rfl
      | returned => cases hs
      | finding name =>
        obtain ⟨⟨r, y⟩, hr, heq⟩ := Option.map_eq_some_iff.mp hs
        obtain ⟨⟨r', y'⟩, hr', heq'⟩ := Option.map_eq_some_iff.mp hr
        cases heq'
        refine hsame ?_ (fun _ hleaves => by cases hleaves) heq
        simp only [removeStep] at hr'
        split at hr'
        · split at hr'
          · obtain ⟨-, hr'⟩ := Option.ite_none_right_eq_some.mp hr'
            cases hr'
            rfl
          · cases hr'
        · obtain ⟨-, hr'⟩ := Option.ite_none_right_eq_some.mp hr'
          cases hr'
          rfl
      | checking id =>
        obtain ⟨⟨r, y⟩, hr, heq⟩ := Option.map_eq_some_iff.mp hs
        obtain ⟨⟨r', y'⟩, hr', heq'⟩ := Option.map_eq_some_iff.mp hr
        cases heq'
        refine hsame ?_ (fun _ hleaves => by cases hleaves) heq
        simp only [removeStep] at hr'
        split at hr' <;> cases hr' <;> rfl
      | erasingRow id =>
        obtain ⟨⟨r, y⟩, hr, heq⟩ := Option.map_eq_some_iff.mp hs
        obtain ⟨⟨r', y'⟩, hr', heq'⟩ := Option.map_eq_some_iff.mp hr
        cases heq'
        refine hsame ?_ (fun _ hleaves => by cases hleaves) heq
        simp only [removeStep] at hr'
        split at hr' <;> cases hr' <;> rfl
    | update id change result =>
      cases result with
      | none =>
        exact update_balance hc (fun t ht => (hothers t ht).resolve_left (fun h => by cases h)) h hs
      | some result => cases change <;> cases hs
    | pair d pc =>
      cases pc with
      | inserting =>
        cases hs
        refine h.replaced (tokenOf_insert rfl _ _) (fun _ hleaves => by cases hleaves) ?_
          (fun _ _ ht => ht) hc.2 fun _ ht => .inl ht
        intro old hhas hne _
        exact (hc.1 old hhas hne).imp_right fun hleaving =>
          .inr ((hothers old hleaving).resolve_left (fun h => by cases h))
      | watching =>
        refine hsame ?_ (fun _ hleaves => by cases hleaves) (Option.some.inj hs)
        split <;> rfl
      | waiting | saving =>
        obtain ⟨⟨r, y⟩, hr, heq⟩ := Option.map_eq_some_iff.mp hs
        obtain ⟨⟨r', y'⟩, hr', heq'⟩ := Option.map_eq_some_iff.mp hr
        cases heq'
        refine hsame ?_ (fun _ hleaves => by cases hleaves) heq
        simp only [pairStep] at hr'
        split at hr' <;> cases hr' <;> rfl
      | returned => cases hs

end Steps

section Runs

variable {storageKey : String → String} {p q : Pool TokenState TokenTask}
  {a : Move TokenTask DeviceChoice TokenEvent}

/-- Every token of the registry is due at the relay, and every token that is due there is in the
registry or about to be unregistered. -/
structure Balanced (p : Pool TokenState TokenTask) : Prop where
  held : ∀ id token, p.shared.tokenOf id = some token → token ∈ p.shared.due
  due : ∀ token ∈ p.shared.due, (∃ id, p.shared.tokenOf id = some token) ∨ Leaving p token

theorem balanced_init (h : (tokenTasking storageKey).machine.init p) : Balanced p := by
  obtain ⟨⟨hqueue, hagrees⟩, -⟩ := h
  have hdue : p.shared.due = p.shared.relay := by
    unfold TokenState.due
    rw [hqueue]
    rfl
  refine ⟨fun id token htoken => ?_, fun token htoken => ?_⟩
  · rw [hdue]
    exact (hagrees token).mpr ⟨id, htoken⟩
  · rw [hdue] at htoken
    exact .inl ((hagrees token).mp htoken)

theorem balanced_step (hp : Balanced p) (hc : Careful p a)
    (hs : (tokenTasking storageKey).machine.step a p = some q) : Balanced q := by
  cases Tasking.stepped_of_step hs with
  | spawn i x hx hi =>
    refine ⟨hp.held, fun token htoken => (hp.due token htoken).imp_right fun hleaving => ?_⟩
    obtain ⟨j, y, hy, hleaves⟩ := hleaving
    refine ⟨j, y, ?_, hleaves⟩
    rw [Pool.setTask_task, if_neg, hy]
    rintro rfl
    cases hi.symm.trans hy
  | advance i c x x' s' hx hr =>
    have hothers (token : String) : Leaving p token ↔
        x.leaves = some token ∨
          ∃ j y, j ≠ i ∧ p.task j = some y ∧ y.leaves = some token :=
      Pool.exists_task_iff hx fun y => y.leaves = some token
    have hbalance : Balance p.shared x fun token =>
        ∃ j y, j ≠ i ∧ p.task j = some y ∧ y.leaves = some token :=
      ⟨hp.held, fun token htoken => (hp.due token htoken).imp_right (hothers token).mp⟩
    have hnext := advance_balance (hc x hx) (fun token => (hothers token).mp) hbalance hr
    refine ⟨hnext.held, fun token htoken => (hnext.due token htoken).imp_right ?_⟩
    intro hrest
    exact (Pool.exists_setTask_iff fun y : TokenTask => y.leaves = some token).mpr hrest
  | drop i x hx hcancellable =>
    refine ⟨hp.held, fun token htoken => (hp.due token htoken).imp_right fun hleaving => ?_⟩
    obtain ⟨j, y, hy, hleaves⟩ := hleaving
    refine ⟨j, y, ?_, hleaves⟩
    rw [Pool.dropTask_task, if_neg, hy]
    rintro rfl
    obtain rfl := Option.some.inj (hx.symm.trans hy)
    -- Only a pairing is given up, which leaves no token.
    cases x with
    | unregistering => cases hcancellable
    | device x =>
      cases x with
      | remove | update => cases hcancellable
      | pair => cases hleaves
  | keep e s' hr =>
    cases e with
    | process =>
      have hprocess : ∃ command queue, p.shared.queue = command :: queue ∧
          s' = { p.shared with queue, relay := command.apply p.shared.relay } := by
        simp only [tokenTasking, tokenEvent] at hr
        split at hr
        · cases hr
        · cases hr
          exact ⟨_, _, ‹_›, rfl⟩
      obtain ⟨command, queue, hqueue, rfl⟩ := hprocess
      have hdue : TokenState.due { p.shared with queue, relay := command.apply p.shared.relay } =
          p.shared.due := by
        unfold TokenState.due
        rw [hqueue]
        rfl
      refine ⟨fun id token htoken => ?_, fun token htoken => ?_⟩
      · rw [Pool.setShared_shared, hdue]
        exact hp.held id token htoken
      · rw [Pool.setShared_shared, hdue] at htoken
        exact hp.due token htoken
  | clear e s' hr =>
    cases e with
    | process =>
      simp only [tokenTasking, tokenEvent] at hr
      split at hr <;> cases hr

theorem leaves_of_idle {x : TokenTask} (h : x.idle = true) : x.leaves = none := by
  cases x with
  | unregistering => cases h
  | device x =>
    cases x with
    | remove pc =>
      cases pc with
      | revoking => cases h
      | _ => rfl
    | update | pair => rfl

/-- In every run whose steps keep account of the tokens the relay holds exactly the tokens of the
registry, once no operation is in flight and every command has been processed. -/
theorem relay_agrees (h : (tokenTasking storageKey).machine.ReachableWhen Careful p)
    (hq : Quiescent p) : Agrees p.shared := by
  obtain ⟨hidle, hqueue⟩ := hq
  have hp : Balanced p := h.invariant (fun _ => balanced_init) fun _ _ _ => balanced_step
  have hdue : p.shared.due = p.shared.relay := by
    unfold TokenState.due
    rw [hqueue]
    rfl
  intro token
  constructor
  · intro htoken
    refine (hp.due token (hdue ▸ htoken)).resolve_right ?_
    rintro ⟨j, x, hx, hleaves⟩
    have hdone : x.idle = true := by simpa using hidle j x hx
    cases (leaves_of_idle hdone).symm.trans hleaves
  · rintro ⟨id, htoken⟩
    exact hdue ▸ hp.held id token htoken

end Runs

section Traces

private def yes : DeviceChoice := ⟨true, none⟩

private def phone : StoredDevice := .new "phone" "node-a" 1

/-- A daemon that stores nothing, with no device. -/
def noDevices : TokenState := ⟨⟨.empty, none, .empty, ∅, ∅⟩, [], ∅⟩

theorem noDevices_init (storageKey : String → String) :
    (tokenTasking storageKey).machine.init (Pool.empty noDevices) := by
  refine Tasking.init_empty ⟨rfl, fun token => ?_⟩
  constructor
  · intro h
    cases h
  · rintro ⟨id, hid⟩
    cases hid

/-- A phone is paired, registers its token and is removed; another one registers the same token
after it. -/
theorem relay_agrees_removed : ∃ p : Pool TokenState TokenTask,
    p.shared.relay = {"token"} ∧ Agrees p.shared := by
  obtain ⟨p, hr, hlacks, hqueue, hrelay⟩ :=
    (tokenTasking id).machine.exists_reachable_of_exec (s := Pool.empty noDevices) Careful
      (fun p => p.Lacks (fun _ x => !x.idle) ∧ p.shared.queue = [] ∧ p.shared.relay = {"token"})
      (List.flatten [[.spawn 0 (.device (.pair phone .waiting))], Move.repeated 4 0 yes,
        [.spawn 1 (.device (.update "node-a" (.setPush .fcm "token" 2) none)), .advance 1 yes,
          .spawn 2 (.device (.remove (.checking "node-a")))], Move.repeated 5 2 yes,
        [.spawn 3 (.device (.pair (.new "other" "node-b" 3) .waiting))], Move.repeated 4 3 yes,
        [.spawn 4 (.device (.update "node-b" (.setPush .fcm "token" 4) none)), .advance 4 yes],
        List.replicate 3 (.environment .process)])
      (noDevices_init id) (by decide)
  exact ⟨p, hrelay, relay_agrees hr ⟨hlacks, hqueue⟩⟩

/-- A phone rotates its token, and the old one stays registered. -/
theorem rotated_token_stays : ¬ ∀ p : Pool TokenState TokenTask,
    (tokenTasking id).machine.Reachable p → Quiescent p → Agrees p.shared := by
  intro hall
  obtain ⟨p, hr, hlacks, hqueue, hrelay, hdevices⟩ :=
    (tokenTasking id).machine.exists_reachable_of_exec (s := Pool.empty noDevices) Machine.Any
      (fun p => p.Lacks (fun _ x => !x.idle) ∧ p.shared.queue = [] ∧ "old" ∈ p.shared.relay ∧
        ∀ e ∈ p.shared.devices.entries, e.2.pushToken ≠ some "old")
      (List.flatten [[.spawn 0 (.device (.pair phone .waiting))], Move.repeated 4 0 yes,
        [.spawn 1 (.device (.update "node-a" (.setPush .fcm "old" 2) none)), .advance 1 yes,
          .spawn 2 (.device (.update "node-a" (.setPush .fcm "new" 3) none)), .advance 2 yes,
          .environment .process, .environment .process]])
      (noDevices_init id) (by decide)
  obtain ⟨id, hid⟩ := (hall p hr ⟨hlacks, hqueue⟩ "old").mp hrelay
  obtain ⟨d, hd, hold⟩ := Option.bind_eq_some_iff.mp hid
  exact hdevices _ (Table.mem_entries.mpr hd) hold

end Traces

end PushTokens
end Shelly.Daemon
