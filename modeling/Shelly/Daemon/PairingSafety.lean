import Shelly.Daemon.Pairing

namespace Shelly.Daemon

section History

namespace PairingEvent

def begins : PairingEvent → Bool
  | .began _ _ => true
  | _ => false

def misses : PairingEvent → Bool
  | .missed => true
  | _ => false

end PairingEvent

/-- What an event rests on. A code is taken once, after it was begun and before a newer one
is, before its last wrong attempt and before its expiry if it leads to a request, of which
there is one; and a request is approved only by an answer to it. -/
def Grounded (earlier : List PairingEvent) : PairingEvent → Prop
  | .began generation _ => ∀ expiresAt, .began generation expiresAt ∉ earlier
  | .taken generation _ => (∀ now, .taken generation now ∉ earlier) ∧
      ∃ newer older expiresAt, earlier = newer ++ .began generation expiresAt :: older ∧
        (∀ e ∈ newer, e.begins = false) ∧ newer.countP PairingEvent.misses < maxCodeAttempts
  | .requested generation _ => (∀ event, .requested generation event ∉ earlier) ∧
      ∃ now expiresAt, .taken generation now ∈ earlier ∧
        .began generation expiresAt ∈ earlier ∧ now < expiresAt
  | .waited requestId true => .answered requestId true ∈ earlier
  | _ => True

/-- Every event of the history rests on earlier ones. -/
def Ordered (history : List PairingEvent) : Prop :=
  ∀ later e earlier, history = later ++ e :: earlier → Grounded earlier e

variable {log : List PairingEvent} {e : PairingEvent}

theorem ordered_nil : Ordered [] := by
  intro later e earlier h
  simp at h

theorem Ordered.cons (h : Ordered log) (he : Grounded log e) : Ordered (e :: log) := by
  intro later e' earlier heq
  cases later with
  | nil =>
    obtain ⟨rfl, rfl⟩ := List.cons.inj heq
    exact he
  | cons e'' later => exact h later e' earlier (List.cons.inj heq).2

theorem Ordered.grounded (h : Ordered log) (he : e ∈ log) :
    ∃ earlier, Grounded earlier e ∧ earlier ⊆ log := by
  obtain ⟨later, earlier, heq⟩ := List.append_of_mem he
  refine ⟨earlier, h later e earlier heq, ?_⟩
  rw [heq]
  exact fun e' he' => List.mem_append_right _ (List.mem_cons_of_mem e he')

theorem Ordered.began_of_taken (h : Ordered log) {g now : Nat} (he : .taken g now ∈ log) :
    ∃ expiresAt, PairingEvent.began g expiresAt ∈ log := by
  obtain ⟨earlier, ⟨-, newer, older, expiresAt, heq, -⟩, hsub⟩ := h.grounded he
  refine ⟨expiresAt, hsub ?_⟩
  rw [heq]
  exact List.mem_append_right _ List.mem_cons_self

theorem Ordered.taken_of_requested (h : Ordered log) {g : Nat} {event : PairingApprovalEvent}
    (he : .requested g event ∈ log) : ∃ now, PairingEvent.taken g now ∈ log := by
  obtain ⟨earlier, ⟨-, now, expiresAt, htaken, -⟩, hsub⟩ := h.grounded he
  exact ⟨now, hsub htaken⟩

/-- The code has been begun last and not been taken, and its wrong attempts are counted. -/
structure Active (log : List PairingEvent) (pending : PendingPairCode) : Prop where
  attempts : pending.attempts < maxCodeAttempts
  untaken : ∀ now, .taken pending.generation now ∉ log
  begun : ∃ newer older, log = newer ++ .began pending.generation pending.expiresAt :: older ∧
    (∀ e ∈ newer, e.begins = false) ∧ newer.countP PairingEvent.misses = pending.attempts

theorem Active.cons {pending : PendingPairCode} (h : Active log pending)
    (hbegins : e.begins = false) (hmisses : e.misses = false)
    (htaken : ∀ now, e ≠ .taken pending.generation now) : Active (e :: log) pending := by
  obtain ⟨newer, older, heq, hnewer, hcount⟩ := h.begun
  refine ⟨h.attempts, fun now hmem => ?_, e :: newer, older, by rw [heq]; rfl, ?_, ?_⟩
  · rcases List.mem_cons.mp hmem with rfl | hmem
    · exact htaken now rfl
    · exact h.untaken now hmem
  · intro e' he'
    rcases List.mem_cons.mp he' with rfl | he'
    · exact hbegins
    · exact hnewer e' he'
  · rw [List.countP_cons_of_neg (by rw [hmisses]; decide), hcount]

theorem Active.miss {pending : PendingPairCode} (h : Active log pending)
    (hleft : pending.attempts + 1 < maxCodeAttempts) :
    Active (.missed :: log) { pending with attempts := pending.attempts + 1 } := by
  obtain ⟨newer, older, heq, hnewer, hcount⟩ := h.begun
  refine ⟨hleft, fun now hmem => ?_, .missed :: newer, older, by rw [heq]; rfl, ?_, ?_⟩
  · rcases List.mem_cons.mp hmem with hne | hmem
    · cases hne
    · exact h.untaken now hmem
  · intro e' he'
    rcases List.mem_cons.mp he' with rfl | he'
    · rfl
    · exact hnewer e' he'
  · rw [List.countP_cons_of_pos rfl, hcount]

end History

section Manager

/-- Codes are numbered as they are begun. -/
def Numbered (log : List PairingEvent) (generations : Nat) : Prop :=
  ∀ g expiresAt, .began g expiresAt ∈ log → g < generations

/-- Requests and channels are numbered as they are opened, each channel for one request. -/
def Opens (log : List PairingEvent) (requests channels : Nat) : Prop :=
  ∀ id channel, .opened id channel ∈ log → id < requests ∧ channel < channels ∧
    ∀ id', .opened id' channel ∈ log → id' = id

theorem Numbered.cons {log : List PairingEvent} {e : PairingEvent} {n : Nat} (h : Numbered log n)
    (he : e.begins = false) : Numbered (e :: log) n := by
  intro g expiresAt hmem
  refine h g expiresAt (List.mem_of_ne_of_mem ?_ hmem)
  rintro rfl
  cases he

theorem Opens.cons {log : List PairingEvent} {e : PairingEvent} {n k : Nat} (h : Opens log n k)
    (he : ∀ id channel, e ≠ .opened id channel) : Opens (e :: log) n k := by
  intro id channel hmem
  obtain ⟨hid, hchannel, hsame⟩ := h id channel (List.mem_of_ne_of_mem (he id channel).symm hmem)
  exact ⟨hid, hchannel, fun id' hmem' => hsame id'
    (List.mem_of_ne_of_mem (he id' channel).symm hmem')⟩

/-- A new request gets a new channel. -/
theorem Opens.openApproval {log : List PairingEvent} {n k : Nat} (h : Opens log n k) :
    Opens (.opened n k :: log) (n + 1) (k + 1) := by
  intro id channel hmem
  rcases List.mem_cons.mp hmem with heq | hmem
  · cases heq
    refine ⟨Nat.lt_succ_self _, Nat.lt_succ_self _, fun id' hmem' => ?_⟩
    rcases List.mem_cons.mp hmem' with heq | hmem'
    · cases heq
      rfl
    · exact absurd (h id' _ hmem').2.1 (Nat.lt_irrefl _)
  · obtain ⟨hid, hchannel, hsame⟩ := h id channel hmem
    refine ⟨Nat.lt_succ_of_lt hid, Nat.lt_succ_of_lt hchannel, fun id' hmem' => ?_⟩
    rcases List.mem_cons.mp hmem' with heq | hmem'
    · cases heq
      exact absurd hchannel (Nat.lt_irrefl _)
    · exact hsame id' hmem'

/-- The invariant of the pairing manager. -/
structure PairingManager.Sound (m : PairingManager) : Prop where
  one : m.codes.size ≤ 1
  active : ∀ code pending, m.codes.lookup code = some pending → Active m.history pending
  ordered : Ordered m.history
  numbered : Numbered m.history m.generations
  opens : Opens m.history m.requests m.channels
  approvals : ∀ id channel, m.approvals.lookup id = some channel →
    .opened id channel ∈ m.history
  answers : ∀ channel approved, m.answers.lookup channel = some approved →
    ∃ id, .opened id channel ∈ m.history ∧ .answered id approved ∈ m.history

variable {m : PairingManager}

theorem sound_new : PairingManager.new.Sound where
  one := Nat.zero_le 1
  active code pending h := by cases (Table.lookup_empty code).symm.trans h
  ordered := ordered_nil
  numbered _ _ h := by cases h
  opens _ _ h := by cases h
  approvals id _ h := by cases (Table.lookup_empty id).symm.trans h
  answers channel _ h := by cases (Table.lookup_empty channel).symm.trans h

namespace PairingManager.Sound

/-- An event beside the codes, the requests and the answers. -/
theorem note (h : m.Sound) {e : PairingEvent} (he : Grounded m.history e)
    (hbegins : e.begins = false) (hmisses : e.misses = false)
    (htaken : ∀ g now, e ≠ .taken g now) (hopened : ∀ id channel, e ≠ .opened id channel) :
    (m.note e).Sound where
  one := h.one
  active code pending hp := (h.active code pending hp).cons hbegins hmisses (htaken _)
  ordered := h.ordered.cons he
  numbered := h.numbered.cons hbegins
  opens := h.opens.cons hopened
  approvals id channel hl := List.mem_cons_of_mem e (h.approvals id channel hl)
  answers channel approved hl := by
    obtain ⟨id, ho, ha⟩ := h.answers channel approved hl
    exact ⟨id, List.mem_cons_of_mem e ho, List.mem_cons_of_mem e ha⟩

theorem pruneExpired (h : m.Sound) (now : Nat) : (m.pruneExpired now).Sound :=
  { h with
    one := (Table.size_retain_le _ _).trans h.one
    active := fun code pending hp => h.active code pending (Table.lookup_retain.mp hp).1 }

theorem closeApproval (h : m.Sound) (id : Nat) : (m.closeApproval id).Sound :=
  { h with
    approvals := fun id' channel hl => h.approvals id' channel (Table.includes_erase _ _ _ _ hl) }

theorem answer (h : m.Sound) {id channel : Nat} {approved : Bool}
    (hopened : .opened id channel ∈ m.history) (hanswered : .answered id approved ∈ m.history) :
    (m.answer channel approved).Sound :=
  { h with
    answers := fun channel' approved' hl => by
      rw [PairingManager.answer, Table.lookup_insert] at hl
      split at hl
      · rename_i heq
        rw [heq, ← Option.some.inj hl]
        exact ⟨id, hopened, hanswered⟩
      · exact h.answers channel' approved' hl }

theorem setCode (h : m.Sound) (code : String) (expiresAt : Nat) :
    (m.setCode code expiresAt).Sound where
  one := Table.size_insert_empty_le _ _
  active code' pending hp := by
    rw [PairingManager.setCode, Table.lookup_insert] at hp
    split at hp
    · cases hp
      refine ⟨Nat.succ_pos 4, fun now hmem => ?_, [], m.history, rfl, by simp, rfl⟩
      rcases List.mem_cons.mp hmem with hne | hmem
      · cases hne
      · obtain ⟨t, hbegan⟩ := h.ordered.began_of_taken hmem
        exact absurd (h.numbered _ t hbegan) (Nat.lt_irrefl _)
    · cases (Table.lookup_empty _).symm.trans hp
  ordered := h.ordered.cons fun t hbegan => absurd (h.numbered _ t hbegan) (Nat.lt_irrefl _)
  numbered g t hmem := by
    rcases List.mem_cons.mp hmem with heq | hmem
    · cases heq
      exact Nat.lt_succ_self _
    · exact Nat.lt_succ_of_lt (h.numbered g t hmem)
  opens := h.opens.cons fun _ _ he => by cases he
  approvals id channel hl := List.mem_cons_of_mem _ (h.approvals id channel hl)
  answers channel approved hl := by
    obtain ⟨id, ho, ha⟩ := h.answers channel approved hl
    exact ⟨id, List.mem_cons_of_mem _ ho, List.mem_cons_of_mem _ ha⟩

/-- An active code may be taken. -/
theorem grounded_taken (h : m.Sound) {code : String} {pending : PendingPairCode}
    (hp : m.codes.lookup code = some pending) (now : Nat) :
    Grounded m.history (.taken pending.generation now) := by
  obtain ⟨hattempts, huntaken, newer, older, heq, hnewer, hcount⟩ := h.active code pending hp
  exact ⟨huntaken, newer, older, pending.expiresAt, heq, hnewer, hcount ▸ hattempts⟩

theorem eq_of_lookup (h : m.Sound) {code code' : String} {pending pending' : PendingPairCode}
    (hp : m.codes.lookup code = some pending) (hp' : m.codes.lookup code' = some pending') :
    code' = code := by
  by_contra hne
  have herased : (m.codes.erase code).lookup code' = some pending' := by
    rw [Table.lookup_erase_ne _ hne, hp']
  have hperm := (Table.entries_perm_erase hp).length_eq
  have hpos := List.length_pos_of_mem (Table.mem_entries.mpr herased)
  have hone : m.codes.entries.length ≤ 1 := h.one
  rw [List.length_cons] at hperm
  omega

theorem takeCode (h : m.Sound) {code : String} {pending : PendingPairCode}
    (hp : m.codes.lookup code = some pending) (now : Nat) :
    (m.takeCode code pending now).Sound where
  one := (Table.size_erase_le _ _).trans h.one
  active code' pending' hp' := by
    -- It was the only one.
    rw [PairingManager.takeCode, Table.lookup_erase] at hp'
    split at hp'
    · cases hp'
    · rename_i hne
      exact absurd (h.eq_of_lookup hp hp') hne
  ordered := h.ordered.cons (h.grounded_taken hp now)
  numbered := h.numbered.cons rfl
  opens := h.opens.cons fun _ _ he => by cases he
  approvals id channel hl := List.mem_cons_of_mem _ (h.approvals id channel hl)
  answers channel approved hl := by
    obtain ⟨id, ho, ha⟩ := h.answers channel approved hl
    exact ⟨id, List.mem_cons_of_mem _ ho, List.mem_cons_of_mem _ ha⟩

theorem chargeMiss (h : m.Sound) (now : Nat) : (m.chargeMiss now).Sound where
  one := by
    have hsize := (Table.size_retain_le (fun (_ : String) pending => decide (now <
      PendingPairCode.expiresAt pending) && decide (pending.attempts < maxCodeAttempts))
      (m.codes.mapVal fun pending => { pending with attempts := min (pending.attempts + 1) 255 }))
    rw [Table.size_mapVal] at hsize
    exact hsize.trans h.one
  active code pending hp := by
    obtain ⟨hp, hkept⟩ := Table.lookup_retain.mp hp
    rw [Table.lookup_mapVal] at hp
    obtain ⟨pending', hp', rfl⟩ := Option.map_eq_some_iff.mp hp
    have hattempts := (h.active code pending' hp').attempts
    have hsum : min (pending'.attempts + 1) 255 = pending'.attempts + 1 := by
      unfold maxCodeAttempts at hattempts
      omega
    rw [hsum] at hkept ⊢
    exact (h.active code pending' hp').miss (of_decide_eq_true (Bool.and_eq_true_iff.mp hkept).2)
  ordered := h.ordered.cons trivial
  numbered := h.numbered.cons rfl
  opens := h.opens.cons fun _ _ he => by cases he
  approvals id channel hl := List.mem_cons_of_mem _ (h.approvals id channel hl)
  answers channel approved hl := by
    obtain ⟨id, ho, ha⟩ := h.answers channel approved hl
    exact ⟨id, List.mem_cons_of_mem _ ho, List.mem_cons_of_mem _ ha⟩

theorem openApproval (h : m.Sound) : m.openApproval.Sound where
  one := h.one
  active code pending hp := (h.active code pending hp).cons rfl rfl fun _ he => by cases he
  ordered := h.ordered.cons trivial
  numbered := h.numbered.cons rfl
  opens := h.opens.openApproval
  approvals id channel hl := by
    rw [PairingManager.openApproval, Table.lookup_insert] at hl
    split at hl
    · rename_i heq
      rw [heq, ← Option.some.inj hl]
      exact List.mem_cons_self
    · exact List.mem_cons_of_mem _ (h.approvals id channel hl)
  answers channel approved hl := by
    obtain ⟨id, ho, ha⟩ := h.answers channel approved hl
    exact ⟨id, List.mem_cons_of_mem _ ho, List.mem_cons_of_mem _ ha⟩

end PairingManager.Sound

end Manager

section Requests

/-- The code that a request has taken, with a bound on the time at which it did. -/
def ApprovalPc.claim (now : Nat) : ApprovalPc → Option (PendingPairCode × Nat)
  | .checking pending => some (pending, now + 1)
  | .opening pending _ | .sending pending _ => some (pending, pending.expiresAt)
  | _ => none

/-- The pending approval that has not been dropped. -/
def ApprovalPc.holds : ApprovalPc → Option PendingPairingApproval
  | .sending _ approval | .holding approval | .waiting approval _ | .dropping approval _ =>
    some approval
  | _ => none

/-- A request with the code has still to be sent. -/
structure Claimed (log : List PairingEvent) (pending : PendingPairCode) (bound : Nat) : Prop where
  unsent : ∀ event, .requested pending.generation event ∉ log
  begun : .began pending.generation pending.expiresAt ∈ log
  taken : ∃ now, now < bound ∧ .taken pending.generation now ∈ log

/-- What a request can rely on. -/
structure ApprovalPc.Ok (log : List PairingEvent) (now : Nat) (pc : ApprovalPc) : Prop where
  claim : ∀ pending bound, pc.claim now = some (pending, bound) → Claimed log pending bound
  holds : ∀ approval, pc.holds = some approval →
    .opened approval.requestId approval.channel ∈ log

/-- What an answer can rely on. -/
def ApprovePc.Ok (log : List PairingEvent) (requestId : Nat) (approved : Bool) :
    ApprovePc → Prop
  | .sending channel => .opened requestId channel ∈ log ∧ .answered requestId approved ∈ log
  | _ => True

/-- The history goes on, and requests are sent for one code only. -/
def Extends (log log' : List PairingEvent) (sender : Option Nat) : Prop :=
  ∃ new, log' = new ++ log ∧ ∀ g event, .requested g event ∈ new → sender = some g

theorem Extends.refl (log : List PairingEvent) (sender : Option Nat) : Extends log log sender :=
  ⟨[], rfl, fun _ _ h => by cases h⟩

theorem Extends.cons (log : List PairingEvent) {e : PairingEvent} {sender : Option Nat}
    (he : ∀ g event, e = .requested g event → sender = some g) : Extends log (e :: log) sender :=
  ⟨[e], rfl, fun g event hmem => he g event (List.mem_singleton.mp hmem).symm⟩

theorem Extends.subset {log log' : List PairingEvent} {sender : Option Nat}
    (h : Extends log log' sender) : log ⊆ log' := by
  obtain ⟨new, rfl, -⟩ := h
  exact List.subset_append_right new log

theorem Claimed.extend {log log' : List PairingEvent} {pending : PendingPairCode}
    {bound bound' : Nat} {sender : Option Nat} (h : Claimed log pending bound)
    (hlog : Extends log log' sender) (hbound : bound ≤ bound')
    (hsender : sender ≠ some pending.generation) : Claimed log' pending bound' := by
  obtain ⟨now, hnow, htaken⟩ := h.taken
  refine ⟨fun event hmem => ?_, hlog.subset h.begun, now, hnow.trans_le hbound, hlog.subset htaken⟩
  obtain ⟨new, rfl, hnew⟩ := hlog
  rcases List.mem_append.mp hmem with hmem | hmem
  · exact hsender (hnew _ event hmem)
  · exact h.unsent event hmem

variable {c : PairingChoice} {now : Nat} {m m' : PairingManager}

theorem beginPairing_step {pc pc' : BeginPairingPc} (h : m.Sound)
    (hs : beginPairingStep c now pc m = some (m', pc')) :
    m'.Sound ∧ Extends m.history m'.history none := by
  cases pc with
  | start => cases hs; exact ⟨h, .refl _ _⟩
  | pruning now => cases hs; exact ⟨h.pruneExpired now, .refl _ _⟩
  | generating =>
    obtain ⟨code, -, heq⟩ := Option.map_eq_some_iff.mp hs
    cases heq
    exact ⟨h, .refl _ _⟩
  | inserting code expiresAt =>
    cases hs
    exact ⟨h.setCode code expiresAt, .cons _ fun g event he => by cases he⟩
  | returned => cases hs

theorem approve_step {id : Nat} {approved : Bool} {pc pc' : ApprovePc} (h : m.Sound)
    (hpc : pc.Ok m.history id approved) (hs : approveStep id approved pc m = some (m', pc')) :
    m'.Sound ∧ Extends m.history m'.history none ∧ pc'.Ok m'.history id approved := by
  cases pc with
  | removing =>
    simp only [approveStep] at hs
    split at hs <;> cases hs
    · rename_i channel hchannel
      refine ⟨?_, .cons _ fun g event he => (by cases he), ?_, List.mem_cons_self⟩
      · exact (h.closeApproval id).note trivial rfl rfl (fun _ _ he => by cases he)
          fun _ _ he => by cases he
      · exact List.mem_cons_of_mem _ (h.approvals id channel hchannel)
    · exact ⟨h, .refl _ _, trivial⟩
  | sending channel =>
    cases hs
    exact ⟨h.answer hpc.1 hpc.2, .refl _ _, trivial⟩
  | returned => cases hs

/-- One step of a request. -/
theorem approval_step {call : ApprovalCall} {pc pc' : ApprovalPc} (h : m.Sound)
    (hpc : pc.Ok m.history now) (hs : approvalStep c now call pc m = some (m', pc')) :
    m'.Sound ∧
      Extends m.history m'.history ((pc.claim now).map fun p => p.1.generation) ∧
      pc'.Ok m'.history now := by
  obtain ⟨hclaim, hholds⟩ := hpc
  have ended {log : List PairingEvent} (result : ApprovalResult) :
      ApprovalPc.Ok log now (.returned result) :=
    ⟨fun _ _ heq => (by cases heq), fun _ heq => by cases heq⟩
  have held {log : List PairingEvent} {pc : ApprovalPc} {approval : PendingPairingApproval}
      (hopened : .opened approval.requestId approval.channel ∈ log)
      (hclaim : pc.claim now = none) (hpc : pc.holds = some approval) : pc.Ok log now := by
    refine ⟨fun _ _ heq => (by cases hclaim.symm.trans heq), fun approval' heq => ?_⟩
    obtain rfl := Option.some.inj (hpc.symm.trans heq)
    exact hopened
  cases pc with
  | taking =>
    simp only [approvalStep] at hs
    split at hs <;> cases hs
    · rename_i pending hpending
      refine ⟨h.takeCode hpending now, .cons _ fun g event he => (by cases he), ⟨?_, ?_⟩⟩
      · intro pending' bound heq
        cases heq
        obtain ⟨-, huntaken, newer, older, hlog, -⟩ := h.active _ pending hpending
        refine ⟨fun event hmem => ?_, List.mem_cons_of_mem _ ?_, now, Nat.lt_succ_self _,
          List.mem_cons_self⟩
        · rcases List.mem_cons.mp hmem with heq | hmem
          · cases heq
          · obtain ⟨t, htaken⟩ := h.ordered.taken_of_requested hmem
            exact huntaken t htaken
        · rw [hlog]
          exact List.mem_append_right _ List.mem_cons_self
      · intro approval heq
        cases heq
    · exact ⟨h.chargeMiss now, .cons _ fun g event he => (by cases he), ended _⟩
  | checking pending =>
    obtain ⟨hunsent, hbegun, t, ht, htaken⟩ := hclaim pending _ rfl
    simp only [approvalStep] at hs
    split at hs <;> cases hs
    · exact ⟨h, .refl _ _, ended _⟩
    · refine ⟨h, .refl _ _, ⟨fun pending' bound heq => ?_, fun approval heq => by cases heq⟩⟩
      cases heq
      exact ⟨hunsent, hbegun, t, by omega, htaken⟩
  | opening pending remainingMs =>
    cases hs
    have hextends : Extends m.history m.openApproval.history (some pending.generation) :=
      .cons _ fun g event he => by cases he
    refine ⟨h.openApproval, hextends, ⟨fun pending' bound heq => ?_, fun approval heq => ?_⟩⟩
    · cases heq
      obtain ⟨hunsent, hbegun, t, ht, htaken⟩ := hclaim pending _ rfl
      refine ⟨fun event hmem => ?_, hextends.subset hbegun, t, ht, hextends.subset htaken⟩
      rcases List.mem_cons.mp hmem with heq | hmem
      · cases heq
      · exact hunsent event hmem
    · cases heq
      exact List.mem_cons_self
  | sending pending approval =>
    obtain ⟨hunsent, hbegun, t, ht, htaken⟩ := hclaim pending _ rfl
    have hopened := hholds approval rfl
    simp only [approvalStep] at hs
    split at hs <;> cases hs
    · refine ⟨?_, .cons _ fun g event he => ?_, held (List.mem_cons_of_mem _ hopened) rfl rfl⟩
      · exact h.note ⟨hunsent, t, pending.expiresAt, htaken, hbegun, ht⟩ rfl rfl
          (fun _ _ he => by cases he) fun _ _ he => by cases he
      · cases he
        rfl
    · exact ⟨h, .refl _ _, held hopened rfl rfl⟩
  | holding approval =>
    have hopened := hholds approval rfl
    cases hs
    split <;> exact ⟨h, .refl _ _, held hopened rfl rfl⟩
  | waiting approval deadline =>
    have hopened := hholds approval rfl
    have noted {approved : Bool} (hanswered : approved = true →
        .answered approval.requestId true ∈ m.history) :
        (m.note (.waited approval.requestId approved)).Sound := by
      refine h.note ?_ rfl rfl (fun _ _ he => by cases he) fun _ _ he => by cases he
      cases approved with
      | true => exact hanswered rfl
      | false => trivial
    simp only [approvalStep] at hs
    split at hs
    · cases hs
      exact ⟨h, .refl _ _, held hopened rfl rfl⟩
    · split at hs
      · rename_i approved hsent
        cases hs
        refine ⟨noted fun htrue => ?_, .cons _ fun g event he => (by cases he),
          held (List.mem_cons_of_mem _ hopened) rfl rfl⟩
        obtain ⟨id, hopened', hanswered⟩ := h.answers _ approved hsent
        rw [← (h.opens _ _ hopened).2.2 id hopened', ← htrue]
        exact hanswered
      · split at hs <;> cases hs
        exact ⟨noted fun htrue => (by cases htrue), .cons _ fun g event he => (by cases he),
          held (List.mem_cons_of_mem _ hopened) rfl rfl⟩
  | dropping approval result =>
    cases hs
    exact ⟨h.closeApproval _, .refl _ _, ended _⟩
  | returned => cases hs

end Requests

section Runs

/-- The generation of the code that a request has taken and not yet sent. -/
def ApprovalPc.generation (pc : ApprovalPc) : Option Nat :=
  (pc.claim 0).map fun p => p.1.generation

def PairingTask.generation : PairingTask → Option Nat
  | .beginApproval _ pc => pc.generation
  | _ => none

def PairingTask.holds : PairingTask → Option PendingPairingApproval
  | .beginApproval _ pc => pc.holds
  | _ => none

def PairingTask.Ok (s : PairingState) : PairingTask → Prop
  | .beginPairing _ => True
  | .beginApproval _ pc => pc.Ok s.manager.history s.clock
  | .approve requestId approved pc => pc.Ok s.manager.history requestId approved

/-- Two requests have not taken the same code. -/
def TookApart (x y : PairingTask) : Prop := ∀ g, x.generation = some g → y.generation ≠ some g

variable {p q : Pool PairingState PairingTask} {a : Move PairingTask PairingChoice PairingTick}
  {c : PairingChoice} {i : Nat} {s s' : PairingState} {x x' y : PairingTask}

theorem claim_generation (pc : ApprovalPc) (now : Nat) :
    ((pc.claim now).map fun p => p.1.generation) = pc.generation := by
  cases pc <;> rfl

theorem generation_of_claim {pc : ApprovalPc} {now bound : Nat} {pending : PendingPairCode}
    (h : pc.claim now = some (pending, bound)) : pc.generation = some pending.generation := by
  rw [← claim_generation pc now, h]
  rfl

theorem pairing_start (h : pairingTasking.start x = true) : x = .beginPairing .start ∨
    (∃ call, x = .beginApproval call .taking) ∨ ∃ id approved, x = .approve id approved .removing := by
  simp only [pairingTasking] at h
  split at h
  · exact .inl rfl
  · exact .inr (.inl ⟨_, rfl⟩)
  · exact .inr (.inr ⟨_, _, rfl⟩)
  · cases h

/-- One step of a task. -/
theorem pairing_step (hG : s.manager.Sound) (hL : x.Ok s)
    (hs : pairingAdvance c i x s = some (s', x')) :
    s'.manager.Sound ∧ x'.Ok s' ∧ s'.clock = s.clock ∧
      Extends s.manager.history s'.manager.history x.generation := by
  cases x with
  | beginPairing pc =>
    obtain ⟨⟨m', pc'⟩, hstep, heq⟩ := Option.map_eq_some_iff.mp hs
    cases heq
    obtain ⟨hsound, hextends⟩ := beginPairing_step hG hstep
    exact ⟨hsound, trivial, rfl, hextends⟩
  | beginApproval call pc =>
    obtain ⟨⟨m', pc'⟩, hstep, heq⟩ := Option.map_eq_some_iff.mp hs
    cases heq
    obtain ⟨hsound, hextends, hok⟩ := approval_step hG hL hstep
    rw [claim_generation] at hextends
    exact ⟨hsound, hok, rfl, hextends⟩
  | approve id approved pc =>
    obtain ⟨⟨m', pc'⟩, hstep, heq⟩ := Option.map_eq_some_iff.mp hs
    cases heq
    obtain ⟨hsound, hextends, hok⟩ := approve_step hG hL hstep
    exact ⟨hsound, hok, rfl, hextends⟩

/-- What a task relies on survives the steps of the others. -/
theorem pairing_others (hL : y.Ok s) (hclock : s.clock ≤ s'.clock)
    (hlog : Extends s.manager.history s'.manager.history x.generation) (hapart : TookApart x y) :
    y.Ok s' := by
  cases y with
  | beginPairing pc => trivial
  | beginApproval call pc =>
    refine ⟨fun pending bound heq => ?_, fun approval heq => hlog.subset (hL.holds approval heq)⟩
    have hsender : x.generation ≠ some pending.generation :=
      fun hx => hapart _ hx (generation_of_claim heq)
    cases pc with
    | checking pending' =>
      cases heq
      exact (hL.claim _ _ rfl).extend hlog (Nat.succ_le_succ hclock) hsender
    | opening pending' remainingMs =>
      cases heq
      exact (hL.claim _ _ rfl).extend hlog (Nat.le_refl _) hsender
    | sending pending' approval =>
      cases heq
      exact (hL.claim _ _ rfl).extend hlog (Nat.le_refl _) hsender
    | taking | holding | waiting | dropping | returned => cases heq
  | approve id approved pc =>
    cases pc with
    | sending channel => exact ⟨hlog.subset hL.1, hlog.subset hL.2⟩
    | removing | returned => trivial

/-- A code that a step comes to hold was held by the task before, or was active. -/
theorem generation_origin {g : Nat} (hs : pairingAdvance c i x s = some (s', x'))
    (hx' : x'.generation = some g) : x.generation = some g ∨
      ∃ code pending, s.manager.codes.lookup code = some pending ∧ pending.generation = g := by
  cases x with
  | beginPairing pc =>
    obtain ⟨⟨m', pc'⟩, -, heq⟩ := Option.map_eq_some_iff.mp hs
    cases heq
    cases hx'
  | approve id approved pc =>
    obtain ⟨⟨m', pc'⟩, -, heq⟩ := Option.map_eq_some_iff.mp hs
    cases heq
    cases hx'
  | beginApproval call pc =>
    obtain ⟨⟨m', pc'⟩, hstep, heq⟩ := Option.map_eq_some_iff.mp hs
    cases heq
    cases pc with
    | taking =>
      simp only [approvalStep] at hstep
      split at hstep <;> cases hstep
      · rename_i pending hpending
        exact .inr ⟨call.code, pending, hpending, Option.some.inj hx'⟩
      · cases hx'
    | checking pending =>
      simp only [approvalStep] at hstep
      split at hstep <;> cases hstep
      · cases hx'
      · exact .inl hx'
    | opening pending remainingMs => cases hstep; exact .inl hx'
    | sending pending approval =>
      simp only [approvalStep] at hstep
      split at hstep <;> cases hstep <;> cases hx'
    | holding approval =>
      cases hstep
      split at hx' <;> cases hx'
    | waiting approval deadline =>
      simp only [approvalStep] at hstep
      repeat' split at hstep
      all_goals cases hstep
      all_goals cases hx'
    | dropping approval result => cases hstep; cases hx'
    | returned => cases hstep

theorem tookApart_step (hsafe : Tasking.Safe (fun s => s.manager.Sound)
      (fun s _ x => PairingTask.Ok s x) p) (hp : p.Pairwise TookApart)
    (hs : pairingTasking.machine.step a p = some q) : q.Pairwise TookApart := by
  refine Tasking.pairwise_step (fun x y h g hy hx => h g hx hy) hp hs ?_ ?_
  · intro x y hx g hg
    rcases pairing_start hx with rfl | ⟨call, rfl⟩ | ⟨id, approved, rfl⟩ <;> cases hg
  · rintro i c x s' x' rfl ht hr j y hj hy g hx'
    rcases generation_origin (i := i) hr hx' with hx | ⟨code, pending, hcode, rfl⟩
    · exact hp i j x y hj.symm ht hy g hx
    · -- An active code has not been taken.
      intro hyg
      have hok := hsafe.2 j y hy
      cases y with
      | beginApproval call pc =>
        obtain ⟨⟨pending', bound⟩, hclaim, heq⟩ := Option.map_eq_some_iff.mp
          ((claim_generation pc p.shared.clock).trans hyg)
        obtain ⟨-, -, now, -, htaken⟩ := hok.claim pending' bound hclaim
        have hsame : pending'.generation = pending.generation := heq
        rw [hsame] at htaken
        exact (hsafe.1.active code pending hcode).untaken now htaken
      | beginPairing | approve => cases hyg

theorem pairing_noninterference : pairingTasking.Noninterference
    (fun p a => Machine.Any p a ∧ p.Pairwise TookApart) (fun s => s.manager.Sound)
    (fun s _ x => PairingTask.Ok s x) where
  init s hs := by
    have hnew : s.manager = .new := hs
    rw [hnew]
    exact sound_new
  fresh p i x _ _ hx := by
    rcases pairing_start hx with rfl | ⟨call, rfl⟩ | ⟨id, approved, rfl⟩
    · trivial
    · exact ⟨fun _ _ h => (by cases h), fun _ h => by cases h⟩
    · trivial
  own p i c x s' x' _ hG _ hL hs := by
    obtain ⟨hsound, hok, -⟩ := pairing_step (i := i) hG hL hs
    exact ⟨hsound, hok⟩
  others p i c x s' x' hc hG ht hL hs j y hj hy hyL := by
    obtain ⟨-, -, hclock, hextends⟩ := pairing_step (i := i) hG hL hs
    exact pairing_others hyL hclock.ge hextends (hc.2 i j x y hj.symm ht hy)
  environment p e s' keep _ hG hs := by
    cases e with
    | tick ms =>
      obtain ⟨-, hr⟩ := Option.ite_none_right_eq_some.mp hs
      cases hr
      refine ⟨hG, fun _ j y _ hyL => ?_⟩
      exact pairing_others (x := .beginPairing .start) hyL (Nat.le_add_right _ _) (.refl _ _)
        fun g hg => by cases hg

theorem contains_erase {t : Table Nat Nat} {id id' : Nat} (h : t.contains id' = false) :
    (t.erase id).contains id' = false := by
  rw [Table.contains_eq_false] at h ⊢
  rw [Table.lookup_erase, h, ite_self]

/-- A step opens the entry of its own request, or none, and closes that of its own request, or
answers it. -/
theorem approvals_fate (id : Nat) (hs : pairingAdvance c i x s = some (s', x')) :
    (s.manager.approvals.contains id = false → s'.manager.approvals.contains id = false ∨
        x'.holds.map (·.requestId) = some id) ∧
      (x.holds.map (·.requestId) = some id → x'.holds.map (·.requestId) = some id ∨
        s'.manager.approvals.contains id = false) := by
  cases x with
  | beginPairing pc =>
    obtain ⟨⟨m', pc'⟩, hstep, heq⟩ := Option.map_eq_some_iff.mp hs
    cases heq
    refine ⟨fun h => .inl ?_, fun h => by cases h⟩
    cases pc with
    | start | pruning | inserting => cases hstep; exact h
    | generating =>
      obtain ⟨code, -, heq⟩ := Option.map_eq_some_iff.mp hstep
      cases heq
      exact h
    | returned => cases hstep
  | approve id' approved pc =>
    obtain ⟨⟨m', pc'⟩, hstep, heq⟩ := Option.map_eq_some_iff.mp hs
    cases heq
    refine ⟨fun h => .inl ?_, fun h => by cases h⟩
    cases pc with
    | removing =>
      simp only [approveStep] at hstep
      split at hstep <;> cases hstep
      · exact contains_erase h
      · exact h
    | sending => cases hstep; exact h
    | returned => cases hstep
  | beginApproval call pc =>
    obtain ⟨⟨m', pc'⟩, hstep, heq⟩ := Option.map_eq_some_iff.mp hs
    cases heq
    cases pc with
    | taking | checking =>
      simp only [approvalStep] at hstep
      split at hstep <;> cases hstep <;> exact ⟨.inl, fun h => by cases h⟩
    | opening pending remainingMs =>
      cases hstep
      refine ⟨fun h => ?_, fun h => by cases h⟩
      by_cases hid : id = s.manager.requests
      · exact .inr (congrArg some hid.symm)
      · refine .inl ?_
        rw [PairingManager.openApproval, Table.contains, Table.lookup_insert_ne _ _ hid]
        exact h
    | sending pending approval =>
      simp only [approvalStep] at hstep
      split at hstep <;> cases hstep <;> exact ⟨.inl, .inl⟩
    | holding approval =>
      cases hstep
      refine ⟨.inl, fun h => .inl ?_⟩
      split <;> exact h
    | waiting approval deadline =>
      simp only [approvalStep] at hstep
      repeat' split at hstep
      all_goals cases hstep
      all_goals exact ⟨.inl, .inl⟩
    | dropping approval result =>
      cases hstep
      refine ⟨fun h => .inl (contains_erase h), fun h => .inr ?_⟩
      rw [← Option.some.inj h, PairingManager.closeApproval, Table.contains,
        Table.lookup_erase_self]
      rfl
    | returned => cases hstep

/-- The request of an entry for an answer is that of a pending approval. -/
def ApprovalsHeld (p : Pool PairingState PairingTask) : Prop :=
  ∀ id, p.Covered (fun s => s.manager.approvals.contains id = false)
    fun _ x => x.holds.map (·.requestId) = some id

theorem approvalsHeld_init (h : pairingTasking.machine.init p) : ApprovalsHeld p := by
  intro id
  have hnew : p.shared.manager = .new := h.1
  refine .inl ?_
  simp only [hnew]
  rfl

theorem approvalsHeld_step (hp : ApprovalsHeld p)
    (hs : pairingTasking.machine.step a p = some q) : ApprovalsHeld q := by
  intro id
  refine Tasking.covered_step (hp id) hs ?_ ?_ ?_ ?_
  · rintro i c x s' x' rfl - hr hcovered
    obtain ⟨hopens, hcloses⟩ := approvals_fate (i := i) id hr
    rcases hcovered with hA | hP | hothers
    · exact (hopens hA).imp_right .inl
    · exact (hcloses hP).elim (fun h => .inr (.inl h)) .inl
    · exact .inr (.inr hothers)
  · rintro i x rfl - -
    -- A request is given up by a step of its own.
    cases Tasking.stepped_of_step hs with
    | drop _ y hy hcancellable => cases hcancellable
  · rintro e s' rfl hr
    cases e with
    | tick ms =>
      obtain ⟨-, hr⟩ := Option.ite_none_right_eq_some.mp hr
      cases hr
      exact ⟨fun h => h, fun _ h => h⟩
  · rintro e s' rfl hr
    cases e with
    | tick ms =>
      obtain ⟨-, hr⟩ := Option.ite_none_right_eq_some.mp hr
      cases hr

/-- The pairing manager is safe: one code is active at most; each code leads to one request at
most, is taken before its expiry, its last wrong attempt and a newer code, and a `wait` is
told of the approval of its own request alone; and only pending approvals have entries. -/
theorem pairing_manager_safe (h : pairingTasking.machine.Reachable p) :
    p.shared.manager.codes.size ≤ 1 ∧ Ordered p.shared.manager.history ∧
      ∀ id, p.shared.manager.approvals.contains id = true →
        ∃ i x approval, p.task i = some x ∧ x.holds = some approval ∧ approval.requestId = id := by
  obtain ⟨hsafe, -⟩ := pairing_noninterference.invariant_with (fun _ => Tasking.pairwise_init)
    (fun _ _ _ hsafe hp _ hs => tookApart_step hsafe hp hs) h
  have hheld : ApprovalsHeld p := h.invariant (fun _ => approvalsHeld_init)
    fun _ _ _ hp _ hs => approvalsHeld_step hp hs
  refine ⟨hsafe.1.one, hsafe.1.ordered, fun id hid => ?_⟩
  rcases hheld id with hA | ⟨i, x, hx, hholds⟩
  · cases hid.symm.trans hA
  · obtain ⟨approval, happroval, hrequest⟩ := Option.map_eq_some_iff.mp hholds
    exact ⟨i, x, approval, hx, happroval, hrequest⟩

end Runs

section Traces

private def choice : PairingChoice := ⟨[1, 2, 3, 4, 5, 6, 7], true, false⟩

private def phone (i : Nat) : Move PairingTask PairingChoice PairingTick :=
  .spawn i (.beginApproval ⟨"1234567", "phone", "node", "sas"⟩ .taking)

private def desktop (i : Nat) : Move PairingTask PairingChoice PairingTick :=
  .spawn i (.beginPairing .start)

/-- A code, a wrong attempt, a request, its approval. -/
theorem pairing_manager_safe_run :
    ∃ p : Pool PairingState PairingTask, .waited 0 true ∈ p.shared.manager.history ∧
      .missed ∈ p.shared.manager.history ∧
      p.shared.manager.codes.size ≤ 1 ∧ Ordered p.shared.manager.history ∧
      ∀ id, p.shared.manager.approvals.contains id = true →
        ∃ i x approval, p.task i = some x ∧ x.holds = some approval ∧ approval.requestId = id := by
  obtain ⟨p, hr, hwaited, hmissed⟩ :=
    pairingTasking.machine.exists_reachable_of_exec (s := Pool.empty ⟨.new, 1000⟩) Machine.Any
      (fun p => .waited 0 true ∈ p.shared.manager.history ∧ .missed ∈ p.shared.manager.history)
      (List.flatten [[desktop 0], Move.repeated 4 0 choice,
        [.spawn 1 (.beginApproval ⟨"ZZZZZZZ", "phone", "node", "sas"⟩ .taking)],
        Move.repeated 1 1 choice, [phone 2], Move.repeated 5 2 choice,
        [.spawn 3 (.approve 0 true .removing)], Move.repeated 2 3 choice,
        Move.repeated 2 2 choice])
      (Tasking.init_empty rfl) (by decide)
  exact ⟨p, hwaited, hmissed, pairing_manager_safe hr⟩

/-- A request that has taken its code is sent after a newer code was begun. -/
theorem request_after_newer_code :
    ¬ ∀ (p : Pool PairingState PairingTask) (later earlier : List PairingEvent)
      (generation : Nat) (event : PairingApprovalEvent),
      pairingTasking.machine.Reachable p →
      p.shared.manager.history = later ++ .requested generation event :: earlier →
      ∃ newer older expiresAt, earlier = newer ++ .began generation expiresAt :: older ∧
        ∀ e ∈ newer, e.begins = false := by
  intro hall
  obtain ⟨p, hr, hhistory⟩ :=
    pairingTasking.machine.exists_reachable_of_exec (s := Pool.empty ⟨.new, 1000⟩) Machine.Any
      (fun p => p.shared.manager.history =
        [.requested 0 ⟨0, "phone", "node", "sas"⟩, .opened 0 0, .began 1 301000, .taken 0 1000,
          .began 0 301000])
      ([desktop 0] ++ Move.repeated 4 0 choice ++ [phone 1] ++ Move.repeated 1 1 choice ++
        [desktop 2] ++ Move.repeated 4 2 { choice with random := [7, 6, 5, 4, 3, 2, 1] } ++
        Move.repeated 3 1 choice)
      (Tasking.init_empty rfl) (by decide +kernel)
  obtain ⟨newer, older, expiresAt, heq, hnewer⟩ := hall p [] _ _ _ hr hhistory
  match newer, heq with
  | [], heq => cases heq
  | [_], heq => cases heq
  | _ :: e :: newer, heq =>
    have hbegan : e = .began 1 301000 := (List.cons.inj (List.cons.inj heq).2).1.symm
    have hnone := hnewer e (by simp)
    rw [hbegan] at hnone
    cases hnone

end Traces

end Shelly.Daemon
