import Shelly.Daemon.Dispatch
import Shelly.Daemon.PairingSafety

namespace Shelly.Daemon

section Request

/-- The desktop was asked about a device with this identity, and the request was answered
with yes. -/
def Approved (log : List PairingEvent) (id : String) : Prop :=
  ∃ requestId generation name sas,
    .requested generation ⟨requestId, name, id, sas⟩ ∈ log ∧ .waited requestId true ∈ log

/-- The request of the call has been sent. -/
def Sent (log : List PairingEvent) (call : ApprovalCall) (requestId : Nat) : Prop :=
  ∃ generation,
    .requested generation ⟨requestId, call.deviceName, call.deviceNodeId, call.sas⟩ ∈ log

/-- What the history knows of a request from the moment it has been sent. -/
def ApprovalPc.Asked (log : List PairingEvent) (call : ApprovalCall) : ApprovalPc → Prop
  | .holding approval => Sent log call approval.requestId
  | .waiting approval _ => Sent log call approval.requestId
  | .dropping _ result => result = .waited true → Approved log call.deviceNodeId
  | .returned result => result = .waited true → Approved log call.deviceNodeId
  | _ => True

variable {log log' : List PairingEvent} {call : ApprovalCall} {c : PairingChoice} {now : Nat}
  {m m' : PairingManager}

theorem Approved.mono {id : String} (h : Approved log id) (hlog : log ⊆ log') :
    Approved log' id := by
  obtain ⟨requestId, generation, name, sas, hrequested, hwaited⟩ := h
  exact ⟨requestId, generation, name, sas, hlog hrequested, hlog hwaited⟩

theorem Sent.mono {requestId : Nat} (h : Sent log call requestId) (hlog : log ⊆ log') :
    Sent log' call requestId := by
  obtain ⟨generation, hrequested⟩ := h
  exact ⟨generation, hlog hrequested⟩

theorem ApprovalPc.Asked.mono {pc : ApprovalPc} (h : pc.Asked log call) (hlog : log ⊆ log') :
    pc.Asked log' call := by
  cases pc with
  | holding approval => exact Sent.mono h hlog
  | waiting approval deadline => exact Sent.mono h hlog
  | dropping approval result => exact fun hr => (h hr).mono hlog
  | returned result => exact fun hr => (h hr).mono hlog
  | taking | checking | opening | sending => trivial

/-- One step of a request. -/
theorem asked_step {pc pc' : ApprovalPc} (h : pc.Asked m.history call)
    (hs : approvalStep c now call pc m = some (m', pc')) : pc'.Asked m'.history call := by
  cases pc with
  | taking =>
    simp only [approvalStep] at hs
    split at hs <;> cases hs
    · trivial
    · exact fun hr => by cases hr
  | checking pending =>
    simp only [approvalStep] at hs
    split at hs <;> cases hs
    · exact fun hr => by cases hr
    · trivial
  | opening pending remainingMs => cases hs; trivial
  | sending pending approval =>
    simp only [approvalStep] at hs
    split at hs <;> cases hs
    · exact ⟨pending.generation, List.mem_cons_self⟩
    · exact fun hr => by cases hr
  | holding approval =>
    simp only [approvalStep, Option.some.injEq] at hs
    split at hs <;> cases hs
    · exact fun hr => by cases hr
    · exact h
  | waiting approval deadline =>
    simp only [approvalStep] at hs
    split at hs
    · cases hs
      exact fun hr => by cases hr
    · split at hs
      · rename_i approved hanswer
        cases hs
        obtain ⟨generation, hrequested⟩ := h
        intro hr
        cases hr
        exact ⟨approval.requestId, generation, call.deviceName, call.sas,
          List.mem_cons_of_mem _ hrequested, List.mem_cons_self⟩
      · split at hs
        · cases hs
          exact fun hr => by cases hr
        · cases hs
  | dropping approval result =>
    cases hs
    exact h
  | returned result => cases hs

end Request

section Behind

/-- What stands behind the answers of the manager. Each channel is one request's, and a request
is told of an approval only if it was `granted`. -/
structure PairingManager.Vouched (granted : Nat → Prop) (m : PairingManager) : Prop where
  opens : Opens m.history m.requests m.channels
  approvals : ∀ id channel, m.approvals.lookup id = some channel → .opened id channel ∈ m.history
  answers : ∀ channel, m.answers.lookup channel = some true →
    ∃ id, .opened id channel ∈ m.history ∧ granted id
  waited : ∀ id, .waited id true ∈ m.history → granted id

/-- What stands behind an answer that is on its way. -/
def ApprovePc.Behind (granted : Nat → Prop) (log : List PairingEvent) (requestId : Nat)
    (approved : Bool) : ApprovePc → Prop
  | .sending channel => .opened requestId channel ∈ log ∧ (approved = true → granted requestId)
  | _ => True

/-- The pending approval of a request has been opened. -/
def ApprovalPc.Opened (log : List PairingEvent) (pc : ApprovalPc) : Prop :=
  ∀ approval, pc.holds = some approval → .opened approval.requestId approval.channel ∈ log

variable {granted granted' : Nat → Prop} {m m' : PairingManager} {c : PairingChoice} {now : Nat}

theorem vouched_new : PairingManager.new.Vouched granted where
  opens _ _ h := by cases h
  approvals id _ h := by cases (Table.lookup_empty id).symm.trans h
  answers channel h := by cases (Table.lookup_empty channel).symm.trans h
  waited _ h := by cases h

namespace PairingManager.Vouched

theorem mono (h : m.Vouched granted) (hg : ∀ id, granted id → granted' id) :
    m.Vouched granted' where
  opens := h.opens
  approvals := h.approvals
  answers channel hl := by
    obtain ⟨id, hopened, hid⟩ := h.answers channel hl
    exact ⟨id, hopened, hg id hid⟩
  waited id hw := hg id (h.waited id hw)

/-- An event that opens no request. -/
theorem note (h : m.Vouched granted) {e : PairingEvent}
    (hopened : ∀ id channel, e ≠ .opened id channel)
    (hwaited : ∀ id, e = .waited id true → granted id) : (m.note e).Vouched granted where
  opens := h.opens.cons hopened
  approvals id channel hl := List.mem_cons_of_mem e (h.approvals id channel hl)
  answers channel hl := by
    obtain ⟨id, ho, hid⟩ := h.answers channel hl
    exact ⟨id, List.mem_cons_of_mem e ho, hid⟩
  waited id hw := by
    rcases List.mem_cons.mp hw with heq | hw
    · exact hwaited id heq.symm
    · exact h.waited id hw

/-- Codes are of no concern. -/
theorem setCodes (h : m.Vouched granted) (codes : Table String PendingPairCode)
    (generations : Nat) :
    PairingManager.Vouched granted { m with codes := codes, generations := generations } :=
  ⟨h.opens, h.approvals, h.answers, h.waited⟩

theorem closeApproval (h : m.Vouched granted) (id : Nat) :
    (m.closeApproval id).Vouched granted where
  opens := h.opens
  approvals id' channel hl := h.approvals id' channel (Table.includes_erase _ _ _ _ hl)
  answers := h.answers
  waited := h.waited

theorem openApproval (h : m.Vouched granted) : m.openApproval.Vouched granted where
  opens := h.opens.openApproval
  approvals id channel hl := by
    rw [PairingManager.openApproval, Table.lookup_insert] at hl
    split at hl
    · next heq =>
      rw [heq, ← Option.some.inj hl]
      exact List.mem_cons_self
    · exact List.mem_cons_of_mem _ (h.approvals id channel hl)
  answers channel hl := by
    obtain ⟨id, ho, hid⟩ := h.answers channel hl
    exact ⟨id, List.mem_cons_of_mem _ ho, hid⟩
  waited id hw := by
    rcases List.mem_cons.mp hw with heq | hw
    · cases heq
    · exact h.waited id hw

theorem answer (h : m.Vouched granted) {id channel : Nat} {approved : Bool}
    (hopened : .opened id channel ∈ m.history) (hgranted : approved = true → granted id) :
    (m.answer channel approved).Vouched granted where
  opens := h.opens
  approvals := h.approvals
  answers channel' hl := by
    rw [PairingManager.answer, Table.lookup_insert] at hl
    split at hl
    · next heq =>
      rw [heq]
      exact ⟨id, hopened, hgranted (Option.some.inj hl)⟩
    · exact h.answers channel' hl
  waited := h.waited

end PairingManager.Vouched

theorem vouched_beginPairing {pc pc' : BeginPairingPc} (h : m.Vouched granted)
    (hs : beginPairingStep c now pc m = some (m', pc')) :
    m'.Vouched granted ∧ m.history ⊆ m'.history := by
  cases pc with
  | start =>
    cases hs
    exact ⟨h, List.Subset.refl _⟩
  | pruning now =>
    cases hs
    exact ⟨h.setCodes _ _, List.Subset.refl _⟩
  | generating =>
    obtain ⟨code, -, heq⟩ := Option.map_eq_some_iff.mp hs
    cases heq
    exact ⟨h, List.Subset.refl _⟩
  | inserting code expiresAt =>
    cases hs
    have hnoted := h.note (e := .began m.generations expiresAt) (fun _ _ he => by cases he)
      fun _ he => by cases he
    exact ⟨hnoted.setCodes _ _, List.subset_cons_self _ _⟩
  | returned => cases hs

theorem vouched_approve {id : Nat} {approved : Bool} {pc pc' : ApprovePc}
    (h : m.Vouched granted) (hgranted : approved = true → granted id)
    (hpc : pc.Behind granted m.history id approved)
    (hs : approveStep id approved pc m = some (m', pc')) :
    m'.Vouched granted ∧ m.history ⊆ m'.history ∧ pc'.Behind granted m'.history id approved := by
  cases pc with
  | removing =>
    simp only [approveStep] at hs
    split at hs
    · next channel hchannel =>
      cases hs
      refine ⟨(h.closeApproval id).note (fun _ _ he => by cases he) (fun _ he => by cases he),
        List.subset_cons_self _ _, ?_, hgranted⟩
      exact List.mem_cons_of_mem _ (h.approvals id channel hchannel)
    · cases hs
      exact ⟨h, List.Subset.refl _, trivial⟩
  | sending channel =>
    cases hs
    exact ⟨h.answer hpc.1 hpc.2, List.Subset.refl _, trivial⟩
  | returned => cases hs

/-- One step of a request. -/
theorem vouched_approval {call : ApprovalCall} {pc pc' : ApprovalPc} (h : m.Vouched granted)
    (hpc : pc.Opened m.history) (hs : approvalStep c now call pc m = some (m', pc')) :
    m'.Vouched granted ∧ m.history ⊆ m'.history ∧ pc'.Opened m'.history := by
  cases pc with
  | taking =>
    simp only [approvalStep] at hs
    split at hs
    · next pending hpending =>
      cases hs
      have hnoted := h.note (e := .taken pending.generation now) (fun _ _ he => by cases he)
        fun _ he => by cases he
      exact ⟨hnoted.setCodes _ _, List.subset_cons_self _ _, fun _ he => by cases he⟩
    · cases hs
      have hnoted := h.note (e := .missed) (fun _ _ he => by cases he) fun _ he => by cases he
      exact ⟨hnoted.setCodes _ _, List.subset_cons_self _ _, fun _ he => by cases he⟩
  | checking pending =>
    simp only [approvalStep] at hs
    split at hs
    · cases hs
      exact ⟨h, List.Subset.refl _, fun _ he => by cases he⟩
    · cases hs
      exact ⟨h, List.Subset.refl _, fun _ he => by cases he⟩
  | opening pending remainingMs =>
    cases hs
    refine ⟨h.openApproval, List.subset_cons_self _ _, fun approval he => ?_⟩
    cases he
    exact List.mem_cons_self
  | sending pending approval =>
    simp only [approvalStep] at hs
    split at hs
    · cases hs
      refine ⟨h.note (fun _ _ he => by cases he) (fun _ he => by cases he),
        List.subset_cons_self _ _, fun approval' he => ?_⟩
      exact List.mem_cons_of_mem _ (hpc approval' he)
    · cases hs
      exact ⟨h, List.Subset.refl _, hpc⟩
  | holding approval =>
    cases hs
    refine ⟨h, List.Subset.refl _, fun approval' he => hpc approval' ?_⟩
    split at he
    · exact he
    · exact he
  | waiting approval deadline =>
    simp only [approvalStep] at hs
    split at hs
    · cases hs
      exact ⟨h, List.Subset.refl _, hpc⟩
    · split at hs
      · next approved hanswer =>
        cases hs
        refine ⟨h.note (fun _ _ he => by cases he) (fun id he => ?_), List.subset_cons_self _ _,
          fun approval' he => List.mem_cons_of_mem _ (hpc approval' he)⟩
        -- The answer was sent to the channel of this request.
        cases he
        obtain ⟨id, hopened, hid⟩ := h.answers _ hanswer
        rw [← (h.opens _ _ (hpc approval rfl)).2.2 id hopened]
        exact hid
      · split at hs
        · cases hs
          exact ⟨h.note (fun _ _ he => by cases he) (fun _ he => by cases he),
            List.subset_cons_self _ _,
            fun approval' he => List.mem_cons_of_mem _ (hpc approval' he)⟩
        · cases hs
  | dropping approval result =>
    cases hs
    exact ⟨h.closeApproval _, List.Subset.refl _, fun _ he => by cases he⟩
  | returned => cases hs

end Behind

end Shelly.Daemon
