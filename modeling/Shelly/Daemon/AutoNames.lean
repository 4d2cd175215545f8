import Mathlib.Data.Finset.Basic
import Mathlib.Data.Finset.Image
import Mathlib.Data.List.GetD
import Shelly.Daemon.Creation

namespace Shelly.Daemon

/-- A creation that nobody else interferes with, with the choices of its steps. -/
def createRun (host : HostEnv) (i : Nat) (clientKind : ClientKind) (call : CreateCall)
    (choices : List RegistryChoice) (x : Registry × CreatePc) : Option (Registry × CreatePc) :=
  choices.foldlM (fun x c => createStep host c i clientKind call x.2 x.1) x

def Registry.reserve (r : Registry) (name : String) : Registry :=
  { r with app := { r.app with sessionNames := insert name r.app.sessionNames } }

section Candidates

theorem autoSessionName_ne_empty (start attempt : Nat) : autoSessionName start attempt ≠ "" := by
  have hall : ∀ name ∈ autoSessionNames, name ≠ "" := by decide
  have hget (k : Nat) : autoSessionNames.getD (k % autoSessionNames.length) "" ≠ "" := by
    have hlt : k % autoSessionNames.length < autoSessionNames.length :=
      Nat.mod_lt _ (by decide)
    rw [List.getD_eq_getElem _ _ hlt]
    exact hall _ (List.getElem_mem hlt)
  rw [autoSessionName]
  dsimp only
  split_ifs
  · exact hget _
  · intro hempty
    have hparts := String.append_eq_empty_iff.mp hempty
    exact hget start hparts.1

/-- After 2^32 suffixes the names come again. -/
theorem exists_attempt_lt (start attempt : Nat) :
    ∃ attempt' < autoSessionNames.length + 2 ^ 32,
      autoSessionName start attempt = autoSessionName start attempt' := by
  by_cases hlt : attempt < autoSessionNames.length
  · exact ⟨attempt, Nat.lt_add_right _ hlt, rfl⟩
  · let suffix := (attempt - autoSessionNames.length) % 2 ^ 32
    have hsuffix : suffix < 2 ^ 32 := Nat.mod_lt _ (by decide)
    refine ⟨autoSessionNames.length + suffix, Nat.add_lt_add_left hsuffix _, ?_⟩
    have hnot : ¬ autoSessionNames.length + suffix < autoSessionNames.length := by omega
    have hsame : Int.bmod ((attempt - autoSessionNames.length + 2 : Nat) : Int) (2 ^ 32) =
        Int.bmod ((autoSessionNames.length + suffix - autoSessionNames.length + 2 : Nat) : Int)
          (2 ^ 32) := by
      rw [← Int.emod_bmod, ← Int.emod_bmod (autoSessionNames.length + _ - _ + 2 : Nat)]
      congr 1
      omega
    rw [autoSessionName, autoSessionName]
    dsimp only
    rw [if_neg hlt, if_neg hnot, hsame]

end Candidates

section Runs

variable {host : HostEnv} {i : Nat} {clientKind : ClientKind} {call : CreateCall}
  {c : RegistryChoice} {r r' : Registry} {pc pc' : CreatePc} {start attempt : Nat}
  {names : Finset String}

/-- The names that are in use while a creation is on its way, if they were `names` before. -/
def CreatePc.Names (names : Finset String) : CreatePc → Finset String → Prop
  | .start, s | .reserving _, s | .autoNaming _ _, s | .returned (.failed _), s => s = names
  | .spawning name, s | .dropping name _, s => name ∉ names ∧ s = insert name names
  | _, _ => True

/-- A step that reserves a name takes one that is free, and a step that fails gives it back. -/
theorem names_createStep (h : pc.Names names r.app.sessionNames)
    (hs : createStep host c i clientKind call pc r = some (r', pc')) :
    pc'.Names names r'.app.sessionNames := by
  cases pc with
  | start =>
    simp only [createStep] at hs
    split at hs
    · cases hs
      exact h
    · split at hs <;> (cases hs; exact h)
  | reserving name =>
    simp only [createStep] at hs
    obtain rfl : r.app.sessionNames = names := h
    split at hs
    · cases hs
      exact rfl
    · next hfree =>
      cases hs
      exact ⟨hfree, rfl⟩
  | autoNaming start attempt =>
    simp only [createStep] at hs
    obtain rfl : r.app.sessionNames = names := h
    split at hs
    · cases hs
      exact rfl
    · next hfree =>
      cases hs
      exact ⟨hfree, rfl⟩
  | spawning name =>
    simp only [createStep] at hs
    split at hs
    · cases hs
      exact h
    · split at hs
      · split at hs
        · cases hs
          trivial
        · cases hs
      · cases hs
        exact h
  | dropping name message =>
    obtain ⟨hfree, hnames⟩ := h
    cases hs
    change r.app.sessionNames.erase name = names
    rw [hnames, Finset.erase_insert hfree]
  | unrestoring | inserting | forwarding | publishing =>
    cases hs
    trivial
  | returned => cases hs

theorem names_createRun {choices : List RegistryChoice} {x : Registry × CreatePc}
    (h : pc.Names names r.app.sessionNames)
    (hrun : createRun host i clientKind call choices (r, pc) = some x) :
    x.2.Names names x.1.app.sessionNames := by
  induction choices generalizing r pc with
  | nil =>
    cases hrun
    exact h
  | cons c choices ih =>
    rw [createRun, List.foldlM_cons] at hrun
    obtain ⟨⟨r', pc'⟩, hstep, hrest⟩ := Option.bind_eq_some_iff.mp hrun
    exact ih (names_createStep h hstep) hrest

/-- A candidate that is taken is passed over. -/
theorem createStep_taken (h : autoSessionName start attempt ∈ r.app.sessionNames) :
    createStep host c i clientKind call (.autoNaming start attempt) r =
      some (r, .autoNaming start (attempt + 1)) := by
  simp only [createStep, if_pos h]

theorem createStep_free (h : autoSessionName start attempt ∉ r.app.sessionNames) :
    createStep host c i clientKind call (.autoNaming start attempt) r =
      some (r.reserve (autoSessionName start attempt),
        .spawning (autoSessionName start attempt)) := by
  simp only [createStep, if_neg h]
  rfl

/-- As long as the candidates are taken, the search goes on. -/
theorem createRun_taken (n : Nat)
    (h : ∀ k < n, autoSessionName start (attempt + k) ∈ r.app.sessionNames) :
    createRun host i clientKind call (List.replicate n c) (r, .autoNaming start attempt) =
      some (r, .autoNaming start (attempt + n)) := by
  induction n generalizing attempt with
  | zero => rfl
  | succ n ih =>
    have hfirst : autoSessionName start attempt ∈ r.app.sessionNames := h 0 (by omega)
    have hlater (k : Nat) (hk : k < n) :
        autoSessionName start (attempt + 1 + k) ∈ r.app.sessionNames := by
      have hnext := h (k + 1) (by omega)
      rwa [Nat.add_right_comm attempt 1 k]
    have hrest := ih hlater
    rw [List.replicate_succ, createRun, List.foldlM_cons, createStep_taken hfirst]
    rw [Nat.add_right_comm attempt 1 n] at hrest
    exact hrest

/-- The search ends at the first candidate that is free. -/
theorem createRun_free (h : ∃ attempt, autoSessionName start attempt ∉ r.app.sessionNames) :
    ∃ n name, createRun host i clientKind call (List.replicate n c) (r, .autoNaming start 0) =
      some (r.reserve name, .spawning name) ∧ name ∉ r.app.sessionNames ∧ name ≠ "" := by
  let first := Nat.find h
  have hfree : autoSessionName start first ∉ r.app.sessionNames := Nat.find_spec h
  have htaken (k : Nat) (hk : k < first) :
      autoSessionName start (0 + k) ∈ r.app.sessionNames := by
    rw [Nat.zero_add]
    exact not_not.mp (Nat.find_min h hk)
  have hsearch : createRun host i clientKind call (List.replicate first c)
      (r, .autoNaming start 0) = some (r, .autoNaming start (0 + first)) :=
    createRun_taken first htaken
  refine ⟨first + 1, autoSessionName start first, ?_, hfree, autoSessionName_ne_empty start first⟩
  rw [Nat.zero_add, createRun] at hsearch
  rw [List.replicate_succ', createRun, List.foldlM_append, hsearch, Option.bind_eq_bind,
    Option.bind_some, List.foldlM_cons, createStep_free hfree]
  rfl

/-- A search without a free candidate never ends. -/
theorem createRun_full (h : ∀ attempt, autoSessionName start attempt ∈ r.app.sessionNames)
    (n : Nat) : createRun host i clientKind call (List.replicate n c) (r, .autoNaming start 0) =
      some (r, .autoNaming start n) := by
  have hsearch : createRun host i clientKind call (List.replicate n c)
      (r, .autoNaming start 0) = some (r, .autoNaming start (0 + n)) :=
    createRun_taken n fun k _ => h (0 + k)
  rwa [Nat.zero_add] at hsearch

end Runs

/-- A registry in which every candidate is taken. -/
private def fullRegistry : Registry :=
  { Registry.new with
    app := { AppState.new with
      sessionNames :=
        (Finset.range (autoSessionNames.length + 2 ^ 32)).image (autoSessionName 0) } }

end Shelly.Daemon
