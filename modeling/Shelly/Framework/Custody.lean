import Mathlib.Data.List.Basic

namespace Shelly.Custody

variable {ι α : Type*} [DecidableEq α]

/-- How often a thing is in the hands of the holders in a list. -/
def held (hands : ι → List α) (holders : List ι) (a : α) : Nat := (holders.flatMap hands).count a

variable {hands : ι → List α} {holders : List ι} {a : α}

@[simp] theorem held_nil : held hands [] a = 0 := rfl

@[simp] theorem held_cons (x : ι) :
    held hands (x :: holders) a = (hands x).count a + held hands holders a := by
  simp [held]

@[simp] theorem held_append (more : List ι) :
    held hands (holders ++ more) a = held hands holders a + held hands more a := by
  simp [held]

theorem held_map {κ : Type*} (f : κ → ι) (l : List κ) :
    held hands (l.map f) a = held (fun x => hands (f x)) l a := by
  simp [held, List.flatMap_map]

@[simp] theorem held_singletons (l : List α) : held (fun x => [x]) l a = l.count a := by
  induction l with
  | nil => rfl
  | cons x l ih => rw [held_cons, ih, ← List.count_append]; rfl

@[simp] theorem held_empty : held (fun _ : ι => ([] : List α)) holders a = 0 := by
  induction holders with
  | nil => rfl
  | cons x holders ih => rw [held_cons, ih]; rfl

variable (hands a) in
/-- A holder that changes what it has in hand changes the count by that much. -/
theorem held_set {k : Nat} {x : ι} (h : holders[k]? = some x) (y : ι) :
    held hands (holders.set k y) a + (hands x).count a =
      held hands holders a + (hands y).count a := by
  induction holders generalizing k with
  | nil => cases h
  | cons z holders ih =>
    cases k with
    | zero =>
      obtain rfl := Option.some.inj h
      simp only [List.set_cons_zero, held_cons]
      omega
    | succ k =>
      have hrest := ih h
      simp only [List.set_cons_succ, held_cons]
      omega

/-- Two ways to count agree when they agree on every holder. -/
theorem held_congr {hands' : ι → List α}
    (h : ∀ x ∈ holders, (hands x).count a = (hands' x).count a) :
    held hands holders a = held hands' holders a := by
  induction holders with
  | nil => rfl
  | cons x holders ih =>
    have hx := h x List.mem_cons_self
    have hrest := ih fun y hy => h y (List.mem_cons_of_mem x hy)
    rw [held_cons, held_cons, hx, hrest]

theorem held_le {hands' : ι → List α}
    (h : ∀ x ∈ holders, (hands x).count a ≤ (hands' x).count a) :
    held hands holders a ≤ held hands' holders a := by
  induction holders with
  | nil => exact Nat.le_refl _
  | cons x holders ih =>
    have hx := h x List.mem_cons_self
    have hrest := ih fun y hy => h y (List.mem_cons_of_mem x hy)
    rw [held_cons, held_cons]
    omega

theorem held_add (hands' : ι → List α) :
    held (fun x => hands x ++ hands' x) holders a =
      held hands holders a + held hands' holders a := by
  induction holders with
  | nil => rfl
  | cons x holders ih =>
    simp only [held_cons, List.count_append, ih]
    omega

end Shelly.Custody
