import Mathlib.Data.List.Basic

namespace Shelly

section Extract

variable {α : Type*} {l m : List α} {a b c : Nat}

theorem extract_self : l.extract a a = [] := by simp

theorem extract_append_extract (hab : a ≤ b) (hbc : b ≤ c) :
    l.extract a b ++ l.extract b c = l.extract a c := by
  simp only [List.extract_eq_take_drop]
  have hb : l.drop b = (l.drop a).drop (b - a) := by rw [List.drop_drop]; congr 1; omega
  have hc : c - a = (b - a) + (c - b) := by omega
  rw [hb, hc, List.take_add]

/-- What a list holds before its end does not change when the list grows. -/
theorem extract_append_left (hb : b ≤ l.length) : (l ++ m).extract a b = l.extract a b := by
  simp only [List.extract_eq_take_drop]
  rcases Nat.le_total a b with hab | hba
  · rw [List.drop_append_of_le_length (Nat.le_trans hab hb),
      List.take_append_of_le_length (by rw [List.length_drop]; omega)]
  · rw [Nat.sub_eq_zero_of_le hba]; rfl

theorem length_extract_of_le (hb : b ≤ l.length) : (l.extract a b).length = b - a := by
  simp only [List.extract_eq_take_drop, List.length_take, List.length_drop]
  omega

theorem extract_length_eq_drop : l.extract a l.length = l.drop a := by
  simp only [List.extract_eq_take_drop]
  exact List.take_of_length_le (Nat.le_of_eq List.length_drop)

theorem extract_length_append :
    (l ++ m).extract l.length (l.length + m.length) = m := by
  simp [List.extract_eq_take_drop]

/-- A prefix of a part is a part that starts at the same place. -/
theorem eq_extract_of_prefix {k : List α} (hk : k <+: l.extract a b) (hab : a ≤ b)
    (hb : b ≤ l.length) : a + k.length ≤ b ∧ k = l.extract a (a + k.length) := by
  have hlen := hk.length_le
  rw [length_extract_of_le hb] at hlen
  refine ⟨by omega, ?_⟩
  have htake := List.prefix_iff_eq_take.mp hk
  rw [List.extract_eq_take_drop, List.take_take, Nat.min_eq_left hlen] at htake
  rw [List.extract_eq_take_drop, Nat.add_sub_cancel_left]
  exact htake

end Extract

/-- A reader that consumes the messages in order moves from the first position to
the last one. `R` says what one message does to the position. -/
inductive Trail {π μ : Type*} (R : π → μ → π → Prop) : π → List μ → π → Prop
  | nil (x : π) : Trail R x [] x
  | cons {x y z : π} {m : μ} {ms : List μ} : R x m y → Trail R y ms z → Trail R x (m :: ms) z

namespace Trail

variable {π μ : Type*} {R S : π → μ → π → Prop} {x y z : π} {m : μ} {ms ns : List μ}

@[simp] theorem nil_iff : Trail R x [] y ↔ x = y := by
  constructor
  · rintro ⟨⟩; rfl
  · rintro rfl; exact .nil x

theorem cons_iff : Trail R x (m :: ms) z ↔ ∃ y, R x m y ∧ Trail R y ms z := by
  constructor
  · rintro (_ | ⟨hm, hms⟩); exact ⟨_, hm, hms⟩
  · rintro ⟨y, hm, hms⟩; exact .cons hm hms

theorem append_iff : Trail R x (ms ++ ns) z ↔ ∃ y, Trail R x ms y ∧ Trail R y ns z := by
  induction ms generalizing x with
  | nil => simp
  | cons m ms ih =>
    simp only [List.cons_append, cons_iff, ih]
    constructor
    · rintro ⟨y, hm, w, hms, hns⟩; exact ⟨w, ⟨y, hm, hms⟩, hns⟩
    · rintro ⟨w, ⟨y, hm, hms⟩, hns⟩; exact ⟨y, hm, w, hms, hns⟩

theorem snoc (h : Trail R x ms y) (hm : R y m z) : Trail R x (ms ++ [m]) z :=
  append_iff.mpr ⟨y, h, .cons hm (.nil z)⟩

theorem mono (hRS : ∀ x m y, R x m y → S x m y) (h : Trail R x ms y) : Trail S x ms y := by
  induction h with
  | nil x => exact .nil x
  | cons hm _ ih => exact .cons (hRS _ _ _ hm) ih

/-- Messages that leave the position alone make a trail in place. -/
theorem of_still (h : ∀ m ∈ ms, R x m x) : Trail R x ms x := by
  induction ms with
  | nil => exact .nil x
  | cons m ms ih =>
    exact .cons (h m List.mem_cons_self) (ih fun n hn => h n (List.mem_cons_of_mem m hn))

end Trail

/-- A broadcast channel. `sent` is every message ever sent; a receiver that falls
more than `capacity` messages behind loses the older ones. -/
structure Broadcast (μ : Type*) where
  capacity : Nat
  sent : List μ
  deriving DecidableEq

/-- What a receiver is given next. -/
inductive Received (μ : Type*)
  | message (m : μ)
  | lagged (skipped : Nat)
  deriving DecidableEq

namespace Broadcast

variable {μ : Type*}

def channel (capacity : Nat) : Broadcast μ := ⟨capacity, []⟩

def send (b : Broadcast μ) (m : μ) : Broadcast μ := { b with sent := b.sent ++ [m] }

/-- A receiver is the position of the next message it will be given. -/
def subscribe (b : Broadcast μ) : Nat := b.sent.length

/-- What is received at a position and the receiver's next position; `none` while
there is nothing to receive. -/
def recv (b : Broadcast μ) (next : Nat) : Option (Received μ × Nat) :=
  if next + b.capacity < b.sent.length then
    some (.lagged (b.sent.length - b.capacity - next), b.sent.length - b.capacity)
  else
    b.sent[next]?.map fun m => (.message m, next + 1)

@[simp] theorem send_sent (b : Broadcast μ) (m : μ) : (b.send m).sent = b.sent ++ [m] := rfl

theorem mem_drop_send {b : Broadcast μ} {m x : μ} {next : Nat}
    (h : x ∈ (b.send m).sent.drop next) : x ∈ b.sent.drop next ∨ x = m := by
  rw [send_sent, List.drop_append] at h
  rcases List.mem_append.mp h with h | h
  · exact .inl h
  · exact .inr (List.mem_singleton.mp (List.mem_of_mem_drop h))

/-- A message that is received is the next one that was sent. -/
theorem drop_of_recv_message {b : Broadcast μ} {next next' : Nat} {m : μ}
    (h : b.recv next = some (.message m, next')) :
    next' = next + 1 ∧ b.sent.drop next = m :: b.sent.drop next' := by
  unfold recv at h
  split at h
  · cases h
  · obtain ⟨m', hm, heq⟩ := Option.map_eq_some_iff.mp h
    cases heq
    obtain ⟨hlt, hget⟩ := List.getElem?_eq_some_iff.mp hm
    exact ⟨rfl, by rw [List.drop_eq_getElem_cons hlt, hget]⟩

/-- A receiver that is told of a loss moves on. -/
theorem le_of_recv_lagged {b : Broadcast μ} {next next' skipped : Nat}
    (h : b.recv next = some (.lagged skipped, next')) : next ≤ next' := by
  unfold recv at h
  split at h
  · rename_i hlag
    cases h
    omega
  · obtain ⟨m, -, heq⟩ := Option.map_eq_some_iff.mp h
    cases heq

end Broadcast

/-- A watch channel holds the last value that was sent and counts how often one was. A receiver is
the count that it has seen. -/
structure Watch (μ : Type*) where
  version : Nat
  value : μ
  deriving DecidableEq

namespace Watch

variable {μ : Type*}

def channel (value : μ) : Watch μ := ⟨0, value⟩

def send (w : Watch μ) (value : μ) : Watch μ := ⟨w.version + 1, value⟩

/-- Something was sent that the receiver has not seen. -/
def changed (w : Watch μ) (seen : Nat) : Bool := decide (seen < w.version)

end Watch
end Shelly
