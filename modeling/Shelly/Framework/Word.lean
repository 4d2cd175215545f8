import Mathlib.Algebra.Group.Int.Defs
import Mathlib.Algebra.Group.Nat.Defs
import Mathlib.Data.Int.Notation

namespace Shelly

/-- The largest unsigned 64-bit number. -/
def u64Max : Nat := 2 ^ 64 - 1

def checkedAdd (a b : Nat) : Option Nat := if a + b ≤ u64Max then some (a + b) else none

def saturatingAdd (a b : Nat) : Nat := min (a + b) u64Max

/-- The cast of an unsigned 64-bit number to a signed one. -/
def asI64 (a : Nat) : Int := Int.bmod a (2 ^ 64)

theorem checkedAdd_of_le {a b : Nat} (h : a + b ≤ u64Max) : checkedAdd a b = some (a + b) :=
  if_pos h

theorem saturatingAdd_of_le {a b : Nat} (h : a + b ≤ u64Max) : saturatingAdd a b = a + b :=
  Nat.min_eq_left h

theorem asI64_of_lt {a : Nat} (h : a < 2 ^ 63) : asI64 a = a := by
  unfold asI64
  apply Int.bmod_eq_of_le <;> omega

/-- The cast never gains. -/
theorem asI64_le (a : Nat) : asI64 a ≤ a := by
  unfold asI64
  rw [Int.bmod_def]
  split <;> omega

end Shelly
