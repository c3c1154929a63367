import Mathlib.Order.Monotone.Basic
import Mathlib.Data.Set.Function
import Mathlib.Tactic

/-!
# Dividing a constant

Truncating division of a constant by a positive number is its own adjoint, for all numbers.
Up to the square root of the constant it loses nothing: it is its own inverse there, and so
it is strictly decreasing.
-/

namespace Reciprocal

variable {total left right : ℕ}

/-- The numbers that the quotient is not smaller than. -/
def Exact (total : ℕ) : Set ℕ :=
  {number | 0 < number ∧ number * number ≤ total}

theorem le_div_comm (leftPositive : 0 < left) (rightPositive : 0 < right) :
    left ≤ total / right ↔ right ≤ total / left := by
  rw [Nat.le_div_iff_mul_le rightPositive, Nat.le_div_iff_mul_le leftPositive, Nat.mul_comm]

theorem le_div_of_exact (exact : left ∈ Exact total) : left ≤ total / left :=
  (Nat.le_div_iff_mul_le exact.1).mpr exact.2

theorem div_pos_of_exact (exact : left ∈ Exact total) : 0 < total / left :=
  exact.1.trans_le (le_div_of_exact exact)

/-- The remainder is smaller than the divisor, and the divisor is not larger than the quotient. -/
theorem div_div_self (exact : left ∈ Exact total) : total / (total / left) = left := by
  have quotient := le_div_of_exact exact
  have remainder := Nat.mod_lt total exact.1
  have parts := Nat.div_add_mod total left
  generalize total / left = ratio at quotient parts ⊢
  generalize total % left = lost at remainder parts
  have small : lost / ratio = 0 := Nat.div_eq_of_lt (remainder.trans_le quotient)
  rw [← parts, Nat.mul_comm, Nat.mul_add_div (exact.1.trans_le quotient), small, Nat.add_zero]

theorem leftInvOn : Set.LeftInvOn (total / ·) (total / ·) (Exact total) :=
  fun _ exact => div_div_self exact

theorem strictAntiOn : StrictAntiOn (total / ·) (Exact total) := by
  intro left leftExact right rightExact less
  have order : total / right ≤ total / left := Nat.div_le_div_left less.le leftExact.1
  refine order.lt_of_ne fun same => ?_
  have equal := leftInvOn.injOn rightExact leftExact same
  exact less.ne' equal

end Reciprocal
