import Mathlib.Data.Nat.Dist
import Poolserver.Stratum.ShareLimiter

/-!
# The variance of a retarget

The share limiter compares the change of the difficulty in percent with two limits. It computes
the change in unsigned arithmetic: a fall of the difficulty wraps around, and what is divided
is the distance to a multiple of `2 ^ 64`.
-/

namespace Poolserver.Stratum.ShareLimiter

/-- The change of a difficulty in percent, rounded down. -/
def percentChange (newDiff diff : ℕ) : ℕ :=
  100 * Nat.dist newDiff diff / diff

/-- A division of `top - part` borrows if the rest of `part` is more than that of `top`. -/
def borrow (top part diff : ℕ) : ℕ :=
  if top % diff < part % diff then 1 else 0

/-- The least multiple of `2 ^ 64` that is not below a number. -/
def wrapLimit (part : ℕ) : ℕ :=
  (part + (2 ^ 64 - 1)) / 2 ^ 64 * 2 ^ 64

/--
In the low half of the quotient, the multiple of `2 ^ 64` at which a fall wraps around leaves
nothing but the change, with either sign.
-/
def FallShows (fall diff : ℕ) : Prop :=
  let quotient := wrapLimit (100 * fall) / diff
  let borrowed := borrow (wrapLimit (100 * fall)) (100 * fall) diff
  quotient % 2 ^ 32 = borrowed ∨
    quotient % 2 ^ 32 = (2 * (100 * fall / diff) + borrowed) % 2 ^ 32

/-- Where the variance is the true change. -/
def VarianceExact (newDiff diff : ℕ) : Prop :=
  if diff ≤ newDiff then percentChange newDiff diff ≤ 2 ^ 31
  else FallShows (diff - newDiff) diff

instance (newDiff diff : ℕ) : Decidable (VarianceExact newDiff diff) := by
  unfold VarianceExact FallShows
  infer_instance

/--
The variance is the change in percent, and a fall of the difficulty is not taken for a huge
variance, which would discard the jobs.
-/
structure TrueVariance (newDiff diff : UInt64) : Prop where
  exact : (variance newDiff diff).toNat = percentChange newDiff.toNat diff.toNat
  keepsJobs : newDiff < diff → ¬2000 < variance newDiff diff

/-! ## Arithmetic -/

theorem sub_div_add {top part diff : ℕ} (within : part ≤ top) (positive : 0 < diff) :
    (top - part) / diff + part / diff + borrow top part diff = top / diff := by
  have topEq := Nat.div_add_mod top diff
  have partEq := Nat.div_add_mod part diff
  have topRest := Nat.mod_lt top positive
  have partRest := Nat.mod_lt part positive
  have quotients : part / diff ≤ top / diff := Nat.div_le_div_right within
  rcases Nat.exists_eq_add_of_le quotients with ⟨more, moreEq⟩
  have spread : diff * (top / diff) = diff * (part / diff) + diff * more := by
    rw [moreEq, Nat.mul_add]
  unfold borrow
  split
  · rename_i borrows
    have moreOne : 1 ≤ more := by
      by_contra none
      have zero : more = 0 := by omega
      rw [zero, Nat.mul_zero] at spread
      omega
    rcases Nat.exists_eq_add_of_le moreOne with ⟨rest, restEq⟩
    have spreadRest : diff * more = diff + diff * rest := by
      rw [restEq, Nat.mul_add, Nat.mul_one]
    have quotient : (top - part) / diff = rest := by
      apply Nat.div_eq_of_lt_le
      · rw [Nat.mul_comm]
        omega
      · rw [Nat.mul_comm, Nat.mul_add, Nat.mul_one]
        omega
    omega
  · have quotient : (top - part) / diff = more := by
      apply Nat.div_eq_of_lt_le
      · rw [Nat.mul_comm]
        omega
      · rw [Nat.mul_comm, Nat.mul_add, Nat.mul_one]
        omega
    omega

theorem le_wrapLimit (part : ℕ) : part ≤ wrapLimit part := by
  unfold wrapLimit
  omega

/-- What unsigned arithmetic makes of a negative number. -/
theorem neg_wraps (part : ℕ) : (2 ^ 64 - part % 2 ^ 64) % 2 ^ 64 = wrapLimit part - part := by
  unfold wrapLimit
  omega

/-- What `abs` makes of an unsigned number. -/
theorem natAbs_toInt32 (number : UInt64) :
    (UInt32.ofNat number.toUInt32.toInt32.toInt.natAbs).toNat =
      if number.toNat % 2 ^ 32 < 2 ^ 31 then number.toNat % 2 ^ 32
      else 2 ^ 32 - number.toNat % 2 ^ 32 := by
  have low : number.toUInt32.toBitVec.toNat = number.toNat % 2 ^ 32 := UInt64.toNat_toUInt32 number
  have signed : number.toUInt32.toInt32.toInt =
      if 2 * (number.toNat % 2 ^ 32) < 2 ^ 32 then ((number.toNat % 2 ^ 32 : ℕ) : ℤ)
      else ((number.toNat % 2 ^ 32 : ℕ) : ℤ) - (2 ^ 32 : ℕ) := by
    rw [← low]
    exact BitVec.toInt_eq_toNat_cond number.toUInt32.toBitVec
  rw [signed, UInt32.toNat_ofNat']
  split
  · rw [if_pos (by omega)]
    omega
  · rw [if_neg (by omega)]
    omega

variable {newDiff diff : UInt64}

theorem toNat_hundred : (100 : UInt64).toNat = 100 :=
  rfl

theorem toNat_rise (rises : diff ≤ newDiff) (small : newDiff.toNat < 2 ^ 32) :
    (((newDiff - diff) * 100) / diff).toNat = percentChange newDiff.toNat diff.toNat := by
  have order := UInt64.le_iff_toNat_le.mp rises
  have distance : Nat.dist newDiff.toNat diff.toNat = newDiff.toNat - diff.toNat :=
    Nat.dist_eq_sub_of_le_right order
  rw [UInt64.toNat_div, UInt64.toNat_mul, UInt64.toNat_sub_of_le _ _ rises, toNat_hundred,
    percentChange, distance, Nat.mul_comm 100]
  congr 1
  exact Nat.mod_eq_of_lt (by omega)

/-- A fall leaves the distance to the multiple of `2 ^ 64` behind it. -/
theorem toNat_fall (falls : newDiff < diff) :
    (((newDiff - diff) * 100) / diff).toNat =
      (wrapLimit (100 * (diff.toNat - newDiff.toNat)) - 100 * (diff.toNat - newDiff.toNat)) /
        diff.toNat := by
  have order := UInt64.lt_iff_toNat_lt.mp falls
  have bound := diff.toNat_lt
  rw [UInt64.toNat_div, UInt64.toNat_mul, UInt64.toNat_sub, toNat_hundred,
    ← neg_wraps]
  congr 1
  omega

theorem percent_le_of_fall (falls : newDiff < diff) :
    100 * (diff.toNat - newDiff.toNat) / diff.toNat ≤ 100 := by
  have order := UInt64.lt_iff_toNat_lt.mp falls
  calc 100 * (diff.toNat - newDiff.toNat) / diff.toNat
      ≤ 100 * diff.toNat / diff.toNat := Nat.div_le_div_right (by omega)
    _ = 100 := Nat.mul_div_cancel _ (by omega)

theorem exact_iff_of_rise (rises : diff ≤ newDiff) (small : newDiff.toNat < 2 ^ 32) :
    (variance newDiff diff).toNat = percentChange newDiff.toNat diff.toNat ↔
      percentChange newDiff.toNat diff.toNat ≤ 2 ^ 31 := by
  have quotient := toNat_rise rises small
  have bound := (((newDiff - diff) * 100) / diff).toNat_lt
  rw [variance, natAbs_toInt32, quotient]
  rw [quotient] at bound
  split <;> omega

theorem exact_iff_of_fall (positive : 0 < diff) (falls : newDiff < diff) :
    (variance newDiff diff).toNat = percentChange newDiff.toNat diff.toNat ↔
      FallShows (diff.toNat - newDiff.toNat) diff.toNat := by
  have order := UInt64.lt_iff_toNat_lt.mp falls
  have distance : Nat.dist newDiff.toNat diff.toNat = diff.toNat - newDiff.toNat :=
    Nat.dist_eq_sub_of_le order.le
  have quotient := toNat_fall falls
  have percent := percent_le_of_fall falls
  have division := sub_div_add (le_wrapLimit (100 * (diff.toNat - newDiff.toNat)))
    (UInt64.lt_iff_toNat_lt.mp positive)
  have borrowLe : borrow (wrapLimit (100 * (diff.toNat - newDiff.toNat)))
      (100 * (diff.toNat - newDiff.toNat)) diff.toNat ≤ 1 := by
    unfold borrow
    split <;> omega
  rw [variance, natAbs_toInt32, percentChange, distance, quotient, FallShows]
  rw [← division]
  generalize (wrapLimit _ - _) / diff.toNat = left at *
  generalize 100 * (diff.toNat - newDiff.toNat) / diff.toNat = change at *
  generalize borrow _ _ _ = borrowed at *
  split <;> omega

/-- The variance is the true change exactly where the arithmetic leaves it whole. -/
theorem trueVariance_iff (positive : 0 < diff) (small : newDiff.toNat < 2 ^ 32) :
    TrueVariance newDiff diff ↔ VarianceExact newDiff.toNat diff.toNat := by
  unfold VarianceExact
  rcases UInt64.lt_or_le newDiff diff with falls | rises
  · have order := UInt64.lt_iff_toNat_lt.mp falls
    rw [if_neg (by omega), ← exact_iff_of_fall positive falls]
    constructor
    · exact TrueVariance.exact
    · intro exact
      refine ⟨exact, fun _ huge => ?_⟩
      have percent := percent_le_of_fall falls
      have distance : Nat.dist newDiff.toNat diff.toNat = diff.toNat - newDiff.toNat :=
        Nat.dist_eq_sub_of_le order.le
      have hugeNat := UInt32.lt_iff_toNat_lt.mp huge
      rw [exact, percentChange, distance] at hugeNat
      have limit : (2000 : UInt32).toNat = 2000 := rfl
      omega
  · have order := UInt64.le_iff_toNat_le.mp rises
    rw [if_pos order, ← exact_iff_of_rise rises small]
    constructor
    · exact TrueVariance.exact
    · intro exact
      refine ⟨exact, fun falls => ?_⟩
      have less := UInt64.lt_iff_toNat_lt.mp falls
      omega

/-- A fall from 16 to 12 is one by a quarter. -/
theorem trueVariance_sample :
    0 < (16 : UInt64) ∧ TrueVariance 12 16 ∧ VarianceExact 12 16 :=
  ⟨by decide, (trueVariance_iff (by decide) (by decide)).mpr (by decide), by decide⟩

/-- A fall from 48 to 16 is taken for a huge variance. -/
theorem exists_false_variance : ¬TrueVariance 16 48 := by
  intro trueVariance
  have huge : (2000 : UInt32) < variance 16 48 := by decide
  exact trueVariance.keepsJobs (by decide) huge

end Poolserver.Stratum.ShareLimiter
