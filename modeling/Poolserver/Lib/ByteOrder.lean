import Mathlib.Algebra.BigOperators.Fin
import Mathlib.Data.Nat.Digits.Lemmas
import Mathlib.Tactic

/-!
# Fixed-width little-endian words

A word of a given width is the list of its bytes, least significant first.
`littleEndian` writes a natural number at a width, dropping what does not fit,
and `value` reads a byte list back. The two are inverse on numbers that fit the
width and on byte lists of that width, so either side can be used to compare
words.
-/

namespace ByteOrder

/-- The `width` low bytes of a number, least significant first. -/
def littleEndian : ℕ → ℕ → List UInt8
  | 0, _ => []
  | width + 1, number => UInt8.ofNat number :: littleEndian width (number / 256)

/-- The number whose little-endian bytes are given. -/
def value (bytes : List UInt8) : ℕ :=
  Nat.ofDigits 256 (bytes.map UInt8.toNat)

@[simp]
theorem length_littleEndian (width number : ℕ) :
    (littleEndian width number).length = width := by
  induction width generalizing number with
  | zero => rfl
  | succ width ih => simp [littleEndian, ih]

@[simp]
theorem value_nil : value [] = 0 := rfl

theorem value_cons (byte : UInt8) (bytes : List UInt8) :
    value (byte :: bytes) = byte.toNat + 256 * value bytes := by
  simp [value, Nat.ofDigits_cons]

theorem value_append (low high : List UInt8) :
    value (low ++ high) = value low + 256 ^ low.length * value high := by
  simp [value, Nat.ofDigits_append]

/-- The number as the sum of the bytes at their places. -/
theorem value_eq_sum (bytes : List UInt8) :
    value bytes = ∑ i : Fin bytes.length, (bytes.get i).toNat * 256 ^ i.val := by
  induction bytes with
  | nil => rfl
  | cons byte bytes ih =>
      have shifted : ∀ i : Fin bytes.length,
          ((byte :: bytes).get i.succ).toNat * 256 ^ i.succ.val =
            256 * ((bytes.get i).toNat * 256 ^ i.val) := by
        intro i
        rw [Fin.val_succ, Nat.pow_succ']
        exact Nat.mul_left_comm _ _ _
      change _ = ∑ i : Fin (bytes.length + 1), _
      rw [value_cons, ih, Fin.sum_univ_succ, Finset.mul_sum]
      simp only [shifted]
      simp

theorem value_lt (bytes : List UInt8) : value bytes < 256 ^ bytes.length := by
  have digits : ∀ digit ∈ bytes.map UInt8.toNat, digit < 256 := by
    intro digit digitMem
    rw [List.mem_map] at digitMem
    rcases digitMem with ⟨byte, _, rfl⟩
    exact byte.toNat_lt
  simpa [value] using Nat.ofDigits_lt_base_pow_length (by decide) digits

theorem value_littleEndian (width number : ℕ) :
    value (littleEndian width number) = number % 256 ^ width := by
  induction width generalizing number with
  | zero => simp [littleEndian, Nat.mod_one]
  | succ width ih =>
      rw [littleEndian, value_cons, ih, Nat.pow_succ', Nat.mod_mul]
      simp

theorem value_littleEndian_of_lt {width number : ℕ} (fits : number < 256 ^ width) :
    value (littleEndian width number) = number := by
  rw [value_littleEndian, Nat.mod_eq_of_lt fits]

@[simp]
theorem littleEndian_value (bytes : List UInt8) :
    littleEndian bytes.length (value bytes) = bytes := by
  induction bytes with
  | nil => rfl
  | cons byte bytes ih =>
      have low : UInt8.ofNat (byte.toNat + 256 * value bytes) = byte := by
        apply UInt8.toNat_inj.mp
        have := byte.toNat_lt
        simp
      have high : (byte.toNat + 256 * value bytes) / 256 = value bytes := by
        have := byte.toNat_lt
        omega
      rw [List.length_cons, littleEndian, value_cons, low, high, ih]

theorem littleEndian_injective {width left right : ℕ}
    (leftFits : left < 256 ^ width) (rightFits : right < 256 ^ width)
    (same : littleEndian width left = littleEndian width right) : left = right := by
  rw [← value_littleEndian_of_lt leftFits, ← value_littleEndian_of_lt rightFits, same]

/-- The bytes of a word, each taken by shifting the number, form its little-endian list. -/
theorem map_range_shiftRight (width number : ℕ) :
    (List.range width).map (fun i => UInt8.ofNat (number >>> (i * 8))) =
      littleEndian width number := by
  induction width generalizing number with
  | zero => rfl
  | succ width ih =>
      rw [List.range_succ_eq_map, List.map_cons, List.map_map, littleEndian, ← ih (number / 256)]
      simp only [Nat.zero_mul, Nat.shiftRight_zero, Function.comp_apply, List.cons.injEq,
        true_and, List.map_inj_left]
      intro i _
      rw [Nat.succ_mul, Nat.add_comm, Nat.shiftRight_add, Nat.shiftRight_eq_div_pow number 8]

/-- Summing bytes, each shifted to its place, gives the number they denote. -/
theorem foldl_range_shiftLeft (width : ℕ) (byte : ℕ → UInt8) :
    (List.range width).foldl (fun sum i => sum + (byte i).toNat <<< (i * 8)) 0 =
      value ((List.range width).map byte) := by
  induction width with
  | zero => rfl
  | succ width ih =>
      have place : 2 ^ (width * 8) = 256 ^ width := by
        rw [Nat.mul_comm, Nat.pow_mul]
      rw [List.range_succ, List.foldl_append, ih, List.map_append, value_append]
      simp [value, Nat.shiftLeft_eq, place, Nat.mul_comm]

end ByteOrder
