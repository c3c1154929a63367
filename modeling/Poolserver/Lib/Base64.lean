import Mathlib.Data.Nat.Basic
import Poolserver.Lib.HexText

/-!
# Base 64

Three bytes are regrouped as four numbers of six bits, most significant bits first, and each of
them is a digit. A last group that is not full is filled up with zero bits, and gives as many
digits as it needs; regrouping the digits after filling them up with zeros gives the bytes, and
as many zeros.
-/

namespace Base64

/-- The character of a number below sixty-four. -/
def digit (number : ℕ) : UInt8 :=
  if number < 26 then UInt8.ofNat (65 + number)
  else if number < 52 then UInt8.ofNat (71 + number)
  else if number < 62 then UInt8.ofNat (number - 4)
  else if number = 62 then 43
  else 47

/-- The number of a digit. -/
def digitValue? (character : UInt8) : Option ℕ :=
  if 65 ≤ character ∧ character ≤ 90 then some (character.toNat - 65)
  else if 97 ≤ character ∧ character ≤ 122 then some (character.toNat - 71)
  else if 48 ≤ character ∧ character ≤ 57 then some (character.toNat + 4)
  else if character = 43 then some 62
  else if character = 47 then some 63
  else none

/-- Bytes as numbers of six bits. -/
def sextets : List UInt8 → List ℕ
  | [] => []
  | [a] => [a.toNat / 4, a.toNat % 4 * 16]
  | [a, b] => [a.toNat / 4, a.toNat % 4 * 16 + b.toNat / 16, b.toNat % 16 * 4]
  | a :: b :: c :: rest =>
      a.toNat / 4 :: (a.toNat % 4 * 16 + b.toNat / 16) :: (b.toNat % 16 * 4 + c.toNat / 64) ::
        c.toNat % 64 :: sextets rest

/-- Numbers of six bits as bytes, while there are four of them. -/
def octets : List ℕ → List UInt8
  | w :: x :: y :: z :: rest =>
      UInt8.ofNat (w * 4 + x / 16) :: UInt8.ofNat (x % 16 * 16 + y / 4) ::
        UInt8.ofNat (y % 4 * 64 + z) :: octets rest
  | _ => []

/-- The number of digits that the last group lacks. -/
def padding (length : ℕ) : ℕ :=
  (3 - length % 3) % 3

theorem digitValue?_digit {number : ℕ} (small : number < 64) :
    digitValue? (digit number) = some number := by
  have table : ∀ number : Fin 64, digitValue? (digit number.val) = some number.val := by decide
  exact table ⟨number, small⟩

theorem lt_of_mem_sextets {bytes : List UInt8} {number : ℕ} (numberMem : number ∈ sextets bytes) :
    number < 64 := by
  induction bytes using sextets.induct with
  | case1 => cases numberMem
  | case2 a =>
      have := a.toNat_lt
      simp only [sextets, List.mem_cons, List.not_mem_nil, or_false] at numberMem
      omega
  | case3 a b =>
      have := a.toNat_lt
      have := b.toNat_lt
      simp only [sextets, List.mem_cons, List.not_mem_nil, or_false] at numberMem
      omega
  | case4 a b c rest ih =>
      have := a.toNat_lt
      have := b.toNat_lt
      have := c.toNat_lt
      simp only [sextets, List.mem_cons] at numberMem
      rcases numberMem with first | second | third | fourth | later
      · omega
      · omega
      · omega
      · omega
      · exact ih later

theorem length_sextets (bytes : List UInt8) :
    (sextets bytes).length = (4 * bytes.length + 2) / 3 := by
  induction bytes using sextets.induct with
  | case1 => rfl
  | case2 a => simp [sextets]
  | case3 a b => simp [sextets]
  | case4 a b c rest ih =>
      simp only [sextets, List.length_cons, ih]
      omega

theorem four_dvd_length (bytes : List UInt8) :
    4 ∣ (sextets bytes).length + padding bytes.length := by
  rw [length_sextets, padding]
  have rest : bytes.length % 3 = 0 ∨ bytes.length % 3 = 1 ∨ bytes.length % 3 = 2 := by
    omega
  rcases rest with full | one | two
  · rw [full]
    omega
  · rw [one]
    omega
  · rw [two]
    omega

section Regroup

variable {byte : UInt8} {high low : ℕ}

theorem regroup_first (small : low < 16) :
    UInt8.ofNat (byte.toNat / 4 * 4 + (byte.toNat % 4 * 16 + low) / 16) = byte := by
  have whole : byte.toNat / 4 * 4 + (byte.toNat % 4 * 16 + low) / 16 = byte.toNat := by
    omega
  rw [whole, UInt8.ofNat_toNat]

theorem regroup_second (small : low < 4) :
    UInt8.ofNat ((high * 16 + byte.toNat / 16) % 16 * 16 + (byte.toNat % 16 * 4 + low) / 4) =
      byte := by
  have := byte.toNat_lt
  have whole : (high * 16 + byte.toNat / 16) % 16 * 16 + (byte.toNat % 16 * 4 + low) / 4 =
      byte.toNat := by
    omega
  rw [whole, UInt8.ofNat_toNat]

theorem regroup_third :
    UInt8.ofNat ((high * 4 + byte.toNat / 64) % 4 * 64 + byte.toNat % 64) = byte := by
  have := byte.toNat_lt
  have whole : (high * 4 + byte.toNat / 64) % 4 * 64 + byte.toNat % 64 = byte.toNat := by
    omega
  rw [whole, UInt8.ofNat_toNat]

end Regroup

/-- Bytes are regained from their digits, with the padding as zeros. -/
theorem octets_sextets (bytes : List UInt8) :
    octets (sextets bytes ++ List.replicate (padding bytes.length) 0) =
      bytes ++ List.replicate (padding bytes.length) 0 := by
  induction bytes using sextets.induct with
  | case1 => rfl
  | case2 a =>
      have first := @regroup_first a 0 (by omega)
      have second : a.toNat % 4 * 16 % 16 * 16 + 0 / 4 = 0 := by omega
      rw [Nat.add_zero] at first
      change UInt8.ofNat _ :: UInt8.ofNat _ :: UInt8.ofNat _ :: [] = [a, 0, 0]
      rw [first, second]
      rfl
  | case3 a b =>
      have first := @regroup_first a (b.toNat / 16) (by have := b.toNat_lt; omega)
      have second := @regroup_second b (a.toNat % 4) 0 (by omega)
      have third : b.toNat % 16 * 4 % 4 * 64 + 0 = 0 := by omega
      rw [Nat.add_zero] at second
      change UInt8.ofNat _ :: UInt8.ofNat _ :: UInt8.ofNat _ :: [] = [a, b, 0]
      rw [first, second, third]
      rfl
  | case4 a b c rest ih =>
      have first := @regroup_first a (b.toNat / 16) (by have := b.toNat_lt; omega)
      have second := @regroup_second b (a.toNat % 4) (c.toNat / 64) (by have := c.toNat_lt; omega)
      have third := @regroup_third c (b.toNat % 16)
      have paddingEq : padding (a :: b :: c :: rest).length = padding rest.length := by
        simp only [padding, List.length_cons]
        omega
      rw [paddingEq, sextets]
      simp only [List.cons_append, octets, first, second, third, ih]

end Base64
