import Poolserver.Lib.HexText

/-!
# Decimal text

Natural numbers written in decimal digits, as bytes of ASCII, and read back.
-/

namespace DecimalText

/-- The decimal digits of a number, the highest first. -/
def write (number : ℕ) : List UInt8 :=
  if number = 0 then [48] else (Nat.digits 10 number).reverse.map HexText.digit

def IsDigit (ch : UInt8) : Prop :=
  48 ≤ ch ∧ ch ≤ 57

instance (ch : UInt8) : Decidable (IsDigit ch) :=
  inferInstanceAs (Decidable (_ ∧ _))

theorem isDigit_digit {number : ℕ} (small : number < 10) : IsDigit (HexText.digit number) := by
  have table : ∀ number : Fin 10, IsDigit (HexText.digit number.val) := by decide
  exact table ⟨number, small⟩

theorem isDigit_of_mem_write {number : ℕ} {ch : UInt8} (chMem : ch ∈ write number) :
    IsDigit ch := by
  unfold write at chMem
  split at chMem
  · rw [List.mem_singleton] at chMem
    subst chMem
    decide
  · rcases List.mem_map.mp chMem with ⟨digit, digitMem, rfl⟩
    exact isDigit_digit (Nat.digits_lt_base (by decide) (List.mem_reverse.mp digitMem))

theorem write_ne_nil (number : ℕ) : write number ≠ [] := by
  unfold write
  split
  · simp
  · rename_i positive
    simpa [Nat.digits_eq_nil_iff_eq_zero] using positive

/-! ## Reading -/

/-- The number that a text of digits denotes. -/
def value (digits : List UInt8) : ℕ :=
  Nat.ofDigits 10 (digits.reverse.map fun digit => digit.toNat - 48)

theorem digit_toNat {number : ℕ} (small : number < 10) :
    (HexText.digit number).toNat - 48 = number := by
  have table : ∀ number : Fin 10, (HexText.digit number.val).toNat - 48 = number.val := by decide
  exact table ⟨number, small⟩

@[simp]
theorem value_write (number : ℕ) : value (write number) = number := by
  unfold write
  split
  · rename_i zero
    subst zero
    decide
  · have digits : ((Nat.digits 10 number).reverse.map HexText.digit).reverse.map
        (fun digit => digit.toNat - 48) = Nat.digits 10 number := by
      rw [← List.map_reverse, List.reverse_reverse, List.map_map]
      calc (Nat.digits 10 number).map ((fun digit => digit.toNat - 48) ∘ HexText.digit)
          = (Nat.digits 10 number).map id := by
            apply List.map_congr_left
            intro digit digitMem
            exact digit_toNat (Nat.digits_lt_base (by decide) digitMem)
        _ = Nat.digits 10 number := List.map_id _
    rw [value, digits, Nat.ofDigits_digits]

/-- A text is split off where a property holds of all of it and not of what stands behind it. -/
theorem span_exact {holds : UInt8 → Bool} {text rest : List UInt8}
    (inside : ∀ ch ∈ text, holds ch = true)
    (ends : ∀ ch, rest.head? = some ch → holds ch = false) :
    (text ++ rest).takeWhile holds = text ∧ (text ++ rest).dropWhile holds = rest := by
  rw [List.takeWhile_append_of_pos inside, List.dropWhile_append_of_pos inside]
  cases rest with
  | nil => simp
  | cons ch rest => simp [ends ch rfl]

theorem span_write_append (number : ℕ) {rest : List UInt8}
    (ends : ∀ ch, rest.head? = some ch → ¬IsDigit ch) :
    (write number ++ rest).takeWhile (fun ch => decide (IsDigit ch)) = write number ∧
      (write number ++ rest).dropWhile (fun ch => decide (IsDigit ch)) = rest := by
  apply span_exact
  · exact fun ch chMem => decide_eq_true (isDigit_of_mem_write chMem)
  · exact fun ch first => decide_eq_false (ends ch first)

theorem takeWhile_write_append (number : ℕ) {rest : List UInt8}
    (ends : ∀ ch, rest.head? = some ch → ¬IsDigit ch) :
    (write number ++ rest).takeWhile (fun ch => decide (IsDigit ch)) = write number :=
  (span_write_append number ends).1

theorem dropWhile_write_append (number : ℕ) {rest : List UInt8}
    (ends : ∀ ch, rest.head? = some ch → ¬IsDigit ch) :
    (write number ++ rest).dropWhile (fun ch => decide (IsDigit ch)) = rest :=
  (span_write_append number ends).2

end DecimalText
