import Poolserver.Lib.ByteOrder

/-!
# Hexadecimal text

Byte strings are written as two lower-case digits a byte, most significant
digit first. Reading accepts both letter cases and refuses anything that is not
a digit; a text can be read as a byte string or as one number in base sixteen,
and both readings of a written byte string are determined by its bytes.
-/

namespace HexText

/-- The character of a digit below sixteen. -/
def digit (number : ℕ) : UInt8 :=
  if number < 10 then UInt8.ofNat (48 + number) else UInt8.ofNat (87 + number)

/-- The number of a digit character, in either letter case. -/
def digitValue? (character : UInt8) : Option ℕ :=
  if 48 ≤ character ∧ character ≤ 57 then some (character.toNat - 48)
  else if 65 ≤ character ∧ character ≤ 70 then some (character.toNat - 55)
  else if 97 ≤ character ∧ character ≤ 102 then some (character.toNat - 87)
  else none

def encode (bytes : List UInt8) : List UInt8 :=
  bytes.flatMap fun byte => [digit (byte.toNat / 16), digit (byte.toNat % 16)]

def decode? : List UInt8 → Option (List UInt8)
  | [] => some []
  | [_] => none
  | high :: low :: rest => do
      let highValue ← digitValue? high
      let lowValue ← digitValue? low
      let bytes ← decode? rest
      return UInt8.ofNat (16 * highValue + lowValue) :: bytes

/-- The character in lower case. -/
def lower (character : UInt8) : UInt8 :=
  if 65 ≤ character ∧ character ≤ 90 then character + 32 else character

/-- The number a text denotes in base sixteen. -/
def numeral? (text : List UInt8) : Option ℕ :=
  (text.mapM digitValue?).map fun digits => Nat.ofDigits 16 digits.reverse

@[simp]
theorem encode_nil : encode [] = [] := rfl

theorem encode_cons (byte : UInt8) (bytes : List UInt8) :
    encode (byte :: bytes) =
      digit (byte.toNat / 16) :: digit (byte.toNat % 16) :: encode bytes := rfl

@[simp]
theorem length_encode (bytes : List UInt8) : (encode bytes).length = 2 * bytes.length := by
  induction bytes with
  | nil => rfl
  | cons byte bytes ih =>
      rw [encode_cons]
      simp only [List.length_cons, ih]
      omega

theorem digitValue?_digit {number : ℕ} (small : number < 16) :
    digitValue? (digit number) = some number := by
  have table : ∀ number : Fin 16, digitValue? (digit number.val) = some number.val := by decide
  exact table ⟨number, small⟩

/-- What holds of all codes of characters holds of all characters. -/
theorem forall_of_codes {P : UInt8 → Prop} (table : ∀ code : Fin 256, P (UInt8.ofNat code.val))
    (character : UInt8) : P character := by
  have found := table ⟨character.toNat, character.toNat_lt⟩
  rwa [UInt8.ofNat_toNat] at found

/-- A digit character is written again in lower case. -/
theorem digit_of_digitValue? {character : UInt8} {number : ℕ}
    (isDigit : digitValue? character = some number) : digit number = lower character := by
  have table : ∀ character, ∀ number ∈ digitValue? character, digit number = lower character :=
    forall_of_codes (by decide +kernel)
  exact table character number isDigit

theorem ofNat_nibbles (byte : UInt8) :
    UInt8.ofNat (16 * (byte.toNat / 16) + byte.toNat % 16) = byte := by
  rw [Nat.div_add_mod]
  exact UInt8.ofNat_toNat

theorem div_sixteen_lt (byte : UInt8) : byte.toNat / 16 < 16 := by
  have := byte.toNat_lt
  omega

@[simp]
theorem decode?_encode (bytes : List UInt8) : decode? (encode bytes) = some bytes := by
  induction bytes with
  | nil => rfl
  | cons byte bytes ih =>
      have high := digitValue?_digit (div_sixteen_lt byte)
      have low := digitValue?_digit (Nat.mod_lt byte.toNat (by decide : 0 < 16))
      simp only [encode_cons, decode?, high, low, ih, Option.bind_eq_bind, Option.bind_some,
        ofNat_nibbles]
      rfl

theorem digitValue?_lt {character : UInt8} {number : ℕ}
    (isDigit : digitValue? character = some number) : number < 16 := by
  unfold digitValue? at isDigit
  simp only [UInt8.le_iff_toNat_le, UInt8.toNat_ofNat] at isDigit
  split_ifs at isDigit <;> simp only [Option.some.injEq] at isDigit <;> omega

/-- The first two characters of a text that is read are the digits of the first byte. -/
theorem decode?_cons_cons_eq_some {high low : UInt8} {rest bytes : List UInt8}
    (decoded : decode? (high :: low :: rest) = some bytes) :
    ∃ highValue lowValue restBytes, digitValue? high = some highValue ∧
      digitValue? low = some lowValue ∧ decode? rest = some restBytes ∧
        UInt8.ofNat (16 * highValue + lowValue) :: restBytes = bytes := by
  simp only [decode?, Option.bind_eq_bind, Option.bind_eq_some_iff] at decoded
  rcases decoded with ⟨highValue, highEq, lowValue, lowEq, restBytes, restEq, decoded⟩
  simp only [Option.pure_def, Option.some.injEq] at decoded
  exact ⟨highValue, lowValue, restBytes, highEq, lowEq, restEq, decoded⟩

/-- The text a byte string was read from is written again in lower case. -/
theorem encode_of_decode? {text bytes : List UInt8} (decoded : decode? text = some bytes) :
    encode bytes = text.map lower := by
  induction text using decode?.induct generalizing bytes with
  | case1 =>
      simp only [decode?, Option.some.injEq] at decoded
      subst decoded
      rfl
  | case2 => simp [decode?] at decoded
  | case3 high low rest ih =>
      rcases decode?_cons_cons_eq_some decoded with
        ⟨highValue, lowValue, restBytes, highEq, lowEq, restEq, rfl⟩
      have highSmall := digitValue?_lt highEq
      have lowSmall := digitValue?_lt lowEq
      have nibbles : (UInt8.ofNat (16 * highValue + lowValue)).toNat =
          16 * highValue + lowValue := UInt8.toNat_ofNat_of_lt' (by change _ < 256; omega)
      have highNibble : (16 * highValue + lowValue) / 16 = highValue := by omega
      have lowNibble : (16 * highValue + lowValue) % 16 = lowValue := by omega
      rw [encode_cons, nibbles, highNibble, lowNibble, digit_of_digitValue? highEq,
        digit_of_digitValue? lowEq, ih restEq]
      rfl

/-- A text of even length that has digits only can be read. -/
theorem exists_decode? {text : List UInt8} (even : Even text.length)
    (digits : ∀ character ∈ text, (digitValue? character).isSome = true) :
    ∃ bytes, decode? text = some bytes := by
  induction text using decode?.induct with
  | case1 => exact ⟨[], rfl⟩
  | case2 => simp at even
  | case3 high low rest ih =>
      have evenRest : Even rest.length := by
        rw [List.length_cons, List.length_cons] at even
        simpa [parity_simps] using even
      rcases ih evenRest fun character characterMem => digits character (by simp [characterMem])
        with ⟨bytes, decoded⟩
      rcases Option.isSome_iff_exists.mp (digits high (by simp)) with ⟨highValue, highEq⟩
      rcases Option.isSome_iff_exists.mp (digits low (by simp)) with ⟨lowValue, lowEq⟩
      simp only [decode?, highEq, lowEq, decoded, Option.bind_eq_bind, Option.bind_some]
      exact ⟨_, rfl⟩

/-- The digits of a text that is read as bytes, most significant first. -/
theorem mapM_digitValue?_of_decode? {text bytes : List UInt8} (decoded : decode? text = some bytes) :
    text.mapM digitValue? =
      some (bytes.flatMap fun byte => [byte.toNat / 16, byte.toNat % 16]) := by
  induction text using decode?.induct generalizing bytes with
  | case1 =>
      simp only [decode?, Option.some.injEq] at decoded
      subst decoded
      rfl
  | case2 => simp [decode?] at decoded
  | case3 high low rest ih =>
      rcases decode?_cons_cons_eq_some decoded with
        ⟨highValue, lowValue, restBytes, highEq, lowEq, restEq, rfl⟩
      have highSmall := digitValue?_lt highEq
      have lowSmall := digitValue?_lt lowEq
      have highNibble : highValue = (16 * highValue + lowValue) % 256 / 16 := by omega
      have lowNibble : (16 * highValue + lowValue) % 16 = lowValue := by omega
      simpa [highEq, lowEq, ih restEq, lowNibble] using highNibble

/-- Two characters for each byte. -/
theorem length_of_decode? {text bytes : List UInt8} (decoded : decode? text = some bytes) :
    text.length = 2 * bytes.length := by
  induction text using decode?.induct generalizing bytes with
  | case1 =>
      simp only [decode?, Option.some.injEq] at decoded
      subst decoded
      rfl
  | case2 => simp [decode?] at decoded
  | case3 high low rest ih =>
      rcases decode?_cons_cons_eq_some decoded with
        ⟨highValue, lowValue, restBytes, highEq, lowEq, restEq, rfl⟩
      simp only [List.length_cons, ih restEq]
      omega

/-- A text denotes the number whose bytes it lists most significant first. -/
theorem numeral?_of_decode? {text bytes : List UInt8} (decoded : decode? text = some bytes) :
    numeral? text = some (ByteOrder.value bytes.reverse) := by
  have digits : ∀ bytes : List UInt8,
      Nat.ofDigits 16 (bytes.flatMap fun byte => [byte.toNat / 16, byte.toNat % 16]).reverse =
        ByteOrder.value bytes.reverse := by
    intro bytes
    induction bytes with
    | nil => rfl
    | cons byte bytes ih =>
        have place : 16 ^ (bytes.length * 2) = 256 ^ bytes.length := by
          rw [Nat.mul_comm, Nat.pow_mul]
        have nibbles := Nat.mod_add_div byte.toNat 16
        simp only [List.flatMap_cons, List.reverse_append, Nat.ofDigits_append, ih,
          List.reverse_cons, ByteOrder.value_append, ByteOrder.value_cons, ByteOrder.value_nil,
          List.reverse_nil, List.nil_append, List.singleton_append, Nat.ofDigits_cons,
          Nat.ofDigits_nil, List.length_reverse, List.length_flatMap, List.length_cons,
          List.length_nil, List.map_const', List.sum_replicate, smul_eq_mul, place]
        simp [nibbles]
  rw [numeral?, mapM_digitValue?_of_decode? decoded, Option.map_some, digits]

/-- A written byte string denotes the number whose bytes it lists most significant first. -/
theorem numeral?_encode (bytes : List UInt8) :
    numeral? (encode bytes) = some (ByteOrder.value bytes.reverse) :=
  numeral?_of_decode? (decode?_encode bytes)

/-- A list of digits denotes its value in base sixteen. -/
theorem numeral?_map_digit {digits : List ℕ} (small : ∀ number ∈ digits, number < 16) :
    numeral? (digits.map digit) = some (Nat.ofDigits 16 digits.reverse) := by
  have values : (digits.map digit).mapM digitValue? = some digits := by
    induction digits with
    | nil => rfl
    | cons number digits ih =>
        have first := digitValue?_digit (small number (by simp))
        have rest := ih fun other otherMem => small other (by simp [otherMem])
        simp [first, rest]
  rw [numeral?, values, Option.map_some]

end HexText
