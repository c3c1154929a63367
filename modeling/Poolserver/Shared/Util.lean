import Poolserver.Lib.HexText
import Poolserver.Shared.Common

/-!
# Byte and hexadecimal utilities

The conversions of the `Util` namespace between byte vectors and hexadecimal
strings, and the reading of a hexadecimal string as a big integer.
-/

namespace Poolserver.Util

/-- `Util::ASCIIToHex`; a character that is no digit counts as zero. -/
def asciiToHex (ch : UInt8) : UInt8 :=
  if 47 < ch ∧ ch < 58 then ch - 48
  else if 64 < ch ∧ ch < 71 then ch - 55
  else if 96 < ch ∧ ch < 103 then ch - 87
  else 0

/-- One turn of the loop of `Util::ASCIIToBin`. -/
def asciiToBinStep (str : StdString) (data : BinaryData) (i : ℕ) : BinaryData :=
  if i % 2 = 1 then data.modify (i / 2) (· + asciiToHex (str.getD i 0))
  else data.modify (i / 2) (· + asciiToHex (str.getD i 0) * 16)

/-- `Util::ASCIIToBin`: each character is added into the byte at half its index. -/
def asciiToBin (str : StdString) : BinaryData :=
  (List.range str.length).foldl (asciiToBinStep str) (List.replicate ((str.length + 1) / 2) 0)

def hexDigits : StdString := ascii "0123456789abcdef"

/-- `Util::BinToASCII`. -/
def binToASCII (data : BinaryData) : StdString :=
  data.flatMap fun byte =>
    [hexDigits.getD (byte / 16).toNat 0, hexDigits.getD (byte % 16).toNat 0]

/-- `Util::Reverse`. -/
def reverse (data : BinaryData) : BinaryData :=
  data.reverse

/-- `Util::Join`. -/
def join (v1 v2 : BinaryData) : BinaryData :=
  v1 ++ v2

/-- `mpz_class(str, 16)`, which refuses a string that is not a number in base sixteen. -/
def bigIntFromHex (str : StdString) : Except StdException ℕ :=
  match str, HexText.numeral? str with
  | _ :: _, some number => .ok number
  | _, _ => .error .invalidArgument

theorem hexDigits_getD {number : ℕ} (small : number < 16) :
    hexDigits.getD number 0 = HexText.digit number := by
  have table : ∀ number : Fin 16,
      hexDigits.getD number.val 0 = HexText.digit number.val := by decide
  exact table ⟨number, small⟩

theorem binToASCII_eq_encode (data : BinaryData) : binToASCII data = HexText.encode data := by
  have digits : ∀ byte : UInt8,
      [hexDigits.getD (byte / 16).toNat 0, hexDigits.getD (byte % 16).toNat 0] =
        [HexText.digit (byte.toNat / 16), HexText.digit (byte.toNat % 16)] := by
    intro byte
    have high : (byte / 16).toNat = byte.toNat / 16 := UInt8.toNat_div byte 16
    have low : (byte % 16).toNat = byte.toNat % 16 := UInt8.toNat_mod byte 16
    rw [high, low, hexDigits_getD (HexText.div_sixteen_lt byte),
      hexDigits_getD (Nat.mod_lt _ (by decide))]
  simp only [binToASCII, HexText.encode, digits]

/-- The value of a digit character agrees with the strict reading of it. -/
theorem asciiToHex_eq {ch : UInt8} {number : ℕ} (isDigit : HexText.digitValue? ch = some number) :
    asciiToHex ch = UInt8.ofNat number := by
  have table : ∀ ch, ∀ number ∈ HexText.digitValue? ch, asciiToHex ch = UInt8.ofNat number :=
    HexText.forall_of_codes (by decide +kernel)
  exact table ch number isDigit

@[simp]
theorem asciiToBin_nil : asciiToBin [] = [] := rfl

/-- After the first two characters the loop never touches the first byte again. -/
theorem asciiToBinStep_add_two (high low : UInt8) (rest : StdString) (first : UInt8)
    (data : BinaryData) (i : ℕ) :
    asciiToBinStep (high :: low :: rest) (first :: data) (i + 2) =
      first :: asciiToBinStep rest data i := by
  have index : (i + 2) / 2 = i / 2 + 1 := by omega
  have parity : (i + 2) % 2 = i % 2 := by omega
  simp only [asciiToBinStep, index, parity, List.getD_cons_succ]
  split <;> rfl

/-- Two characters make one byte, and the rest of the string is converted on its own. -/
theorem asciiToBin_cons_cons (high low : UInt8) (rest : StdString) :
    asciiToBin (high :: low :: rest) =
      (asciiToHex high * 16 + asciiToHex low) :: asciiToBin rest := by
  have cells : (rest.length + 2 + 1) / 2 = (rest.length + 1) / 2 + 1 := by omega
  have indices : List.range (rest.length + 2) =
      0 :: 1 :: (List.range rest.length).map (· + 2) := by
    rw [List.range_succ_eq_map, List.range_succ_eq_map]
    simp
  have firstByte : ∀ data : BinaryData,
      asciiToBinStep (high :: low :: rest)
        (asciiToBinStep (high :: low :: rest) (0 :: data) 0) 1 =
        (asciiToHex high * 16 + asciiToHex low) :: data := by
    intro data
    simp [asciiToBinStep]
  simp only [asciiToBin, List.length_cons]
  rw [cells, indices, List.replicate_succ, List.foldl_cons, List.foldl_cons, firstByte,
    List.foldl_map]
  exact List.foldl_hom (fun data => (asciiToHex high * 16 + asciiToHex low) :: data)
    (fun data i => asciiToBinStep_add_two high low rest _ data i)

/-- `ASCIIToBin` reads every text that is well-formed hexadecimal, in either letter case. -/
theorem asciiToBin_of_decode? {str : StdString} {data : BinaryData}
    (decoded : HexText.decode? str = some data) : asciiToBin str = data := by
  induction str using HexText.decode?.induct generalizing data with
  | case1 =>
      simp only [HexText.decode?, Option.some.injEq] at decoded
      subst decoded
      rfl
  | case2 => simp [HexText.decode?] at decoded
  | case3 high low rest ih =>
      rcases HexText.decode?_cons_cons_eq_some decoded with
        ⟨highValue, lowValue, restBytes, highEq, lowEq, restEq, rfl⟩
      rw [asciiToBin_cons_cons, ih restEq, asciiToHex_eq highEq, asciiToHex_eq lowEq,
        UInt8.ofNat_add, UInt8.ofNat_mul, UInt8.mul_comm]
      rfl

/-- `ASCIIToBin` inverts `BinToASCII`. -/
@[simp]
theorem asciiToBin_binToASCII (data : BinaryData) : asciiToBin (binToASCII data) = data := by
  rw [binToASCII_eq_encode]
  exact asciiToBin_of_decode? (HexText.decode?_encode data)

/-- The number denoted in base sixteen by the reversed bytes is their little-endian value. -/
theorem numeral?_binToASCII_reverse (data : BinaryData) :
    HexText.numeral? (binToASCII (reverse data)) = some (ByteOrder.value data) := by
  rw [binToASCII_eq_encode, HexText.numeral?_encode, reverse, List.reverse_reverse]

/-- The big integer read from the reversed bytes is their little-endian value. -/
theorem bigIntFromHex_binToASCII_reverse {data : BinaryData} (nonempty : data ≠ []) :
    bigIntFromHex (binToASCII (reverse data)) = .ok (ByteOrder.value data) := by
  have number := numeral?_binToASCII_reverse data
  have length : (binToASCII (reverse data)).length = 2 * data.length := by
    rw [binToASCII_eq_encode, HexText.length_encode, reverse, List.length_reverse]
  have positive := List.length_pos_iff.mpr nonempty
  cases text : binToASCII (reverse data) with
  | nil =>
      rw [text, List.length_nil] at length
      omega
  | cons character rest =>
      rw [text] at number
      simp [bigIntFromHex, number]

end Poolserver.Util
