import Mathlib.Data.List.GetD
import Mathlib.Data.Set.Function
import Poolserver.Shared.Util

/-!
# Hexadecimal coding is a bijection

`BinToASCII` maps the byte strings onto the strings of even length over the lower-case digits, and
`ASCIIToBin` maps them back. A string with digits of either case becomes lower case on the way
there and back. The number that the coding of a reversed byte string denotes is the little-endian
value of the string, by which hashes are compared with targets.
-/

namespace Poolserver.Util

/-- The digits in upper and lower case. -/
def anyCaseDigits : StdString := ascii "0123456789abcdefABCDEF"

/-- The strings of even length over these characters. -/
def evenOver (characters : StdString) : Set StdString :=
  {str | Even str.length ∧ ∀ ch ∈ str, ch ∈ characters}

def toLower (str : StdString) : StdString :=
  str.map HexText.lower

theorem digitValue?_isSome {ch : UInt8} (isDigit : ch ∈ anyCaseDigits) :
    (HexText.digitValue? ch).isSome = true := by
  have table : ∀ digit ∈ anyCaseDigits, (HexText.digitValue? digit).isSome = true := by
    decide +kernel
  exact table ch isDigit

theorem mem_anyCaseDigits_of_lower {ch : UInt8} (isDigit : ch ∈ hexDigits) :
    ch ∈ anyCaseDigits ∧ HexText.lower ch = ch := by
  have table : ∀ digit ∈ hexDigits, digit ∈ anyCaseDigits ∧ HexText.lower digit = digit := by
    decide +kernel
  exact table ch isDigit

theorem toLower_of_lower {str : StdString} (digits : ∀ ch ∈ str, ch ∈ hexDigits) :
    toLower str = str := by
  refine (List.map_congr_left ?_).trans str.map_id
  intro ch chMem
  exact (mem_anyCaseDigits_of_lower (digits ch chMem)).2

/-- A string of digits becomes lower case on its way through the bytes. -/
theorem binToASCII_asciiToBin {str : StdString} (digits : str ∈ evenOver anyCaseDigits) :
    binToASCII (asciiToBin str) = toLower str := by
  rcases digits with ⟨even, digits⟩
  rcases HexText.exists_decode? even
    (fun ch chMem => digitValue?_isSome (digits ch chMem)) with ⟨data, decoded⟩
  rw [asciiToBin_of_decode? decoded, binToASCII_eq_encode]
  exact HexText.encode_of_decode? decoded

theorem binToASCII_mem (data : BinaryData) : binToASCII data ∈ evenOver hexDigits := by
  constructor
  · rw [binToASCII_eq_encode, HexText.length_encode]
    exact even_two_mul _
  · intro ch chMem
    rw [binToASCII, List.mem_flatMap] at chMem
    rcases chMem with ⟨byte, _, pairMem⟩
    have nibble : ∀ number : UInt8, number.toNat < 16 →
        hexDigits.getD number.toNat 0 ∈ hexDigits := by
      intro number small
      rw [List.getD_eq_getElem _ _ small]
      exact List.getElem_mem _
    have low : (byte % 16).toNat < 16 := by
      rw [UInt8.toNat_mod]
      exact Nat.mod_lt _ (by decide)
    have high : (byte / 16).toNat < 16 := by
      rw [UInt8.toNat_div]
      exact HexText.div_sixteen_lt byte
    rcases List.mem_pair.mp pairMem with isHigh | isLow
    · rw [isHigh]
      exact nibble _ high
    · rw [isLow]
      exact nibble _ low

theorem bijOn_binToASCII : Set.BijOn binToASCII Set.univ (evenOver hexDigits) := by
  refine ⟨fun data _ => binToASCII_mem data, ?_, ?_⟩
  · exact (Function.LeftInverse.injective asciiToBin_binToASCII).injOn
  · intro str lowerDigits
    refine ⟨asciiToBin str, Set.mem_univ _, ?_⟩
    have digits : str ∈ evenOver anyCaseDigits :=
      ⟨lowerDigits.1, fun ch chMem => (mem_anyCaseDigits_of_lower (lowerDigits.2 ch chMem)).1⟩
    rw [binToASCII_asciiToBin digits, toLower_of_lower lowerDigits.2]

/--
Hexadecimal coding is a bijection between byte strings and lower-case digits of even number, and
it carries the little-endian value of a byte string to the number that is denoted.
-/
theorem hex_bijection :
    (∀ data, asciiToBin (binToASCII data) = data) ∧
      (∀ str ∈ evenOver anyCaseDigits, binToASCII (asciiToBin str) = toLower str) ∧
      Set.BijOn binToASCII Set.univ (evenOver hexDigits) ∧
      ∀ data : BinaryData, HexText.numeral? (binToASCII (reverse data)) =
        some (∑ i : Fin data.length, (data.get i).toNat * 256 ^ i.val) := by
  refine ⟨asciiToBin_binToASCII, fun str => binToASCII_asciiToBin, bijOn_binToASCII, ?_⟩
  intro data
  rw [numeral?_binToASCII_reverse, ByteOrder.value_eq_sum]

end Poolserver.Util
