import Mathlib.Data.List.TakeWhile
import Poolserver.Lib.Base64
import Poolserver.Shared.Util

/-!
# Base 64 of strings

`ToBase64` and `FromBase64` are chains of iterators of Boost with the padding done by hand.
`ToBase64` may break lines; `FromBase64` takes spaces off the ends of its input but not out of
the middle, where they are no digits.
-/

namespace Poolserver.Util

/-- The chains of iterators. -/
structure Base64Iterators where
  /-- `it_base64_t`: `base64_from_binary` of `transform_width` from 8 to 6 bits. -/
  base64FromBinary : StdString → StdString
  /-- `insert_linebreaks` with a width of 72, as in `it_base64_lb_t`. -/
  insertLinebreaks : StdString → StdString
  /-- `it_binary_t`: `transform_width` from 6 to 8 bits of `binary_from_base64`, which may throw. -/
  binaryFromBase64 : StdString → Option StdString

/-- What the documentation of the iterators says. -/
structure Base64Iterators.Documented (iterators : Base64Iterators) : Prop where
  encodes : ∀ input,
    iterators.base64FromBinary input = (Base64.sextets input).map Base64.digit
  short : ∀ text, text.length ≤ 72 → iterators.insertLinebreaks text = text
  long : ∀ text, 72 < text.length → iterators.insertLinebreaks text =
    text.take 72 ++ 10 :: iterators.insertLinebreaks (text.drop 72)
  decodes : ∀ text sextets, text.mapM Base64.digitValue? = some sextets → 4 ∣ text.length →
    iterators.binaryFromBase64 text = some (Base64.octets sextets)
  throws : ∀ text, text.mapM Base64.digitValue? = none → iterators.binaryFromBase64 text = none

/-- `Util::ToBase64`. -/
def toBase64 (iterators : Base64Iterators) (input : StdString) (linebreaks : Bool) : StdString :=
  let writePaddChars := (3 - input.length % 3) % 3
  if linebreaks then
    iterators.insertLinebreaks (iterators.base64FromBinary input) ++
      List.replicate writePaddChars 61
  else iterators.base64FromBinary input ++ List.replicate writePaddChars 61

/-- The characters that `trim` takes off. -/
def isBlank (ch : UInt8) : Bool :=
  ch = 32 || 9 ≤ ch && ch ≤ 13

def trim (input : StdString) : StdString :=
  ((input.dropWhile isBlank).reverse.dropWhile isBlank).reverse

/-- `Util::FromBase64`, which may throw, or erase more than there is. -/
def fromBase64 (iterators : Base64Iterators) (input : StdString) : Option StdString := do
  let input := trim input
  let paddChars := UInt32.ofNat (input.count 61)
  -- replace '=' by base64 encoding of '\0'
  let input := input.map fun ch => if ch = 61 then 65 else ch
  let result ← iterators.binaryFromBase64 input
  if paddChars.toNat ≤ result.length then
    return result.take (result.length - paddChars.toNat)
  else none

variable {iterators : Base64Iterators}

/-! ## Digits -/

theorem digit_not_special {number : ℕ} (small : number < 64) :
    isBlank (Base64.digit number) = false ∧ Base64.digit number ≠ 61 := by
  have table : ∀ number : Fin 64, isBlank (Base64.digit number.val) = false ∧
      Base64.digit number.val ≠ 61 := by
    decide
  exact table ⟨number, small⟩

theorem mapM_digits {numbers : List ℕ} (small : ∀ number ∈ numbers, number < 64) :
    (numbers.map Base64.digit).mapM Base64.digitValue? = some numbers := by
  induction numbers with
  | nil => rfl
  | cons number numbers ih =>
      rw [List.forall_mem_cons] at small
      rw [List.map_cons, List.mapM_cons, Base64.digitValue?_digit small.1, ih small.2]
      rfl

theorem mapM_eq_none_of_mem {text : StdString} {ch : UInt8} (chMem : ch ∈ text)
    (noDigit : Base64.digitValue? ch = none) : text.mapM Base64.digitValue? = none := by
  induction text with
  | nil => cases chMem
  | cons first rest ih =>
      rw [List.mapM_cons]
      rcases List.mem_cons.mp chMem with rfl | later
      · rw [noDigit]
        rfl
      · rw [ih later]
        cases Base64.digitValue? first <;> rfl

/-! ## Trimming -/

theorem dropWhile_isBlank {text : StdString} {ch : UInt8} {rest : StdString}
    (begins : text = ch :: rest) (solid : isBlank ch = false) : text.dropWhile isBlank = text := by
  rw [begins, List.dropWhile_cons_of_neg (by simp [solid])]

/-- A text without spaces at its ends is left as it is. -/
theorem trim_solid {text : StdString} (solid : ∀ ch ∈ text, isBlank ch = false) :
    trim text = text := by
  have untouched : ∀ {text : StdString}, (∀ ch ∈ text, isBlank ch = false) →
      text.dropWhile isBlank = text := by
    intro text solid
    cases text with
    | nil => rfl
    | cons ch rest => exact dropWhile_isBlank rfl (solid ch List.mem_cons_self)
  rw [trim, untouched solid, untouched, List.reverse_reverse]
  intro ch chMem
  exact solid ch (List.mem_reverse.mp chMem)

theorem dropWhile_blank_append {left right : StdString}
    (solid : ∃ ch ∈ left, isBlank ch = false) :
    (left ++ right).dropWhile isBlank = left.dropWhile isBlank ++ right := by
  rcases solid with ⟨ch, chMem, notBlank⟩
  have stays : left.dropWhile isBlank ≠ [] := by
    intro nothing
    have blank := List.dropWhile_eq_nil_iff.mp nothing ch chMem
    rw [notBlank] at blank
    cases blank
  rw [List.dropWhile_append, if_neg (by simpa using stays)]

/-- What stands between other characters than spaces is not taken off. -/
theorem mem_trim {left right : StdString} {ch : UInt8}
    (before : ∃ other ∈ left, isBlank other = false)
    (behind : ∃ other ∈ right, isBlank other = false) : ch ∈ trim (left ++ ch :: right) := by
  have behind : ∃ other ∈ right.reverse, isBlank other = false := by
    rcases behind with ⟨other, otherMem, notBlank⟩
    exact ⟨other, List.mem_reverse.mpr otherMem, notBlank⟩
  rw [trim, dropWhile_blank_append before, List.reverse_append, List.reverse_cons,
    List.append_assoc, dropWhile_blank_append behind]
  simp

/-! ## The round trip -/

section RoundTrip

variable (documented : iterators.Documented)

include documented

/-- Without line breaks the text is digits and padding, and the input is decoded. -/
theorem fromBase64_of_digits (input : StdString) :
    fromBase64 iterators ((Base64.sextets input).map Base64.digit ++
      List.replicate (Base64.padding input.length) 61) = some input := by
  have digits : ∀ ch ∈ (Base64.sextets input).map Base64.digit,
      isBlank ch = false ∧ ch ≠ 61 := by
    intro ch chMem
    rcases List.mem_map.mp chMem with ⟨number, numberMem, rfl⟩
    exact digit_not_special (Base64.lt_of_mem_sextets numberMem)
  have small : ∀ number ∈ Base64.sextets input ++
      List.replicate (Base64.padding input.length) 0, number < 64 := by
    rw [List.forall_mem_append]
    exact ⟨fun number numberMem => Base64.lt_of_mem_sextets numberMem,
      fun number numberMem => by rw [List.eq_of_mem_replicate numberMem]; omega⟩
  have trimmed : trim ((Base64.sextets input).map Base64.digit ++
      List.replicate (Base64.padding input.length) 61) =
      (Base64.sextets input).map Base64.digit ++
        List.replicate (Base64.padding input.length) 61 := by
    apply trim_solid
    rw [List.forall_mem_append]
    exact ⟨fun ch chMem => (digits ch chMem).1,
      fun ch chMem => by rw [List.eq_of_mem_replicate chMem]; rfl⟩
  have counted : ((Base64.sextets input).map Base64.digit ++
      List.replicate (Base64.padding input.length) 61).count 61 =
      Base64.padding input.length := by
    rw [List.count_append, List.count_replicate_self, Nat.add_eq_right, List.count_eq_zero]
    exact fun isPadding => (digits 61 isPadding).2 rfl
  have replaced : ((Base64.sextets input).map Base64.digit ++
      List.replicate (Base64.padding input.length) 61).map (fun ch => if ch = 61 then 65 else ch) =
      (Base64.sextets input ++ List.replicate (Base64.padding input.length) 0).map
        Base64.digit := by
    rw [List.map_append, List.map_append, List.map_replicate, List.map_replicate]
    congr 1
    refine (List.map_congr_left ?_).trans (List.map_id _)
    intro ch chMem
    exact if_neg (digits ch chMem).2
  have decoded := documented.decodes _ _ (mapM_digits small) (by
    rw [List.length_map, List.length_append, List.length_replicate]
    exact Base64.four_dvd_length input)
  have few : Base64.padding input.length < 3 := Nat.mod_lt _ (by omega)
  have erased : (UInt32.ofNat (Base64.padding input.length)).toNat =
      Base64.padding input.length := by
    rw [UInt32.toNat_ofNat']
    omega
  rw [fromBase64, trimmed, counted, replaced, decoded, Base64.octets_sextets, erased]
  simp

/-- There is something in the lines of a text. -/
theorem exists_solid_line {text : StdString} (notEmpty : text ≠ [])
    (solid : ∀ ch ∈ text, isBlank ch = false) :
    ∃ ch ∈ iterators.insertLinebreaks text, isBlank ch = false := by
  rcases List.exists_cons_of_ne_nil notEmpty with ⟨ch, rest, rfl⟩
  refine ⟨ch, ?_, solid ch List.mem_cons_self⟩
  rcases Nat.lt_or_ge 72 (ch :: rest).length with long | short
  · rw [documented.long _ long]
    simp
  · rw [documented.short _ short]
    exact List.mem_cons_self

/-- Digits that are broken into lines are not decoded. -/
theorem fromBase64_of_lines {input : StdString} (long : 54 < input.length) :
    fromBase64 iterators (toBase64 iterators input true) = none := by
  have many : 72 < ((Base64.sextets input).map Base64.digit).length := by
    rw [List.length_map, Base64.length_sextets]
    omega
  have solid : ∀ ch ∈ (Base64.sextets input).map Base64.digit, isBlank ch = false := by
    intro ch chMem
    rcases List.mem_map.mp chMem with ⟨number, numberMem, rfl⟩
    exact (digit_not_special (Base64.lt_of_mem_sextets numberMem)).1
  have before : ∃ ch ∈ ((Base64.sextets input).map Base64.digit).take 72, isBlank ch = false := by
    have front : 0 < (((Base64.sextets input).map Base64.digit).take 72).length := by
      rw [List.length_take]
      omega
    rcases List.exists_mem_of_length_pos front with ⟨ch, chMem⟩
    exact ⟨ch, chMem, solid ch (List.mem_of_mem_take chMem)⟩
  have behind : ∃ ch ∈ iterators.insertLinebreaks
      (((Base64.sextets input).map Base64.digit).drop 72) ++
        List.replicate ((3 - input.length % 3) % 3) 61, isBlank ch = false := by
    have more : ((Base64.sextets input).map Base64.digit).drop 72 ≠ [] := by
      rw [Ne, List.drop_eq_nil_iff]
      exact not_le.mpr many
    rcases exists_solid_line documented more
      (fun ch chMem => solid ch (List.mem_of_mem_drop chMem)) with ⟨ch, chMem, notBlank⟩
    exact ⟨ch, List.mem_append_left _ chMem, notBlank⟩
  have broken : 10 ∈ trim (toBase64 iterators input true) := by
    rw [toBase64, if_pos rfl, documented.encodes, documented.long _ many, List.append_assoc,
      List.cons_append]
    exact mem_trim before behind
  have kept : 10 ∈ (trim (toBase64 iterators input true)).map
      (fun ch => if ch = 61 then 65 else ch) :=
    List.mem_map.mpr ⟨10, broken, by decide⟩
  rw [fromBase64, documented.throws _ (mapM_eq_none_of_mem kept (by decide))]
  rfl

/-- Without line breaks, or too short for one, a text is decoded to what was encoded. -/
theorem fromBase64_toBase64 {input : StdString} {linebreaks : Bool}
    (flat : linebreaks = false ∨ input.length ≤ 54) :
    fromBase64 iterators (toBase64 iterators input linebreaks) = some input := by
  have textEq : toBase64 iterators input linebreaks =
      (Base64.sextets input).map Base64.digit ++
        List.replicate (Base64.padding input.length) 61 := by
    cases linebreaks with
    | false => rw [toBase64, if_neg (by simp), documented.encodes, Base64.padding]
    | true =>
        have few : ((Base64.sextets input).map Base64.digit).length ≤ 72 := by
          have short := flat.resolve_left (by simp)
          rw [List.length_map, Base64.length_sextets]
          omega
        rw [toBase64, if_pos rfl, documented.encodes, documented.short _ few, Base64.padding]
  rw [textEq]
  exact fromBase64_of_digits documented input

/--
`FromBase64` is the inverse of `ToBase64` unless the text is broken into lines, which it is from
55 bytes on if `linebreaks` is set; then `FromBase64` throws.
-/
theorem base64_round_trip (input : StdString) (linebreaks : Bool) :
    (fromBase64 iterators (toBase64 iterators input linebreaks) = some input ↔
      linebreaks = false ∨ input.length ≤ 54) ∧
    (fromBase64 iterators (toBase64 iterators input linebreaks) = none ↔
      linebreaks = true ∧ 54 < input.length) := by
  have unbroken := @fromBase64_toBase64 iterators documented input linebreaks
  cases linebreaks with
  | false => simp [unbroken (.inl rfl)]
  | true =>
      rcases Nat.lt_or_ge 54 input.length with long | short
      · simp [fromBase64_of_lines documented long, long]
      · simp [unbroken (.inr short), short]

end RoundTrip

/-! ## A sample -/

namespace Sample

/-- Lines of 72 characters, as many as there may be. -/
def breakLines : ℕ → StdString → StdString
  | 0, text => text
  | fuel + 1, text =>
      if 72 < text.length then text.take 72 ++ 10 :: breakLines fuel (text.drop 72) else text

/-- Iterators that do what is documented. -/
def base64Iterators : Base64Iterators where
  base64FromBinary input := (Base64.sextets input).map Base64.digit
  insertLinebreaks text := breakLines text.length text
  binaryFromBase64 text := (text.mapM Base64.digitValue?).map Base64.octets

theorem breakLines_of_le {fuel more : ℕ} {text : StdString} (enough : text.length ≤ fuel)
    (le : fuel ≤ more) : breakLines more text = breakLines fuel text := by
  induction fuel generalizing more text with
  | zero =>
      have short : ¬72 < text.length := by omega
      cases more with
      | zero => rfl
      | succ more => exact if_neg short
  | succ fuel ih =>
      rcases Nat.exists_eq_succ_of_ne_zero (by omega : more ≠ 0) with ⟨more, rfl⟩
      rw [breakLines, breakLines]
      split
      · rw [ih (by rw [List.length_drop]; omega) (by omega)]
      · rfl

theorem base64Iterators_documented : base64Iterators.Documented where
  encodes _ := rfl
  short text short := by
    change breakLines text.length text = text
    cases text.length with
    | zero => rfl
    | succ fuel =>
        have stays : ¬72 < text.length := not_lt.mpr short
        exact if_neg stays
  long text long := by
    change breakLines text.length text = text.take 72 ++ 10 :: breakLines _ (text.drop 72)
    rcases Nat.exists_eq_succ_of_ne_zero (by omega : text.length ≠ 0) with ⟨fuel, lengthEq⟩
    have rest : breakLines fuel (text.drop 72) = breakLines (text.drop 72).length (text.drop 72) :=
      breakLines_of_le le_rfl (by rw [List.length_drop]; omega)
    rw [lengthEq, breakLines, if_pos long, rest]
  decodes text sextets read _ := by
    change (text.mapM Base64.digitValue?).map Base64.octets = _
    rw [read, Option.map_some]
  throws text refused := by
    change (text.mapM Base64.digitValue?).map Base64.octets = _
    rw [refused, Option.map_none]

end Sample

/-- A short text comes back, and one whose encoding takes two lines does not. -/
theorem base64_round_trip_sample :
    toBase64 Sample.base64Iterators (ascii "u:p") true = ascii "dTpw" ∧
      fromBase64 Sample.base64Iterators (toBase64 Sample.base64Iterators (ascii "u:p") true) =
        some (ascii "u:p") ∧
      10 ∈ toBase64 Sample.base64Iterators (List.replicate 55 65) true ∧
      fromBase64 Sample.base64Iterators
        (toBase64 Sample.base64Iterators (List.replicate 55 65) true) = none := by
  refine ⟨by decide, ?_, by decide +kernel, ?_⟩
  · exact (base64_round_trip Sample.base64Iterators_documented (ascii "u:p") true).1.mpr
      (.inr (by decide))
  · exact (base64_round_trip Sample.base64Iterators_documented (List.replicate 55 65) true).2.mpr
      ⟨rfl, by decide⟩

end Poolserver.Util
