import Poolserver.JSON.Actions
import Poolserver.Lib.Lookahead

/-!
# What stands behind a message

`phrase_parse` moves its first iterator behind what it has read, and `Parse` does not compare
it with the second one. So a text is accepted for what it begins with, and what is derived
from a text stays the same when the text behind it is replaced.
-/

namespace Poolserver

open JSONReader Spirit

variable {library : Library} {str : StdString}

/-! ## Acceptance -/

/-- The whole text, apart from white space around it, is derived. -/
def Whole (library : Library) (str : StdString) : Prop :=
  ∃ value rest, Json library value str rest ∧ ∀ ch ∈ rest, library.space ch = true

/-- The reader accepts the text exactly if the grammar does, and throws otherwise. -/
structure AcceptsExactly (library : Library) (str : StdString) : Prop where
  accepts : (∃ node, Node.fromString library str = some (.ok node)) ↔ Whole library str
  refuses : ¬Whole library str →
    ∃ exception, Node.fromString library str = some (.error exception)

/-- A text that begins with a derivation is read by it, any other text is refused. -/
theorem fromString_cases (documented : library.Documented) (str : StdString) :
    (∃ value rest node, Json library value str rest ∧
        (∀ other otherRest, Json library other str otherRest → other = value ∧ otherRest = rest) ∧
        Node.fromString library str = some (.ok node) ∧ node.json = value.normalize) ∨
      ((∀ value rest, ¬Json library value str rest) ∧
        ∃ exception, Node.fromString library str = some (.error exception)) := by
  rcases parse_cases documented str with ⟨value, rest, derives, unique, parsed⟩ | ⟨underivable, left, parsed⟩
  · refine .inl ⟨value, rest, (closed value).callerNode, derives, unique, ?_, ?_⟩
    · rw [Node.fromString, parse, parsed]
      rfl
    · exact Node.shows_data value Node.empty
  · refine .inr ⟨underivable, .json (ascii "Failed to parse JSON"), ?_⟩
    rw [Node.fromString, parse, parsed]
    rfl

theorem blank_of_acceptsExactly (documented : library.Documented)
    (acceptsExactly : AcceptsExactly library str) {value : JSON} {rest : Input}
    (derives : Json library value str rest) : ∀ ch ∈ rest, library.space ch = true := by
  rcases fromString_cases documented str with
    ⟨found, foundRest, node, _, unique, returns, _⟩ | ⟨underivable, _⟩
  · rcases acceptsExactly.accepts.mp ⟨node, returns⟩ with ⟨whole, wholeRest, wholeDerives, blank⟩
    rcases unique _ _ wholeDerives with ⟨_, rfl⟩
    rcases unique _ _ derives with ⟨_, rfl⟩
    exact blank
  · exact absurd derives (underivable _ _)

/--
The reader accepts exactly its grammar on the texts where nothing but white space stands
behind what the grammar derives from their beginning.
-/
theorem acceptsExactly_iff (documented : library.Documented) (str : StdString) :
    AcceptsExactly library str ↔
      ∀ value rest, Json library value str rest → ∀ ch ∈ rest, library.space ch = true := by
  constructor
  · exact fun acceptsExactly value rest derives => blank_of_acceptsExactly documented acceptsExactly derives
  · intro blank
    rcases fromString_cases documented str with
      ⟨value, rest, node, derives, _, returns, _⟩ | ⟨underivable, exception, throws⟩
    · have whole : Whole library str := ⟨value, rest, derives, blank _ _ derives⟩
      exact ⟨⟨fun _ => whole, fun _ => ⟨node, returns⟩⟩, fun broken => absurd whole broken⟩
    · have broken : ¬Whole library str := fun ⟨value, rest, derives, _⟩ => underivable _ _ derives
      refine ⟨⟨?_, fun whole => absurd whole broken⟩, fun _ => ⟨exception, throws⟩⟩
      rintro ⟨node, returns⟩
      rw [throws] at returns
      simp at returns

/-- An empty object in front of anything. -/
theorem json_braces (documented : library.Documented) (rest : Input) :
    Json library (.object []) (123 :: 125 :: rest) rest := by
  have opens : lit library 123 (123 :: 125 :: rest) = some (123, 125 :: rest) :=
    lit_iff.mpr ⟨rfl, List.dropWhile_cons_of_neg (by simp [documented.space_visible])⟩
  have closes : lit library 125 (125 :: rest) = some (125, rest) :=
    lit_iff.mpr ⟨rfl, List.dropWhile_cons_of_neg (by simp [documented.space_visible])⟩
  exact .object (.object opens (.empty closes))

/-- Two messages in one line are accepted as the first of them. -/
theorem not_acceptsExactly : ¬∀ str, AcceptsExactly Sample.library str := by
  intro acceptsExactly
  have derives : Json Sample.library (.object []) (ascii "\x7b\x7d\x7b\x7d") (ascii "\x7b\x7d") :=
    json_braces Sample.library_documented (ascii "\x7b\x7d")
  have blank := blank_of_acceptsExactly Sample.library_documented (acceptsExactly _) derives
  revert blank
  decide +kernel

/-- A message that ends with a carriage return. -/
theorem acceptsExactly_sample : AcceptsExactly Sample.library (ascii "\x7b\x7d\r") := by
  refine (acceptsExactly_iff Sample.library_documented _).mpr ?_
  intro value rest derives
  have braces := json_braces Sample.library_documented (ascii "\r")
  rcases fromString_cases Sample.library_documented (ascii "\x7b\x7d\r") with
    ⟨_, _, _, _, unique, _⟩ | ⟨underivable, _⟩
  · rcases unique _ _ derives with ⟨_, rfl⟩
    rcases unique _ _ braces with ⟨_, rfl⟩
    decide +kernel
  · exact absurd derives (underivable _ _)

/-! ## Texts behind a derivation -/

/-- A character that no number goes on with: what stands behind a value in a list, or a blank. -/
def EndsNumber (library : Library) (ch : UInt8) : Prop :=
  ch ∈ ([44, 93, 125] : List UInt8) ∨ library.space ch = true

/-- What is documented of numbers: a parser does not look behind the character that ends one. -/
structure Library.Local (library : Library) : Prop where
  strictDouble_swaps : ∀ bound, SwapsBehind (EndsNumber library) (Matches library.strictDouble) bound
  strictDouble_plus : ∀ digits ch rest, digits ≠ [] →
    (∀ digit ∈ digits, DecimalText.IsDigit digit) → ¬DecimalText.IsDigit ch →
    ch ∉ ([46, 69, 101] : List UInt8) → library.strictDouble (43 :: digits ++ ch :: rest) = none

theorem Sample.library_local : Sample.library.Local where
  strictDouble_swaps _ _ _ _ _ _ _ _ found := nomatch found
  strictDouble_plus _ _ _ _ _ _ _ := rfl

theorem EndsNumber.not_digit (documented : library.Documented) {ch : UInt8}
    (ends : EndsNumber library ch) :
    ¬DecimalText.IsDigit ch ∧ ch ∉ ([46, 69, 101] : List UInt8) := by
  have table : ∀ ch ∈ ([44, 93, 125] : List UInt8),
      ¬DecimalText.IsDigit ch ∧ ch ∉ ([46, 69, 101] : List UInt8) := by
    decide +kernel
  rcases ends with closer | blank
  · exact table ch closer
  · have hidden : ¬(33 ≤ ch ∧ ch ≤ 126) := by
      rintro ⟨low, high⟩
      rw [documented.space_visible ch low high] at blank
      simp at blank
    have visible : ∀ low high : UInt8, 33 ≤ low → high ≤ 126 → ¬(low ≤ ch ∧ ch ≤ high) := by
      rintro low high lowest highest ⟨above, below⟩
      exact hidden ⟨UInt8.le_trans lowest above, UInt8.le_trans below highest⟩
    refine ⟨visible 48 57 (by decide) (by decide), ?_⟩
    intro isPoint
    simp only [List.mem_cons, List.not_mem_nil, or_false] at isPoint
    rcases isPoint with rfl | rfl | rfl
    · exact visible 46 46 (by decide) (by decide) (by decide)
    · exact visible 69 69 (by decide) (by decide) (by decide)
    · exact visible 101 101 (by decide) (by decide) (by decide)

namespace JSONReader

/-- What stands behind a value in a list ends a number. -/
theorem lit_ends {ch found : UInt8} {input rest : Input}
    (closer : ch ∈ ([44, 93, 125] : List UInt8))
    (matched : lit library ch input = some (found, rest)) :
    ∃ first behind, input = first :: behind ∧ EndsNumber library first := by
  have begins := (lit_iff.mp matched).2
  cases input with
  | nil => simp at begins
  | cons first behind =>
      refine ⟨first, behind, rfl, ?_⟩
      by_cases blank : library.space first = true
      · exact .inr blank
      · rw [List.dropWhile_cons_of_neg blank] at begins
        injection begins with same _
        exact .inl (same ▸ closer)

theorem swaps_lit (ch : UInt8) : Swaps (Matches (lit library ch)) := by
  apply swaps_skipped (swaps_char ch)
  intro input value rest found
  rw [(char_iff.mp found).2]
  exact .cons (List.suffix_refl rest)

theorem swaps_string : Swaps (Matches (string library)) :=
  swaps_skipped (swaps_quoted 34) fun _ _ _ => quoted_consumes

theorem swaps_word {literal : StdString} (nonempty : literal ≠ []) :
    Swaps (Matches (word library literal)) := by
  apply swaps_skipped (swaps_text literal)
  intro input value rest found
  rcases List.exists_cons_of_ne_nil nonempty with ⟨ch, others, rfl⟩
  rw [(text_iff.mp found).2, List.cons_append]
  exact .cons (List.suffix_append others rest)

/-- A value that does not nest is not changed behind a character that ends numbers. -/
theorem simple_swaps (documented : library.Documented) (isLocal : library.Local) (bound : ℕ) :
    SwapsBehind (EndsNumber library) (Simple library) bound := by
  intro value text ch rest other ends short derives
  cases derives with
  | string found => exact .string (swaps_string _ _ _ (ch :: other) found)
  | double found =>
      rcases skipped_cases (fun input => documented.strictDouble_consumes input) found with
        ⟨blanks, body, textEq, read, drops⟩
      refine .double ?_
      rw [strictDouble, skipped, drops]
      exact isLocal.strictDouble_swaps _ _ _ _ _ other ends (Nat.lt_succ_self _) read
  | integer noDouble found =>
      rcases skipped_cases (fun _ _ _ => longLong_consumes) found with
        ⟨blanks, body, textEq, read, drops⟩
      rcases longLong_cases read with ⟨mark, digits, rfl, isMark, someDigits, areDigits, reads⟩
      rcases ends.not_digit documented with ⟨noDigit, noPoint⟩
      refine .integer ?_ ?_
      · rw [strictDouble, skipped, drops]
        rcases isMark with rfl | rfl | rfl
        · exact documented.strictDouble_integer [] _ ch other (.inl rfl) someDigits areDigits noDigit
            noPoint
        · exact documented.strictDouble_integer [45] _ ch other (.inr rfl) someDigits areDigits noDigit
            noPoint
        · exact isLocal.strictDouble_plus _ ch other someDigits areDigits noDigit noPoint
      · rw [integer, skipped, drops]
        apply reads _
        intro first isHead
        injection isHead with same
        rwa [← same]
  | boolTrue found => exact .boolTrue (swaps_word (by decide) _ _ _ (ch :: other) found)
  | boolFalse found => exact .boolFalse (swaps_word (by decide) _ _ _ (ch :: other) found)
  | null found => exact .null (swaps_word (by decide) _ _ _ (ch :: other) found)

section Values

variable {bound : ℕ} (documented : library.Documented)
  (values : SwapsBehind (EndsNumber library) (Value library) bound)

include documented values

theorem elements_delimited : Delimited (comma library) (lit library 93) (Value library)
    (EndsNumber library) bound where
  consumes _ _ _ _ := value_consumes documented
  separator_consumes _ _ _ := lit_consumes
  close_consumes _ _ _ := lit_consumes
  separator_ends _ _ _ := lit_ends (by decide)
  close_ends _ _ _ := lit_ends (by decide)
  items := values
  separators := swaps_lit 44
  closes := swaps_lit 93

theorem pair_swaps : SwapsBehind (EndsNumber library) (Pair library (Value library)) bound := by
  intro member text ch rest other ends short derives
  generalize inputEq : text ++ ch :: rest = input at derives short
  generalize endEq : ch :: rest = final at derives
  cases derives with
  | mk name separates derives =>
      subst endEq
      have named := string_consumes name
      have separated := lit_consumes separates
      have valued := value_consumes documented derives
      have innerShort := (separated.2.trans named.2).trans short
      rcases named.1 with ⟨key, rfl⟩
      rcases separated.1 with ⟨colonText, rfl⟩
      rcases valued.1 with ⟨read, rfl⟩
      have textEq : text = key ++ (colonText ++ read) := by
        refine (List.append_left_inj _).mp (inputEq.trans ?_)
        simp only [List.append_assoc]
      rw [textEq]
      simp only [List.append_assoc]
      refine .mk (swaps_string _ _ _ (colonText ++ (read ++ ch :: other)) name)
        (swaps_lit 58 _ _ _ (read ++ ch :: other) separates) ?_
      exact values _ _ _ _ other ends innerShort derives

theorem members_delimited : Delimited (comma library) (lit library 125)
    (Pair library (Value library)) (EndsNumber library) bound where
  consumes _ _ _ short derives :=
    pair_consumes (fun _ _ _ _ => value_consumes documented) derives short
  separator_consumes _ _ _ := lit_consumes
  close_consumes _ _ _ := lit_consumes
  separator_ends _ _ _ := lit_ends (by decide)
  close_ends _ _ _ := lit_ends (by decide)
  items := pair_swaps documented values
  separators := swaps_lit 44
  closes := swaps_lit 125

/-- What is in brackets ends with its bracket. -/
theorem object_swaps {text rest : Input} {members : List (StdString × JSON)} (other : Input)
    (short : (text ++ rest).length ≤ bound)
    (derives : Value library (.object members) (text ++ rest) rest) :
    Value library (.object members) (text ++ other) other := by
  rcases derives.of_object with ⟨ch, inner, opens, derives⟩
  rcases derives.opened_swaps (members_delimited documented values) (swaps_lit 123)
    (fun _ _ _ => lit_consumes) opens other short with ⟨behind, opens, derives⟩
  exact .object opens derives

theorem array_swaps {text rest : Input} {items : List JSON} (other : Input)
    (short : (text ++ rest).length ≤ bound)
    (derives : Value library (.array items) (text ++ rest) rest) :
    Value library (.array items) (text ++ other) other := by
  rcases derives.of_array with ⟨ch, inner, opens, derives⟩
  rcases derives.opened_swaps (elements_delimited documented values) (swaps_lit 91)
    (fun _ _ _ => lit_consumes) opens other short with ⟨behind, opens, derives⟩
  exact .array opens derives

end Values

/-- By induction on the length of the text, because a list holds values. -/
theorem value_swaps (documented : library.Documented) (isLocal : library.Local) (bound : ℕ) :
    SwapsBehind (EndsNumber library) (Value library) bound := by
  induction bound with
  | zero => exact fun _ _ _ _ _ _ short => absurd short (Nat.not_lt_zero _)
  | succ bound ih =>
      intro value text ch rest other ends short derives
      have fits := Nat.le_of_lt_succ short
      cases value with
      | object members => exact object_swaps documented ih (ch :: other) fits derives
      | array items => exact array_swaps documented ih (ch :: other) fits derives
      | _ =>
          cases derives with
          | simple derives =>
              exact .simple (simple_swaps documented isLocal _ _ _ _ _ other ends short derives)

/-- What is derived does not depend on what stands behind it. -/
theorem json_swaps (documented : library.Documented) (isLocal : library.Local) :
    Swaps (Json library) := by
  intro value text rest other derives
  have values := value_swaps documented isLocal (text ++ rest).length
  cases derives with
  | object derives => exact .object (object_swaps documented values other le_rfl derives)
  | array derives => exact .array (array_swaps documented values other le_rfl derives)

end JSONReader

end Poolserver
