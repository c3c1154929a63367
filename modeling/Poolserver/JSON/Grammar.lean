import Poolserver.JSON.Reader

/-!
# The grammar of JSON texts

What `Grammar` derives from a text, without its semantic actions: its rules, where a choice is
made in the order of the alternatives. How a value begins decides which alternative it is.
-/

namespace Poolserver

open Spirit

/-- How a number in floating point begins: with a sign, a digit, a dot, or as `nan` or `inf`. -/
def RealStart (ch : UInt8) : Prop :=
  DecimalText.IsDigit ch ∨ ch ∈ ([43, 45, 46, 73, 78, 105, 110] : List UInt8)

instance (ch : UInt8) : Decidable (RealStart ch) :=
  inferInstanceAs (Decidable (_ ∨ _))

/-- What is documented of the library. -/
structure Library.Documented (library : Library) : Prop where
  space_blank : library.space 32 = true
  space_visible : ∀ ch, 33 ≤ ch → ch ≤ 126 → library.space ch = false
  strictDouble_consumes : ∀ input bits rest,
    library.strictDouble input = some (bits, rest) → Consumes input rest
  strictDouble_start : ∀ input bits rest, library.strictDouble input = some (bits, rest) →
    ∃ ch behind, input = ch :: behind ∧ RealStart ch
  strictDouble_nan : ∀ rest, library.strictDouble (ascii "nu" ++ rest) = none
  /-- Without a dot and an exponent there is no number in floating point. -/
  strictDouble_integer : ∀ sign digits ch rest, sign = [] ∨ sign = [45] → digits ≠ [] →
    (∀ digit ∈ digits, DecimalText.IsDigit digit) → ¬DecimalText.IsDigit ch →
    ch ∉ ([46, 69, 101] : List UInt8) → library.strictDouble (sign ++ digits ++ ch :: rest) = none

/-- A library for texts without numbers in floating point. -/
def Sample.library : Library where
  space ch := decide (ch ∈ ([9, 10, 11, 12, 13, 32, 160] : List UInt8))
  strictDouble _ := none
  doubleText _ := []

theorem Sample.library_documented : Sample.library.Documented where
  space_blank := by decide
  space_visible := by
    intro ch low high
    have notSpace : ch ∉ ([9, 10, 11, 12, 13, 32, 160] : List UInt8) := by
      intro isSpace
      have table : ∀ ch ∈ ([9, 10, 11, 12, 13, 32, 160] : List UInt8), ¬(33 ≤ ch ∧ ch ≤ 126) := by
        decide +kernel
      exact table ch isSpace ⟨low, high⟩
    simp only [Sample.library, notSpace, decide_false]
  strictDouble_consumes _ _ _ found := by simp [Sample.library] at found
  strictDouble_start _ _ _ found := by simp [Sample.library] at found
  strictDouble_nan _ := rfl
  strictDouble_integer _ _ _ _ _ _ _ _ _ := rfl

namespace JSONReader

variable (library : Library)

/-! ## Derivations -/

/-- A value that does not nest. -/
inductive Simple : JSON → Input → Input → Prop where
  | string {input rest : Input} {str : StdString}
      (found : string library input = some (str, rest)) : Simple (.string str) input rest
  | double {input rest : Input} {bits : UInt64}
      (found : strictDouble library input = some (bits, rest)) : Simple (.double bits) input rest
  | integer {input rest : Input} {val : Int64} (noDouble : strictDouble library input = none)
      (found : integer library input = some (val, rest)) : Simple (.integer val) input rest
  | boolTrue {input rest : Input} {literal : StdString}
      (found : word library (ascii "true") input = some (literal, rest)) :
      Simple (.bool true) input rest
  | boolFalse {input rest : Input} {literal : StdString}
      (found : word library (ascii "false") input = some (literal, rest)) :
      Simple (.bool false) input rest
  | null {input rest : Input} {literal : StdString}
      (found : word library (ascii "null") input = some (literal, rest)) :
      Simple .null input rest

/-- `pair`, over what `value` derives. -/
inductive Pair (Value : JSON → Input → Input → Prop) :
    StdString × JSON → Input → Input → Prop where
  | mk {input middle inner rest : Input} {key : StdString} {ch : UInt8} {value : JSON}
      (name : string library input = some (key, middle))
      (separates : colon library middle = some (ch, inner)) (derives : Value value inner rest) :
      Pair Value (key, value) input rest

/-- `value`: a value, a text that begins with it, and the rest of the text. -/
inductive Value : JSON → Input → Input → Prop where
  | object {input inner rest : Input} {ch : UInt8} {members : List (StdString × JSON)}
      (opens : lit library 123 input = some (ch, inner))
      (derives : Bracketed (comma library) (lit library 125) (Pair library Value) members inner
        rest) : Value (.object members) input rest
  | array {input inner rest : Input} {ch : UInt8} {items : List JSON}
      (opens : lit library 91 input = some (ch, inner))
      (derives : Bracketed (comma library) (lit library 93) Value items inner rest) :
      Value (.array items) input rest
  | simple {input rest : Input} {value : JSON} (derives : Simple library value input rest) :
      Value value input rest

/-- `json`: an object or an array. -/
inductive Json : JSON → Input → Input → Prop where
  | object {input rest : Input} {members : List (StdString × JSON)}
      (derives : Value library (.object members) input rest) : Json (.object members) input rest
  | array {input rest : Input} {items : List JSON}
      (derives : Value library (.array items) input rest) : Json (.array items) input rest

/-! ## How a text begins -/

section Beginnings

variable {library} {input rest behind : Input} {first : UInt8}

theorem lit_iff {ch found : UInt8} :
    lit library ch input = some (found, rest) ↔
      found = ch ∧ input.dropWhile library.space = ch :: rest :=
  char_iff

theorem word_iff {literal found : StdString} :
    word library literal input = some (found, rest) ↔
      found = literal ∧ input.dropWhile library.space = literal ++ rest :=
  text_iff

theorem lit_eq_none {ch : UInt8} (begins : input.dropWhile library.space = first :: behind)
    (differs : first ≠ ch) : lit library ch input = none := by
  simp [lit, skipped, begins, char, differs]

theorem word_eq_none {literal : StdString}
    (begins : input.dropWhile library.space = first :: behind)
    (differs : literal.head? ≠ some first) (nonempty : literal ≠ []) :
    word library literal input = none := by
  rw [Option.eq_none_iff_forall_ne_some]
  rintro ⟨found, rest⟩ matched
  have same := (word_iff.mp matched).2
  rcases List.exists_cons_of_ne_nil nonempty with ⟨ch, others, rfl⟩
  rw [begins, List.cons_append] at same
  injection same with headEq _
  exact differs (by rw [headEq]; rfl)

theorem string_eq_none (begins : input.dropWhile library.space = first :: behind)
    (differs : first ≠ 34) : string library input = none := by
  simp [string, skipped, begins, quoted, differs]

theorem string_begins {str : StdString} (found : string library input = some (str, rest)) :
    ∃ behind, input.dropWhile library.space = 34 :: behind := by
  cases begins : input.dropWhile library.space with
  | nil => simp [string, skipped, begins, quoted] at found
  | cons first behind =>
      by_cases quote : first = 34
      · exact ⟨behind, by rw [quote]⟩
      · rw [string_eq_none begins quote] at found
        simp at found

theorem strictDouble_eq_none (documented : library.Documented)
    (begins : input.dropWhile library.space = first :: behind) (differs : ¬RealStart first) :
    strictDouble library input = none := by
  rw [Option.eq_none_iff_forall_ne_some]
  rintro ⟨bits, rest⟩ found
  rcases documented.strictDouble_start _ _ _ found with ⟨ch, behind', same, start⟩
  rw [begins] at same
  injection same with headEq _
  exact differs (headEq ▸ start)

theorem integer_eq_none (begins : input.dropWhile library.space = first :: behind)
    (noSign : first ≠ 45 ∧ first ≠ 43) (noDigit : ¬DecimalText.IsDigit first) :
    integer library input = none := by
  rw [integer, skipped, begins]
  exact longLong_eq_none noSign noDigit

end Beginnings

/-! ## Simple values -/

/-- The alternatives of `Simple` in their order. -/
def simpleMatcher : Matcher JSON :=
  firstOf [mapped JSON.string (string library), mapped JSON.double (strictDouble library),
    mapped JSON.integer (integer library),
    mapped (fun _ => JSON.bool true) (word library (ascii "true")),
    mapped (fun _ => JSON.bool false) (word library (ascii "false")),
    mapped (fun _ => JSON.null) (word library (ascii "null"))]

variable {library} {input rest behind : Input} {first : UInt8} {value : JSON}

theorem simpleMatcher_of_begins (documented : library.Documented)
    (begins : input.dropWhile library.space = first :: behind)
    (bracket : first ∈ ([91, 93, 123, 125] : List UInt8)) : simpleMatcher library input = none := by
  have table : ∀ ch ∈ ([91, 93, 123, 125] : List UInt8), ch ≠ 34 ∧ ¬RealStart ch ∧
      (ch ≠ 45 ∧ ch ≠ 43) ∧ ¬DecimalText.IsDigit ch ∧ (ascii "true").head? ≠ some ch ∧
      (ascii "false").head? ≠ some ch ∧ (ascii "null").head? ≠ some ch := by
    decide +kernel
  rcases table first bracket with ⟨noQuote, noReal, noSign, noDigit, noTrue, noFalse, noNull⟩
  simp [simpleMatcher, firstOf, mapped, string_eq_none begins noQuote,
    strictDouble_eq_none documented begins noReal, integer_eq_none begins noSign noDigit,
    word_eq_none begins noTrue (by decide), word_eq_none begins noFalse (by decide),
    word_eq_none begins noNull (by decide)]

/-- The grammar of simple values is an ordered choice, which their beginnings decide. -/
theorem simple_iff (documented : library.Documented) :
    Simple library value input rest ↔ simpleMatcher library input = some (value, rest) := by
  constructor
  · intro derives
    cases derives with
    | string found => simp [simpleMatcher, firstOf, mapped, found]
    | double found =>
        have noString : string library input = none := by
          rcases documented.strictDouble_start _ _ _ found with ⟨ch, behind, begins, start⟩
          exact string_eq_none begins (by rintro rfl; revert start; decide)
        simp [simpleMatcher, firstOf, mapped, found, noString]
    | integer noDouble found =>
        have noString : string library input = none := by
          rw [Option.eq_none_iff_forall_ne_some]
          rintro ⟨str, strRest⟩ isString
          rcases string_begins isString with ⟨behind, begins⟩
          rw [integer_eq_none begins (by decide) (by decide)] at found
          simp at found
        simp [simpleMatcher, firstOf, mapped, found, noDouble, noString]
    | boolTrue found =>
        have begins := (word_iff.mp found).2
        have noString := string_eq_none begins (by decide)
        have noDouble := strictDouble_eq_none documented begins (by decide)
        have noInteger := integer_eq_none begins (by decide) (by decide)
        simp [simpleMatcher, firstOf, mapped, found, noString, noDouble, noInteger]
    | boolFalse found =>
        have begins := (word_iff.mp found).2
        have noString := string_eq_none begins (by decide)
        have noDouble := strictDouble_eq_none documented begins (by decide)
        have noInteger := integer_eq_none begins (by decide) (by decide)
        have noTrue : word library (ascii "true") input = none :=
          word_eq_none begins (by decide) (by decide)
        simp [simpleMatcher, firstOf, mapped, found, noString, noDouble, noInteger, noTrue]
    | null found =>
        have begins := (word_iff.mp found).2
        have noString := string_eq_none begins (by decide)
        have noDouble : strictDouble library input = none := by
          rw [strictDouble, skipped, begins]
          exact documented.strictDouble_nan (ascii "ll" ++ rest)
        have noInteger := integer_eq_none begins (by decide) (by decide)
        have noTrue : word library (ascii "true") input = none :=
          word_eq_none begins (by decide) (by decide)
        have noFalse : word library (ascii "false") input = none :=
          word_eq_none begins (by decide) (by decide)
        simp [simpleMatcher, firstOf, mapped, found, noString, noDouble, noInteger, noTrue, noFalse]
  · intro found
    simp only [simpleMatcher, firstOf_cons, mapped_eq_some, mapped_eq_none] at found
    rcases found with ⟨str, found, rfl⟩ | ⟨_, ⟨bits, found, rfl⟩ | ⟨noDouble, found⟩⟩
    · exact .string found
    · exact .double found
    rcases found with ⟨val, found, rfl⟩ | ⟨_, ⟨literal, found, rfl⟩ | ⟨_, found⟩⟩
    · exact .integer noDouble found
    · exact .boolTrue found
    rcases found with ⟨literal, found, rfl⟩ | ⟨_, ⟨literal, found, rfl⟩ | ⟨_, found⟩⟩
    · exact .boolFalse found
    · exact .null found
    · simp [firstOf] at found

end JSONReader

end Poolserver
