import Mathlib.Data.List.Basic
import Mathlib.Data.List.TakeWhile
import Poolserver.Lib.DecimalText

/-!
# Requests of HTTP

A request is a line, header fields and a body of as many bytes as the field for the length of the
content says. The reader takes a line feed for the end of a line, with or without a carriage
return in front of it, and spaces off the front of the values of fields; names of fields are
compared without regard to case. What is written with simple lines is read back, whatever
follows it.
-/

namespace HttpMessage

abbrev Bytes := List UInt8

structure Request where
  line : Bytes
  fields : List (Bytes × Bytes)
  body : Bytes
  deriving DecidableEq

/-! ## Reading -/

/-- A line without its end, and what is behind it. -/
def readLine (text : Bytes) : Option (Bytes × Bytes) :=
  match text.dropWhile (fun ch => ch ≠ 10) with
  | [] => none
  | _ :: rest =>
      let line := text.takeWhile (fun ch => ch ≠ 10)
      some (if line.getLast? = some 13 then line.dropLast else line, rest)

/-- The name and the value in a line. -/
def readField (line : Bytes) : Option (Bytes × Bytes) :=
  match line.dropWhile (fun ch => ch ≠ 58) with
  | [] => none
  | _ :: value => some (line.takeWhile (fun ch => ch ≠ 58), value.dropWhile (fun ch => ch = 32))

/-- The fields up to an empty line, with fuel for the number of lines. -/
def readFields : ℕ → Bytes → Option (List (Bytes × Bytes) × Bytes)
  | 0, _ => none
  | fuel + 1, text => do
      let (line, rest) ← readLine text
      if line = [] then some ([], rest)
      else do
        let field ← readField line
        let (fields, rest) ← readFields fuel rest
        return (field :: fields, rest)

def lower (name : Bytes) : Bytes :=
  name.map HexText.lower

/-- The value of the first field with the name. -/
def field? (fields : List (Bytes × Bytes)) (name : Bytes) : Option Bytes :=
  (fields.find? fun field => lower field.1 = lower name).map Prod.snd

def readNumber (value : Bytes) : Option ℕ :=
  if !value.isEmpty && value.all (fun ch => decide (DecimalText.IsDigit ch)) then
    some (DecimalText.value value)
  else none

/-- The request at the front of a text, and what is behind it. -/
def read? (contentLength text : Bytes) : Option (Request × Bytes) := do
  let (line, rest) ← readLine text
  let (fields, rest) ← readFields (rest.length + 1) rest
  let length ← (field? fields contentLength).bind readNumber
  if length ≤ rest.length then some (⟨line, fields, rest.take length⟩, rest.drop length) else none

/-! ## Writing -/

def writeField (field : Bytes × Bytes) : Bytes :=
  field.1 ++ 58 :: 32 :: field.2 ++ [10]

def write (request : Request) : Bytes :=
  request.line ++ 10 :: request.fields.flatMap writeField ++ 10 :: request.body

/-- A line that ends with a line feed alone. -/
structure Plain (line : Bytes) : Prop where
  unbroken : 10 ∉ line
  noReturn : line.getLast? ≠ some 13

/-- A field that is read as it is written. -/
structure PlainField (field : Bytes × Bytes) : Prop where
  line : Plain (field.1 ++ 58 :: 32 :: field.2)
  name : 58 ∉ field.1
  value : field.2.head? ≠ some 32

theorem readLine_append {line rest : Bytes} (plain : Plain line) :
    readLine (line ++ 10 :: rest) = some (line, rest) := by
  have unbroken : ∀ ch ∈ line, decide (ch ≠ 10) = true := by
    intro ch chMem
    rw [decide_eq_true_eq]
    rintro rfl
    exact plain.unbroken chMem
  have front : (line ++ 10 :: rest).takeWhile (fun ch => ch ≠ 10) = line := by
    rw [List.takeWhile_append_of_pos unbroken, List.takeWhile_cons_of_neg (by simp),
      List.append_nil]
  have back : (line ++ 10 :: rest).dropWhile (fun ch => ch ≠ 10) = 10 :: rest := by
    rw [List.dropWhile_append_of_pos unbroken, List.dropWhile_cons_of_neg (by simp)]
  rw [readLine, back, front]
  simp only [if_neg plain.noReturn]

theorem readField_append {name value : Bytes} (plain : PlainField (name, value)) :
    readField (name ++ 58 :: 32 :: value) = some (name, value) := by
  have named : ∀ ch ∈ name, decide (ch ≠ 58) = true := by
    intro ch chMem
    rw [decide_eq_true_eq]
    rintro rfl
    exact plain.name chMem
  have front : (name ++ 58 :: 32 :: value).takeWhile (fun ch => ch ≠ 58) = name := by
    rw [List.takeWhile_append_of_pos named, List.takeWhile_cons_of_neg (by simp),
      List.append_nil]
  have back : (name ++ 58 :: 32 :: value).dropWhile (fun ch => ch ≠ 58) = 58 :: 32 :: value := by
    rw [List.dropWhile_append_of_pos named, List.dropWhile_cons_of_neg (by simp)]
  have stripped : (32 :: value).dropWhile (fun ch => ch = 32) = value := by
    rw [List.dropWhile_cons_of_pos (by simp)]
    cases value with
    | nil => rfl
    | cons ch rest =>
        refine List.dropWhile_cons_of_neg ?_
        intro isSpace
        exact plain.value (congrArg some (of_decide_eq_true isSpace))
  rw [readField, back, front]
  simp only [stripped]

theorem readFields_append {fields : List (Bytes × Bytes)} {rest : Bytes} {fuel : ℕ}
    (plain : ∀ field ∈ fields, PlainField field) (enough : fields.length < fuel) :
    readFields fuel (fields.flatMap writeField ++ 10 :: rest) = some (fields, rest) := by
  induction fields generalizing fuel with
  | nil =>
      rcases Nat.exists_eq_succ_of_ne_zero (Nat.ne_zero_of_lt enough) with ⟨fuel, rfl⟩
      have emptyLine := @readLine_append [] rest ⟨List.not_mem_nil, nofun⟩
      rw [List.nil_append] at emptyLine
      rw [readFields, List.flatMap_nil, List.nil_append, emptyLine]
      rfl
  | cons field fields ih =>
      rcases Nat.exists_eq_succ_of_ne_zero (Nat.ne_zero_of_lt enough) with ⟨fuel, rfl⟩
      rw [List.forall_mem_cons] at plain
      have shape : (field :: fields).flatMap writeField ++ 10 :: rest =
          (field.1 ++ 58 :: 32 :: field.2) ++ 10 :: (fields.flatMap writeField ++ 10 :: rest) := by
        simp [writeField]
      have later := ih plain.2 (Nat.lt_of_succ_lt_succ enough)
      have notEmpty : field.1 ++ 58 :: 32 :: field.2 ≠ [] := by simp
      rw [readFields, shape, readLine_append plain.1.line]
      simp only [Option.bind_eq_bind, Option.bind_some, if_neg notEmpty,
        readField_append plain.1, later]
      rfl

theorem readNumber_write (number : ℕ) : readNumber (DecimalText.write number) = some number := by
  have digits : (DecimalText.write number).all (fun ch => decide (DecimalText.IsDigit ch)) := by
    rw [List.all_eq_true]
    intro ch chMem
    exact decide_eq_true (DecimalText.isDigit_of_mem_write chMem)
  have written : (DecimalText.write number).isEmpty = false :=
    List.isEmpty_eq_false_iff.mpr (DecimalText.write_ne_nil number)
  rw [readNumber, written, digits, DecimalText.value_write]
  rfl

theorem length_fields_le (fields : List (Bytes × Bytes)) :
    fields.length ≤ (fields.flatMap writeField).length := by
  induction fields with
  | nil => exact Nat.le_refl 0
  | cons field fields ih =>
      rw [List.flatMap_cons, List.length_append, List.length_cons, writeField]
      simp only [List.length_append, List.length_cons]
      omega

/-- A request is read back from what is written for it, whatever follows. -/
theorem read_write {request : Request} {contentLength rest : Bytes}
    (line : Plain request.line) (fields : ∀ field ∈ request.fields, PlainField field)
    (length : field? request.fields contentLength =
      some (DecimalText.write request.body.length)) :
    read? contentLength (write request ++ rest) = some (request, rest) := by
  have shape : write request ++ rest = request.line ++ 10 ::
      (request.fields.flatMap writeField ++ 10 :: (request.body ++ rest)) := by
    simp [write]
  have enough : request.fields.length <
      (request.fields.flatMap writeField ++ 10 :: (request.body ++ rest)).length + 1 := by
    have few := length_fields_le request.fields
    rw [List.length_append]
    omega
  rw [read?, shape, readLine_append line]
  simp only [Option.bind_eq_bind, Option.bind_some, readFields_append fields enough, length,
    readNumber_write]
  simp

end HttpMessage
