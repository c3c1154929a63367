import Mathlib.Tactic

/-!
# Common types

Byte strings stand for both `BinaryData` (a vector of bytes) and `std::string`.
A C++ function is a total Lean function where nothing can go wrong, returns in
`Except StdException` where it can leave by an exception, and in `Option` where
its execution can be undefined or abort the process (an index outside a vector,
a null pointer, a division by zero): `none` is an execution the language gives
no meaning to.
-/

namespace Poolserver

abbrev BinaryData := List UInt8

/-- A `std::string`, which is a sequence of bytes. -/
abbrev StdString := List UInt8

/-- The bytes of a string literal of the source. -/
def ascii (text : String) : StdString :=
  text.toList.map fun character => UInt8.ofNat character.toNat

/-- `std::min`. -/
def stdMin {α : Type} [LT α] [DecidableLT α] (a b : α) : α :=
  if b < a then b else a

/-- The exceptions derived from `std::exception` that the modeled code raises. -/
inductive StdException where
  | json (text : StdString)
  | jsonRPC (text : StdString)
  | lengthError
  | badAlloc
  | badLexicalCast
  | invalidArgument
  /-- What Boost.Asio throws where a connection ends too early. -/
  | systemError
  deriving DecidableEq, Repr

section Exceptions

variable {α β : Type}

/-- A computation with exceptions returns if both of its parts do. -/
theorem bind_eq_ok {computation : Except StdException α} {next : α → Except StdException β}
    {result : β} :
    computation >>= next = .ok result ↔ ∃ value, computation = .ok value ∧ next value = .ok result := by
  cases computation with
  | error exception => simp [bind, Except.bind]
  | ok value => simp [bind, Except.bind]

/-- A loop with exceptions returns if each of its turns does. -/
theorem mapM_eq_ok {items : List α} {turn : α → Except StdException β} {results : List β}
    (returns : items.mapM turn = .ok results) :
    List.Forall₂ (fun item result => turn item = .ok result) items results := by
  induction items generalizing results with
  | nil =>
      rw [List.mapM_nil] at returns
      injection returns with empty
      subst empty
      exact .nil
  | cons item items ih =>
      simp only [List.mapM_cons, bind_eq_ok] at returns
      rcases returns with ⟨result, first, others, rest, returns⟩
      injection returns with same
      subst same
      exact .cons first (ih rest)

end Exceptions

end Poolserver
