import Mathlib.Data.List.Basic
import Mathlib.Control.Monad.Basic
import Mathlib.Tactic

/-!
# Readers that move a cursor over a buffer

A reader is a partial function on a cursor state. A cursor state stands for a
split of the buffer contents into what was already consumed and what is left;
the split, and the buffers that can occur at all, are parameters. `Reads reader
bytes value` says that, wherever `bytes` occur in an admissible buffer, a
reader placed at them returns `value` and stops right behind them. The rules
below compose such facts along the structure of a reader, so that a decoder is
proved to undo an encoder field by field.
-/

namespace CursorReader

universe u v w

variable {σ : Type u} {ε β : Type v} {α γ : Type u}
  (cursor : List β → List β → σ) (Admissible : List β → Prop)

/-- Wherever `bytes` stand at the cursor, the reader returns `value` and stops behind them. -/
def Reads (reader : StateT σ (Except ε) α) (bytes : List β) (value : α) : Prop :=
  ∀ before after, Admissible (before ++ bytes ++ after) →
    reader (cursor before (bytes ++ after)) = .ok (value, cursor (before ++ bytes) after)

variable {cursor Admissible}

theorem Reads.pure (value : α) :
    Reads cursor Admissible (Pure.pure value : StateT σ (Except ε) α) [] value := by
  intro before after _
  rw [List.append_nil]
  rfl

/-- What is assumed of a buffer around the bytes can be used to find their value. -/
theorem Reads.of_admissible {reader : StateT σ (Except ε) α} {bytes : List β} {value : α}
    (reads : ∀ before after, Admissible (before ++ bytes ++ after) →
      Reads cursor Admissible reader bytes value) :
    Reads cursor Admissible reader bytes value :=
  fun before after admissible => reads before after admissible before after admissible

/-- Readers run in sequence read their bytes in sequence. -/
theorem Reads.bind {first : StateT σ (Except ε) α} {next : α → StateT σ (Except ε) γ}
    {bytes rest : List β} {value : α} {result : γ}
    (readsFirst : Reads cursor Admissible first bytes value)
    (readsNext : Reads cursor Admissible (next value) rest result) :
    Reads cursor Admissible (first >>= next) (bytes ++ rest) result := by
  intro before after admissible
  have firstResult := readsFirst before (rest ++ after) (by simpa using admissible)
  have nextResult := readsNext (before ++ bytes) after (by simpa using admissible)
  rw [List.append_assoc]
  simp only [Bind.bind, StateT.bind, firstResult, Except.bind]
  simpa using nextResult

theorem Reads.map {reader : StateT σ (Except ε) α} {bytes : List β} {value : α}
    (reads : Reads cursor Admissible reader bytes value) (f : α → γ) :
    Reads cursor Admissible (reader >>= fun x => Pure.pure (f x)) bytes (f value) := by
  rw [← List.append_nil bytes]
  refine reads.bind ?_
  exact .pure (f value)

/-- Run a reader a fixed number of times and collect the results in order. -/
def readMany (reader : StateT σ (Except ε) α) : ℕ → StateT σ (Except ε) (List α)
  | 0 => Pure.pure []
  | count + 1 => do
      let value ← reader
      let values ← readMany reader count
      Pure.pure (value :: values)

/-- A reader that undoes an encoder on each item undoes their concatenation. -/
theorem Reads.readMany {reader : StateT σ (Except ε) α} {encode : α → List β} {values : List α}
    (reads : ∀ value ∈ values, Reads cursor Admissible reader (encode value) value) :
    Reads cursor Admissible (CursorReader.readMany reader values.length)
      (values.flatMap encode) values := by
  induction values with
  | nil => exact .pure []
  | cons value values ih =>
      rw [List.flatMap_cons]
      have head := reads value (by simp)
      have tail := ih (fun item itemMem => reads item (by simp [itemMem]))
      exact head.bind (tail.map (value :: ·))

/-! ## One place in a buffer -/

variable (cursor) in
/-- A reader placed between these two parts of a buffer returns `value` and stops behind `bytes`. -/
def ReadsAt (reader : StateT σ (Except ε) α) (before bytes after : List β) (value : α) : Prop :=
  reader (cursor before (bytes ++ after)) = .ok (value, cursor (before ++ bytes) after)

theorem ReadsAt.bind {first : StateT σ (Except ε) α} {next : α → StateT σ (Except ε) γ}
    {before bytes rest after : List β} {value : α} {result : γ}
    (readsFirst : ReadsAt cursor first before bytes (rest ++ after) value)
    (readsNext : ReadsAt cursor (next value) (before ++ bytes) rest after result) :
    ReadsAt cursor (first >>= next) before (bytes ++ rest) after result := by
  unfold ReadsAt at *
  simp only [List.append_assoc] at readsNext ⊢
  simp only [Bind.bind, StateT.bind, readsFirst, Except.bind]
  exact readsNext

theorem ReadsAt.map {reader : StateT σ (Except ε) α} {before bytes after : List β} {value : α}
    (reads : ReadsAt cursor reader before bytes after value) (f : α → γ) :
    ReadsAt cursor (reader >>= fun x => Pure.pure (f x)) before bytes after (f value) := by
  rw [← List.append_nil bytes]
  refine ReadsAt.bind reads ?_
  rw [ReadsAt, List.append_nil]
  rfl

/-- Readers in sequence return if one after the other does. -/
theorem bind_eq_ok {first : StateT σ (Except ε) α} {next : α → StateT σ (Except ε) γ}
    {state last : σ} {result : γ} :
    (first >>= next) state = .ok (result, last) ↔
      ∃ value middle, first state = .ok (value, middle) ∧
        next value middle = .ok (result, last) := by
  simp only [Bind.bind, StateT.bind]
  cases first state with
  | error exception => simp [Except.bind]
  | ok found =>
      rcases found with ⟨value, middle⟩
      simp only [Except.bind, Except.ok.injEq, Prod.mk.injEq]
      constructor
      · exact fun rest => ⟨value, middle, ⟨rfl, rfl⟩, rest⟩
      · rintro ⟨_, _, ⟨rfl, rfl⟩, rest⟩
        exact rest

theorem pure_eq_ok {value result : α} {state last : σ} :
    (Pure.pure value : StateT σ (Except ε) α) state = .ok (result, last) ↔
      value = result ∧ state = last := by
  change Except.ok (value, state) = .ok (result, last) ↔ _
  rw [Except.ok.injEq, Prod.mk.injEq]

/-- Behind bytes that are read for sure, the rest of a sequence decides. -/
theorem Reads.bind_eq_ok {first : StateT σ (Except ε) α} {next : α → StateT σ (Except ε) γ}
    {before bytes after : List β} {value : α} {result : γ} {last : σ}
    (reads : Reads cursor Admissible first bytes value)
    (admissible : Admissible (before ++ bytes ++ after)) :
    (first >>= next) (cursor before (bytes ++ after)) = .ok (result, last) ↔
      next value (cursor (before ++ bytes) after) = .ok (result, last) := by
  simp only [Bind.bind, StateT.bind, reads before after admissible, Except.bind]

/-- Two values that one reader finds in the same bytes are equal. -/
theorem Reads.unique {reader : StateT σ (Except ε) α} {bytes : List β} {left right : α}
    (readsLeft : Reads cursor Admissible reader bytes left)
    (readsRight : Reads cursor Admissible reader bytes right)
    (admissible : Admissible bytes) : left = right := by
  have leftResult := readsLeft [] [] (by simpa using admissible)
  have rightResult := readsRight [] [] (by simpa using admissible)
  rw [leftResult] at rightResult
  simp only [Except.ok.injEq, Prod.mk.injEq, and_true] at rightResult
  exact rightResult

end CursorReader
