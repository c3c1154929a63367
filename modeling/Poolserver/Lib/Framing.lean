import Mathlib.Data.List.Basic
import Mathlib.Tactic

/-!
# Lines of a stream

A stream is cut at a separator into the lines that are complete and the rest behind the last
of them. The cut is unique, and what is unfinished at any time becomes the beginning of a
line or of the rest.
-/

namespace Framing

universe u

variable {α : Type u} {sep : α}

/-- The lines that end with a separator, and the rest. -/
structure Framed (sep : α) (stream : List α) (lines : List (List α)) (rest : List α) : Prop where
  joined : stream = (lines.flatMap fun line => line ++ [sep]) ++ rest
  closed : ∀ line ∈ lines, sep ∉ line
  unfinished : sep ∉ rest

variable {stream rest : List α} {lines : List (List α)}

theorem Framed.nil : Framed sep [] [] [] :=
  ⟨rfl, by simp, by simp⟩

/-- A separator ends the current line. -/
theorem Framed.separate (framed : Framed sep stream lines rest) :
    Framed sep (stream ++ [sep]) (lines ++ [rest]) [] := by
  refine ⟨?_, ?_, by simp⟩
  · rw [framed.joined]
    simp
  · intro line lineMem
    rcases List.mem_append.mp lineMem with old | new
    · exact framed.closed line old
    · rw [List.mem_singleton] at new
      rw [new]
      exact framed.unfinished

/-- Anything else goes to the current line. -/
theorem Framed.extend (framed : Framed sep stream lines rest) {item : α} (other : item ≠ sep) :
    Framed sep (stream ++ [item]) lines (rest ++ [item]) := by
  refine ⟨?_, framed.closed, ?_⟩
  · rw [framed.joined, List.append_assoc]
  · rw [List.mem_append, List.mem_singleton]
    exact not_or.mpr ⟨framed.unfinished, Ne.symm other⟩

/-- What is put on a stream comes behind its lines. -/
theorem Framed.exists_append (framed : Framed sep stream lines rest) (more : List α) :
    ∃ later after, Framed sep (stream ++ more) (lines ++ later) after := by
  induction more using List.reverseRecOn with
  | nil => exact ⟨[], rest, by simpa using framed⟩
  | append_singleton more item ih =>
      rcases ih with ⟨later, after, framed⟩
      rw [← List.append_assoc]
      by_cases ends : item = sep
      · rw [ends]
        refine ⟨later ++ [after], [], ?_⟩
        rw [← List.append_assoc]
        exact framed.separate
      · exact ⟨later, after ++ [item], framed.extend ends⟩

/-- Every stream has its lines. -/
theorem exists_framed (sep : α) (stream : List α) :
    ∃ lines rest, Framed sep stream lines rest := by
  have nothing : Framed sep ([] : List α) [] [] := .nil
  rcases nothing.exists_append stream with ⟨lines, rest, framed⟩
  exact ⟨lines, rest, by simpa using framed⟩

/-- Where a line ends, it is what is unfinished. -/
theorem Framed.of_line {line : List α} (framed : Framed sep stream lines rest)
    (lineMem : line ∈ lines) :
    ∃ front back before, stream = front ++ sep :: back ∧ Framed sep front before line := by
  rcases List.append_of_mem lineMem with ⟨before, after, rfl⟩
  have closed := framed.closed
  refine ⟨(before.flatMap fun other => other ++ [sep]) ++ line,
    (after.flatMap fun other => other ++ [sep]) ++ rest, before, ?_, rfl, ?_, ?_⟩
  · rw [framed.joined]
    simp
  · exact fun other otherMem => closed other (List.mem_append_left _ otherMem)
  · exact closed line lineMem

/-- Texts of whole lines, one after the other. -/
theorem Framed.flatMap {β : Type*} {items : List β} {text : β → List α}
    {linesOf : β → List (List α)}
    (framed : ∀ item ∈ items, Framed sep (text item) (linesOf item) []) :
    Framed sep (items.flatMap text) (items.flatMap linesOf) [] := by
  refine ⟨?_, ?_, List.not_mem_nil⟩
  · rw [List.append_nil, List.flatMap_assoc]
    refine List.flatMap_congr fun item itemMem => ?_
    rw [(framed item itemMem).joined, List.append_nil]
  · intro line lineMem
    rcases List.mem_flatMap.mp lineMem with ⟨item, itemMem, inLines⟩
    exact (framed item itemMem).closed line inLines

/-- Two texts without a separator are equal if they stand in front of one in equal streams. -/
theorem first_separator {line other more others : List α} (closed : sep ∉ line)
    (otherClosed : sep ∉ other) (same : line ++ sep :: more = other ++ sep :: others) :
    line = other ∧ more = others := by
  induction line generalizing other with
  | nil =>
      cases other with
      | nil =>
          injection same with _ behind
          exact ⟨rfl, behind⟩
      | cons item other =>
          injection same with head _
          rw [head] at otherClosed
          exact absurd List.mem_cons_self otherClosed
  | cons item line ih =>
      cases other with
      | nil =>
          injection same with head _
          rw [head] at closed
          exact absurd List.mem_cons_self closed
      | cons second other =>
          rw [List.mem_cons, not_or] at closed otherClosed
          injection same with head behind
          rcases ih closed.2 otherClosed.2 behind with ⟨rfl, moreEq⟩
          exact ⟨by rw [head], moreEq⟩

theorem Framed.of_cons {line : List α} (framed : Framed sep stream (line :: lines) rest) :
    ∃ behind, stream = line ++ sep :: behind ∧ sep ∉ line ∧ Framed sep behind lines rest := by
  have closed := List.forall_mem_cons.mp framed.closed
  refine ⟨_, ?_, closed.1, rfl, closed.2, framed.unfinished⟩
  rw [framed.joined]
  simp

theorem Framed.of_nil (framed : Framed sep stream [] rest) : stream = rest ∧ sep ∉ stream := by
  have joined : stream = rest := framed.joined
  exact ⟨joined, joined ▸ framed.unfinished⟩

/-- What is unfinished in front of a stream begins a line of the whole, or its rest. -/
theorem Framed.unfinished_prefix {more : List α} {current : List α} {before : List (List α)}
    (early : Framed sep stream before current)
    (whole : Framed sep (stream ++ more) lines rest) : ∃ line ∈ rest :: lines, current <+: line := by
  induction before generalizing stream lines with
  | nil =>
      rcases early.of_nil with ⟨rfl, noSep⟩
      cases lines with
      | nil =>
          rcases whole.of_nil with ⟨restEq, _⟩
          exact ⟨rest, List.mem_cons_self, more, restEq⟩
      | cons line lines =>
          rcases whole.of_cons with ⟨behind, split, _, _⟩
          refine ⟨line, by simp, ?_⟩
          rcases List.append_eq_append_iff.mp split with ⟨between, lineEq, _⟩ | ⟨between, streamEq, sepEq⟩
          · exact ⟨between, lineEq.symm⟩
          · cases between with
            | nil =>
                rw [List.append_nil] at streamEq
                rw [streamEq]
            | cons item between =>
                injection sepEq with head _
                rw [streamEq, ← head] at noSep
                simp at noSep
  | cons first before ih =>
      rcases early.of_cons with ⟨behind, rfl, firstClosed, early⟩
      rw [List.append_assoc, List.cons_append] at whole
      cases lines with
      | nil =>
          have noSep := whole.of_nil.2
          simp at noSep
      | cons line lines =>
          rcases whole.of_cons with ⟨wholeBehind, split, lineClosed, whole⟩
          rcases first_separator firstClosed lineClosed split with ⟨rfl, rfl⟩
          rcases ih early whole with ⟨found, foundMem, isPrefix⟩
          refine ⟨found, ?_, isPrefix⟩
          rcases List.mem_cons.mp foundMem with rfl | inLines
          · exact List.mem_cons_self
          · exact List.mem_cons_of_mem _ (List.mem_cons_of_mem _ inLines)

/-- A stream is cut in one way. -/
theorem Framed.unique {otherLines : List (List α)} {otherRest : List α}
    (framed : Framed sep stream lines rest) (other : Framed sep stream otherLines otherRest) :
    lines = otherLines ∧ rest = otherRest := by
  induction lines generalizing stream otherLines with
  | nil =>
      rcases framed.of_nil with ⟨rfl, noSep⟩
      cases otherLines with
      | nil => exact ⟨rfl, other.of_nil.1⟩
      | cons line otherLines =>
          rcases other.of_cons with ⟨behind, split, _, _⟩
          rw [split] at noSep
          simp at noSep
  | cons line lines ih =>
      rcases framed.of_cons with ⟨behind, rfl, lineClosed, framed⟩
      cases otherLines with
      | nil =>
          have noSep := other.of_nil.2
          simp at noSep
      | cons second otherLines =>
          rcases other.of_cons with ⟨otherBehind, split, secondClosed, other⟩
          rcases first_separator lineClosed secondClosed split with ⟨rfl, rfl⟩
          rcases ih framed other with ⟨rfl, restEq⟩
          exact ⟨rfl, restEq⟩

end Framing
