import Poolserver.JSON.RoundTrip

/-!
# String literals

`EscapeString` walks over the string and replaces characters where they stand; its index has
32 bits. The rule for strings takes everything up to the next quote as it is. So the writer
puts backslashes in front of quotes and apostrophes that the reader does not take out again.
-/

namespace Poolserver

namespace JSON

/-- The loop of `EscapeString` from an index on; the fuel bounds the number of its turns. -/
def escapeLoop : ℕ → UInt32 → StdString → Option StdString
  | 0, _, _ => none
  | fuel + 1, i, str =>
      match str[i.toNat]? with
      | none => some str
      | some ch =>
          match escapes.lookup ch with
          | none => escapeLoop fuel (i + 1) str
          | some esc =>
              escapeLoop fuel (i + UInt32.ofNat (esc.length - 1) + 1)
                (str.take i.toNat ++ esc ++ str.drop (i.toNat + 1))

/-- `Write` for a string. -/
def writeString (fuel : ℕ) (str : StdString) : Option StdString :=
  (escapeLoop fuel 0 str).map fun escaped => 34 :: escaped ++ [34]

/-! ## What the loop computes -/

/-- What a character is replaced by. -/
def escaped (ch : UInt8) : StdString :=
  (escapes.lookup ch).getD [ch]

theorem escapeString_cons (ch : UInt8) (str : StdString) :
    escapeString (ch :: str) = escaped ch ++ escapeString str :=
  List.flatMap_cons

theorem length_escaped (ch : UInt8) :
    (escaped ch).length = if ch = 34 ∨ ch = 39 then 2 else 1 := by
  by_cases double : ch = 34
  · subst double
    decide
  · by_cases single : ch = 39
    · subst single
      decide
    · have noDouble : (ch == 34) = false := beq_eq_false_iff_ne.mpr double
      have noSingle : (ch == 39) = false := beq_eq_false_iff_ne.mpr single
      simp [escaped, escapes, List.lookup_cons, noDouble, noSingle, double, single]

theorem length_escapeString (str : StdString) :
    (escapeString str).length = str.length + str.countP fun ch => ch = 34 ∨ ch = 39 := by
  induction str with
  | nil => rfl
  | cons ch str ih =>
      rw [escapeString_cons, List.length_append, length_escaped, ih, List.length_cons,
        List.countP_cons]
      split <;> simp_all <;> omega

theorem length_le_escapeString (str : StdString) : str.length ≤ (escapeString str).length := by
  rw [length_escapeString]
  exact Nat.le_add_right _ _

/-- A turn of the loop replaces the character at the index, and the index goes behind it. -/
theorem escapeLoop_cons {fuel : ℕ} {i : UInt32} {done todo : StdString} {ch : UInt8}
    (index : i.toNat = done.length) :
    escapeLoop (fuel + 1) i (done ++ ch :: todo) =
      escapeLoop fuel (i + UInt32.ofNat (escaped ch).length) (done ++ escaped ch ++ todo) := by
  have found : (done ++ ch :: todo)[i.toNat]? = some ch := by
    rw [index]
    simp
  cases lookup : escapes.lookup ch with
  | none =>
      have kept : escaped ch = [ch] := by rw [escaped, lookup, Option.getD_none]
      simp only [escapeLoop, found, lookup, kept, List.append_assoc, List.cons_append,
        List.nil_append]
      rfl
  | some esc =>
      have replaced : escaped ch = esc := by rw [escaped, lookup, Option.getD_some]
      have length := length_escaped ch
      have nonempty : 1 ≤ esc.length := by
        rw [replaced] at length
        split at length <;> omega
      have step : i + UInt32.ofNat (esc.length - 1) + 1 = i + UInt32.ofNat esc.length := by
        rw [UInt32.add_assoc]
        congr 1
        have one : (1 : UInt32) = UInt32.ofNat 1 := rfl
        rw [one, ← UInt32.ofNat_add, Nat.sub_add_cancel nonempty]
      have before : (done ++ ch :: todo).take i.toNat = done := by simp [index]
      have behind : (done ++ ch :: todo).drop (i.toNat + 1) = todo := by simp [index]
      simp only [escapeLoop, found, lookup, step, replaced, before, behind]

/-- Without a wrap the loop escapes the rest of the string, in one turn for each character. -/
theorem escapeLoop_eq {fuel : ℕ} {i : UInt32} {done todo : StdString}
    (index : i.toNat = done.length)
    (small : done.length + (escapeString todo).length < 2 ^ 32) :
    escapeLoop fuel i (done ++ todo) =
      if todo.length < fuel then some (done ++ escapeString todo) else none := by
  induction fuel generalizing i done todo with
  | zero => rfl
  | succ fuel ih =>
      cases todo with
      | nil =>
          have ends : (done ++ [])[i.toNat]? = none := by simp [index]
          rw [escapeLoop, ends]
          rfl
      | cons ch todo =>
          rw [escapeString_cons, List.length_append] at small
          have next : (i + UInt32.ofNat (escaped ch).length).toNat =
              (done ++ escaped ch).length := by
            rw [UInt32.toNat_add, UInt32.toNat_ofNat', index, List.length_append]
            omega
          rw [escapeLoop_cons index, ih next (by rw [List.length_append]; omega),
            escapeString_cons, List.append_assoc]
          simp only [List.length_cons, Nat.add_lt_add_iff_right]

/-- Where the index would pass its range, the loop starts over and never ends. -/
theorem escapeLoop_eq_none {fuel : ℕ} {i : UInt32} {done todo : StdString}
    (index : i.toNat = done.length)
    (large : 2 ^ 32 ≤ done.length + (escapeString todo).length) :
    escapeLoop fuel i (done ++ todo) = none := by
  induction fuel generalizing i done todo with
  | zero => rfl
  | succ fuel ih =>
      cases todo with
      | nil =>
          have bound := i.toNat_lt
          rw [index] at bound
          exact absurd bound (not_lt.mpr large)
      | cons ch todo =>
          rw [escapeString_cons, List.length_append] at large
          rw [escapeLoop_cons index]
          generalize nextEq : i + UInt32.ofNat (escaped ch).length = next
          have nextNat : next.toNat = (done.length + (escaped ch).length) % 2 ^ 32 := by
            rw [← nextEq, UInt32.toNat_add, UInt32.toNat_ofNat', index]
            omega
          generalize textEq : done ++ escaped ch ++ todo = text
          have length : text.length = done.length + (escaped ch).length + todo.length := by
            rw [← textEq, List.length_append, List.length_append]
          have inside : next.toNat ≤ text.length := by
            rw [nextNat, length]
            exact (Nat.mod_le _ _).trans (Nat.le_add_right _ _)
          rw [← List.take_append_drop next.toNat text]
          apply ih (by rw [List.length_take, min_eq_left inside])
          rw [List.length_take, min_eq_left inside]
          by_cases wraps : 2 ^ 32 ≤ done.length + (escaped ch).length
          · -- the index is small again, and everything behind it is still there
            have behind := length_escapeString (text.drop next.toNat)
            rw [List.length_drop] at behind
            omega
          · have atEnd : next.toNat = (done ++ escaped ch).length := by
              rw [nextNat, List.length_append]
              omega
            rw [← textEq, atEnd, List.drop_left, List.length_append]
            omega

theorem writeString_eq_some {fuel : ℕ} {str literal : StdString}
    (written : writeString fuel str = some literal) :
    (escapeString str).length < 2 ^ 32 ∧ literal = 34 :: escapeString str ++ [34] := by
  rw [writeString, Option.map_eq_some_iff] at written
  rcases written with ⟨result, loop, rfl⟩
  have start : (0 : UInt32).toNat = ([] : StdString).length := rfl
  rw [← List.nil_append str] at loop
  by_cases small : (escapeString str).length < 2 ^ 32
  · rw [escapeLoop_eq start (by simpa using small)] at loop
    split at loop
    · simp only [List.nil_append, Option.some.injEq] at loop
      exact ⟨small, by rw [← loop]⟩
    · simp at loop
  · rw [escapeLoop_eq_none start (by simpa using small)] at loop
    simp at loop

theorem writeString_of_lt {fuel : ℕ} {str : StdString} (small : (escapeString str).length < 2 ^ 32)
    (enough : str.length < fuel) :
    writeString fuel str = some (34 :: escapeString str ++ [34]) := by
  have start : (0 : UInt32).toNat = ([] : StdString).length := rfl
  have loop : escapeLoop fuel 0 ([] ++ str) = _ := escapeLoop_eq start (by simpa using small)
  rw [if_pos enough, List.nil_append, List.nil_append] at loop
  rw [writeString, loop, Option.map_some]

end JSON

/-! ## Reading a literal -/

open JSONReader Spirit

variable {library : Library} {str : StdString}

/--
The writer ends, and in front of any text that goes on behind a value the reader takes exactly
what was written, for the string that it was written for.
-/
def SurvivesLiteral (library : Library) (str : StdString) : Prop :=
  ∃ fuel literal, JSON.writeString fuel str = some literal ∧
    ∀ rest, Closing rest → string library (literal ++ rest) = some (str, rest)

theorem escapeString_of_survives (documented : library.Documented)
    (survives : SurvivesLiteral library str) :
    str.length < 2 ^ 32 ∧ JSON.escapeString str = str := by
  rcases survives with ⟨fuel, literal, written, reads⟩
  rcases JSON.writeString_eq_some written with ⟨small, rfl⟩
  have closing : Closing [44] := ⟨44, [], rfl, by decide⟩
  have read := reads _ closing
  have visible : (33 : UInt8) ≤ 34 ∧ (34 : UInt8) ≤ 126 := by decide
  have begins := dropWhile_visible documented (JSON.escapeString str ++ [34] ++ [44]) visible
  rw [string, skipped, List.cons_append, List.cons_append, begins] at read
  have same := (quoted_iff.mp read).1
  simp only [List.cons_append, List.append_assoc, List.nil_append, List.cons.injEq, true_and,
    List.append_cancel_right_eq] at same
  rw [same] at small
  exact ⟨small, same⟩

theorem quoteless_of_escapeString (same : JSON.escapeString str = str) : JSON.Quoteless str := by
  have length := JSON.length_escapeString str
  rw [same, Nat.left_eq_add, List.countP_eq_zero] at length
  constructor
  · intro double
    simpa using length 34 double
  · intro single
    simpa using length 39 single

/--
A string survives being written and read exactly if it has no quote and no apostrophe, and
the index of the writer can count it.
-/
theorem survivesLiteral_iff (documented : library.Documented) (str : StdString) :
    SurvivesLiteral library str ↔ JSON.Quoteless str ∧ str.length < 2 ^ 32 := by
  constructor
  · intro survives
    rcases escapeString_of_survives documented survives with ⟨small, same⟩
    exact ⟨quoteless_of_escapeString same, small⟩
  · rintro ⟨quoteless, small⟩
    have same := escapeString_quoteless quoteless
    have written := JSON.writeString_of_lt (same.symm ▸ small) (Nat.lt_succ_self str.length)
    refine ⟨str.length + 1, _, written, ?_⟩
    intro rest _
    have literal : 34 :: JSON.escapeString str ++ [34] ++ rest = 34 :: str ++ 34 :: rest := by
      simp [same]
    rw [literal]
    exact string_quoteless quoteless (dropWhile_visible documented _ (by decide))

/-- A user name with a backslash. -/
theorem survivesLiteral_sample : SurvivesLiteral Sample.library (ascii "pool\\miner") :=
  (survivesLiteral_iff Sample.library_documented _).mpr (by unfold JSON.Quoteless; decide)

/-- A user name with an apostrophe comes back with a backslash in front of it. -/
theorem not_survivesLiteral : ¬∀ str, SurvivesLiteral Sample.library str := by
  intro survives
  have same := (escapeString_of_survives Sample.library_documented
    (survives (ascii "o'neill"))).2
  revert same
  decide

end Poolserver
