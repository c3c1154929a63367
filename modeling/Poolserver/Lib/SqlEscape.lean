import Poolserver.Lib.SqlText

/-!
# Escaped text in SQL

A text whose special characters have backslashes in front of them denotes itself between quotes,
whatever it is; a part of it without the closing quote is no literal.
-/

namespace SqlText

/-- What a character is written as between quotes. -/
def escapeByte (ch : UInt8) : Bytes :=
  if ch = 0 then [backslash, 48]
  else if ch = 10 then [backslash, 110]
  else if ch = 13 then [backslash, 114]
  else if ch = 26 then [backslash, 90]
  else if ch = 34 ∨ ch = quote ∨ ch = backslash then [backslash, ch]
  else [ch]

def escaped (text : Bytes) : Bytes :=
  text.flatMap escapeByte

/-- A character is written as itself, or as a backslash and a character that stands for it. -/
theorem escapeByte_cases (ch : UInt8) :
    (ch ≠ 0 ∧ ch ≠ quote ∧ ch ≠ backslash ∧ escapeByte ch = [ch]) ∨
      ∃ other, other ≠ 0 ∧ escapeByte ch = [backslash, other] ∧ escape other = [ch] := by
  unfold escapeByte
  split
  · rename_i isNul
    exact .inr ⟨48, by decide, rfl, by rw [isNul]; rfl⟩
  split
  · rename_i isFeed
    exact .inr ⟨110, by decide, rfl, by rw [isFeed]; rfl⟩
  split
  · rename_i isReturn
    exact .inr ⟨114, by decide, rfl, by rw [isReturn]; rfl⟩
  split
  · rename_i isEnd
    exact .inr ⟨90, by decide, rfl, by rw [isEnd]; rfl⟩
  split
  · rename_i special
    rcases special with rfl | rfl | rfl
    · exact .inr ⟨34, by decide, rfl, rfl⟩
    · exact .inr ⟨quote, by decide, rfl, rfl⟩
    · exact .inr ⟨backslash, by decide, rfl, rfl⟩
  · rename_i notNul _ _ _ ordinary
    rw [not_or, not_or] at ordinary
    exact .inl ⟨notNul, ordinary.2.1, ordinary.2.2, rfl⟩

theorem zero_not_mem_escaped (text : Bytes) : 0 ∉ escaped text := by
  intro zero
  rcases List.mem_flatMap.mp zero with ⟨ch, _, inByte⟩
  rcases escapeByte_cases ch with ⟨notNul, _, _, written⟩ | ⟨other, notNul, written, _⟩
  · rw [written, List.mem_singleton] at inByte
    exact notNul inByte.symm
  · rw [written, List.mem_cons, List.mem_singleton] at inByte
    rcases inByte with isBackslash | same
    · exact absurd isBackslash (by decide)
    · exact notNul same.symm

theorem length_escaped_le (text : Bytes) : (escaped text).length ≤ 2 * text.length := by
  induction text with
  | nil => exact Nat.le_refl 0
  | cons ch text ih =>
      have short : (escapeByte ch).length ≤ 2 := by
        rcases escapeByte_cases ch with ⟨_, _, _, written⟩ | ⟨other, _, written, _⟩
        · rw [written]
          exact Nat.le_succ 1
        · rw [written]
          exact Nat.le_refl 2
      rw [escaped, List.flatMap_cons, List.length_append, List.length_cons]
      rw [escaped] at ih
      omega

theorem lexInside_escapeByte (ch : UInt8) (rest : Bytes) :
    lexInside (escapeByte ch ++ rest) = denoting [ch] (lexInside rest) := by
  rcases escapeByte_cases ch with ⟨_, notQuote, notBackslash, written⟩ | ⟨other, _, written, stands⟩
  · rw [written, List.singleton_append, lexInside_char notQuote notBackslash]
  · rw [written, List.cons_append, List.singleton_append, lexInside_escape, stands]

theorem lexInside_escaped (text rest : Bytes) :
    lexInside (escaped text ++ rest) = denoting text (lexInside rest) := by
  induction text with
  | nil =>
      rw [escaped, List.flatMap_nil, List.nil_append]
      cases lexInside rest <;> rfl
  | cons ch text ih =>
      rw [escaped, List.flatMap_cons, List.append_assoc, lexInside_escapeByte]
      rw [escaped] at ih
      rw [ih, denoting_denoting, List.singleton_append]

/-- A closing quote that no quote follows. -/
theorem lexInside_quote {rest : Bytes} (ends : rest.head? ≠ some quote) :
    lexInside (quote :: rest) = (lex rest).map (Prod.mk []) := by
  cases rest with
  | nil => rfl
  | cons ch rest =>
      refine lexInside_close ?_ rest
      rintro rfl
      exact ends rfl

/-- An escaped text between quotes is read as the text. -/
theorem lex_escaped (text : Bytes) {rest : Bytes} (ends : rest.head? ≠ some quote) :
    lex (quote :: (escaped text ++ quote :: rest)) = (lex rest).map (.literal text :: ·) := by
  rw [lex_quote, lexInside_escaped, lexInside_quote ends]
  cases lex rest with
  | none => rfl
  | some tokens => simp [denoting]

/-- A part of an escaped text is no literal. -/
theorem lexInside_of_cut {text part : Bytes} (cut : part <+: escaped text) :
    lexInside part = none := by
  induction text generalizing part with
  | nil =>
      rw [List.prefix_nil.mp cut]
      rfl
  | cons ch text ih =>
      rw [escaped, List.flatMap_cons] at cut
      rcases escapeByte_cases ch with ⟨_, notQuote, notBackslash, written⟩ | ⟨other, _, written, _⟩
      · rw [written, List.singleton_append] at cut
        rcases List.prefix_cons_iff.mp cut with rfl | ⟨behind, rfl, behindCut⟩
        · rfl
        · rw [lexInside_char notQuote notBackslash, ih behindCut]
          rfl
      · rw [written, List.cons_append, List.singleton_append] at cut
        rcases List.prefix_cons_iff.mp cut with rfl | ⟨behind, rfl, behindCut⟩
        · rfl
        · rcases List.prefix_cons_iff.mp behindCut with rfl | ⟨more, rfl, moreCut⟩
          · rfl
          · rw [lexInside_escape, ih moreCut]
            rfl

/-- A statement that ends inside a literal cannot be read. -/
theorem lex_of_cut {front text rest : Bytes} (quoteless : quote ∉ front) {room : ℕ}
    (opened : front.length < room) (inside : room ≤ front.length + 1 + (escaped text).length) :
    lex ((front ++ quote :: (escaped text ++ rest)).take room) = none := by
  have roomEq : room = (front ++ [quote]).length + (room - 1 - front.length) := by
    rw [List.length_append, List.length_singleton]
    omega
  have shape : front ++ quote :: (escaped text ++ rest) =
      (front ++ [quote]) ++ (escaped text ++ rest) := by simp
  rw [roomEq, shape, List.take_length_add_append, List.take_append_of_le_length (by omega),
    List.append_assoc, lex_append quoteless, List.singleton_append, lex_quote,
    lexInside_of_cut (List.take_prefix _ _)]
  rfl

end SqlText
