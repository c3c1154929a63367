import Mathlib.Data.List.Basic
import Mathlib.Tactic

/-!
# Quoted text in SQL

How string literals between single quotes are read: a quote is written twice or behind a
backslash, and a backslash begins an escape. A text is read into tokens, its literals and
the other characters. A `Plain` text between quotes denotes itself (`lexInside_of_plain`),
and no other text does that is followed by a quote and a comma (`plain_of_lexInside`).
-/

namespace SqlText

abbrev Bytes := List UInt8

def quote : UInt8 := 39
def backslash : UInt8 := 92
def comma : UInt8 := 44
def space : UInt8 := 32
def leftParen : UInt8 := 40
def rightParen : UInt8 := 41

inductive Token where
  | literal (value : Bytes)
  | char (ch : UInt8)
  deriving DecidableEq, Repr

/-- What a backslash and the character behind it denote. -/
def escape (ch : UInt8) : Bytes :=
  if ch = 48 then [0]
  else if ch = 98 then [8]
  else if ch = 110 then [10]
  else if ch = 114 then [13]
  else if ch = 116 then [9]
  else if ch = 90 then [26]
  -- the wildcards keep their backslash
  else if ch = 37 ∨ ch = 95 then [backslash, ch]
  else [ch]

/-- More characters in front of what a literal denotes. -/
def denoting (word : Bytes) (read : Option (Bytes × List Token)) : Option (Bytes × List Token) :=
  read.map fun (value, tokens) => (word ++ value, tokens)

mutual

/-- The tokens of a text outside of literals. -/
def lex : Bytes → Option (List Token)
  | [] => some []
  | ch :: text =>
      if ch = quote then (lexInside text).map fun (value, tokens) => .literal value :: tokens
      else (lex text).map (.char ch :: ·)

/-- The rest of the literal that a text begins in, and the tokens behind it. -/
def lexInside : Bytes → Option (Bytes × List Token)
  | [] => none
  | [ch] => if ch = quote then some ([], []) else none
  | ch :: next :: text =>
      if ch = quote then
        if next = quote then denoting [quote] (lexInside text)
        else (lex (next :: text)).map (Prod.mk [])
      else if ch = backslash then denoting (escape next) (lexInside text)
      else denoting [ch] (lexInside (next :: text))

end

/-! ## Literals that denote themselves -/

/-- No quote, and no backslash but in front of a wildcard. -/
def Plain : Bytes → Prop
  | [] => True
  | [ch] => ch ≠ quote ∧ ch ≠ backslash
  | ch :: next :: text =>
      ch ≠ quote ∧
        if ch = backslash then (next = 37 ∨ next = 95) ∧ Plain text else Plain (next :: text)

def Plain.decide : (text : Bytes) → Decidable (Plain text)
  | [] => .isTrue trivial
  | [_] => inferInstanceAs (Decidable (_ ∧ _))
  | ch :: next :: text =>
      haveI := Plain.decide text
      haveI := Plain.decide (next :: text)
      inferInstanceAs (Decidable (ch ≠ quote ∧
        if ch = backslash then (next = 37 ∨ next = 95) ∧ Plain text else Plain (next :: text)))

instance (text : Bytes) : Decidable (Plain text) :=
  Plain.decide text

variable {text rest more pending : Bytes} {tokens : List Token} {value : Bytes} {ch next : UInt8}

theorem lex_quote (text : Bytes) :
    lex (quote :: text) = (lexInside text).map fun (value, tokens) => .literal value :: tokens := by
  rw [lex, if_pos rfl]

theorem lex_char (other : ch ≠ quote) (text : Bytes) :
    lex (ch :: text) = (lex text).map (.char ch :: ·) := by
  rw [lex, if_neg other]

theorem lex_append (quoteless : quote ∉ text) (rest : Bytes) :
    lex (text ++ rest) = (lex rest).map (text.map .char ++ ·) := by
  induction text with
  | nil => simp
  | cons ch text ih =>
      rw [List.mem_cons, not_or] at quoteless
      rw [List.cons_append, lex_char (Ne.symm quoteless.1), ih quoteless.2, Option.map_map]
      rfl

theorem lexInside_close (other : ch ≠ quote) (text : Bytes) :
    lexInside (quote :: ch :: text) = (lex (ch :: text)).map (Prod.mk []) := by
  rw [lexInside, if_pos rfl, if_neg other]

theorem lexInside_doubled (text : Bytes) :
    lexInside (quote :: quote :: text) = denoting [quote] (lexInside text) := by
  rw [lexInside, if_pos rfl, if_pos rfl]

theorem lexInside_escape (ch : UInt8) (text : Bytes) :
    lexInside (backslash :: ch :: text) = denoting (escape ch) (lexInside text) := by
  rw [lexInside, if_neg (by decide), if_pos rfl]

theorem lexInside_char (notQuote : ch ≠ quote) (notBackslash : ch ≠ backslash) (text : Bytes) :
    lexInside (ch :: text) = denoting [ch] (lexInside text) := by
  cases text with
  | nil =>
      simp only [lexInside, if_neg notQuote]
      rfl
  | cons next text => rw [lexInside, if_neg notQuote, if_neg notBackslash]

theorem denoting_eq_some {word : Bytes} {read : Option (Bytes × List Token)}
    (lexed : denoting word read = some (value, tokens)) :
    ∃ behind, read = some (behind, tokens) ∧ value = word ++ behind := by
  rcases Option.map_eq_some_iff.mp lexed with ⟨⟨behind, others⟩, readEq, same⟩
  simp only [Prod.mk.injEq] at same
  rcases same with ⟨rfl, rfl⟩
  exact ⟨behind, readEq, rfl⟩

theorem denoting_denoting (left right : Bytes) (read : Option (Bytes × List Token)) :
    denoting left (denoting right read) = denoting (left ++ right) read := by
  cases read with
  | none => rfl
  | some read => simp [denoting]

/-- A plain text is read as itself. -/
theorem lexInside_of_plain (plain : Plain text) (rest : Bytes) :
    lexInside (text ++ rest) = denoting text (lexInside rest) := by
  induction text using Plain.induct with
  | case1 =>
      rw [List.nil_append]
      cases lexInside rest <;> rfl
  | case2 ch =>
      rcases plain with ⟨notQuote, notBackslash⟩
      exact lexInside_char notQuote notBackslash rest
  | case3 ch next text ihEscaped ih =>
      rw [Plain] at plain
      rcases plain with ⟨notQuote, plain⟩
      by_cases escaped : ch = backslash
      · subst escaped
        rw [if_pos rfl] at plain
        rcases plain with ⟨wildcard, plain⟩
        have kept : escape next = [backslash, next] := by
          rcases wildcard with rfl | rfl <;> rfl
        rw [List.cons_append, List.cons_append, lexInside_escape, ihEscaped plain,
          denoting_denoting, kept]
        rfl
      · rw [if_neg escaped] at plain
        rw [List.cons_append, lexInside_char notQuote escaped, ih plain, denoting_denoting]
        rfl

/-! ## Literals that do not -/

/-- The characters that are not read as themselves. -/
def Special (ch : UInt8) : Prop :=
  ch = quote ∨ ch = backslash

/-- What an escape denotes begins with a special character only where it stands for that one. -/
theorem escape_cases (ch : UInt8) :
    (Special ch ∧ escape ch = [ch]) ∨
    ((ch = 37 ∨ ch = 95) ∧ escape ch = [backslash, ch]) ∨
    (∃ other, ¬Special other ∧ escape ch = [other]) := by
  have plain : ∀ other : UInt8, (other = 0 ∨ other = 8 ∨ other = 10 ∨ other = 13 ∨ other = 9 ∨
      other = 26) → ¬Special other := by
    unfold Special quote backslash
    rintro other (rfl | rfl | rfl | rfl | rfl | rfl) <;> decide
  generalize escapedEq : escape ch = escaped
  unfold escape at escapedEq
  split at escapedEq
  · exact Or.inr (Or.inr ⟨0, plain 0 (by simp), escapedEq.symm⟩)
  split at escapedEq
  · exact Or.inr (Or.inr ⟨8, plain 8 (by simp), escapedEq.symm⟩)
  split at escapedEq
  · exact Or.inr (Or.inr ⟨10, plain 10 (by simp), escapedEq.symm⟩)
  split at escapedEq
  · exact Or.inr (Or.inr ⟨13, plain 13 (by simp), escapedEq.symm⟩)
  split at escapedEq
  · exact Or.inr (Or.inr ⟨9, plain 9 (by simp), escapedEq.symm⟩)
  split at escapedEq
  · exact Or.inr (Or.inr ⟨26, plain 26 (by simp), escapedEq.symm⟩)
  split at escapedEq
  · rename_i wildcard
    exact Or.inr (Or.inl ⟨wildcard, escapedEq.symm⟩)
  · by_cases special : Special ch
    · exact Or.inl ⟨special, escapedEq.symm⟩
    · exact Or.inr (Or.inr ⟨ch, special, escapedEq.symm⟩)

/-- A word that begins with special characters. -/
theorem special_head {first : UInt8} {word behind : Bytes} (special : ∀ ch ∈ pending, Special ch)
    (owes : pending ≠ []) (same : first :: behind = pending ++ word) :
    Special first ∧ ∃ others, (∀ ch ∈ others, Special ch) ∧ behind = others ++ word := by
  cases pending with
  | nil => exact absurd rfl owes
  | cons head others =>
      rw [List.cons_append, List.cons.injEq] at same
      rcases same with ⟨rfl, rfl⟩
      exact ⟨special _ List.mem_cons_self,
        others, fun ch chMem => special ch (List.mem_cons_of_mem _ chMem), rfl⟩

/-- Its second character is special as well, if the one behind them is. -/
theorem special_second {first second last : UInt8} {word behind : Bytes}
    (special : ∀ ch ∈ pending, Special ch) (owes : pending ≠ []) (lastSpecial : Special last)
    (same : first :: second :: behind = pending ++ last :: word) : Special second := by
  rcases special_head special owes same with ⟨_, others, othersSpecial, sameBehind⟩
  cases others with
  | nil =>
      rw [List.nil_append, List.cons.injEq] at sameBehind
      rwa [sameBehind.1]
  | cons other others =>
      rw [List.cons_append, List.cons.injEq] at sameBehind
      rw [sameBehind.1]
      exact othersSpecial other List.mem_cons_self

theorem special_concat {first second : UInt8} (special : ∀ ch ∈ pending, Special ch)
    (firstSpecial : Special first) (secondSpecial : Special second) :
    ∀ ch ∈ pending ++ [first, second], Special ch := by
  intro ch chMem
  simp only [List.mem_append, List.mem_cons, List.not_mem_nil, or_false] at chMem
  rcases chMem with old | rfl | rfl
  · exact special ch old
  · exact firstSpecial
  · exact secondSpecial

theorem not_special_comma : ¬Special comma := by
  unfold Special
  decide

theorem plain_of_forall (ordinary : ∀ ch ∈ text, ¬Special ch) : Plain text := by
  induction text using Plain.induct with
  | case1 => trivial
  | case2 ch =>
      have notSpecial := ordinary ch List.mem_cons_self
      exact not_or.mp notSpecial
  | case3 ch next text ihEscaped ih =>
      rw [List.forall_mem_cons] at ordinary
      rcases not_or.mp ordinary.1 with ⟨notQuote, notBackslash⟩
      refine ⟨notQuote, ?_⟩
      rw [if_neg notBackslash]
      exact ih ordinary.2

/--
A literal that owes special characters never makes up for them: each character that it denotes
takes at least one of the text, and each special one takes two special ones.
-/
theorem lexInside_pending (special : ∀ ch ∈ pending, Special ch) (owes : pending ≠ []) :
    lexInside (text ++ quote :: comma :: rest) ≠ some (pending ++ text ++ more, tokens) := by
  induction text using Plain.induct generalizing pending with
  | case1 =>
      intro lexed
      rw [List.nil_append, lexInside_close (by decide)] at lexed
      rcases Option.map_eq_some_iff.mp lexed with ⟨_, _, same⟩
      simp only [Prod.mk.injEq, List.append_nil] at same
      have nothing := List.append_eq_nil_iff.mp same.1.symm
      exact owes nothing.1
  | case2 ch =>
      intro lexed
      rw [List.append_assoc, List.singleton_append, List.singleton_append] at lexed
      have behindComma : ∀ {behind}, lexInside (comma :: rest) = some (behind, tokens) →
          ∃ others, behind = comma :: others := by
        intro behind lexed
        rw [lexInside_char (by decide) (by decide)] at lexed
        rcases denoting_eq_some lexed with ⟨others, _, rfl⟩
        exact ⟨others, rfl⟩
      by_cases isQuote : ch = quote
      · subst isQuote
        rw [lexInside_doubled] at lexed
        rcases denoting_eq_some lexed with ⟨behind, lexedBehind, same⟩
        rcases behindComma lexedBehind with ⟨others, rfl⟩
        exact not_special_comma (special_second special owes (Or.inl rfl) same.symm)
      by_cases isBackslash : ch = backslash
      · subst isBackslash
        rw [lexInside_escape] at lexed
        rcases denoting_eq_some lexed with ⟨behind, lexedBehind, same⟩
        rcases behindComma lexedBehind with ⟨others, rfl⟩
        exact not_special_comma (special_second special owes (Or.inr rfl) same.symm)
      · rw [lexInside_char isQuote isBackslash] at lexed
        rcases denoting_eq_some lexed with ⟨behind, _, same⟩
        rcases (special_head special owes same.symm).1 with same | same
        · exact isQuote same
        · exact isBackslash same
  | case3 ch next text ihEscaped ih =>
      intro lexed
      rw [List.cons_append, List.cons_append, List.append_assoc, List.cons_append,
        List.cons_append] at lexed
      by_cases isQuote : ch = quote
      · subst isQuote
        by_cases doubled : next = quote
        · subst doubled
          rw [lexInside_doubled] at lexed
          rcases denoting_eq_some lexed with ⟨behind, lexedBehind, same⟩
          rcases special_head special owes same.symm with ⟨_, others, othersSpecial, rfl⟩
          have owed := special_concat othersSpecial (Or.inl rfl) (Or.inl rfl)
          refine ihEscaped owed (by simp) (lexedBehind.trans ?_)
          simp
        · rw [lexInside_close doubled] at lexed
          rcases Option.map_eq_some_iff.mp lexed with ⟨_, _, same⟩
          simp only [Prod.mk.injEq] at same
          exact owes (List.append_eq_nil_iff.mp same.1.symm).1
      by_cases isBackslash : ch = backslash
      · subst isBackslash
        rw [lexInside_escape] at lexed
        rcases denoting_eq_some lexed with ⟨behind, lexedBehind, same⟩
        rcases escape_cases next with ⟨nextSpecial, escaped⟩ | ⟨wildcard, escaped⟩ |
          ⟨other, ordinary, escaped⟩
        · rw [escaped] at same
          rcases special_head special owes same.symm with ⟨_, others, othersSpecial, rfl⟩
          have owed := special_concat othersSpecial (Or.inr rfl) nextSpecial
          refine ihEscaped owed (by simp) (lexedBehind.trans ?_)
          simp
        · rw [escaped] at same
          have nextSpecial := special_second special owes (Or.inr rfl) same.symm
          rcases wildcard with rfl | rfl
          · exact absurd nextSpecial (by unfold Special; decide)
          · exact absurd nextSpecial (by unfold Special; decide)
        · rw [escaped] at same
          exact ordinary (special_head special owes same.symm).1
      · rw [lexInside_char isQuote isBackslash] at lexed
        rcases denoting_eq_some lexed with ⟨behind, _, same⟩
        rcases (special_head special owes same.symm).1 with same | same
        · exact isQuote same
        · exact isBackslash same

/-- A text that a literal denotes, but for something behind it, is plain and all it denotes. -/
theorem plain_of_lexInside (behindText : more.head? ≠ some comma)
    (lexed : lexInside (text ++ quote :: comma :: rest) = some (text ++ more, tokens)) :
    Plain text ∧ more = [] := by
  induction text using Plain.induct with
  | case1 =>
      rw [List.nil_append, lexInside_close (by decide)] at lexed
      rcases Option.map_eq_some_iff.mp lexed with ⟨_, _, same⟩
      simp only [Prod.mk.injEq, List.nil_append] at same
      exact ⟨trivial, same.1.symm⟩
  | case2 ch =>
      rw [List.singleton_append] at lexed
      by_cases isQuote : ch = quote
      · subst isQuote
        rw [lexInside_doubled, lexInside_char (by decide) (by decide)] at lexed
        rcases denoting_eq_some lexed with ⟨behind, lexedBehind, same⟩
        rcases denoting_eq_some lexedBehind with ⟨others, _, rfl⟩
        rw [List.append_cancel_left_eq] at same
        rw [same] at behindText
        exact absurd rfl behindText
      by_cases isBackslash : ch = backslash
      · subst isBackslash
        rw [lexInside_escape] at lexed
        rcases denoting_eq_some lexed with ⟨behind, _, same⟩
        injection same with head _
        exact absurd head (by decide)
      · rw [lexInside_char isQuote isBackslash, lexInside_close (by decide)] at lexed
        rcases denoting_eq_some lexed with ⟨behind, lexedBehind, same⟩
        rcases Option.map_eq_some_iff.mp lexedBehind with ⟨_, _, closed⟩
        simp only [Prod.mk.injEq] at closed
        rw [List.append_cancel_left_eq, ← closed.1] at same
        exact ⟨⟨isQuote, isBackslash⟩, same⟩
  | case3 ch next text ihEscaped ih =>
      rw [List.cons_append, List.cons_append] at lexed
      by_cases isQuote : ch = quote
      · subst isQuote
        by_cases doubled : next = quote
        · subst doubled
          rw [lexInside_doubled] at lexed
          rcases denoting_eq_some lexed with ⟨behind, lexedBehind, same⟩
          rw [List.cons_append, List.singleton_append, List.cons.injEq] at same
          rw [← same.2] at lexedBehind
          refine absurd lexedBehind (lexInside_pending ?_ (List.cons_ne_nil quote []))
          intro ch chMem
          rw [List.mem_singleton] at chMem
          exact Or.inl chMem
        · rw [lexInside_close doubled] at lexed
          rcases Option.map_eq_some_iff.mp lexed with ⟨_, _, same⟩
          simp at same
      by_cases isBackslash : ch = backslash
      · subst isBackslash
        rw [lexInside_escape] at lexed
        rcases denoting_eq_some lexed with ⟨behind, lexedBehind, same⟩
        rcases escape_cases next with ⟨nextSpecial, escaped⟩ | ⟨wildcard, escaped⟩ |
          ⟨other, ordinary, escaped⟩
        · rw [escaped, List.cons_append, List.singleton_append, List.cons.injEq] at same
          rcases same with ⟨rfl, same⟩
          rw [← same] at lexedBehind
          refine absurd lexedBehind (lexInside_pending ?_ (List.cons_ne_nil backslash []))
          intro ch chMem
          rw [List.mem_singleton] at chMem
          exact Or.inr chMem
        · rw [escaped, List.cons_append, List.cons_append, List.cons_append, List.cons_append,
            List.nil_append, List.cons.injEq, List.cons.injEq] at same
          rw [← same.2.2] at lexedBehind
          rcases ihEscaped lexedBehind with ⟨plain, nothing⟩
          refine ⟨⟨isQuote, ?_⟩, nothing⟩
          rw [if_pos rfl]
          exact ⟨wildcard, plain⟩
        · rw [escaped, List.cons_append, List.singleton_append, List.cons.injEq] at same
          exact absurd (Or.inr same.1.symm) ordinary
      · rw [lexInside_char isQuote isBackslash] at lexed
        rcases denoting_eq_some lexed with ⟨behind, lexedBehind, same⟩
        rw [List.cons_append, List.singleton_append, List.cons.injEq] at same
        rw [← same.2] at lexedBehind
        rcases ih lexedBehind with ⟨plain, nothing⟩
        refine ⟨⟨isQuote, ?_⟩, nothing⟩
        rwa [if_neg isBackslash]

end SqlText
