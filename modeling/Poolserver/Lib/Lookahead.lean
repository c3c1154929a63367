import Poolserver.Lib.Spirit

/-!
# What stands behind a match

A matcher that stops at a character of its own, or at a bracket, reads the same whatever
stands behind that character. The rules below carry this from the matchers of a grammar to
its lists: only the items of a list may look at the character behind them, and what closes or
separates a list tells them where to end.
-/

namespace Spirit

universe u

variable {α β γ δ : Type u}

/-- What a matcher reads. -/
def Matches (matcher : Matcher α) (value : α) (input rest : Input) : Prop :=
  matcher input = some (value, rest)

/-- What is read stays the same when the text behind it is replaced by another one. -/
def Swaps (Reads : α → Input → Input → Prop) : Prop :=
  ∀ value text rest other, Reads value (text ++ rest) rest → Reads value (text ++ other) other

/-- The same, if what stands behind begins with a certain character, which is kept. -/
def SwapsBehind (Ends : UInt8 → Prop) (Reads : α → Input → Input → Prop) (bound : ℕ) : Prop :=
  ∀ value text ch rest other, Ends ch → (text ++ ch :: rest).length < bound →
    Reads value (text ++ ch :: rest) (ch :: rest) → Reads value (text ++ ch :: other) (ch :: other)

variable {Reads : α → Input → Input → Prop} {Ends : UInt8 → Prop} {bound : ℕ}

theorem Swaps.behind (swaps : Swaps Reads) : SwapsBehind Ends Reads bound :=
  fun value text ch rest other _ _ => swaps value text (ch :: rest) (ch :: other)

/-! ## Matchers -/

section Matchers

variable {matcher : Matcher α} {space : UInt8 → Bool}

theorem swaps_char (ch : UInt8) : Swaps (Matches (char ch)) := by
  intro value text rest other found
  rcases char_iff.mp found with ⟨valueEq, split⟩
  have textEq : text = [ch] := List.append_cancel_right (split.trans rfl)
  exact char_iff.mpr ⟨valueEq, by rw [textEq]; rfl⟩

theorem swaps_text (literal : Input) : Swaps (Matches (text literal)) := by
  intro value read rest other found
  rcases text_iff.mp found with ⟨valueEq, split⟩
  exact text_iff.mpr ⟨valueEq, by rw [List.append_cancel_right split]⟩

theorem swaps_quoted (quote : UInt8) : Swaps (Matches (quoted quote)) := by
  intro content text rest other found
  rcases quoted_iff.mp found with ⟨split, outside⟩
  have textEq : text = quote :: content ++ [quote] := by
    refine (List.append_left_inj rest).mp (split.trans ?_)
    simp
  exact quoted_iff.mpr ⟨by rw [textEq]; simp, outside⟩

/-- What a matcher in a rule reads: blanks, and what is read behind them. -/
theorem skipped_cases (consumes : ∀ input value rest, matcher input = some (value, rest) →
      Consumes input rest) {value : α} {text rest : Input}
    (found : skipped space matcher (text ++ rest) = some (value, rest)) :
    ∃ blanks body, text = blanks ++ body ∧ matcher (body ++ rest) = some (value, rest) ∧
      ∀ behind, (text ++ behind).dropWhile space = body ++ behind := by
  have whole := List.takeWhile_append_dropWhile (p := space) (l := text ++ rest)
  have blank : ∀ ch ∈ (text ++ rest).takeWhile space, space ch = true :=
    fun ch chMem => List.mem_takeWhile_imp chMem
  have visible := List.head?_dropWhile_not space (text ++ rest)
  rw [skipped] at found
  generalize (text ++ rest).takeWhile space = blanks at whole blank
  generalize (text ++ rest).dropWhile space = body at whole visible found
  rcases consumes _ _ _ found with ⟨⟨read, rfl⟩, shorter⟩
  cases read with
  | nil => exact absurd shorter (lt_irrefl _)
  | cons ch read =>
      rw [← List.append_assoc] at whole
      have textEq := (List.append_cancel_right whole).symm
      refine ⟨blanks, ch :: read, textEq, found, ?_⟩
      intro behind
      have noSpace : space ch = false := visible
      rw [textEq, List.append_assoc, List.dropWhile_append_of_pos blank, List.cons_append,
        List.dropWhile_cons_of_neg (by simp [noSpace])]

theorem swaps_skipped (swaps : Swaps (Matches matcher))
    (consumes : ∀ input value rest, matcher input = some (value, rest) → Consumes input rest) :
    Swaps (Matches (skipped space matcher)) := by
  intro value text rest other found
  rcases skipped_cases consumes found with ⟨blanks, body, textEq, read, drops⟩
  rw [Matches, skipped, drops]
  exact swaps value body rest other read

end Matchers

/-! ## Numbers -/

section Numbers

variable {text rest : Input}

theorem sign_append (nonempty : text ≠ []) (rest : Input) :
    sign (text ++ rest) = ((sign text).1, (sign text).2 ++ rest) := by
  rcases List.exists_cons_of_ne_nil nonempty with ⟨ch, behind, rfl⟩
  rw [List.cons_append, sign, sign]
  split_ifs <;> rfl

theorem exists_mark (text : Input) :
    ∃ mark : Input, text = mark ++ (sign text).2 ∧ (mark = [] ∨ mark = [45] ∨ mark = [43]) := by
  cases text with
  | nil => exact ⟨[], rfl, .inl rfl⟩
  | cons ch behind =>
      rw [sign]
      split_ifs with minus plus
      · exact ⟨[45], by rw [minus]; rfl, .inr (.inl rfl)⟩
      · exact ⟨[43], by rw [plus]; rfl, .inr (.inr rfl)⟩
      · exact ⟨[], rfl, .inl rfl⟩

/-- An integer is a sign and digits, up to something that is no digit. -/
theorem longLong_cases {val : Int64} (found : longLong (text ++ rest) = some (val, rest)) :
    ∃ mark digits, text = mark ++ digits ∧ (mark = [] ∨ mark = [45] ∨ mark = [43]) ∧
      digits ≠ [] ∧ (∀ digit ∈ digits, DecimalText.IsDigit digit) ∧
      ∀ other : Input, (∀ ch, other.head? = some ch → ¬DecimalText.IsDigit ch) →
        longLong (text ++ other) = some (val, other) := by
  have nonempty : text ≠ [] := by
    rintro rfl
    exact lt_irrefl _ (longLong_consumes found).2
  rcases exists_mark text with ⟨mark, textEq, isMark⟩
  simp only [longLong, sign_append nonempty, Option.ite_none_right_eq_some, Option.some.injEq,
    Prod.mk.injEq] at found
  rcases found with ⟨⟨someDigits, low, high⟩, valEq, behind⟩
  generalize numeral : (sign text).2 = digits at textEq someDigits low high valEq behind
  have whole := List.takeWhile_append_dropWhile
    (p := fun ch => decide (DecimalText.IsDigit ch)) (l := digits ++ rest)
  rw [behind] at whole
  have taken := List.append_cancel_right whole
  have areDigits : ∀ digit ∈ digits, decide (DecimalText.IsDigit digit) = true := by
    intro digit digitMem
    rw [← taken] at digitMem
    exact List.mem_takeWhile_imp (p := fun ch => decide (DecimalText.IsDigit ch)) digitMem
  rw [taken] at someDigits low high valEq
  refine ⟨mark, digits, textEq, isMark, someDigits, fun digit digitMem => ?_, ?_⟩
  · exact of_decide_eq_true (areDigits digit digitMem)
  · intro other ends
    have stops : other.takeWhile (fun ch => decide (DecimalText.IsDigit ch)) = [] ∧
        other.dropWhile (fun ch => decide (DecimalText.IsDigit ch)) = other := by
      cases other with
      | nil => exact ⟨rfl, rfl⟩
      | cons ch other => simp [ends ch rfl]
    have before : (digits ++ other).takeWhile (fun ch => decide (DecimalText.IsDigit ch)) =
        digits := by
      rw [List.takeWhile_append_of_pos areDigits, stops.1, List.append_nil]
    have after : (digits ++ other).dropWhile (fun ch => decide (DecimalText.IsDigit ch)) =
        other := by
      rw [List.dropWhile_append_of_pos areDigits, stops.2]
    simp only [longLong, sign_append nonempty, numeral, before, after, valEq]
    rw [if_pos ⟨someDigits, low, high⟩]

end Numbers

/-! ## Lists -/

/-- What the items, the separator and the bracket of a list must satisfy. -/
structure Delimited (separator : Matcher γ) (close : Matcher δ)
    (Reads : α → Input → Input → Prop) (Ends : UInt8 → Prop) (bound : ℕ) : Prop where
  consumes : ∀ input value rest, input.length < bound → Reads value input rest →
    Consumes input rest
  separator_consumes : ∀ input comma rest,
    separator input = some (comma, rest) → Consumes input rest
  close_consumes : ∀ input ch rest, close input = some (ch, rest) → Consumes input rest
  separator_ends : ∀ input comma rest, separator input = some (comma, rest) →
    ∃ ch behind, input = ch :: behind ∧ Ends ch
  close_ends : ∀ input found rest, close input = some (found, rest) →
    ∃ ch behind, input = ch :: behind ∧ Ends ch
  items : SwapsBehind Ends Reads bound
  separators : Swaps (Matches separator)
  closes : Swaps (Matches close)

variable {separator : Matcher γ} {close : Matcher δ} {values : List α} {text rest : Input}

/-- Behind an item stands a separator or the bracket. -/
theorem Tail.begins (delimited : Delimited separator close Reads Ends bound) {input : Input}
    (tail : Tail separator close Reads values input rest) :
    ∃ ch behind, input = ch :: behind ∧ Ends ch := by
  cases tail with
  | close closed => exact delimited.close_ends _ _ _ closed
  | item separated _ _ => exact delimited.separator_ends _ _ _ separated

/-- An item is not changed by what stands behind the list that goes on behind it. -/
theorem Delimited.item (delimited : Delimited separator close Reads Ends bound) {value : α}
    {read between : Input} (other : Input) (short : (read ++ (between ++ rest)).length < bound)
    (reads : Reads value (read ++ (between ++ rest)) (between ++ rest))
    (tail : Tail separator close Reads values (between ++ rest) rest)
    (consumes : Consumes (between ++ rest) rest) :
    Reads value (read ++ (between ++ other)) (between ++ other) := by
  rcases tail.begins delimited with ⟨ch, behind, split, ends⟩
  cases between with
  | nil => exact absurd consumes.2 (lt_irrefl _)
  | cons first between =>
      rw [List.cons_append, List.cons.injEq] at split
      rw [← split.1] at ends
      exact delimited.items _ _ _ _ (between ++ other) ends short reads

theorem Tail.swaps (delimited : Delimited separator close Reads Ends bound) {input : Input}
    (tail : Tail separator close Reads values input rest) (other : Input)
    (short : input.length < bound) (inputEq : input = text ++ rest) :
    Tail separator close Reads values (text ++ other) other := by
  induction tail generalizing text with
  | close closed =>
      subst inputEq
      exact .close (delimited.closes _ _ _ other closed)
  | item separated reads others ih =>
      have opened := delimited.separator_consumes _ _ _ separated
      have behindShort := opened.2.trans short
      have item := delimited.consumes _ _ _ behindShort reads
      have middleShort := item.2.trans behindShort
      have tail := others.consumes delimited.consumes delimited.separator_consumes
        delimited.close_consumes middleShort
      rcases opened.1 with ⟨comma, rfl⟩
      rcases item.1 with ⟨read, rfl⟩
      rcases tail.1 with ⟨between, rfl⟩
      have textEq : text = comma ++ (read ++ between) := by
        refine (List.append_left_inj _).mp (inputEq.symm.trans ?_)
        simp only [List.append_assoc]
      have separatedOther := delimited.separators _ _ _ (read ++ (between ++ other)) separated
      have readsOther := delimited.item other behindShort reads others tail
      rw [textEq]
      simp only [List.append_assoc]
      exact .item separatedOther readsOther (ih middleShort rfl)

/-- A list in brackets is read up to its bracket, whatever stands behind it. -/
theorem Bracketed.swaps (delimited : Delimited separator close Reads Ends bound)
    (bracketed : Bracketed separator close Reads values (text ++ rest) rest) (other : Input)
    (short : (text ++ rest).length < bound) :
    Bracketed separator close Reads values (text ++ other) other := by
  generalize inputEq : text ++ rest = input at bracketed short
  cases bracketed with
  | empty closed =>
      subst inputEq
      exact .empty (delimited.closes _ _ _ other closed)
  | items reads others =>
      have item := delimited.consumes _ _ _ short reads
      have middleShort := item.2.trans short
      have tail := others.consumes delimited.consumes delimited.separator_consumes
        delimited.close_consumes middleShort
      rcases item.1 with ⟨read, rfl⟩
      rcases tail.1 with ⟨between, rfl⟩
      have textEq : text = read ++ between := by
        refine (List.append_left_inj _).mp (inputEq.trans ?_)
        rw [List.append_assoc]
      have readsOther := delimited.item other short reads others tail
      rw [textEq, List.append_assoc]
      exact .items readsOther (others.swaps delimited other middleShort rfl)

/-- A list with its opening bracket. -/
theorem Bracketed.opened_swaps (delimited : Delimited separator close Reads Ends bound)
    {β : Type u} {opening : Matcher β} (opens : Swaps (Matches opening))
    (opening_consumes : ∀ input ch rest, opening input = some (ch, rest) → Consumes input rest)
    {bracket : β} {inner : Input} (opened : opening (text ++ rest) = some (bracket, inner))
    (bracketed : Bracketed separator close Reads values inner rest) (other : Input)
    (short : (text ++ rest).length ≤ bound) :
    ∃ behind, opening (text ++ other) = some (bracket, behind) ∧
      Bracketed separator close Reads values behind other := by
  generalize inputEq : text ++ rest = input at opened short
  have consumed := opening_consumes _ _ _ opened
  have innerShort := consumed.2.trans_le short
  have list := bracketed.consumes delimited.consumes delimited.separator_consumes
    delimited.close_consumes innerShort
  rcases consumed.1 with ⟨before, rfl⟩
  rcases list.1 with ⟨read, rfl⟩
  have textEq : text = before ++ read := by
    refine (List.append_left_inj _).mp (inputEq.trans ?_)
    rw [List.append_assoc]
  rw [textEq, List.append_assoc]
  exact ⟨read ++ other, opens _ _ _ (read ++ other) opened,
    bracketed.swaps delimited other innerShort⟩

end Spirit
