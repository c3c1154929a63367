import Mathlib.Data.List.TakeWhile
import Poolserver.Lib.DecimalText

/-!
# Parsers with actions

Recursive descent with ordered choice over a text of bytes, where semantic actions change a
state as soon as their parser matches. An alternative that fails gives its input back, but
what its actions did stays. A parser of this kind follows a grammar if every abandoned action
is paid for: where it leaves a trace, the text cannot be closed any more.
-/

namespace Spirit

universe u v

abbrev Input := List UInt8

/-- A parser without actions: its attribute and the rest of the text. -/
abbrev Matcher (α : Type u) := Input → Option (α × Input)

/--
A parser with actions. It keeps the state that its actions left, also where it fails; `none`
is an action that does not return.
-/
abbrev Parser (σ : Type v) := σ → Input → Option (σ × Option Input)

/-! ## Matchers -/

def char (ch : UInt8) : Matcher UInt8
  | [] => none
  | first :: rest => if first = ch then some (first, rest) else none

def text (literal : Input) : Matcher Input := fun input =>
  if literal <+: input then some (literal, input.drop literal.length) else none

/-- `'"' >> *(char_ - '"') >> '"'`, with any character for the quote. -/
def quoted (quote : UInt8) : Matcher Input
  | [] => none
  | first :: body =>
      if first = quote then
        match body.dropWhile (· ≠ quote) with
        | [] => none
        | _ :: rest => some (body.takeWhile (· ≠ quote), rest)
      else none

/-- A sign, if there is one, and the text behind it. -/
def sign : Input → Bool × Input
  | [] => (false, [])
  | ch :: rest =>
      if ch = 45 then (true, rest) else if ch = 43 then (false, rest) else (false, ch :: rest)

/-- `qi::long_long`, which fails on a number that does not fit. -/
def longLong : Matcher Int64 := fun input =>
  let (negative, behind) := sign input
  let digits := behind.takeWhile fun ch => decide (DecimalText.IsDigit ch)
  let number := if negative then -(DecimalText.value digits : ℤ) else DecimalText.value digits
  if digits ≠ [] ∧ -2 ^ 63 ≤ number ∧ number < 2 ^ 63 then
    some (Int64.ofInt number, behind.dropWhile fun ch => decide (DecimalText.IsDigit ch))
  else none

/-- A matcher in a rule with a skipper: what is skipped in front of it does not count. -/
def skipped {α : Type u} (space : UInt8 → Bool) (matcher : Matcher α) : Matcher α := fun input =>
  matcher (input.dropWhile space)

section Choice

variable {α β : Type u}

def mapped (f : α → β) (matcher : Matcher α) : Matcher β := fun input =>
  (matcher input).map fun (value, rest) => (f value, rest)

/-- The first of several matchers that does not fail. -/
def firstOf : List (Matcher α) → Matcher α
  | [], _ => none
  | matcher :: others, input =>
      match matcher input with
      | some found => some found
      | none => firstOf others input

theorem mapped_eq_some {f : α → β} {matcher : Matcher α} {input rest : Input} {value : β} :
    mapped f matcher input = some (value, rest) ↔
      ∃ found, matcher input = some (found, rest) ∧ f found = value := by
  simp [mapped, Option.map_eq_some_iff]

@[simp]
theorem mapped_eq_none {f : α → β} {matcher : Matcher α} {input : Input} :
    mapped f matcher input = none ↔ matcher input = none := by
  simp [mapped]

theorem firstOf_cons {matcher : Matcher α} {others : List (Matcher α)} {input : Input}
    {found : α × Input} :
    firstOf (matcher :: others) input = some found ↔
      matcher input = some found ∨ matcher input = none ∧ firstOf others input = some found := by
  cases matched : matcher input with
  | none => simp [firstOf, matched]
  | some _ => simp [firstOf, matched]

end Choice

/-! ## Parsers -/

section Combinators

variable {α γ : Type u} {σ : Type v}

/-- `matcher[f]`. -/
def action (matcher : Matcher α) (f : α → σ → Option σ) : Parser σ := fun s input =>
  match matcher input with
  | none => some (s, none)
  | some (found, rest) => (f found s).map fun next => (next, some rest)

/-- A matcher whose attribute is not used. -/
def matched (matcher : Matcher α) : Parser σ :=
  action matcher fun _ s => some s

/-- `p >> q`. -/
def seq (p q : Parser σ) : Parser σ := fun s input =>
  match p s input with
  | none => none
  | some (next, none) => some (next, none)
  | some (next, some rest) => q next rest

/-- `p | q`. -/
def alt (p q : Parser σ) : Parser σ := fun s input =>
  match p s input with
  | none => none
  | some (next, none) => q next input
  | some (next, some rest) => some (next, some rest)

/-- `-p`. -/
def opt (p : Parser σ) : Parser σ := fun s input =>
  match p s input with
  | none => none
  | some (next, none) => some (next, some input)
  | some (next, some rest) => some (next, some rest)

/-- The loop of `item % separator` behind an item: a separator without an item is given back. -/
def more (item : Parser σ) (separator : Matcher γ) : ℕ → Parser σ
  | 0, _, _ => none
  | fuel + 1, s, input =>
      match separator input with
      | none => some (s, some input)
      | some (_, behind) =>
          match item s behind with
          | none => none
          | some (next, none) => some (next, some input)
          | some (next, some rest) => more item separator fuel next rest

/-- `item % separator`; the fuel is never used up, because a separator is not empty. -/
def list (item : Parser σ) (separator : Matcher γ) : Parser σ := fun s input =>
  match item s input with
  | none => none
  | some (next, none) => some (next, none)
  | some (next, some rest) => more item separator (rest.length + 1) next rest

variable {β : Type u}

theorem alt_assoc (p q r : Parser σ) : alt (alt p q) r = alt p (alt q r) := by
  funext s input
  unfold alt
  rcases p s input with _ | ⟨next, _ | rest⟩ <;> rfl

/-- Alternatives that do the same with what they match are one action. -/
theorem alt_action {matcher : Matcher α} {g : α → β} {f : α → σ → Option σ}
    {act : β → σ → Option σ} {q : Parser σ} {others : List (Matcher β)}
    (same : ∀ value, f value = act (g value)) (rest : q = action (firstOf others) act) :
    alt (action matcher f) q = action (firstOf (mapped g matcher :: others)) act := by
  rw [rest]
  funext s input
  cases matched : matcher input with
  | none => simp only [alt, action, firstOf, mapped, matched, Option.map_none]
  | some found =>
      simp only [alt, action, firstOf, mapped, matched, Option.map_some, same]
      cases act (g found.1) s <;> rfl

theorem action_firstOf_singleton {matcher : Matcher α} {g : α → β} {f : α → σ → Option σ}
    {act : β → σ → Option σ} (same : ∀ value, f value = act (g value)) :
    action matcher f = action (firstOf [mapped g matcher]) act := by
  funext s input
  cases matched : matcher input with
  | none => simp only [action, firstOf, mapped, matched, Option.map_none]
  | some found => simp only [action, firstOf, mapped, matched, Option.map_some, same]

end Combinators

/-! ## What is consumed -/

section Consumption

variable {α : Type u} {input middle rest : Input} {space : UInt8 → Bool}

/-- The rest is what is left behind a part of the text that is not empty. -/
def Consumes (input rest : Input) : Prop :=
  rest <:+ input ∧ rest.length < input.length

theorem Consumes.trans (first : Consumes input middle) (second : Consumes middle rest) :
    Consumes input rest :=
  ⟨second.1.trans first.1, second.2.trans first.2⟩

theorem Consumes.cons {ch : UInt8} (suffix : rest <:+ input) : Consumes (ch :: input) rest :=
  ⟨suffix.trans (List.suffix_cons ch input), Nat.lt_succ_of_le suffix.length_le⟩

theorem Consumes.of_suffix (suffix : middle <:+ input) (consumes : Consumes middle rest) :
    Consumes input rest :=
  ⟨consumes.1.trans suffix, consumes.2.trans_le suffix.length_le⟩

theorem skipped_consumes {matcher : Matcher α} {value : α}
    (consumes : ∀ input, matcher input = some (value, rest) → Consumes input rest)
    (found : skipped space matcher input = some (value, rest)) : Consumes input rest :=
  (consumes _ found).of_suffix (List.dropWhile_suffix space)

theorem char_iff {ch found : UInt8} :
    char ch input = some (found, rest) ↔ found = ch ∧ input = ch :: rest := by
  cases input with
  | nil => simp [char]
  | cons first behind =>
      simp only [char, List.cons.injEq]
      by_cases same : first = ch
      · subst same
        simp only [if_true, Option.some.injEq, Prod.mk.injEq, true_and]
        exact and_congr_left fun _ => eq_comm
      · simp [same]

theorem quoted_iff {quote : UInt8} {content : Input} :
    quoted quote input = some (content, rest) ↔
      input = quote :: content ++ quote :: rest ∧ quote ∉ content := by
  constructor
  · intro found
    cases input with
    | nil => simp [quoted] at found
    | cons first body =>
        rw [quoted, Option.ite_none_right_eq_some] at found
        rcases found with ⟨rfl, found⟩
        split at found
        · simp at found
        · rename_i closing behind dropped
          simp only [Option.some.injEq, Prod.mk.injEq] at found
          rcases found with ⟨rfl, rfl⟩
          have closes : closing = first := by
            have stops := List.head?_dropWhile_not (· ≠ first) body
            rw [dropped] at stops
            simpa using stops
          constructor
          · rw [List.cons_append, ← closes, ← dropped, closes, List.takeWhile_append_dropWhile]
          · intro inside
            simpa using List.mem_takeWhile_imp inside
  · rintro ⟨rfl, outside⟩
    have inside : ∀ ch ∈ content, decide (ch ≠ quote) = true := by
      intro ch chMem
      have differs : ch ≠ quote := fun same => outside (same ▸ chMem)
      exact decide_eq_true differs
    have before : (content ++ quote :: rest).takeWhile (· ≠ quote) = content := by
      rw [List.takeWhile_append_of_pos inside, List.takeWhile_cons_of_neg (by simp),
        List.append_nil]
    have behind : (content ++ quote :: rest).dropWhile (· ≠ quote) = quote :: rest := by
      rw [List.dropWhile_append_of_pos inside, List.dropWhile_cons_of_neg (by simp)]
    rw [List.cons_append, quoted, if_pos rfl, behind, before]

theorem quoted_consumes {quote : UInt8} {content : Input}
    (found : quoted quote input = some (content, rest)) : Consumes input rest := by
  rw [(quoted_iff.mp found).1, List.cons_append]
  have suffix : rest <:+ content ++ quote :: rest :=
    (List.suffix_cons quote rest).trans (List.suffix_append content _)
  exact .cons suffix

theorem text_iff {literal found : Input} :
    text literal input = some (found, rest) ↔ found = literal ∧ input = literal ++ rest := by
  unfold text
  split
  · rename_i isPrefix
    rcases isPrefix with ⟨behind, rfl⟩
    simp only [List.drop_left, Option.some.injEq, Prod.mk.injEq, List.append_cancel_left_eq]
    exact and_congr_left fun _ => eq_comm
  · rename_i differs
    constructor
    · intro found
      simp at found
    · rintro ⟨_, rfl⟩
      exact absurd (List.prefix_append literal rest) differs

theorem sign_suffix (input : Input) : (sign input).2 <:+ input := by
  cases input with
  | nil => exact List.suffix_refl _
  | cons ch behind =>
      unfold sign
      dsimp only
      split_ifs
      · exact List.suffix_cons ch behind
      · exact List.suffix_cons ch behind
      · exact List.suffix_refl _

theorem longLong_consumes {val : Int64} (found : longLong input = some (val, rest)) :
    Consumes input rest := by
  simp only [longLong, Option.ite_none_right_eq_some, Option.some.injEq, Prod.mk.injEq] at found
  rcases found with ⟨⟨digits, _, _⟩, _, rfl⟩
  apply Consumes.of_suffix (sign_suffix input)
  refine ⟨List.dropWhile_suffix _, ?_⟩
  have parts := congrArg List.length (List.takeWhile_append_dropWhile
    (p := fun ch => decide (DecimalText.IsDigit ch)) (l := (sign input).2))
  have nonempty := List.length_pos_of_ne_nil digits
  rw [List.length_append] at parts
  omega

/-- A number begins with a digit or a sign. -/
theorem longLong_eq_none {ch : UInt8} (noSign : ch ≠ 45 ∧ ch ≠ 43)
    (noDigit : ¬DecimalText.IsDigit ch) : longLong (ch :: rest) = none := by
  have unsigned : sign (ch :: rest) = (false, ch :: rest) := by
    simp only [sign, if_neg noSign.1, if_neg noSign.2]
  have nothing : (ch :: rest).takeWhile (fun ch => decide (DecimalText.IsDigit ch)) = [] := by
    simp [noDigit]
  simp only [longLong, unsigned, nothing]
  rfl

end Consumption

/-! ## Bracketed lists -/

section Grammar

variable {α γ δ : Type u}

/-- The rest of a list behind an item, its closing bracket included. -/
inductive Tail (separator : Matcher γ) (close : Matcher δ) (Reads : α → Input → Input → Prop) :
    List α → Input → Input → Prop where
  | close {input rest : Input} {ch : δ} (closes : close input = some (ch, rest)) :
      Tail separator close Reads [] input rest
  | item {input behind middle rest : Input} {comma : γ} {value : α} {values : List α}
      (separates : separator input = some (comma, behind)) (reads : Reads value behind middle)
      (others : Tail separator close Reads values middle rest) :
      Tail separator close Reads (value :: values) input rest

/-- A list behind its opening bracket. -/
inductive Bracketed (separator : Matcher γ) (close : Matcher δ)
    (Reads : α → Input → Input → Prop) : List α → Input → Input → Prop where
  | empty {input rest : Input} {ch : δ} (closes : close input = some (ch, rest)) :
      Bracketed separator close Reads [] input rest
  | items {input middle rest : Input} {value : α} {values : List α}
      (reads : Reads value input middle)
      (others : Tail separator close Reads values middle rest) :
      Bracketed separator close Reads (value :: values) input rest

variable {separator : Matcher γ} {close : Matcher δ} {Reads : α → Input → Input → Prop}
  {input rest : Input} {values : List α} {bound : ℕ}

/-- Without a separator the list ends here. -/
theorem Tail.of_end (tail : Tail separator close Reads values input rest)
    (ends : separator input = none) : values = [] ∧ ∃ ch, close input = some (ch, rest) := by
  cases tail with
  | close closes => exact ⟨rfl, _, closes⟩
  | item separates _ _ => simp [ends] at separates

/-- Behind a separator there is an item. -/
theorem Tail.of_separator {comma : γ} {behind : Input}
    (tail : Tail separator close Reads values input rest)
    (separated : separator input = some (comma, behind)) (opened : close input = none) :
    ∃ value others middle, values = value :: others ∧ Reads value behind middle ∧
      Tail separator close Reads others middle rest := by
  cases tail with
  | close closes => simp [opened] at closes
  | item separates reads others =>
      rw [separated] at separates
      cases separates
      exact ⟨_, _, _, rfl, reads, others⟩

theorem Bracketed.of_open (bracketed : Bracketed separator close Reads values input rest)
    (opened : close input = none) :
    ∃ value others middle, values = value :: others ∧ Reads value input middle ∧
      Tail separator close Reads others middle rest := by
  cases bracketed with
  | empty closes => simp [opened] at closes
  | items reads others => exact ⟨_, _, _, rfl, reads, others⟩

theorem Bracketed.of_no_item (bracketed : Bracketed separator close Reads values input rest)
    (refused : ∀ value middle, ¬Reads value input middle) :
    values = [] ∧ ∃ ch, close input = some (ch, rest) := by
  cases bracketed with
  | empty closes => exact ⟨rfl, _, closes⟩
  | items reads _ => exact absurd reads (refused _ _)

theorem Tail.consumes
    (reads : ∀ input value rest, input.length < bound → Reads value input rest →
      Consumes input rest)
    (separates : ∀ input comma rest, separator input = some (comma, rest) → Consumes input rest)
    (closes : ∀ input ch rest, close input = some (ch, rest) → Consumes input rest)
    (tail : Tail separator close Reads values input rest) (short : input.length < bound) :
    Consumes input rest := by
  induction tail with
  | close closed => exact closes _ _ _ closed
  | item separated read _ ih =>
      have first := separates _ _ _ separated
      have second := reads _ _ _ (first.2.trans short) read
      have toMiddle := first.trans second
      exact toMiddle.trans (ih (toMiddle.2.trans short))

theorem Bracketed.consumes
    (reads : ∀ input value rest, input.length < bound → Reads value input rest →
      Consumes input rest)
    (separates : ∀ input comma rest, separator input = some (comma, rest) → Consumes input rest)
    (closes : ∀ input ch rest, close input = some (ch, rest) → Consumes input rest)
    (bracketed : Bracketed separator close Reads values input rest)
    (short : input.length < bound) : Consumes input rest := by
  cases bracketed with
  | empty closed => exact closes _ _ _ closed
  | items read others =>
      have first := reads _ _ _ short read
      exact first.trans (others.consumes reads separates closes (first.2.trans short))

theorem Tail.within
    (reads : ∀ input value rest, Reads value input rest → Consumes input rest)
    (separates : ∀ input comma rest, separator input = some (comma, rest) → Consumes input rest)
    (tail : Tail separator close Reads values input rest) :
    ∀ value ∈ values, ∃ behind middle, Reads value behind middle ∧ behind <:+ input := by
  induction tail with
  | close closed => simp
  | item separated read _ ih =>
      have first := separates _ _ _ separated
      have toMiddle := first.trans (reads _ _ _ read)
      intro value valueMem
      rcases List.mem_cons.mp valueMem with rfl | inRest
      · exact ⟨_, _, read, first.1⟩
      · rcases ih value inRest with ⟨behind, middle, reads, suffix⟩
        exact ⟨behind, middle, reads, suffix.trans toMiddle.1⟩

/-- Every item of a list is read from the end of its text. -/
theorem Bracketed.within
    (reads : ∀ input value rest, Reads value input rest → Consumes input rest)
    (separates : ∀ input comma rest, separator input = some (comma, rest) → Consumes input rest)
    (bracketed : Bracketed separator close Reads values input rest) :
    ∀ value ∈ values, ∃ behind middle, Reads value behind middle ∧ behind <:+ input := by
  cases bracketed with
  | empty closed => simp
  | items read others =>
      intro value valueMem
      rcases List.mem_cons.mp valueMem with rfl | inRest
      · exact ⟨_, _, read, List.suffix_refl _⟩
      · rcases others.within reads separates value inRest with ⟨behind, middle, readsMiddle, suffix⟩
        exact ⟨behind, middle, readsMiddle, suffix.trans (reads _ _ _ read).1⟩

end Grammar

/-! ## Parsers that follow a grammar -/

section Outcome

variable {α β γ δ : Type u} {σ : Type v}

/--
What a parser makes of a text, from a state: if the grammar derives a prefix, it does so in
one way, the parser reads it, and the state is the one of the derivation; otherwise the parser
fails, and the state is unchanged unless the text is one that leaves a trace.
-/
inductive Outcome (run : Option (σ × Option Input)) (s : σ) (Derives : α → Input → Prop)
    (final : α → σ) (trace : Prop) : Prop where
  | reads (value : α) (rest : Input) (derives : Derives value rest)
      (unique : ∀ other otherRest, Derives other otherRest → other = value ∧ otherRest = rest)
      (returns : run = some (final value, some rest))
  | fails (left : σ) (derives : ∀ value rest, ¬Derives value rest) (returns : run = some (left, none))
      (clean : left = s ∨ trace)

/-- A matcher with an action has no abandoned actions. -/
theorem action_outcome (matcher : Matcher α) {f : α → σ → Option σ} {s : σ} {final : α → σ}
    (input : Input)
    (acts : ∀ value rest, matcher input = some (value, rest) → f value s = some (final value)) :
    Outcome (action matcher f s input) s
      (fun value rest => matcher input = some (value, rest)) final False := by
  cases matched : matcher input with
  | none =>
      refine .fails s (fun _ _ derives => nomatch derives) ?_ (.inl rfl)
      simp only [action, matched]
  | some found =>
      rcases found with ⟨value, rest⟩
      refine .reads value rest rfl ?_ ?_
      · intro other otherRest derives
        injection derives with derives
        injection derives with valueEq restEq
        exact ⟨valueEq.symm, restEq.symm⟩
      · simp only [action, matched, acts value rest matched, Option.map_some]

variable {run : Option (σ × Option Input)} {s : σ} {Derives Others : α → Input → Prop}
  {final : α → σ} {trace : Prop}

theorem Outcome.congr {more : Prop} (outcome : Outcome run s Derives final trace)
    (same : ∀ value rest, Derives value rest ↔ Others value rest) (weaker : trace → more) :
    Outcome run s Others final more := by
  cases outcome with
  | reads value rest derives unique returns =>
      refine .reads value rest ((same _ _).mp derives) ?_ returns
      intro other otherRest otherDerives
      exact unique _ _ ((same _ _).mpr otherDerives)
  | fails left derives returns clean =>
      refine .fails left ?_ returns (clean.imp_right weaker)
      intro value rest otherDerives
      exact derives _ _ ((same _ _).mpr otherDerives)

/-- Behind a matcher that has acted, every failure leaves a trace. -/
theorem seq_outcome {first : Matcher γ} {act : γ → σ → Option σ} {p : Parser σ} {input : Input}
    {Rest : β → Input → Input → Prop} (make : γ → β → α)
    (behind : ∀ found behind, first input = some (found, behind) →
      ∃ begun within, act found s = some begun ∧
        Outcome (p begun behind) begun (fun part => Rest part behind)
          (fun part => final (make found part)) within) :
    Outcome (seq (action first act) p s input) s
      (fun value rest => ∃ found behind part, first input = some (found, behind) ∧
        Rest part behind rest ∧ value = make found part)
      final (first input ≠ none) := by
  cases matched : first input with
  | none =>
      refine .fails s ?_ ?_ (.inl rfl)
      · rintro value rest ⟨_, _, _, found, _⟩
        simp at found
      · simp only [seq, action, matched]
  | some found =>
      rcases found with ⟨found, inner⟩
      rcases behind found inner matched with ⟨begun, within, acts, outcome⟩
      have started : seq (action first act) p s input = p begun inner := by
        simp only [seq, action, matched, acts, Option.map_some]
      cases outcome with
      | reads part rest derives unique returns =>
          refine .reads (make found part) rest ⟨found, inner, part, rfl, derives, rfl⟩ ?_ ?_
          · rintro other otherRest ⟨_, _, otherPart, same, otherDerives, rfl⟩
            cases same
            rcases unique _ _ otherDerives with ⟨rfl, rfl⟩
            exact ⟨rfl, rfl⟩
          · rw [started]
            exact returns
      | fails left derives returns _ =>
          refine .fails left ?_ ?_ (.inr (by simp))
          · rintro value rest ⟨_, _, part, same, otherDerives, _⟩
            cases same
            exact derives _ _ otherDerives
          · rw [started]
            exact returns

/--
Ordered choice, where a text that the first alternative leaves a trace of is none of the
second.
-/
theorem alt_outcome {p q : Parser σ} {input : Input} {otherTrace : Prop}
    (first : Outcome (p s input) s Derives final trace)
    (second : Outcome (q s input) s Others final otherTrace)
    (traces : ∀ value rest, Derives value rest → trace)
    (committed : trace → (∀ left, q left input = some (left, none)) ∧
      ∀ value rest, ¬Others value rest) :
    Outcome (alt p q s input) s (fun value rest => Derives value rest ∨ Others value rest) final
      (trace ∨ otherTrace) := by
  cases first with
  | reads value rest derives unique returns =>
      refine .reads value rest (.inl derives) ?_ ?_
      · rintro other otherRest (isFirst | isSecond)
        · exact unique _ _ isFirst
        · exact absurd isSecond ((committed (traces _ _ derives)).2 _ _)
      · simp only [alt, returns]
  | fails left derives returns clean =>
      have tried : alt p q s input = q left input := by
        simp only [alt, returns]
      by_cases traced : trace
      · rcases committed traced with ⟨fails, refused⟩
        refine .fails left ?_ ?_ (.inr (.inl traced))
        · rintro value rest (isFirst | isSecond)
          · exact derives _ _ isFirst
          · exact refused _ _ isSecond
        · rw [tried]
          exact fails left
      · have same : left = s := clean.resolve_right traced
        rw [tried, same]
        refine second.congr ?_ .inr
        intro value rest
        exact (or_iff_right (derives value rest)).symm

variable {item : Parser σ} {separator : Matcher γ} {close : Matcher δ}
  {Reads : α → Input → Input → Prop} {ready : σ → Prop} {update : σ → α → σ}
  {trace : Input → Prop} {bound : ℕ}

/-- What the items of a bracketed list must satisfy. -/
structure Listable (item : Parser σ) (separator : Matcher γ) (close : Matcher δ)
    (Reads : α → Input → Input → Prop) (ready : σ → Prop) (update : σ → α → σ)
    (trace : Input → Prop) (bound : ℕ) : Prop where
  outcome : ∀ s input, ready s → input.length < bound →
    Outcome (item s input) s (fun value => Reads value input) (update s) (trace input)
  ready_update : ∀ s value, ready s → ready (update s value)
  consumes : ∀ input value rest, input.length < bound → Reads value input rest →
    Consumes input rest
  separator_consumes : ∀ input comma rest,
    separator input = some (comma, rest) → Consumes input rest
  reads_open : ∀ input value rest, Reads value input rest → close input = none
  trace_open : ∀ input, trace input → close input = none
  separator_open : ∀ input comma rest, separator input = some (comma, rest) → close input = none

/--
The loop always returns. If the rest can be closed, the items it has read are the only
derivation; if not, there is none.
-/
theorem more_tail (listable : Listable item separator close Reads ready update trace bound)
    {fuel : ℕ} {s : σ} {input : Input} (isReady : ready s) (short : input.length < bound)
    (enough : input.length < fuel) :
    ∃ next rest, more item separator fuel s input = some (next, some rest) ∧
      ((∃ ch final values, close rest = some (ch, final) ∧
          Tail separator close Reads values input final ∧
          (∀ others otherFinal, Tail separator close Reads others input otherFinal →
            others = values ∧ otherFinal = final) ∧
          next = values.foldl update s) ∨
        (close rest = none ∧
          ∀ values final, ¬Tail separator close Reads values input final)) := by
  induction fuel generalizing s input with
  | zero => exact absurd enough (Nat.not_lt_zero _)
  | succ fuel ih =>
      cases separated : separator input with
      | none =>
          refine ⟨s, input, ?_, ?_⟩
          · simp only [more, separated]
          cases closed : close input with
          | none =>
              right
              refine ⟨rfl, ?_⟩
              intro values final tail
              rcases tail.of_end separated with ⟨_, ch, closes⟩
              simp [closed] at closes
          | some found =>
              left
              rcases found with ⟨ch, final⟩
              refine ⟨ch, final, [], rfl, .close closed, ?_, rfl⟩
              intro others otherFinal tail
              rcases tail.of_end separated with ⟨othersEq, other, closes⟩
              rw [closed] at closes
              cases closes
              exact ⟨othersEq, rfl⟩
      | some found =>
          rcases found with ⟨comma, behind⟩
          have opened := listable.separator_open input comma behind separated
          have behindShort := (listable.separator_consumes input comma behind separated).2
          cases listable.outcome s behind isReady (behindShort.trans short) with
          | fails left derives returns _ =>
              refine ⟨left, input, ?_, .inr ⟨opened, ?_⟩⟩
              · simp only [more, separated, returns]
              · intro values final tail
                rcases tail.of_separator separated opened with ⟨_, _, _, _, reads, _⟩
                exact derives _ _ reads
          | reads value middle derives unique returns =>
              have middleShort :=
                (listable.consumes _ _ _ (behindShort.trans short) derives).2.trans behindShort
              rcases ih (listable.ready_update s value isReady) (middleShort.trans short)
                (by omega) with ⟨next, rest, loop, result⟩
              refine ⟨next, rest, ?_, ?_⟩
              · simp only [more, separated, returns]
                exact loop
              rcases result with ⟨ch, final, values, closed, tail, tailUnique, nextEq⟩ |
                ⟨closed, noTail⟩
              · left
                refine ⟨ch, final, value :: values, closed, .item separated derives tail, ?_, nextEq⟩
                intro others otherFinal other
                rcases other.of_separator separated opened with ⟨_, _, _, rfl, reads, otherTail⟩
                rcases unique _ _ reads with ⟨rfl, rfl⟩
                rcases tailUnique _ _ otherTail with ⟨rfl, rfl⟩
                exact ⟨rfl, rfl⟩
              · right
                refine ⟨closed, ?_⟩
                intro values final other
                rcases other.of_separator separated opened with ⟨_, _, _, _, reads, otherTail⟩
                rcases unique _ _ reads with ⟨rfl, rfl⟩
                exact noTail _ _ otherTail

/-- A list in brackets follows its grammar, whatever its items do before they are abandoned. -/
theorem bracketed_outcome
    (listable : Listable item separator close Reads ready update trace bound)
    {finish : δ → σ → Option σ} {final : List α → σ} {s : σ} {input : Input} (isReady : ready s)
    (short : input.length < bound)
    (finishes : ∀ ch values, finish ch (values.foldl update s) = some (final values)) :
    Outcome (seq (opt (list item separator)) (action close finish) s input) s
      (fun values => Bracketed separator close Reads values input) final True := by
  cases listable.outcome s input isReady short with
  | fails left derives returns clean =>
      have listed : seq (opt (list item separator)) (action close finish) s input =
          action close finish left input := by
        simp only [seq, opt, list, returns]
      cases closed : close input with
      | none =>
          refine .fails left ?_ ?_ (.inr trivial)
          · intro values rest bracketed
            rcases bracketed.of_open closed with ⟨_, _, _, _, reads, _⟩
            exact derives _ _ reads
          · rw [listed]
            simp only [action, closed]
      | some found =>
          rcases found with ⟨ch, rest⟩
          have leftEq : left = s := by
            rcases clean with same | traces
            · exact same
            · have opened := listable.trace_open input traces
              simp [closed] at opened
          refine .reads [] rest (.empty closed) ?_ ?_
          · intro others otherRest bracketed
            rcases bracketed.of_no_item derives with ⟨othersEq, other, closes⟩
            rw [closed] at closes
            cases closes
            exact ⟨othersEq, rfl⟩
          · have finished : finish ch s = some (final []) := finishes ch []
            rw [listed, leftEq]
            simp only [action, closed, finished, Option.map_some]
  | reads value middle derives unique returns =>
      have middleShort := (listable.consumes _ _ _ short derives).2
      have opened := listable.reads_open _ _ _ derives
      rcases more_tail listable (listable.ready_update s value isReady) (middleShort.trans short)
        (Nat.lt_succ_self _) with ⟨next, rest, loop, result⟩
      have listed : seq (opt (list item separator)) (action close finish) s input =
          action close finish next rest := by
        simp only [seq, opt, list, returns, loop]
      rcases result with ⟨ch, closing, values, closed, tail, tailUnique, nextEq⟩ | ⟨closed, noTail⟩
      · refine .reads (value :: values) closing (.items derives tail) ?_ ?_
        · intro others otherRest bracketed
          rcases bracketed.of_open opened with ⟨_, _, _, rfl, reads, otherTail⟩
          rcases unique _ _ reads with ⟨rfl, rfl⟩
          rcases tailUnique _ _ otherTail with ⟨rfl, rfl⟩
          exact ⟨rfl, rfl⟩
        · have finished : finish ch next = some (final (value :: values)) := by
            rw [nextEq]
            exact finishes ch (value :: values)
          rw [listed]
          simp only [action, closed, finished, Option.map_some]
      · refine .fails next ?_ ?_ (.inr trivial)
        · intro others otherRest bracketed
          rcases bracketed.of_open opened with ⟨_, _, _, _, reads, otherTail⟩
          rcases unique _ _ reads with ⟨rfl, rfl⟩
          exact noTail _ _ otherTail
        · rw [listed]
          simp only [action, closed]

end Outcome

end Spirit
