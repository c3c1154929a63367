import Poolserver.Lib.SqlText

/-!
# Rows of an insertion

The tokens behind `VALUES` are read into rows of values. Rows that are built by putting a
text between two quotes, with a fixed `Frame` around it, denote the names they were built
for exactly if every such text is plain (`denotes_iff`).
-/

namespace SqlText

/-! ## Reading rows -/

/-- The tokens of a value, without blanks. -/
abbrev Value := List Token

/-- How far the rows behind `VALUES` are read. -/
inductive Place where
  /-- A row must follow. -/
  | before
  /-- A row is over. -/
  | after
  /-- In a row, inside some parentheses of a value. -/
  | within (depth : ℕ) (values : List Value) (value : Value)

structure Reader where
  rows : List (List Value)
  place : Place

namespace Reader

/-- A character outside of literals. -/
def readChar (reader : Reader) (ch : UInt8) : Option Reader :=
  if ch = space then some reader
  else
    match reader.place with
    | .before =>
        if ch = leftParen then some { reader with place := .within 0 [] [] } else none
    | .after => if ch = comma then some { reader with place := .before } else none
    | .within depth values value =>
        if ch = leftParen then
          some { reader with place := .within (depth + 1) values (value ++ [.char ch]) }
        else if ch = rightParen then
          if depth = 0 then some ⟨reader.rows ++ [values ++ [value]], .after⟩
          else some { reader with place := .within (depth - 1) values (value ++ [.char ch]) }
        else if ch = comma ∧ depth = 0 then
          some { reader with place := .within 0 (values ++ [value]) [] }
        else some { reader with place := .within depth values (value ++ [.char ch]) }

def readToken (reader : Reader) : Token → Option Reader
  | .char ch => reader.readChar ch
  | .literal text =>
      match reader.place with
      | .within depth values value =>
          some { reader with place := .within depth values (value ++ [.literal text]) }
      | _ => none

end Reader

/-- The rows of a reader that ends behind one. -/
def Reader.finish (reader : Reader) : Option (List (List Value)) :=
  match reader.place with
  | .after => some reader.rows
  | _ => none

/-- The rows of a text that is read on from a reader. -/
def readFrom (reader : Reader) (text : Bytes) : Option (List (List Value)) := do
  let tokens ← lex text
  let last ← tokens.foldlM Reader.readToken reader
  last.finish

/-- The rows of a text, separated by commas. -/
def readRows (text : Bytes) : Option (List (List Value)) :=
  readFrom ⟨[], .before⟩ text

/-- Rows of that many values whose second ones are the names as literals. -/
def Denotes (columns : ℕ) (names : List Bytes) (rows : List (List Value)) : Prop :=
  rows.map (fun row => row[1]?) = names.map (fun name => some [Token.literal name]) ∧
    ∀ row ∈ rows, row.length = columns

/-! ## Rows with a text between quotes -/

/-- What stands in a row before and behind the literal that is its second value. -/
structure Frame where
  head : Bytes
  tail : Bytes
  first : Value
  others : List Value
  tailTokens : List Token
  quoteless : quote ∉ head
  readsHead : ∀ rows, (head.map Token.char).foldlM Reader.readToken ⟨rows, .before⟩ =
    some ⟨rows, .within 0 [first] []⟩
  comma : tail.head? = some comma
  lexesTail : ∀ rest, lex (tail ++ rest) = (lex rest).map (tailTokens ++ ·)
  readsTail : ∀ rows value, tailTokens.foldlM Reader.readToken ⟨rows, .within 0 [first] value⟩ =
    some ⟨rows ++ [first :: value :: others], .after⟩

/-- A row with the text that is put into its frame and the name it stands for. -/
structure Line where
  frame : Frame
  raw : Bytes
  name : Bytes

namespace Line

def text (line : Line) : Bytes :=
  line.frame.head ++ quote :: (line.raw ++ quote :: line.frame.tail)

/-- The row that a plain text gives. -/
def row (line : Line) : List Value :=
  line.frame.first :: [.literal line.raw] :: line.frame.others

variable {line : Line}

theorem lex_text (line : Line) (rest : Bytes) :
    lex (line.text ++ rest) =
      (lexInside (line.raw ++ quote :: (line.frame.tail ++ rest))).map fun (value, tokens) =>
        line.frame.head.map .char ++ .literal value :: tokens := by
  rw [text, List.append_assoc, lex_append line.frame.quoteless, List.cons_append, lex_quote,
    Option.map_map, List.append_assoc, List.cons_append]
  rfl

theorem exists_tail (line : Line) : ∃ tail, line.frame.tail = SqlText.comma :: tail := by
  have comma := line.frame.comma
  cases tailEq : line.frame.tail with
  | nil => simp [tailEq] at comma
  | cons ch tail =>
      rw [tailEq, List.head?_cons, Option.some.injEq] at comma
      exact ⟨tail, by rw [comma]⟩

/-- A line with a plain text is read as its row. -/
theorem readFrom_text (plain : Plain line.raw) (rows : List (List Value)) (rest : Bytes) :
    readFrom ⟨rows, .before⟩ (line.text ++ rest) = readFrom ⟨rows ++ [line.row], .after⟩ rest := by
  rcases line.exists_tail with ⟨tail, tailEq⟩
  have inside : lexInside (line.raw ++ quote :: (line.frame.tail ++ rest)) =
      (lex rest).map fun tokens => (line.raw, line.frame.tailTokens ++ tokens) := by
    rw [lexInside_of_plain plain, tailEq, List.cons_append, lexInside_close (by decide),
      ← List.cons_append, ← tailEq, line.frame.lexesTail, Option.map_map]
    cases lex rest with
    | none => rfl
    | some tokens => simp [denoting]
  rw [readFrom, lex_text, inside, Option.map_map, readFrom]
  cases lex rest with
  | none => rfl
  | some tokens =>
      have reads : (line.frame.head.map Token.char ++
          Token.literal line.raw :: (line.frame.tailTokens ++ tokens)).foldlM Reader.readToken
            ⟨rows, .before⟩ =
          tokens.foldlM Reader.readToken ⟨rows ++ [line.row], .after⟩ := by
        rw [List.foldlM_append, line.frame.readsHead, Option.bind_eq_bind, Option.bind_some,
          List.foldlM_cons]
        have literal : Reader.readToken ⟨rows, .within 0 [line.frame.first] []⟩
            (.literal line.raw) =
            some ⟨rows, .within 0 [line.frame.first] [.literal line.raw]⟩ := rfl
        rw [literal, Option.bind_eq_bind, Option.bind_some, List.foldlM_append,
          line.frame.readsTail]
        rfl
      simp only [Option.map_some, Function.comp_apply, Option.bind_eq_bind, Option.bind_some]
      rw [reads]

end Line

/-! ## What a row has begun with -/

/-- In a row a token goes to the current value, ends it, or ends the row. -/
theorem readToken_within {rows : List (List Value)} {depth : ℕ} {values : List Value}
    {value : Value} {token : Token} {next : Reader}
    (read : Reader.readToken ⟨rows, .within depth values value⟩ token = some next) :
    (∃ depth more, next = ⟨rows, .within depth values (value ++ more)⟩) ∨
      next = ⟨rows, .within 0 (values ++ [value]) []⟩ ∨
      next = ⟨rows ++ [values ++ [value]], .after⟩ := by
  cases token with
  | literal text =>
      simp only [Reader.readToken, Option.some.injEq] at read
      exact Or.inl ⟨depth, [.literal text], read.symm⟩
  | char ch =>
      simp only [Reader.readToken, Reader.readChar] at read
      split at read
      · simp only [Option.some.injEq] at read
        exact Or.inl ⟨depth, [], by rw [List.append_nil, read]⟩
      split at read
      · simp only [Option.some.injEq] at read
        exact Or.inl ⟨depth + 1, [.char ch], read.symm⟩
      split at read
      · split at read
        · simp only [Option.some.injEq] at read
          exact Or.inr (Or.inr read.symm)
        · simp only [Option.some.injEq] at read
          exact Or.inl ⟨depth - 1, [.char ch], read.symm⟩
      split at read
      · simp only [Option.some.injEq] at read
        exact Or.inr (Or.inl read.symm)
      · simp only [Option.some.injEq] at read
        exact Or.inl ⟨depth, [.char ch], read.symm⟩

theorem readToken_between {reader next : Reader} {token : Token}
    (between : ∀ depth values value, reader.place ≠ .within depth values value)
    (read : reader.readToken token = some next) : next.rows = reader.rows := by
  rcases reader with ⟨rows, place⟩
  cases place with
  | within depth values value => exact absurd rfl (between depth values value)
  | before =>
      cases token with
      | literal text => cases read
      | char ch =>
          simp only [Reader.readToken, Reader.readChar] at read
          split at read
          · simp only [Option.some.injEq] at read
            rw [← read]
          · split at read
            · simp only [Option.some.injEq] at read
              rw [← read]
            · cases read
  | after =>
      cases token with
      | literal text => cases read
      | char ch =>
          simp only [Reader.readToken, Reader.readChar] at read
          split at read
          · simp only [Option.some.injEq] at read
            rw [← read]
          · split at read
            · simp only [Option.some.injEq] at read
              rw [← read]
            · cases read

theorem rows_of_readToken {reader next : Reader} {token : Token}
    (read : reader.readToken token = some next) : reader.rows <+: next.rows := by
  by_cases between : ∀ depth values value, reader.place ≠ .within depth values value
  · rw [readToken_between between read]
  · push Not at between
    rcases between with ⟨depth, values, value, placeEq⟩
    rcases reader with ⟨rows, place⟩
    dsimp only at placeEq
    subst placeEq
    rcases readToken_within read with ⟨depth, more, rfl⟩ | rfl | rfl
    · exact List.prefix_rfl
    · exact List.prefix_rfl
    · exact List.prefix_append _ _

/-- A row is being read, or has been, whose second value begins with a literal. -/
inductive Began (rows : List (List Value)) (first : Value) (text : Bytes) : Reader → Prop where
  | second (depth : ℕ) (value : Value) :
      Began rows first text ⟨rows, .within depth [first] (.literal text :: value)⟩
  | later (depth : ℕ) (second : Value) (others : List Value) (value : Value) :
      Began rows first text
        ⟨rows, .within depth (first :: (.literal text :: second) :: others) value⟩
  | done (second : Value) (others : List Value) (more : List (List Value)) (place : Place) :
      Began rows first text
        ⟨rows ++ (first :: (.literal text :: second) :: others) :: more, place⟩

variable {rows : List (List Value)} {first : Value} {text : Bytes} {reader next : Reader}

theorem began_of_readToken {token : Token} (began : Began rows first text reader)
    (read : reader.readToken token = some next) : Began rows first text next := by
  cases began with
  | second depth value =>
      rcases readToken_within read with ⟨depth, more, rfl⟩ | rfl | rfl
      · exact .second depth (value ++ more)
      · exact .later 0 value [] []
      · exact .done value [] [] .after
  | later depth second others value =>
      rcases readToken_within read with ⟨depth, more, rfl⟩ | rfl | rfl
      · exact .later depth second others (value ++ more)
      · exact .later 0 second (others ++ [value]) []
      · exact .done second (others ++ [value]) [] .after
  | done second others more place =>
      rcases rows_of_readToken read with ⟨added, rowsEq⟩
      rcases next with ⟨nextRows, nextPlace⟩
      dsimp only at rowsEq
      subst rowsEq
      rw [List.append_assoc, List.cons_append]
      exact .done second others (more ++ added) nextPlace

/-- What every token preserves, a list of them preserves. -/
theorem invariant_of_readTokens (Holds : Reader → Prop) {tokens : List Token}
    (preserved : ∀ {reader token next}, Holds reader → reader.readToken token = some next →
      Holds next)
    (held : Holds reader) (read : tokens.foldlM Reader.readToken reader = some next) :
    Holds next := by
  induction tokens generalizing reader with
  | nil =>
      rw [List.foldlM_nil, Option.pure_def, Option.some.injEq] at read
      rwa [← read]
  | cons token tokens ih =>
      rw [List.foldlM_cons, Option.bind_eq_bind, Option.bind_eq_some_iff] at read
      rcases read with ⟨middle, readToken, read⟩
      exact ih (preserved held readToken) read

theorem rows_of_readFrom {found : List (List Value)} (read : readFrom reader text = some found) :
    reader.rows <+: found := by
  simp only [readFrom, Option.bind_eq_bind, Option.bind_eq_some_iff] at read
  rcases read with ⟨tokens, _, last, folded, finished⟩
  have grown := invariant_of_readTokens (fun next => reader.rows <+: next.rows)
    (fun grown readToken => grown.trans (rows_of_readToken readToken)) List.prefix_rfl folded
  unfold Reader.finish at finished
  split at finished
  · rw [Option.some.injEq] at finished
    rwa [← finished]
  · cases finished

/-- A line is read into a row whose second value begins with what its literal denotes. -/
theorem Line.began {line : Line} {rest : Bytes} {found : List (List Value)}
    (read : readFrom ⟨rows, .before⟩ (line.text ++ rest) = some found) :
    ∃ value tokens, lexInside (line.raw ++ quote :: (line.frame.tail ++ rest)) =
        some (value, tokens) ∧
      ∃ second others more,
        found = rows ++ (line.frame.first :: (.literal value :: second) :: others) :: more := by
  simp only [readFrom, line.lex_text, Option.bind_eq_bind, Option.bind_eq_some_iff,
    Option.map_eq_some_iff] at read
  rcases read with ⟨_, ⟨⟨value, tokens⟩, lexed, rfl⟩, last, folded, finished⟩
  refine ⟨value, tokens, lexed, ?_⟩
  rw [List.foldlM_append, line.frame.readsHead, Option.bind_eq_bind, Option.bind_some,
    List.foldlM_cons, Option.bind_eq_bind, Option.bind_eq_some_iff] at folded
  rcases folded with ⟨opened, readLiteral, folded⟩
  have literal : opened = ⟨rows, .within 0 [line.frame.first] [.literal value]⟩ :=
    (Option.some.inj readLiteral).symm
  subst literal
  have began := invariant_of_readTokens (Began rows line.frame.first value) began_of_readToken
    (.second 0 []) folded
  unfold Reader.finish at finished
  split at finished
  · rename_i placeEq
    rw [Option.some.injEq] at finished
    subst finished
    cases began with
    | second => cases placeEq
    | later => cases placeEq
    | done second others more place => exact ⟨second, others, more, rfl⟩
  · cases finished

/-! ## Lines that denote their names -/

variable {columns : ℕ} {name : Bytes} {names : List Bytes} {row : List Value}
  {found : List (List Value)}

theorem denotes_cons :
    Denotes columns (name :: names) (row :: found) ↔
      (row[1]? = some [.literal name] ∧ row.length = columns) ∧ Denotes columns names found := by
  simp only [Denotes, List.map_cons, List.cons.injEq, List.forall_mem_cons]
  tauto

/-- If the first row denotes the name of a line, that is what stands in its text. -/
theorem Line.plain_of_denotes {line : Line} {rest more : Bytes}
    (nameEq : line.name = line.raw ++ more) (behind : more.head? ≠ some comma)
    (read : readFrom ⟨rows, .before⟩ (line.text ++ rest) = some (rows ++ found))
    (denotes : Denotes columns (line.name :: names) found) :
    Plain line.raw ∧ line.name = line.raw := by
  rcases line.began read with ⟨value, tokens, lexed, second, others, later, shape⟩
  rw [List.append_cancel_left_eq] at shape
  subst shape
  have literal := (denotes_cons.mp denotes).1.1
  simp only [List.getElem?_cons_succ, List.getElem?_cons_zero, Option.some.injEq, List.cons.injEq,
    Token.literal.injEq] at literal
  rcases line.exists_tail with ⟨tail, tailEq⟩
  rw [literal.1, nameEq, tailEq, List.cons_append] at lexed
  rcases plain_of_lexInside behind lexed with ⟨plain, nothing⟩
  exact ⟨plain, by rw [nameEq, nothing, List.append_nil]⟩

theorem readFrom_nil (rows : List (List Value)) : readFrom ⟨rows, .after⟩ [] = some rows := by
  rfl

theorem readFrom_comma (rows : List (List Value)) (text : Bytes) :
    readFrom ⟨rows, .after⟩ (comma :: text) = readFrom ⟨rows, .before⟩ text := by
  rw [readFrom, lex_char (by decide), readFrom]
  cases lex text with
  | none => rfl
  | some tokens => rfl

/-- The text of lines, separated by commas. -/
def joined (lines : List Line) : Bytes :=
  [comma].intercalate (lines.map Line.text)

theorem readFrom_joined {line : Line} {lines : List Line} (plain : Plain line.raw)
    (rows : List (List Value)) :
    readFrom ⟨rows, .before⟩ (joined (line :: lines)) =
      if lines = [] then some (rows ++ [line.row])
      else readFrom ⟨rows ++ [line.row], .before⟩ (joined lines) := by
  cases lines with
  | nil =>
      have single : joined [line] = line.text ++ [] := by simp [joined]
      rw [single, line.readFrom_text plain, readFrom_nil, if_pos rfl]
  | cons second lines =>
      have split : joined (line :: second :: lines) =
          line.text ++ (comma :: joined (second :: lines)) := by
        simp [joined]
      rw [split, line.readFrom_text plain, readFrom_comma, if_neg (by simp)]

theorem row_denotes {line : Line} (sized : line.frame.others.length + 2 = columns) :
    line.row[1]? = some [.literal line.raw] ∧ line.row.length = columns := by
  refine ⟨rfl, ?_⟩
  simp only [Line.row, List.length_cons]
  omega

/--
Joined lines are read as rows that denote their names exactly if every text is plain and is
the whole name.
-/
theorem denotes_iff {lines : List Line} (nonempty : lines ≠ [])
    (sized : ∀ line ∈ lines, line.frame.others.length + 2 = columns)
    (behind : ∀ line ∈ lines, ∃ more, line.name = line.raw ++ more ∧ more.head? ≠ some comma)
    (rows : List (List Value)) :
    (∃ found, readFrom ⟨rows, .before⟩ (joined lines) = some (rows ++ found) ∧
        Denotes columns (lines.map Line.name) found) ↔
      ∀ line ∈ lines, Plain line.raw ∧ line.name = line.raw := by
  induction lines generalizing rows with
  | nil => exact absurd rfl nonempty
  | cons line lines ih =>
      rw [List.forall_mem_cons] at sized behind
      rw [List.forall_mem_cons, List.map_cons]
      rcases behind with ⟨⟨more, nameEq, noComma⟩, behind⟩
      have first : (∃ found, readFrom ⟨rows, .before⟩ (joined (line :: lines)) =
            some (rows ++ found) ∧ Denotes columns (line.name :: lines.map Line.name) found) →
          Plain line.raw ∧ line.name = line.raw := by
        rintro ⟨found, read, denotes⟩
        have split : ∃ rest, joined (line :: lines) = line.text ++ rest := by
          cases lines with
          | nil => exact ⟨[], by simp [joined]⟩
          | cons second lines => exact ⟨comma :: joined (second :: lines), by simp [joined]⟩
        rcases split with ⟨rest, split⟩
        rw [split] at read
        exact line.plain_of_denotes nameEq noComma read denotes
      have rowDenotes := row_denotes sized.1
      constructor
      · intro denotes
        refine ⟨first denotes, ?_⟩
        rcases first denotes with ⟨plain, same⟩
        rcases denotes with ⟨found, read, denotes⟩
        rw [readFrom_joined plain] at read
        split at read
        · rename_i none
          rw [none]
          simp
        · rename_i someRows
          have grown := rows_of_readFrom read
          rcases grown with ⟨others, shape⟩
          rw [List.append_assoc, List.append_cancel_left_eq] at shape
          subst shape
          refine (ih someRows sized.2 behind (rows ++ [line.row])).mp ⟨others, ?_, ?_⟩
          · rw [read, List.append_assoc]
          · exact (denotes_cons.mp denotes).2
      · rintro ⟨⟨plain, same⟩, plains⟩
        rw [readFrom_joined plain]
        split
        · rename_i none
          subst none
          refine ⟨[line.row], rfl, denotes_cons.mpr ⟨?_, by simp [Denotes]⟩⟩
          rw [same]
          exact rowDenotes
        · rename_i someRows
          rcases (ih someRows sized.2 behind (rows ++ [line.row])).mpr plains with
            ⟨found, read, denotes⟩
          refine ⟨line.row :: found, ?_, denotes_cons.mpr ⟨?_, denotes⟩⟩
          · rw [read, List.append_assoc, List.singleton_append]
          · rw [same]
            exact rowDenotes

/-! ## Frames from values -/

/-- A character that neither separates nor groups values, and opens no literal. -/
def Ordinary (ch : UInt8) : Prop :=
  ch ≠ space ∧ ch ≠ leftParen ∧ ch ≠ rightParen ∧ ch ≠ comma ∧ ch ≠ quote

instance (ch : UInt8) : Decidable (Ordinary ch) :=
  inferInstanceAs (Decidable (_ ∧ _))

theorem quote_notMem_of_ordinary {text : Bytes} (ordinary : ∀ ch ∈ text, Ordinary ch) :
    quote ∉ text :=
  fun quoteMem => (ordinary quote quoteMem).2.2.2.2 rfl

theorem readTokens_ordinary (ordinary : ∀ ch ∈ text, Ordinary ch) (rows : List (List Value))
    (depth : ℕ) (values : List Value) (value : Value) :
    (text.map Token.char).foldlM Reader.readToken ⟨rows, .within depth values value⟩ =
      some ⟨rows, .within depth values (value ++ text.map .char)⟩ := by
  induction text generalizing value with
  | nil => simp
  | cons ch text ih =>
      rw [List.forall_mem_cons] at ordinary
      rcases ordinary with ⟨⟨notSpace, notLeft, notRight, notComma, _⟩, ordinary⟩
      have read : Reader.readToken ⟨rows, .within depth values value⟩ (.char ch) =
          some ⟨rows, .within depth values (value ++ [.char ch])⟩ := by
        simp [Reader.readToken, Reader.readChar, notSpace, notLeft, notRight, notComma]
      rw [List.map_cons, List.foldlM_cons, read, Option.bind_eq_bind, Option.bind_some,
        ih ordinary]
      simp

/-- The text of one value of a row, which what follows it does not change. -/
structure Item where
  text : Bytes
  tokens : List Token
  lexes : ∀ ch rest, ch ≠ quote → lex (text ++ ch :: rest) = (lex (ch :: rest)).map (tokens ++ ·)
  reads : ∀ rows values, tokens.foldlM Reader.readToken ⟨rows, .within 0 values []⟩ =
    some ⟨rows, .within 0 values tokens⟩

namespace Item

/-- A value without quotes. -/
def Quoteless (item : Item) : Prop :=
  quote ∉ item.text ∧ item.tokens = item.text.map .char

def word (text : Bytes) (ordinary : ∀ ch ∈ text, Ordinary ch) : Item where
  text
  tokens := text.map .char
  lexes _ _ _ := lex_append (quote_notMem_of_ordinary ordinary) _
  reads rows values := by simpa using readTokens_ordinary ordinary rows 0 values []

/-- A function applied to one word. -/
def call (function argument : Bytes) (ordinaryFunction : ∀ ch ∈ function, Ordinary ch)
    (ordinaryArgument : ∀ ch ∈ argument, Ordinary ch) : Item where
  text := function ++ leftParen :: (argument ++ [rightParen])
  tokens := (function ++ leftParen :: (argument ++ [rightParen])).map .char
  lexes _ _ _ := by
    refine lex_append ?_ _
    have quotes : quote ≠ leftParen ∧ quote ≠ rightParen := by decide
    simp [quote_notMem_of_ordinary ordinaryFunction, quote_notMem_of_ordinary ordinaryArgument,
      quotes.1, quotes.2]
  reads rows values := by
    rw [List.map_append, List.foldlM_append, readTokens_ordinary ordinaryFunction,
      Option.bind_eq_bind, Option.bind_some, List.map_cons, List.foldlM_cons]
    have opens : Reader.readToken
        ⟨rows, .within 0 values ([] ++ function.map .char)⟩ (.char leftParen) =
        some ⟨rows, .within 1 values (function.map .char ++ [.char leftParen])⟩ := rfl
    rw [opens, Option.bind_eq_bind, Option.bind_some, List.map_append, List.foldlM_append,
      readTokens_ordinary ordinaryArgument, Option.bind_eq_bind, Option.bind_some]
    simp only [List.map_cons, List.map_nil, List.foldlM_cons, List.foldlM_nil]
    have closes : ∀ value : Value,
        Reader.readToken ⟨rows, .within 1 values value⟩ (.char rightParen) =
          some ⟨rows, .within 0 values (value ++ [.char rightParen])⟩ := fun _ => rfl
    rw [closes]
    simp

/-- A plain text in quotes. -/
def quoted (text : Bytes) (plain : Plain text) : Item where
  text := quote :: (text ++ [quote])
  tokens := [.literal text]
  lexes ch rest notQuote := by
    rw [List.cons_append, List.append_assoc, lex_quote, lexInside_of_plain plain,
      List.singleton_append, lexInside_close notQuote]
    cases lex (ch :: rest) with
    | none => rfl
    | some tokens => simp [denoting]
  reads _ _ := rfl

theorem call_quoteless (function argument : Bytes) (ordinaryFunction : ∀ ch ∈ function, Ordinary ch)
    (ordinaryArgument : ∀ ch ∈ argument, Ordinary ch) :
    (call function argument ordinaryFunction ordinaryArgument).Quoteless := by
  refine ⟨?_, rfl⟩
  have quotes : quote ≠ leftParen ∧ quote ≠ rightParen := by decide
  simp [call, quote_notMem_of_ordinary ordinaryFunction,
    quote_notMem_of_ordinary ordinaryArgument, quotes.1, quotes.2]

end Item

/-- The values behind a literal, and the end of the row. -/
def tailText : List Item → Bytes
  | [] => [rightParen]
  | item :: items => comma :: space :: (item.text ++ tailText items)

def tailTokens : List Item → List Token
  | [] => [.char rightParen]
  | item :: items => .char comma :: .char space :: (item.tokens ++ tailTokens items)

theorem head_tailText (items : List Item) :
    ∃ ch text, tailText items = ch :: text ∧ ch ≠ quote := by
  cases items with
  | nil => exact ⟨rightParen, [], rfl, by decide⟩
  | cons item items => exact ⟨comma, _, rfl, by decide⟩

theorem lex_tailText (items : List Item) (rest : Bytes) :
    lex (tailText items ++ rest) = (lex rest).map (tailTokens items ++ ·) := by
  induction items with
  | nil => exact lex_char (by decide) rest
  | cons item items ih =>
      rcases head_tailText items with ⟨ch, text, tailEq, notQuote⟩
      rw [tailText, List.cons_append, List.cons_append, lex_char (by decide),
        lex_char (by decide), List.append_assoc, tailEq, List.cons_append,
        item.lexes ch _ notQuote, ← List.cons_append, ← tailEq, ih]
      cases lex rest with
      | none => rfl
      | some tokens => simp [tailTokens]

theorem readTokens_tail (items : List Item) (rows : List (List Value)) (values : List Value)
    (value : Value) :
    (tailTokens items).foldlM Reader.readToken ⟨rows, .within 0 values value⟩ =
      some ⟨rows ++ [values ++ value :: items.map Item.tokens], .after⟩ := by
  induction items generalizing values value with
  | nil => rfl
  | cons item items ih =>
      have separates : Reader.readToken ⟨rows, .within 0 values value⟩ (.char comma) =
          some ⟨rows, .within 0 (values ++ [value]) []⟩ := rfl
      have skips : Reader.readToken ⟨rows, .within 0 (values ++ [value]) []⟩ (.char space) =
          some ⟨rows, .within 0 (values ++ [value]) []⟩ := rfl
      rw [tailTokens, List.foldlM_cons, separates, Option.bind_eq_bind, Option.bind_some,
        List.foldlM_cons, skips, Option.bind_eq_bind, Option.bind_some, List.foldlM_append,
        item.reads, Option.bind_eq_bind, Option.bind_some, ih]
      simp

/-- The frame of rows whose second value is put between other ones. -/
def frameOfItems (first : Item) (quoteless : first.Quoteless) (second : Item)
    (items : List Item) : Frame where
  head := leftParen :: (first.text ++ [comma, space])
  tail := tailText (second :: items)
  first := first.tokens
  others := (second :: items).map Item.tokens
  tailTokens := tailTokens (second :: items)
  quoteless := by
    have quotes : quote ≠ leftParen ∧ quote ≠ comma ∧ quote ≠ space := by decide
    simp [quoteless.1, quotes.1, quotes.2.1, quotes.2.2]
  readsHead rows := by
    have opens : Reader.readToken ⟨rows, .before⟩ (.char leftParen) =
        some ⟨rows, .within 0 [] []⟩ := rfl
    rw [List.map_cons, List.foldlM_cons, opens, Option.bind_eq_bind, Option.bind_some,
      List.map_append, List.foldlM_append, ← quoteless.2, first.reads, Option.bind_eq_bind,
      Option.bind_some]
    rfl
  comma := rfl
  lexesTail := lex_tailText (second :: items)
  readsTail rows value := readTokens_tail (second :: items) rows [first.tokens] value

end SqlText
