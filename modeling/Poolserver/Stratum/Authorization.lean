import Poolserver.DataMgr.Inserts
import Poolserver.Lib.SqlEscape

/-!
# The query of an authorization

User name and password are escaped and put between quotes, so the statement asks for just these
two, whatever they are, if it has room in the buffer of `Util::FS`. A longer one is cut: then it is
no statement, or it has no password in it.
-/

namespace Poolserver.Stratum

open SqlText

variable {realEscapeString : StdString → StdString}

/-- `DatabaseConnection::Escape`, with `mysql_real_escape_string`. -/
def escape (realEscapeString : StdString → StdString) (text : StdString) : StdString :=
  Util.cStr (realEscapeString text)

/-- The statement of `OnMiningAuthorize` before it is cut. -/
def formatAuthorize (realEscapeString : StdString → StdString) (username password : StdString) :
    StdString :=
  ascii "SELECT `id`, `mindiff` FROM `pool_worker` WHERE `username` = '" ++
    Util.cStr (escape realEscapeString username) ++ ascii "' and `password` = '" ++
    Util.cStr (escape realEscapeString password) ++ ascii "'"

/-- The statement of `OnMiningAuthorize`. -/
def authorizeQuery (realEscapeString : StdString → StdString) (username password : StdString) :
    StdString :=
  Util.fs (formatAuthorize realEscapeString username password)

/-! ## What is asked for -/

def nameClause : StdString :=
  ascii "SELECT `id`, `mindiff` FROM `pool_worker` WHERE `username` = "

def passwordClause : StdString :=
  ascii " and `password` = "

def nameTokens (username : StdString) : List Token :=
  nameClause.map .char ++ [.literal username]

def passwordTokens (password : StdString) : List Token :=
  passwordClause.map .char ++ [.literal password]

theorem cStr_escaped (text : StdString) : Util.cStr (escaped text) = escaped text := by
  rw [Util.cStr, List.takeWhile_eq_self_iff]
  intro ch chMem
  simp only [ne_eq, decide_eq_true_eq]
  rintro rfl
  exact zero_not_mem_escaped text chMem

/-- What is read of a statement up to some text behind the user name. -/
theorem lex_name (username : StdString) {rest : StdString} (ends : rest.head? ≠ some quote) :
    lex (nameClause ++ quote :: (escaped username ++ quote :: rest)) =
      (lex rest).map (nameTokens username ++ ·) := by
  rw [lex_append (by decide), lex_escaped username ends, Option.map_map]
  simp [nameTokens, Function.comp_def]

theorem passwordClause_quoteless : quote ∉ passwordClause := by decide

theorem head?_passwordClause (rest : StdString) :
    (passwordClause ++ rest).head? ≠ some quote := by
  have first : (passwordClause ++ rest).head? = some 32 := rfl
  rw [first]
  decide

/-- Two literals behind the clauses determine what was asked for. -/
theorem eq_of_tokens {username password other word : StdString}
    (same : nameTokens username ++ passwordTokens password =
      nameTokens other ++ passwordTokens word) : username = other ∧ password = word := by
  rw [nameTokens, nameTokens, List.append_assoc, List.append_assoc, List.append_cancel_left_eq,
    List.singleton_append, List.singleton_append, List.cons.injEq, Token.literal.injEq,
    passwordTokens, passwordTokens, List.append_cancel_left_eq, List.cons.injEq,
    Token.literal.injEq] at same
  exact ⟨same.1, same.2.1⟩

/-- A statement without the literal of a password asks for something else. -/
theorem tokens_ne {username password other : StdString} (count : ℕ) :
    nameTokens username ++ passwordTokens password ≠
      nameTokens other ++ (passwordClause.take count).map .char := by
  rw [nameTokens, nameTokens, List.append_assoc, List.append_assoc, ne_eq,
    List.append_cancel_left_eq, List.singleton_append, List.singleton_append, List.cons.injEq]
  rintro ⟨_, same⟩
  have literal : Token.literal password ∈ (passwordClause.take count).map Token.char := by
    rw [← same, passwordTokens]
    simp
  obtain ⟨_, _, isChar⟩ := List.mem_map.mp literal
  cases isChar

section Documented

variable (documented : ∀ text, realEscapeString text = escaped text)

include documented

theorem formatAuthorize_eq (username password : StdString) :
    formatAuthorize realEscapeString username password =
      nameClause ++ quote :: (escaped username ++ quote :: (passwordClause ++
        quote :: (escaped password ++ [quote]))) := by
  have opens : ascii "SELECT `id`, `mindiff` FROM `pool_worker` WHERE `username` = '" =
      nameClause ++ [quote] := by decide
  have between : ascii "' and `password` = '" = quote :: (passwordClause ++ [quote]) := by decide
  have closes : ascii "'" = [quote] := by decide
  rw [formatAuthorize, escape, escape, documented, documented, cStr_escaped, cStr_escaped,
    cStr_escaped, cStr_escaped, opens, between, closes]
  simp only [List.append_assoc, List.cons_append, List.nil_append]

theorem length_formatAuthorize (username password : StdString) :
    (formatAuthorize realEscapeString username password).length =
      nameClause.length + (escaped username).length + passwordClause.length +
        (escaped password).length + 4 := by
  rw [formatAuthorize_eq documented]
  simp only [List.length_append, List.length_cons, List.length_nil]
  omega

/-- Statements are not cut below 16 kB. -/
theorem fits_of_short {username password : StdString}
    (short : username.length + password.length ≤ 16340) :
    DataMgr.Fits (formatAuthorize realEscapeString username password) := by
  have name := length_escaped_le username
  have word := length_escaped_le password
  have clauses : nameClause.length = 61 ∧ passwordClause.length = 18 := by decide
  rw [DataMgr.Fits, length_formatAuthorize documented, clauses.1, clauses.2, Util.maxFormatLen]
  omega

theorem lex_whole (username password : StdString) :
    lex (formatAuthorize realEscapeString username password) =
      some (nameTokens username ++ passwordTokens password) := by
  rw [formatAuthorize_eq documented, lex_name username (head?_passwordClause _),
    lex_append passwordClause_quoteless, lex_escaped password (by simp)]
  rfl

/-- A statement that is cut is read if the cut is between the two literals. -/
theorem lex_cut (username password : StdString)
    (long : ¬DataMgr.Fits (formatAuthorize realEscapeString username password))
    (tokens : List Token) :
    lex (authorizeQuery realEscapeString username password) = some tokens ↔
      ∃ count ≤ passwordClause.length,
        nameClause.length + (escaped username).length + 2 + count = Util.maxFormatLen - 1 ∧
        tokens = nameTokens username ++ (passwordClause.take count).map .char := by
  have short : nameClause.length = 61 := by decide
  have whole := length_formatAuthorize documented username password
  rw [DataMgr.Fits, not_lt] at long
  have large : Util.maxFormatLen = 32768 := rfl
  rw [authorizeQuery, Util.fs, formatAuthorize_eq documented]
  rcases Nat.lt_or_ge (Util.maxFormatLen - 1) (nameClause.length + (escaped username).length + 2)
    with inName | behindName
  · -- in the user name, or in front of its closing quote
    have quoteless : quote ∉ nameClause := by decide
    rw [lex_of_cut quoteless (by omega) (by omega)]
    constructor
    · intro nothing
      cases nothing
    · rintro ⟨count, _, total, _⟩
      omega
  · have front : nameClause ++ quote :: (escaped username ++ quote :: (passwordClause ++
        quote :: (escaped password ++ [quote]))) =
          (nameClause ++ quote :: (escaped username ++ [quote])) ++
            (passwordClause ++ quote :: (escaped password ++ [quote])) := by simp
    have frontLength : (nameClause ++ quote :: (escaped username ++ [quote])).length =
        nameClause.length + (escaped username).length + 2 := by
      simp only [List.length_append, List.length_cons, List.length_nil]
      omega
    rcases Nat.exists_eq_add_of_le behindName with ⟨room, roomEq⟩
    have back : ∀ rest, (nameClause ++ quote :: (escaped username ++ [quote])) ++ rest =
        nameClause ++ quote :: (escaped username ++ quote :: rest) := by simp
    rw [front, roomEq, ← frontLength, List.take_length_add_append, back]
    rcases Nat.lt_or_ge passwordClause.length room with inPassword | between
    · -- in the password, or in front of its closing quote
      have unread : lex ((passwordClause ++ quote :: (escaped password ++ [quote])).take room) =
          none :=
        lex_of_cut passwordClause_quoteless inPassword (by omega)
      have ends : ((passwordClause ++ quote :: (escaped password ++ [quote])).take room).head? ≠
          some quote := by
        rw [List.head?_take, if_neg (by omega)]
        exact head?_passwordClause _
      rw [lex_name username ends, unread]
      constructor
      · intro nothing
        cases nothing
      · rintro ⟨count, small, total, _⟩
        omega
    · -- between the literals
      have quoteless : quote ∉ passwordClause.take room :=
        fun isQuote => passwordClause_quoteless (List.mem_of_mem_take isQuote)
      have read : lex (passwordClause.take room) = some ((passwordClause.take room).map .char) := by
        have lexed := lex_append quoteless []
        rw [List.append_nil] at lexed
        rw [lexed]
        simp [lex]
      have ends : (passwordClause.take room).head? ≠ some quote :=
        fun isQuote => quoteless (List.mem_of_mem_head? isQuote)
      rw [List.take_append_of_le_length between, lex_name username ends, read, Option.map_some,
        Option.some.injEq]
      constructor
      · rintro rfl
        exact ⟨room, between, by omega, rfl⟩
      · rintro ⟨count, small, total, rfl⟩
        have same : count = room := by omega
        rw [same]

/--
A statement that is not cut asks for exactly the user name and the password, whatever bytes they
have, and no other user name and password lead to it; up to 16 kB it is not cut. A statement that
is too long is cut; it can be read just where the cut is behind the literal of the user name and
in front of the password, which it then does not ask for.
-/
theorem authorize_query_exact (username password : StdString) :
    (DataMgr.Fits (formatAuthorize realEscapeString username password) →
      lex (authorizeQuery realEscapeString username password) =
        some (nameTokens username ++ passwordTokens password) ∧
      ∀ other word, authorizeQuery realEscapeString other word =
          authorizeQuery realEscapeString username password →
        other = username ∧ word = password) ∧
    (¬DataMgr.Fits (formatAuthorize realEscapeString username password) → ∀ tokens,
      lex (authorizeQuery realEscapeString username password) = some tokens ↔
        ∃ count ≤ passwordClause.length,
          nameClause.length + (escaped username).length + 2 + count = Util.maxFormatLen - 1 ∧
          tokens = nameTokens username ++ (passwordClause.take count).map .char) ∧
    (username.length + password.length ≤ 16340 →
      DataMgr.Fits (formatAuthorize realEscapeString username password)) := by
  have read : ∀ {name word}, DataMgr.Fits (formatAuthorize realEscapeString name word) →
      lex (authorizeQuery realEscapeString name word) =
        some (nameTokens name ++ passwordTokens word) := by
    intro name word fits
    rw [authorizeQuery, DataMgr.fs_of_fits fits]
    exact lex_whole documented name word
  refine ⟨fun fits => ⟨read fits, ?_⟩, lex_cut documented username password,
    fits_of_short documented⟩
  intro other word same
  by_cases otherFits : DataMgr.Fits (formatAuthorize realEscapeString other word)
  · have tokens := read otherFits
    rw [same, read fits, Option.some.injEq] at tokens
    rcases eq_of_tokens tokens with ⟨nameEq, wordEq⟩
    exact ⟨nameEq.symm, wordEq.symm⟩
  · -- a statement that is cut has no password
    have whole := read fits
    rw [← same] at whole
    rcases (lex_cut documented other word otherFits _).mp whole with ⟨count, _, _, tokens⟩
    exact absurd tokens (tokens_ne count)

end Documented

theorem authorize_query_exact_sample :
    lex (authorizeQuery escaped (ascii "a' or '1") (ascii "\\")) =
      some (nameTokens (ascii "a' or '1") ++ passwordTokens (ascii "\\")) := by
  have exact := authorize_query_exact (fun _ => rfl) (ascii "a' or '1") (ascii "\\")
  exact (exact.1 (exact.2.2 (by decide))).1

end Poolserver.Stratum
