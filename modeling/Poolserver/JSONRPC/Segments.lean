import Poolserver.JSON.Whole
import Poolserver.JSONRPC.Query

/-!
# Answers in segments

The headers are looked for in what the first read happens to have in its buffer, and one
more read follows, if `available` finds something to read. So what a call returns depends on
where a response is cut and on when the pieces arrive.
-/

namespace Poolserver.JSONRPC

open JSONReader

variable {library : Library}

/-- The end of a line of a response. -/
def crlf : BinaryData := [13, 10]

/-- A complete response with status code 200 and a JSON object in its body. -/
structure Response (library : Library) where
  version : StdString
  reason : StdString
  headers : List StdString
  members : List (StdString × JSON)
  object : StdString
  visible : ∀ ch ∈ version, isSpace ch = false
  apart : ∀ ch, reason.head? = some ch → ch = 32
  oneLine : 10 ∉ reason
  header_nonempty : ∀ header ∈ headers, header ≠ []
  header_oneLine : ∀ header ∈ headers, 13 ∉ header ∧ 10 ∉ header
  derives : Json library (.object members) object []

namespace Response

variable (response : Response library)

/-- The first line, without its line feed. -/
def statusLine : BinaryData :=
  ascii "HTTP/" ++ response.version ++ ascii " 200" ++ response.reason ++ [13]

def headerLines : BinaryData :=
  response.headers.flatMap fun header => header ++ crlf

/-- Everything in front of the blank line. -/
def head : BinaryData :=
  response.statusLine ++ 10 :: response.headerLines

def bytes : BinaryData :=
  response.head ++ crlf ++ response.object ++ [10]

/-- The result member of the body. -/
def answer : Except StdException JSON :=
  result (JSON.object response.members).normalize

end Response

/-! ## Streams -/

section Streams

variable {line more : BinaryData}

theorem getLine_eq {stream : BinaryData} (nonempty : stream ≠ []) :
    getLine stream = some (stream.takeWhile (fun ch => decide (ch ≠ 10)),
      (stream.dropWhile fun ch => decide (ch ≠ 10)).drop 1) := by
  cases stream with
  | nil => exact absurd rfl nonempty
  | cons ch rest => rfl

theorem getLine_line (inside : 10 ∉ line) : getLine (line ++ 10 :: more) = some (line, more) := by
  have split := @DecimalText.span_exact (fun ch => decide (ch ≠ 10)) line (10 :: more)
    (fun ch chMem => decide_eq_true fun same => inside (same ▸ chMem)) (by simp)
  rw [getLine_eq (by simp), split.1, split.2]
  rfl

/-- The last line needs no line feed. -/
theorem getLine_end (nonempty : line ≠ []) (inside : 10 ∉ line) : getLine line = some (line, []) := by
  have split := @DecimalText.span_exact (fun ch => decide (ch ≠ 10)) line []
    (fun ch chMem => decide_eq_true fun same => inside (same ▸ chMem)) (by simp)
  rw [List.append_nil] at split
  rw [getLine_eq nonempty, split.1, split.2]
  rfl

theorem readWord_eq {word : StdString} (nonempty : word ≠ [])
    (visible : ∀ ch ∈ word, isSpace ch = false) :
    readWord (word ++ 32 :: more) = some (word, 32 :: more) := by
  have split := @DecimalText.span_exact (fun ch => !isSpace ch) word (32 :: more)
    (fun ch chMem => by rw [visible ch chMem]; rfl) (fun ch first => by cases first; rfl)
  have begins : (word ++ 32 :: more).dropWhile isSpace = word ++ 32 :: more := by
    rcases List.exists_cons_of_ne_nil nonempty with ⟨ch, others, rfl⟩
    exact List.dropWhile_cons_of_neg (by simp [visible ch (by simp)])
  unfold readWord
  simp only [begins, split.1, split.2]

/-- The status code of success. -/
theorem readNumber_eq (ends : ∀ ch, more.head? = some ch → ¬DecimalText.IsDigit ch) :
    readNumber (32 :: 50 :: 48 :: 48 :: more) = some (200, more) := by
  have split := @DecimalText.span_exact (fun ch => decide (DecimalText.IsDigit ch)) [50, 48, 48]
    more (by decide +kernel) (fun ch first => decide_eq_false (ends ch first))
  have begins : (32 :: 50 :: 48 :: 48 :: more).dropWhile isSpace = [50, 48, 48] ++ more := rfl
  have sign : readSign ([50, 48, 48] ++ more) = (false, [50, 48, 48] ++ more) := rfl
  have number : DecimalText.value [50, 48, 48] = 200 := by decide
  simp only [readNumber, begins, sign, split.1, split.2, number]
  rfl

/-- A part of a text of lines ends in the first line or behind it. -/
theorem prefix_line_cases {stream : BinaryData} (cut : stream <+: line ++ 10 :: more) :
    stream <+: line ∨ ∃ rest, stream = line ++ 10 :: rest ∧ rest <+: more := by
  rcases Nat.lt_or_ge line.length stream.length with longer | shorter
  · have begins : line ++ [10] <+: stream := by
      refine List.prefix_of_prefix_length_le ?_ cut (by simpa using longer)
      exact ⟨more, by simp⟩
    rcases begins with ⟨rest, rfl⟩
    refine .inr ⟨rest, by simp, ?_⟩
    simpa using cut
  · exact .inl (List.prefix_of_prefix_length_le cut (List.prefix_append _ _) shorter)

/-- Whole segments are taken from the front. -/
theorem readUntil_eq_ok {buffer found : BinaryData} {segments rest : List BinaryData}
    (read : readUntil buffer segments = .ok (found, rest)) :
    10 ∈ found ∧ found ++ rest.flatten = buffer ++ segments.flatten := by
  induction segments generalizing buffer with
  | nil =>
      unfold readUntil at read
      split at read
      · rename_i present
        injection read with read
        rw [Prod.mk.injEq] at read
        rcases read with ⟨rfl, rfl⟩
        exact ⟨present, rfl⟩
      · injection read
  | cons segment segments ih =>
      unfold readUntil at read
      split at read
      · rename_i present
        injection read with read
        rw [Prod.mk.injEq] at read
        rcases read with ⟨rfl, rfl⟩
        exact ⟨present, rfl⟩
      · rcases ih read with ⟨present, same⟩
        refine ⟨present, ?_⟩
        rw [same, List.flatten_cons, List.append_assoc]

theorem exists_readUntil {buffer : BinaryData} {segments : List BinaryData}
    (present : 10 ∈ buffer ++ segments.flatten) :
    ∃ found rest, readUntil buffer segments = .ok (found, rest) := by
  induction segments generalizing buffer with
  | nil => exact ⟨buffer, [], by rw [readUntil, if_pos (by simpa using present)]⟩
  | cons segment segments ih =>
      unfold readUntil
      split
      · exact ⟨buffer, segment :: segments, rfl⟩
      · exact ih (by simpa using present)

end Streams

/-! ## Headers -/

section Headers

variable {headers : List StdString}

theorem skipHeaders_nil (fuel : ℕ) : skipHeaders fuel [] = [] := by
  cases fuel <;> rfl

theorem skipHeaders_line {fuel : ℕ} {header more : BinaryData} (nonempty : header ≠ [])
    (oneLine : 10 ∉ header) :
    skipHeaders (fuel + 1) ((header ++ [13]) ++ 10 :: more) = skipHeaders fuel more := by
  have read := @getLine_line (header ++ [13]) more (by simpa using oneLine)
  have different : header ++ [13] ≠ [13] := by simpa using nonempty
  simp only [skipHeaders, read, if_neg different]

/-- The blank line is found, and what is read of it is left out. -/
theorem skipHeaders_found (nonempty : ∀ header ∈ headers, header ≠ [])
    (oneLine : ∀ header ∈ headers, 13 ∉ header ∧ 10 ∉ header) {behind : BinaryData}
    (begins : ∀ ch, behind.head? = some ch → ch = 10) {fuel : ℕ}
    (enough : (headers.flatMap (fun header => header ++ crlf) ++ 13 :: behind).length ≤ fuel) :
    skipHeaders fuel (headers.flatMap (fun header => header ++ crlf) ++ 13 :: behind) =
      behind.drop 1 := by
  induction headers generalizing fuel with
  | nil =>
      obtain ⟨fuel, rfl⟩ : ∃ n, fuel = n + 1 := ⟨fuel - 1, by simp at enough; omega⟩
      cases behind with
      | nil =>
          have read : getLine [13] = some ([13], []) := rfl
          simp [skipHeaders, read]
      | cons ch more =>
          have lineFeed := begins ch rfl
          subst lineFeed
          have read : getLine (13 :: 10 :: more) = some ([13], more) :=
            @getLine_line [13] more (by decide)
          simp [skipHeaders, read]
  | cons header headers ih =>
      simp only [List.forall_mem_cons] at nonempty oneLine
      rw [List.flatMap_cons, List.append_assoc, List.length_append, List.length_append] at enough
      obtain ⟨fuel, rfl⟩ : ∃ n, fuel = n + 1 := ⟨fuel - 1, by simp [crlf] at enough; omega⟩
      have line := @skipHeaders_line fuel header
        (headers.flatMap (fun header => header ++ crlf) ++ 13 :: behind) nonempty.1 oneLine.1.2
      simp only [List.append_assoc, List.singleton_append] at line
      simp only [List.flatMap_cons, crlf, List.append_assoc, List.cons_append,
        List.nil_append] at line ⊢
      rw [line]
      exact ih nonempty.2 oneLine.2 (by simp [crlf] at enough ⊢; omega)

/-- A buffer that ends within the headers is used up. -/
theorem skipHeaders_short (nonempty : ∀ header ∈ headers, header ≠ [])
    (oneLine : ∀ header ∈ headers, 13 ∉ header ∧ 10 ∉ header) {stream : BinaryData}
    (cut : stream <+: headers.flatMap fun header => header ++ crlf) {fuel : ℕ}
    (enough : stream.length ≤ fuel) : skipHeaders fuel stream = [] := by
  induction headers generalizing stream fuel with
  | nil =>
      rw [List.flatMap_nil, List.prefix_nil] at cut
      subst cut
      exact skipHeaders_nil fuel
  | cons header headers ih =>
      simp only [List.forall_mem_cons] at nonempty oneLine
      have lines : (header :: headers).flatMap (fun header => header ++ crlf) =
          (header ++ [13]) ++ 10 :: headers.flatMap fun header => header ++ crlf := by
        simp [crlf]
      rw [lines] at cut
      rcases prefix_line_cases cut with inside | ⟨rest, rfl, restCut⟩
      · cases empty : stream with
        | nil => exact skipHeaders_nil fuel
        | cons ch others =>
            rw [empty] at inside enough
            rw [List.length_cons] at enough
            obtain ⟨fuel, rfl⟩ : ∃ n, fuel = n + 1 := ⟨fuel - 1, by omega⟩
            have noLineFeed : 10 ∉ ch :: others := by
              intro present
              have := inside.subset present
              rw [List.mem_append, List.mem_singleton] at this
              rcases this with found | same
              · exact oneLine.1.2 found
              · exact absurd same (by decide)
            have different : ch :: others ≠ [13] := by
              rintro same
              rw [same] at inside
              rcases List.exists_cons_of_ne_nil nonempty.1 with ⟨first, behind, headerEq⟩
              rw [headerEq, List.cons_append, List.cons_prefix_cons] at inside
              exact oneLine.1.1 (by rw [headerEq, inside.1]; simp)
            have read := getLine_end (List.cons_ne_nil ch others) noLineFeed
            simp only [skipHeaders, read, if_neg different]
            exact skipHeaders_nil fuel
      · simp only [List.length_append, List.length_cons, List.length_nil] at enough
        obtain ⟨fuel, rfl⟩ : ∃ n, fuel = n + 1 := ⟨fuel - 1, by omega⟩
        rw [skipHeaders_line nonempty.1 oneLine.1.2]
        exact ih nonempty.2 oneLine.2 restCut (by omega)

end Headers

/-! ## What the reader is given -/

/-- The text in the buffer after the second read, which is made if something has arrived. -/
def fetched (buffer : BinaryData) (later : List BinaryData) (arrived : ℕ) : BinaryData :=
  if (later.take arrived).flatten = [] then buffer
  else
    match readUntil buffer later with
    | .ok (text, _) => text
    | .error _ => buffer

theorem fetched_prefix (buffer : BinaryData) (later : List BinaryData) (arrived : ℕ) :
    fetched buffer later arrived <+: buffer ++ later.flatten := by
  unfold fetched
  split
  · exact List.prefix_append _ _
  · split
    · rename_i text rest read
      rw [← (readUntil_eq_ok read).2]
      exact List.prefix_append _ _
    · exact List.prefix_append _ _

namespace Response

variable (response : Response library)

theorem not_mem_statusLine : 10 ∉ response.statusLine := by
  have version : 10 ∉ response.version := by
    intro present
    have visible := response.visible 10 present
    revert visible
    decide
  have http : (10 : UInt8) ∉ ascii "HTTP/" := by decide
  have code : (10 : UInt8) ∉ ascii " 200" := by decide
  simp only [statusLine, List.mem_append, List.mem_singleton]
  rintro ((((found | found) | found) | found) | found)
  · exact http found
  · exact version found
  · exact code found
  · exact response.oneLine found
  · exact absurd found (by decide)

theorem readStatus_eq (rest : BinaryData) :
    readStatus (response.statusLine ++ 10 :: rest) =
      some (ascii "HTTP/" ++ response.version, 200, rest) := by
  have shape : response.statusLine ++ 10 :: rest = (ascii "HTTP/" ++ response.version) ++
      32 :: 50 :: 48 :: 48 :: ((response.reason ++ [13]) ++ 10 :: rest) := by
    have code : ascii " 200" = [32, 50, 48, 48] := by decide
    simp [statusLine, code]
  have visible : ∀ ch ∈ ascii "HTTP/" ++ response.version, isSpace ch = false := by
    intro ch chMem
    have table : ∀ ch ∈ ascii "HTTP/", isSpace ch = false := by decide +kernel
    rcases List.mem_append.mp chMem with fixed | given
    · exact table ch fixed
    · exact response.visible ch given
  have nonempty : ascii "HTTP/" ++ response.version ≠ [] := by
    have begins : ascii "HTTP/" = [72, 84, 84, 80, 47] := by decide
    simp [begins]
  have ends : ∀ ch, ((response.reason ++ [13]) ++ 10 :: rest).head? = some ch →
      ¬DecimalText.IsDigit ch := by
    intro ch first
    cases reason : response.reason with
    | nil =>
        rw [reason] at first
        cases first
        decide
    | cons other others =>
        have blank := response.apart other (by rw [reason]; rfl)
        rw [reason] at first
        cases first
        rw [blank]
        decide
  have line := @getLine_line (response.reason ++ [13]) rest
    (by simpa using response.oneLine)
  rw [shape]
  simp only [readStatus, readWord_eq nonempty visible, readNumber_eq ends, line,
    Option.bind_eq_bind, Option.bind_some]
  rfl

theorem readHead_eq (rest : BinaryData) :
    readHead (response.statusLine ++ 10 :: rest) = .ok (skipHeaders rest.length rest) := by
  have http : (ascii "HTTP/" ++ response.version).take 5 = ascii "HTTP/" :=
    List.take_left' (by decide)
  simp [readHead, readStatus_eq, http]

/-- What the first read has: the carriage return of the blank line, or a part of the headers. -/
theorem first_cases {first : BinaryData} (cut : first <+: response.bytes) (lineFeed : 10 ∈ first) :
    (∃ behind, first = response.head ++ 13 :: behind ∧
        behind <+: 10 :: (response.object ++ [10]) ∧ readHead first = .ok (behind.drop 1)) ∨
      first.length ≤ response.head.length ∧ readHead first = .ok [] := by
  have shape : response.bytes =
      response.statusLine ++ 10 :: (response.headerLines ++ 13 :: 10 :: (response.object ++ [10])) := by
    simp [bytes, head, crlf]
  rw [shape] at cut
  rcases prefix_line_cases cut with inside | ⟨rest, rfl, restCut⟩
  · exact absurd (inside.subset lineFeed) response.not_mem_statusLine
  rw [readHead_eq]
  rcases Nat.lt_or_ge response.headerLines.length rest.length with longer | shorter
  · have begins : response.headerLines ++ [13] <+: rest := by
      refine List.prefix_of_prefix_length_le ?_ restCut (by simpa using longer)
      exact ⟨10 :: (response.object ++ [10]), by simp⟩
    rcases begins with ⟨behind, rfl⟩
    have behindCut : behind <+: 10 :: (response.object ++ [10]) := by simpa using restCut
    have lineFeeds : ∀ ch, behind.head? = some ch → ch = 10 := by
      intro ch isFirst
      cases behind with
      | nil => simp at isFirst
      | cons other others =>
          rw [List.cons_prefix_cons] at behindCut
          simp only [List.head?_cons, Option.some.injEq] at isFirst
          rw [← isFirst, behindCut.1]
    have skips := skipHeaders_found response.header_nonempty response.header_oneLine lineFeeds
      le_rfl
    rw [List.append_assoc, List.singleton_append]
    exact .inl ⟨behind, by simp [head], behindCut, by rw [headerLines, skips]⟩
  · have inside : rest <+: response.headerLines :=
      List.prefix_of_prefix_length_le restCut (List.prefix_append _ _) shorter
    refine .inr ⟨?_, ?_⟩
    · simp only [head, List.length_append, List.length_cons]
      omega
    · rw [skipHeaders_short response.header_nonempty response.header_oneLine inside le_rfl]

/-- The second read does not run into the end of the response. -/
theorem receive_eq {segments later : List BinaryData} (cut : segments.flatten = response.bytes)
    {first buffer : BinaryData} (read : readUntil [] segments = .ok (first, later))
    (headRead : readHead first = .ok buffer) (arrived : ℕ) :
    receive segments arrived = .ok (fetched buffer later arrived) := by
  have whole := (readUntil_eq_ok read).2
  rw [List.nil_append, cut] at whole
  by_cases nothing : (later.take arrived).flatten = []
  · simp only [receive, read, headRead, nothing, fetched, bind, Except.bind, if_true]
    rfl
  · have someLater : later.flatten ≠ [] := by
      intro empty
      rw [List.flatten_eq_nil_iff] at empty nothing
      exact nothing fun segment segmentMem => empty segment (List.mem_of_mem_take segmentMem)
    have ends : later.flatten.getLast someLater = 10 := by
      have last : (first ++ later.flatten).getLast? = some 10 := by
        rw [whole, bytes, List.getLast?_append]
        rfl
      rw [List.getLast?_append_of_ne_nil first someLater, List.getLast?_eq_getLast_of_ne_nil someLater,
        Option.some.injEq] at last
      exact last
    have present : 10 ∈ buffer ++ later.flatten :=
      List.mem_append_right _ (ends ▸ List.getLast_mem someLater)
    rcases exists_readUntil present with ⟨text, rest, second⟩
    simp only [receive, read, headRead, second, fetched, if_neg nothing, bind, Except.bind]
    rfl

theorem answer_eq_ok : ∃ value, response.answer = .ok value :=
  ⟨_, rfl⟩

end Response

/-! ## Texts -/

/-- White space in front of a text is skipped. -/
theorem json_blank {ch : UInt8} (blank : library.space ch = true) {value : JSON}
    {input rest : Spirit.Input} :
    Json library value (ch :: input) rest ↔ Json library value input rest := by
  have same : ∀ bracket, lit library bracket (ch :: input) = lit library bracket input := by
    intro bracket
    simp [lit, Spirit.skipped, blank]
  constructor
  · intro derives
    cases derives with
    | object derives =>
        rcases derives.of_object with ⟨_, inner, opens, derives⟩
        exact .object (.object (same 123 ▸ opens) derives)
    | array derives =>
        rcases derives.of_array with ⟨_, inner, opens, derives⟩
        exact .array (.array (same 91 ▸ opens) derives)
  · intro derives
    cases derives with
    | object derives =>
        rcases derives.of_object with ⟨_, inner, opens, derives⟩
        exact .object (.object ((same 123).trans opens) derives)
    | array derives =>
        rcases derives.of_array with ⟨_, inner, opens, derives⟩
        exact .array (.array ((same 91).trans opens) derives)

namespace Response

variable (response : Response library)

/-- The text is that of an object or an array whose result member is the one of the body. -/
def Answers (text : StdString) : Prop :=
  ∃ value rest, Json library value text rest ∧ result value.normalize = response.answer

/-- Of what a response ends with, only the whole object answers. -/
theorem answers_iff (documented : library.Documented) (isLocal : library.Local) {text : StdString}
    (cut : text <+: response.object ++ [10]) : response.Answers text ↔ response.object <+: text := by
  rcases cut with ⟨more, whole⟩
  have derivesAt : ∀ behind, Json library (.object response.members)
      (response.object ++ behind) behind := by
    intro behind
    exact json_swaps documented isLocal _ _ [] behind (by simpa using response.derives)
  constructor
  · rintro ⟨value, rest, derives, _⟩
    rcases (Json.consumes documented derives).1 with ⟨read, rfl⟩
    have swapped := json_swaps documented isLocal _ _ _ (rest ++ more) derives
    rw [← List.append_assoc, whole] at swapped
    rcases fromString_cases documented (response.object ++ [10]) with
      ⟨_, _, _, _, unique, _⟩ | ⟨refused, _⟩
    · rcases unique _ _ swapped with ⟨_, restEq⟩
      rcases unique _ _ (derivesAt [10]) with ⟨_, lineFeedEq⟩
      rw [← lineFeedEq] at restEq
      rw [List.append_assoc, restEq] at whole
      rw [List.append_cancel_right whole]
      exact List.prefix_append _ _
    · exact absurd swapped (refused _ _)
  · rintro ⟨behind, rfl⟩
    exact ⟨.object response.members, behind, derivesAt behind, rfl⟩

/-- The same behind the line feed of the blank line. -/
theorem answers_lineFeed_iff (documented : library.Documented) (isLocal : library.Local)
    (lineFeed : library.space 10 = true) {text : StdString}
    (cut : text <+: 10 :: (response.object ++ [10])) :
    response.Answers text ↔ 10 :: response.object <+: text := by
  cases text with
  | nil =>
      refine iff_of_false ?_ (by simp)
      rintro ⟨value, rest, derives, _⟩
      exact absurd (Json.consumes documented derives).2 (Nat.not_lt_zero _)
  | cons ch text =>
      rw [List.cons_prefix_cons] at cut
      rcases cut with ⟨rfl, cut⟩
      rw [List.cons_prefix_cons, ← response.answers_iff documented isLocal cut, Answers, Answers]
      simp only [json_blank lineFeed, true_and]

variable (segments : List BinaryData) (arrived : ℕ)

/-- The reads of a call fetch what it needs. -/
inductive Arrives : Prop where
  /-- The first read has all headers, and by the end of the second one the object is there. -/
  | behindHeaders {first behind : BinaryData} {later : List BinaryData}
      (read : readUntil [] segments = .ok (first, later))
      (split : first = response.head ++ 13 :: behind)
      (whole : 10 :: response.object <+: behind.take 1 ++ fetched (behind.drop 1) later arrived) :
      Arrives
  /-- The first read ends within the headers, and the second one begins with some object. -/
  | withinHeaders {first : BinaryData} {later : List BinaryData}
      (read : readUntil [] segments = .ok (first, later))
      (short : first.length ≤ response.head.length)
      (answers : response.Answers (fetched [] later arrived)) : Arrives

variable {segments arrived}

/-- The reads of a call are determined by the segments. -/
theorem arrives_iff {first : BinaryData} {later : List BinaryData}
    (read : readUntil [] segments = .ok (first, later)) :
    response.Arrives segments arrived ↔
      (∃ behind, first = response.head ++ 13 :: behind ∧
        10 :: response.object <+: behind.take 1 ++ fetched (behind.drop 1) later arrived) ∨
      first.length ≤ response.head.length ∧ response.Answers (fetched [] later arrived) := by
  constructor
  · rintro (⟨sameRead, split, whole⟩ | ⟨sameRead, short, answers⟩)
    · rw [read, Except.ok.injEq, Prod.mk.injEq] at sameRead
      rcases sameRead with ⟨rfl, rfl⟩
      exact .inl ⟨_, split, whole⟩
    · rw [read, Except.ok.injEq, Prod.mk.injEq] at sameRead
      rcases sameRead with ⟨rfl, rfl⟩
      exact .inr ⟨short, answers⟩
  · rintro (⟨behind, split, whole⟩ | ⟨short, answers⟩)
    · exact .behindHeaders read split whole
    · exact .withinHeaders read short answers

/-- What was received answers exactly if the reads fetched what was needed. -/
theorem answers_received_iff (documented : library.Documented) (isLocal : library.Local)
    (lineFeed : library.space 10 = true) (cut : segments.flatten = response.bytes) :
    ∃ text, receive segments arrived = .ok text ∧
      (response.Answers text ↔ response.Arrives segments arrived) := by
  have present : 10 ∈ ([] : BinaryData) ++ segments.flatten := by
    rw [cut, bytes]
    simp
  rcases exists_readUntil present with ⟨first, later, read⟩
  rcases readUntil_eq_ok read with ⟨firstLine, whole⟩
  rw [List.nil_append, cut] at whole
  rcases response.first_cases ⟨_, whole⟩ firstLine with
    ⟨behind, rfl, behindCut, headRead⟩ | ⟨short, headRead⟩
  · refine ⟨_, response.receive_eq cut read headRead arrived, ?_⟩
    have tail : behind ++ later.flatten = 10 :: (response.object ++ [10]) := by
      rw [bytes, crlf] at whole
      simpa using whole
    have text := fetched_prefix (behind.drop 1) later arrived
    have long : ¬(response.head ++ 13 :: behind).length ≤ response.head.length := by
      rw [List.length_append, List.length_cons]
      omega
    simp only [response.arrives_iff read, long, false_and, or_false, List.append_cancel_left_eq,
      List.cons.injEq, true_and, exists_eq_left']
    cases behind with
    | nil =>
        rw [List.nil_append] at tail
        rw [List.drop_nil, List.nil_append, tail] at text
        exact response.answers_lineFeed_iff documented isLocal lineFeed text
    | cons ch others =>
        rw [List.cons_append, List.cons.injEq] at tail
        rcases tail with ⟨rfl, tail⟩
        rw [List.drop_one, List.tail_cons, tail] at text
        simp only [List.drop_one, List.tail_cons, List.take_succ_cons, List.take_zero,
          List.singleton_append, List.cons_prefix_cons, true_and]
        exact response.answers_iff documented isLocal text
  · refine ⟨_, response.receive_eq cut read headRead arrived, ?_⟩
    rw [response.arrives_iff read]
    constructor
    · exact fun answers => .inr ⟨short, answers⟩
    · rintro (⟨behind, split, _⟩ | ⟨_, answers⟩)
      · rw [split, List.length_append, List.length_cons] at short
        omega
      · exact answers

variable (B64Auth method : StdString) (params : Node)

theorem query_eq_answer_iff (documented : library.Documented) {text : StdString}
    (received : receive segments arrived = .ok text) :
    (query library B64Auth method params segments arrived).map Prod.snd = some response.answer ↔
      response.Answers text := by
  rcases fromString_cases documented text with
    ⟨value, rest, node, derives, unique, returns, json⟩ | ⟨refused, exception, throws⟩
  · simp only [query, received, returns, Option.map_some, Except.bind, json, Option.some.injEq]
    constructor
    · exact fun same => ⟨value, rest, derives, same⟩
    · rintro ⟨other, otherRest, otherDerives, same⟩
      rw [← (unique _ _ otherDerives).1]
      exact same
  · rcases response.answer_eq_ok with ⟨answer, answerEq⟩
    simp only [query, received, throws, Option.map_some, Except.bind, answerEq, Option.some.injEq,
      reduceCtorEq, false_iff]
    rintro ⟨value, rest, derives, _⟩
    exact refused _ _ derives

/--
A call returns the result member of the response exactly if its two reads fetch the object,
or if one that answers the same stands where they happen to look for it.
-/
theorem query_answers_iff (documented : library.Documented) (isLocal : library.Local)
    (lineFeed : library.space 10 = true) (cut : segments.flatten = response.bytes) :
    (query library B64Auth method params segments arrived).map Prod.snd = some response.answer ↔
      response.Arrives segments arrived := by
  rcases response.answers_received_iff documented isLocal lineFeed cut with
    ⟨text, received, answers⟩
  rw [response.query_eq_answer_iff B64Auth method params documented received, answers]

/-- An empty object behind one header. -/
def sample : Response Sample.library where
  version := ascii "1.1"
  reason := ascii " OK"
  headers := [ascii "Connection: close"]
  members := []
  object := ascii "{}"
  visible := by decide +kernel
  apart := by decide +kernel
  oneLine := by decide +kernel
  header_nonempty := by decide +kernel
  header_oneLine := by decide +kernel
  derives := json_braces Sample.library_documented []

/-- The response in one segment. -/
theorem query_answers_sample :
    (query Sample.library (ascii "dTpw") (ascii "getinfo") (.ofType .array) [sample.bytes] 0).map
      Prod.snd = some sample.answer := by
  refine (sample.query_answers_iff _ _ _ Sample.library_documented Sample.library_local rfl
    (by simp)).mpr ?_
  have read : readUntil [] [sample.bytes] = .ok (sample.bytes, []) := by decide +kernel
  have split : sample.bytes = sample.head ++ 13 :: 10 :: (sample.object ++ [10]) := by
    simp [bytes, crlf]
  exact .behindHeaders read split (by decide +kernel)

/-- The body comes after the headers, and has not arrived when `available` looks for it. -/
theorem exists_segments_without_answer :
    ¬∀ (response : Response Sample.library) (segments : List BinaryData) (arrived : ℕ),
      segments.flatten = response.bytes →
        (query Sample.library (ascii "dTpw") (ascii "getinfo") (.ofType .array) segments arrived).map
          Prod.snd = some response.answer := by
  intro returns
  have cut : [sample.head ++ crlf, sample.object ++ [10]].flatten = sample.bytes := by
    simp [bytes]
  have received : receive [sample.head ++ crlf, sample.object ++ [10]] 0 = .ok [] := by
    decide +kernel
  have answers := (sample.query_eq_answer_iff _ _ _ Sample.library_documented received).mp
    (returns sample _ 0 cut)
  rcases answers with ⟨value, rest, derives, _⟩
  exact absurd (Json.consumes Sample.library_documented derives).2 (Nat.not_lt_zero _)

end Response

end Poolserver.JSONRPC
