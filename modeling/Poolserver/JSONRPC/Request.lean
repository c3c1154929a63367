import Poolserver.JSON.Characters
import Poolserver.JSON.Counters
import Poolserver.JSONRPC.Query
import Poolserver.Lib.HttpMessage
import Poolserver.Shared.Base64Coding

/-!
# Requests to the daemon

What `Query` writes is a request of HTTP whose length is the one of its body, so a reader of the
stream finds its end, and the object that was put into it; the credentials are read back from
the field that `Connect` has prepared.
-/

namespace Poolserver.JSONRPC

variable {library : Library} {iterators : Util.Base64Iterators}

/-- `JSONRPCConnectionInfo`, without the address. -/
structure ConnectionInfo where
  user : StdString
  pass : StdString
  b64Auth : StdString

/-- The `B64Auth` that `Connect` stores. -/
def connect (iterators : Util.Base64Iterators) (connInfo : ConnectionInfo) : StdString :=
  if connInfo.b64Auth = [] then
    Util.toBase64 iterators (connInfo.user ++ ascii ":" ++ connInfo.pass) false
  else connInfo.b64Auth

/-! ## The object -/

/-- What the object that is sent shows. -/
def requestJson (method : StdString) (params : Node) : JSON :=
  .object ([(ascii "jsonrpc", .string (ascii "1.0")), (ascii "id", .integer 1),
    (ascii "method", .string method)] ++
    if 0 < params.size then [(ascii "params", params.json)] else [])

theorem requestNode_isObject (method : StdString) (params : Node) :
    (requestNode method params).content = .object := by
  rw [requestNode]
  split <;> rfl

theorem requestNode_built {method : StdString} {params : Node} (built : params.Built) :
    (requestNode method params).Built := by
  have start : Node.empty.Built := .ofType (by simp)
  have versioned : (Node.empty.put (ascii "jsonrpc") (.primitive (.string (ascii "1.0")))).Built :=
    start.set (by simp) rfl
  have named : ((Node.empty.put (ascii "jsonrpc") (.primitive (.string (ascii "1.0")))).put
      (ascii "id") (.primitive (.integer 1))).Built :=
    versioned.set (by simp) rfl
  have called : (((Node.empty.put (ascii "jsonrpc") (.primitive (.string (ascii "1.0")))).put
      (ascii "id") (.primitive (.integer 1))).put (ascii "method")
        (.primitive (.string method))).Built :=
    named.set (by simp) rfl
  rw [requestNode]
  split
  · exact called.set (by rintro child ⟨⟩; exact built) rfl
  · exact called

theorem json_requestNode (method : StdString) (params : Node) :
    (requestNode method params).json = requestJson method params := by
  rw [Node.json_object (requestNode_isObject method params), requestNode, requestJson]
  split
  · rfl
  · rfl

/-! ## The request -/

/-- The request that `Query` writes. -/
def request (library : Library) (B64Auth method : StdString) (params : Node) :
    HttpMessage.Request where
  line := ascii "POST / HTTP/1.1"
  fields := [(ascii "Host", ascii "127.0.0.1"),
    (ascii "Content-Type", ascii "application/json-rpc"),
    (ascii "Authorization", ascii "Basic " ++ B64Auth),
    (ascii "Content-Length",
      DecimalText.write ((requestNode method params).toText library).length)]
  body := (requestNode method params).toText library

theorem requestText_eq (B64Auth method : StdString) (params : Node) :
    requestText library B64Auth method params =
      HttpMessage.write (request library B64Auth method params) := by
  have post : ascii "POST / HTTP/1.1\n" = ascii "POST / HTTP/1.1" ++ [10] := by decide
  have host : ascii "Host: 127.0.0.1\n" =
      HttpMessage.writeField (ascii "Host", ascii "127.0.0.1") := by decide
  have type : ascii "Content-Type: application/json-rpc\n" =
      HttpMessage.writeField (ascii "Content-Type", ascii "application/json-rpc") := by decide
  have authorization : ascii "Authorization: Basic " =
      ascii "Authorization" ++ 58 :: 32 :: ascii "Basic " := by decide
  have length : ascii "Content-Length: " = ascii "Content-Length" ++ [58, 32] := by decide
  have ends : ascii "\n" = [10] ∧ ascii "\n\n" = [10, 10] := by decide
  rw [requestText, HttpMessage.write, request]
  simp only [post, host, type, authorization, length, ends.1, ends.2, HttpMessage.writeField,
    List.flatMap_cons, List.flatMap_nil, List.append_assoc, List.cons_append, List.nil_append,
    List.append_nil]

/-- A value without line ends in a line. -/
theorem plain_value {front value : StdString} (notEmpty : value ≠ [])
    (frontOne : 10 ∉ front) (one : HttpMessage.Plain value) : HttpMessage.Plain (front ++ value) where
  unbroken := by
    rw [List.mem_append, not_or]
    exact ⟨frontOne, one.unbroken⟩
  noReturn := by
    rw [List.getLast?_append_of_ne_nil _ notEmpty]
    exact one.noReturn

theorem plain_digits (number : ℕ) : HttpMessage.Plain (DecimalText.write number) where
  unbroken := by
    intro lineFeed
    exact absurd (DecimalText.isDigit_of_mem_write lineFeed) (by decide)
  noReturn := by
    intro ends
    have last := List.mem_of_getLast? ends
    exact absurd (DecimalText.isDigit_of_mem_write last) (by decide)

theorem plain_basic {B64Auth : StdString} (one : HttpMessage.Plain B64Auth) :
    HttpMessage.Plain (ascii "Basic " ++ B64Auth) := by
  cases B64Auth with
  | nil =>
      rw [List.append_nil]
      exact ⟨by decide, by decide⟩
  | cons ch rest => exact plain_value (by simp) (by decide) one

theorem plainField_request {B64Auth method : StdString} {params : Node}
    (one : HttpMessage.Plain B64Auth) :
    ∀ field ∈ (request library B64Auth method params).fields, HttpMessage.PlainField field := by
  intro field fieldMem
  rw [request] at fieldMem
  simp only [List.mem_cons, List.not_mem_nil, or_false] at fieldMem
  rcases fieldMem with rfl | rfl | rfl | rfl
  · exact ⟨⟨by decide, by decide⟩, by decide, by decide⟩
  · exact ⟨⟨by decide, by decide⟩, by decide, by decide⟩
  · have named : 58 ∉ ascii "Authorization" := by decide
    have begins : (ascii "Basic " ++ B64Auth).head? = some 66 := rfl
    have basic : ascii "Basic " ++ B64Auth ≠ [] := by
      intro nothing
      rw [nothing] at begins
      cases begins
    refine ⟨?_, named, by rw [begins]; decide⟩
    exact @plain_value (ascii "Authorization" ++ [58, 32]) _ basic (by decide) (plain_basic one)
  · have written := DecimalText.write_ne_nil ((requestNode method params).toText library).length
    have digits := plain_digits ((requestNode method params).toText library).length
    have named : 58 ∉ ascii "Content-Length" := by decide
    refine ⟨?_, named, ?_⟩
    · exact @plain_value (ascii "Content-Length" ++ [58, 32]) _ written (by decide) digits
    · intro space
      have first := List.mem_of_head? space
      exact absurd (DecimalText.isDigit_of_mem_write first) (by decide)

theorem plain_requestJson {method : StdString} {params : Node}
    (quoteless : JSON.Quoteless method) (plain : params.json.Plain) :
    (requestJson method params).Plain := by
  rw [requestJson]
  have members : JSON.Quoteless (ascii "jsonrpc") ∧ JSON.Quoteless (ascii "1.0") ∧
      JSON.Quoteless (ascii "id") ∧ JSON.Quoteless (ascii "method") ∧
      JSON.Quoteless (ascii "params") := by
    unfold JSON.Quoteless
    decide
  rcases members with ⟨version, number, id, called, given⟩
  split
  · exact ⟨version, number, id, trivial, called, quoteless, given, plain, trivial⟩
  · exact ⟨version, number, id, trivial, called, quoteless, trivial⟩

theorem countable_requestJson {method : StdString} {params : Node}
    (quoteless : JSON.Quoteless method) (short : method.length < 2 ^ 32)
    (countable : params.json.Countable) : (requestJson method params).Countable := by
  have version : (JSON.string (ascii "1.0")).Countable := JSON.countable_string.mpr (by decide)
  have called := (JSON.countable_quoteless quoteless).mpr short
  rw [requestJson]
  split
  · exact ⟨version, trivial, called, countable, trivial⟩
  · exact ⟨version, trivial, called, trivial⟩

/-- `ToString` ends for a request whose parameters its counters can count. -/
theorem toTextWithin_requestNode {method : StdString} {params : Node}
    (quoteless : JSON.Quoteless method) (short : method.length < 2 ^ 32)
    (countable : params.json.Countable) :
    ∃ fuel, (requestNode method params).toTextWithin library fuel =
      some ((requestNode method params).toText library) := by
  have counted := countable_requestJson quoteless short countable
  rw [← json_requestNode] at counted
  exact ⟨2 ^ 32, Node.toTextWithin_of_countable counted le_rfl⟩

theorem fromString_requestNode (documented : library.Documented) {method : StdString}
    {params : Node} (built : params.Built) (quoteless : JSON.Quoteless method)
    (plain : params.json.Plain) :
    ∃ read, Node.fromString library ((requestNode method params).toText library) =
      some (.ok read) ∧ read.json = requestJson method params := by
  have shown := json_requestNode method params
  have whole : (requestNode method params).Built := requestNode_built built
  have normal := whole.consistent.normalize_json
  rw [shown] at normal
  rcases JSON.fromString_object documented (plain_requestJson quoteless plain) with
    ⟨read, parsed, same⟩
  refine ⟨read, ?_, same.trans normal⟩
  rw [JSON.toText_json, shown]
  exact parsed

/-- Whatever follows it on the stream, the request is found again. -/
theorem read_requestText {B64Auth : StdString} (one : HttpMessage.Plain B64Auth)
    (method : StdString) (params : Node) (rest : BinaryData) :
    HttpMessage.read? (ascii "content-length")
        (requestText library B64Auth method params ++ rest) =
      some (request library B64Auth method params, rest) := by
  have line : HttpMessage.Plain (ascii "POST / HTTP/1.1") := ⟨by decide, by decide⟩
  rw [requestText_eq]
  refine HttpMessage.read_write ?_ ?_ ?_
  · exact line
  · exact plainField_request one
  · rfl

/-- The digits and the padding of base 64 do not end a line. -/
theorem plain_toBase64 (documented : iterators.Documented) (input : StdString) :
    HttpMessage.Plain (Util.toBase64 iterators input false) := by
  have visible : ∀ ch ∈ Util.toBase64 iterators input false, Util.isBlank ch = false := by
    intro ch chMem
    rw [Util.toBase64, if_neg (by simp), documented.encodes, List.mem_append] at chMem
    rcases chMem with digit | padding
    · rcases List.mem_map.mp digit with ⟨number, numberMem, rfl⟩
      exact (Util.digit_not_special (Base64.lt_of_mem_sextets numberMem)).1
    · rw [List.eq_of_mem_replicate padding]
      rfl
  constructor
  · intro lineFeed
    exact absurd (visible 10 lineFeed) (by decide)
  · intro ends
    exact absurd (visible 13 (List.mem_of_getLast? ends)) (by decide)

theorem plain_connect (documented : iterators.Documented) {connInfo : ConnectionInfo}
    (one : HttpMessage.Plain connInfo.b64Auth) :
    HttpMessage.Plain (connect iterators connInfo) := by
  rw [connect]
  split
  · exact plain_toBase64 documented _
  · exact one

/-- The credentials in the field. -/
theorem connect_decodes (documented : iterators.Documented) {connInfo : ConnectionInfo}
    (notGiven : connInfo.b64Auth = []) :
    Util.fromBase64 iterators (connect iterators connInfo) =
      some (connInfo.user ++ ascii ":" ++ connInfo.pass) := by
  rw [connect, if_pos notGiven]
  exact Util.fromBase64_toBase64 documented (.inl rfl)

/--
The object of a request without quotes and numbers in floating point is written, if the counters of
the writer can count it. Whatever follows it on the stream, the request is read back with its four
fields and the body that its length announces; the field for the authorization holds what was
configured, or else decodes to the user and the password; and the body is read back as the object
with the method and the parameters.
-/
theorem request_read_back (libraryDocumented : library.Documented)
    (iteratorsDocumented : iterators.Documented) {connInfo : ConnectionInfo}
    (one : HttpMessage.Plain connInfo.b64Auth) {method : StdString} {params : Node}
    (built : params.Built) (quoteless : JSON.Quoteless method) (short : method.length < 2 ^ 32)
    (plain : params.json.Plain) (countable : params.json.Countable) (rest : BinaryData) :
    ∃ received, HttpMessage.read? (ascii "content-length")
        (requestText library (connect iterators connInfo) method params ++ rest) =
        some (received, rest) ∧
      (∃ fuel, (requestNode method params).toTextWithin library fuel = some received.body) ∧
      received.line = ascii "POST / HTTP/1.1" ∧
      (∃ token, HttpMessage.field? received.fields (ascii "authorization") =
          some (ascii "Basic " ++ token) ∧
        (connInfo.b64Auth ≠ [] → token = connInfo.b64Auth) ∧
        (connInfo.b64Auth = [] → Util.fromBase64 iterators token =
          some (connInfo.user ++ ascii ":" ++ connInfo.pass))) ∧
      ∃ read, Node.fromString library received.body = some (.ok read) ∧
        read.json = requestJson method params := by
  rcases fromString_requestNode libraryDocumented built quoteless plain with ⟨read, parsed, same⟩
  have written := @toTextWithin_requestNode library _ _ quoteless short countable
  refine ⟨request library (connect iterators connInfo) method params, ?_, written, rfl, ?_, read,
    parsed, same⟩
  · exact read_requestText (plain_connect iteratorsDocumented one) method params rest
  · refine ⟨connect iterators connInfo, by rfl, ?_, ?_⟩
    · intro given
      exact if_neg given
    · exact connect_decodes iteratorsDocumented

/-- A list of one string, as `submitblock` is called with. -/
def Sample.submitted : Node :=
  (Node.ofType .array).push (.primitive (.string (ascii "00ff")))

theorem request_read_back_sample :
    ∃ received, HttpMessage.read? (ascii "content-length")
        (requestText Sample.library (connect Util.Sample.base64Iterators ⟨ascii "u", ascii "p", []⟩)
          (ascii "submitblock") Sample.submitted ++ [0]) = some (received, [0]) ∧
      (∃ fuel, (requestNode (ascii "submitblock") Sample.submitted).toTextWithin Sample.library fuel =
        some received.body) ∧
      received.line = ascii "POST / HTTP/1.1" ∧
      (∃ token, HttpMessage.field? received.fields (ascii "authorization") =
          some (ascii "Basic " ++ token) ∧
        (([] : StdString) ≠ [] → token = []) ∧
        (([] : StdString) = [] → Util.fromBase64 Util.Sample.base64Iterators token =
          some (ascii "u" ++ ascii ":" ++ ascii "p"))) ∧
      ∃ read, Node.fromString Sample.library received.body = some (.ok read) ∧
        read.json = requestJson (ascii "submitblock") Sample.submitted := by
  have built : Sample.submitted.Built := by
    have array : (Node.ofType .array).Built := .ofType (by simp)
    exact array.add (by simp) rfl
  have quoteless : JSON.Quoteless (ascii "submitblock") ∧ JSON.Quoteless (ascii "00ff") := by
    unfold JSON.Quoteless
    decide
  have plain : Sample.submitted.json.Plain := ⟨quoteless.2, trivial⟩
  have one : HttpMessage.Plain (⟨ascii "u", ascii "p", []⟩ : ConnectionInfo).b64Auth :=
    ⟨List.not_mem_nil, nofun⟩
  have countable : Sample.submitted.json.Countable :=
    ⟨by decide, JSON.countable_string.mpr (by decide), trivial⟩
  exact request_read_back Sample.library_documented Util.Sample.base64Iterators_documented one
    built quoteless.1 (by decide) plain countable [0]

end Poolserver.JSONRPC
