import Poolserver.JSON.Reader
import Poolserver.JSON.Value

/-!
# Remote procedure calls

`JSONRPC::Query` over a connection. The answer arrives in segments; a blocking read appends
whole segments to the buffer, and `available` looks at what has arrived and is not read yet.
The stream on the buffer is taken apart as `std::istream` does it, and what is left of it is
given to the JSON reader.
-/

namespace Poolserver.JSONRPC

/-! ## Requests -/

/-- The object that is sent. -/
def requestNode (method : StdString) (params : Node) : Node :=
  let request := ((Node.empty.put (ascii "jsonrpc") (.primitive (.string (ascii "1.0")))).put
    (ascii "id") (.primitive (.integer 1))).put (ascii "method") (.primitive (.string method))
  if 0 < params.size then request.put (ascii "params") (.node params) else request

/-- The lines that are sent, and the object behind them, if `ToString` ends. -/
def requestText (library : Library) (B64Auth method : StdString) (params : Node) : BinaryData :=
  let jsonstring := (requestNode method params).toText library
  ascii "POST / HTTP/1.1\n" ++ ascii "Host: 127.0.0.1\n" ++
    ascii "Content-Type: application/json-rpc\n" ++
    ascii "Authorization: Basic " ++ B64Auth ++ ascii "\n" ++
    ascii "Content-Length: " ++ DecimalText.write jsonstring.length ++ ascii "\n\n" ++ jsonstring

/-! ## Streams -/

/--
`boost::asio::read_until` with a line feed: whole segments are appended until the buffer has one.
-/
def readUntil (buffer : BinaryData) :
    List BinaryData → Except StdException (BinaryData × List BinaryData)
  | [] => if 10 ∈ buffer then .ok (buffer, []) else .error .systemError
  | segment :: segments =>
      if 10 ∈ buffer then .ok (buffer, segment :: segments)
      else readUntil (buffer ++ segment) segments

/-- `isspace` of the classic locale. -/
def isSpace (ch : UInt8) : Bool :=
  decide (ch = 32 ∨ 9 ≤ ch ∧ ch ≤ 13)

/-- `stream >> word`. -/
def readWord (stream : BinaryData) : Option (StdString × BinaryData) :=
  let stream := stream.dropWhile isSpace
  match stream.takeWhile fun ch => !isSpace ch with
  | [] => none
  | word => some (word, stream.dropWhile fun ch => !isSpace ch)

/-- The sign of a number in a stream. -/
def readSign : BinaryData → Bool × BinaryData
  | 45 :: stream => (true, stream)
  | 43 :: stream => (false, stream)
  | stream => (false, stream)

/-- `stream >> number`, for a `uint32_t`; a number with a minus is taken modulo `2 ^ 32`. -/
def readNumber (stream : BinaryData) : Option (UInt32 × BinaryData) :=
  let (negative, stream) := readSign (stream.dropWhile isSpace)
  match stream.takeWhile fun ch => decide (DecimalText.IsDigit ch) with
  | [] => none
  | digits =>
      let number := DecimalText.value digits
      if number < 2 ^ 32 then
        let rest := stream.dropWhile fun ch => decide (DecimalText.IsDigit ch)
        some (if negative then 0 - UInt32.ofNat number else UInt32.ofNat number, rest)
      else none

/-- `std::getline`; at the end of the stream it fails. -/
def getLine (stream : BinaryData) : Option (StdString × BinaryData) :=
  match stream with
  | [] => none
  | _ :: _ =>
      some (stream.takeWhile (fun ch => decide (ch ≠ 10)),
        (stream.dropWhile fun ch => decide (ch ≠ 10)).drop 1)

/-! ## Answers -/

def malformed : StdException :=
  .jsonRPC (ascii "JSONRPC::Query(): Malformed HTTP Response")

def returnedStatus (status_code : ℕ) : StdException :=
  .jsonRPC (ascii s!"JSONRPC::Query(): Returned status code: {status_code}")

/-- The version and the code in the status line, and the stream behind the line. -/
def readStatus (stream : BinaryData) : Option (StdString × UInt32 × BinaryData) := do
  let (http_version, stream) ← readWord stream
  let (status_code, stream) ← readNumber stream
  let (_, stream) ← getLine stream
  return (http_version, status_code, stream)

/-- The stream behind the line that holds a carriage return only, or its end. -/
def skipHeaders : ℕ → BinaryData → BinaryData
  | 0, stream => stream
  | fuel + 1, stream =>
      match getLine stream with
      | none => stream
      | some (header, stream) =>
          if header = [13] then stream else skipHeaders fuel stream

/-- The status line and the headers of a stream are checked and removed. -/
def readHead (response : BinaryData) : Except StdException BinaryData :=
  match readStatus response with
  | none => .error malformed
  | some (http_version, status_code, stream) =>
      if http_version.take 5 ≠ ascii "HTTP/" then .error malformed
      else if status_code ≠ 200 then .error (returnedStatus status_code.toNat)
      -- a line has at least one character or its line feed
      else .ok (skipHeaders stream.length stream)

/--
The text that `Query` takes for the JSON response. `arrived` is the number of segments that
have arrived, besides those that are read, when `available` is called.
-/
def receive (segments : List BinaryData) (arrived : ℕ) : Except StdException StdString := do
  let (response, segments) ← readUntil [] segments
  let response ← readHead response
  if (segments.take arrived).flatten = [] then return response
  let (response, _) ← readUntil response segments
  return response

/-- What is returned of the parsed response. -/
def result (data : JSON) : Except StdException JSON :=
  data.member (ascii "result")

/-- `JSONRPC::Query` on an open connection: what is sent, and how the call ends. -/
def query (library : Library) (B64Auth method : StdString) (params : Node)
    (segments : List BinaryData) (arrived : ℕ) : Option (BinaryData × Except StdException JSON) :=
  let request := requestText library B64Auth method params
  match receive segments arrived with
  | .error exception => some (request, .error exception)
  | .ok jsonresponse =>
      (Node.fromString library jsonresponse).map fun data =>
        (request, data.bind fun data => result data.json)

end Poolserver.JSONRPC
