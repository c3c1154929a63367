import Poolserver.JSON.Node
import Poolserver.Lib.Spirit

/-!
# Reading JSON

`JSONReader`: a grammar whose semantic actions build the tree on a stack of nodes. A node is
stored in the one below it when it is closed, so that the keys wait on a stack of their own.
The parsers of Boost.Spirit are those of the library on parsers with actions.
-/

namespace Poolserver

namespace JSONReader

open Spirit

/-- `SemanticFunctions`; the back of each stack comes first. -/
structure SemanticFunctions where
  stack : List Node
  nameStack : List StdString
  /-- The node of the caller, which is the bottom of the stack, after it was popped. -/
  node : Node

namespace SemanticFunctions

def new (node : Node) : SemanticFunctions :=
  ⟨[node], [], node⟩

/-- The node of the caller. -/
def callerNode (s : SemanticFunctions) : Node :=
  s.stack.getLast?.getD s.node

/-- `SetData`; the last case is `throw "fail"`. -/
def setData (val : Data) (s : SemanticFunctions) : Option SemanticFunctions :=
  match s.stack with
  | [] => none
  | top :: below =>
      match top.content, s.nameStack with
      | .object, name :: names =>
          (top.set name val).toOption.map fun node =>
            { s with stack := node :: below, nameStack := names }
      | .object, [] => none
      | .array, _ => (top.add val).toOption.map fun node => { s with stack := node :: below }
      | _, _ => none

/-- `BeginObject` and `BeginArray`. -/
def beginNode (content : Content) (s : SemanticFunctions) : Option SemanticFunctions :=
  match s.stack with
  | [] => none
  | top :: below =>
      if top.content = .null then some { s with stack := { top with content } :: below }
      else some { s with stack := Node.ofType content :: s.stack }

/-- `EndObject` and `EndArray`. -/
def endNode (s : SemanticFunctions) : Option SemanticFunctions :=
  match s.stack with
  | [] => none
  | [node] => some { s with stack := [], node }
  | node :: below => setData (.node node) { s with stack := below }

def beginObject (_ch : UInt8) : SemanticFunctions → Option SemanticFunctions :=
  beginNode .object

def endObject (_ch : UInt8) : SemanticFunctions → Option SemanticFunctions :=
  endNode

def beginArray (_ch : UInt8) : SemanticFunctions → Option SemanticFunctions :=
  beginNode .array

def endArray (_ch : UInt8) : SemanticFunctions → Option SemanticFunctions :=
  endNode

def objectKey (str : StdString) (s : SemanticFunctions) : Option SemanticFunctions :=
  some { s with nameStack := str :: s.nameStack }

def string (str : StdString) : SemanticFunctions → Option SemanticFunctions :=
  setData (.primitive (.string str))

def boolTrue (_str : StdString) : SemanticFunctions → Option SemanticFunctions :=
  setData (.primitive (.bool true))

def boolFalse (_str : StdString) : SemanticFunctions → Option SemanticFunctions :=
  setData (.primitive (.bool false))

def null (_str : StdString) : SemanticFunctions → Option SemanticFunctions :=
  setData (.node Node.empty)

def integer (val : Int64) : SemanticFunctions → Option SemanticFunctions :=
  setData (.primitive (.integer val))

def double (bits : UInt64) : SemanticFunctions → Option SemanticFunctions :=
  setData (.primitive (.double bits))

end SemanticFunctions

/-! ## `Grammar` -/

abbrev Rule := Parser SemanticFunctions

variable (library : Library)

/-- A character in a rule with the skipper of the grammar. -/
def lit (ch : UInt8) : Matcher UInt8 :=
  skipped library.space (char ch)

def word (literal : StdString) : Matcher StdString :=
  skipped library.space (text literal)

def strictDouble : Matcher UInt64 :=
  skipped library.space library.strictDouble

def integer : Matcher Int64 :=
  skipped library.space longLong

def string : Matcher StdString :=
  skipped library.space (quoted 34)

def comma : Matcher UInt8 :=
  lit library 44

def colon : Matcher UInt8 :=
  lit library 58

def number : Rule :=
  alt (action (strictDouble library) SemanticFunctions.double)
    (action (integer library) SemanticFunctions.integer)

/-- The alternatives of `value` that do not nest. -/
def simple : Rule :=
  alt (action (string library) SemanticFunctions.string) <|
    alt (number library) <|
    alt (action (word library (ascii "true")) SemanticFunctions.boolTrue) <|
    alt (action (word library (ascii "false")) SemanticFunctions.boolFalse)
      (action (word library (ascii "null")) SemanticFunctions.null)

def pair (value : Rule) : Rule :=
  seq (action (string library) SemanticFunctions.objectKey) (seq (matched (colon library)) value)

def members (value : Rule) : Rule :=
  list (pair library value) (comma library)

def elements (value : Rule) : Rule :=
  list value (comma library)

def object (value : Rule) : Rule :=
  seq (action (lit library 123) SemanticFunctions.beginObject)
    (seq (opt (members library value)) (action (lit library 125) SemanticFunctions.endObject))

def array (value : Rule) : Rule :=
  seq (action (lit library 91) SemanticFunctions.beginArray)
    (seq (opt (elements library value)) (action (lit library 93) SemanticFunctions.endArray))

/-- `value`, with fuel for the depth of nesting. -/
def value : ℕ → Rule
  | 0 => fun _ _ => none
  | depth + 1 =>
      alt (object library (value depth)) (alt (array library (value depth)) (simple library))

def json (depth : ℕ) : Rule :=
  alt (object library (value library depth)) (array library (value library depth))

/-! ## `Parse` -/

/--
`qi::phrase_parse` with the grammar. It skips behind what it has read, and does not look
whether that is the end. The text is at least as long as it is deep.
-/
def phraseParse (str : StdString) (node : Node) : Option (SemanticFunctions × Option Input) :=
  (json library (str.length + 1) (.new node) str).map fun (s, result) =>
    (s, result.map fun rest => rest.dropWhile library.space)

/-- `JSONReader::Parse`, with what becomes of the node of the caller. -/
def parse (str : StdString) (node : Node) : Option (Except StdException Node) :=
  (phraseParse library str node).map fun (s, result) =>
    match result with
    | some _ => .ok s.callerNode
    | none => .error (.json (ascii "Failed to parse JSON"))

end JSONReader

/-- `JSON::FromString`. -/
def Node.fromString (library : Library) (jsonstring : StdString) :
    Option (Except StdException Node) :=
  JSONReader.parse library jsonstring Node.empty

end Poolserver
