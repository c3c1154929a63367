import Poolserver.Shared.Common

/-!
# JSON values

The values that the `JSON` class carries between the parser, the handlers and the
writer, with the accessors the handlers use. An accessor throws on a node of the
wrong type; indexing a null node by a key turns it into an empty object first, so
that a missing member reads as null.
-/

namespace Poolserver

inductive JSON where
  | null
  | bool (val : Bool)
  | integer (val : Int64)
  | double (bits : UInt64)
  | string (val : StdString)
  | array (items : List JSON)
  | object (members : List (StdString × JSON))
  deriving Repr

namespace JSON

/-- A string literal as a node. -/
def text (literal : String) : JSON :=
  .string (ascii literal)

def outOfRange (index size : ℕ) : StdException :=
  .json (ascii s!"Index {index} out of range. Vector size: {size}")

/-- `JSON::operator[](uint32)`, which looks at the vector whatever the type of the node. -/
def index (node : JSON) (index : ℕ) : Except StdException JSON :=
  match node with
  | .array items =>
      match items[index]? with
      | some item => .ok item
      | none => .error (outOfRange index items.length)
  | _ => .error (outOfRange index 0)

/-- The value of `JSON::operator[](std::string)`. -/
def member (node : JSON) (key : StdString) : Except StdException JSON :=
  match node with
  | .object members => .ok ((members.lookup key).getD .null)
  | .null => .ok .null
  | _ => .error (.json (ascii "Node is not an object type"))

def getString : JSON → Except StdException StdString
  | .string val => .ok val
  | _ => .error (.json (ascii "Node is not a string type"))

def getInt : JSON → Except StdException Int64
  | .integer val => .ok val
  | _ => .error (.json (ascii "Node is not an int type"))

/-- `JSON::Size`. -/
def size : JSON → ℕ
  | .array items => items.length
  | .object members => members.length
  | _ => 0

/-- `GetType() == JSON_NULL`. -/
def isNull : JSON → Bool
  | .null => true
  | _ => false

/-- The string at a position of an array. -/
def stringAt (node : JSON) (position : ℕ) : Except StdException StdString := do
  (← node.index position).getString

/-- The string under a key of an object. -/
def stringMember (node : JSON) (key : String) : Except StdException StdString := do
  (← node.member (ascii key)).getString

/-- The integer under a key of an object. -/
def intMember (node : JSON) (key : String) : Except StdException Int64 := do
  (← node.member (ascii key)).getInt

end JSON

end Poolserver
