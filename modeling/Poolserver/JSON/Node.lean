import Poolserver.JSON.Value
import Poolserver.Lib.DecimalText
import Poolserver.Lib.OrderedMap

/-!
# JSON nodes

The `JSON` class as it is stored: a type with a vector for arrays, and a map with a list of
its keys for objects. An assignment of a primitive value changes the type and the value only,
so that a node can keep a vector or a map that its type does not show. What a reader sees of
a node is the JSON value that it shows, and the text written for a node is one of that value.
-/

namespace Poolserver

/-- The primitive types, `JSONValue`. -/
inductive JSONValue where
  | bool (val : Bool)
  | integer (val : Int64)
  | double (bits : UInt64)
  | string (val : StdString)
  deriving DecidableEq, Repr

/-- `JSONValueType`, with the value of the primitive types. -/
inductive Content where
  | null
  | array
  | object
  | primitive (val : JSONValue)
  deriving DecidableEq, Repr

/-- An object of the class `JSON`. -/
structure Node where
  content : Content
  vec : List Node
  map : List (StdString × Node)
  mapOrder : List StdString

/-- What `Add`, `Set` and an assignment are given. -/
inductive Data where
  | primitive (val : JSONValue)
  | node (node : Node)

namespace Node

/-- `JSON(type)`. -/
def ofType (content : Content) : Node :=
  ⟨content, [], [], []⟩

/-- `JSON()`. -/
def empty : Node :=
  ofType .null

/-- `operator=`; a node is copied whole. -/
def assign (node : Node) : Data → Node
  | .primitive val => { node with content := .primitive val }
  | .node other => other

/-- The end of `Add`. -/
def push (node : Node) (val : Data) : Node :=
  { node with content := .array, vec := node.vec ++ [empty.assign val] }

/-- `JSON::Add`. -/
def add (node : Node) (val : Data) : Except StdException Node :=
  match node.content with
  | .array | .null => .ok (node.push val)
  | _ => .error (.json (ascii "Node is not an array type"))

/-- The end of `Set`. -/
def put (node : Node) (key : StdString) (val : Data) : Node :=
  { node with
    content := .object
    mapOrder := OrderedMap.track (node.map.lookup key).isSome key node.mapOrder
    map := OrderedMap.update key (fun old => (old.getD empty).assign val) node.map }

/-- `JSON::Set`. -/
def set (node : Node) (key : StdString) (val : Data) : Except StdException Node :=
  match node.content with
  | .object | .null => .ok (node.put key val)
  | _ => .error (.json (ascii "Node is not an object type"))

/-- `JSON::Size`. -/
def size (node : Node) : UInt32 :=
  match node.content with
  | .array => UInt32.ofNat node.vec.length
  | .object => UInt32.ofNat node.map.length
  | _ => 0

end Node

namespace Node

/-- What holds of a node whenever it holds of its items and members holds of every node. -/
theorem inductionOn {Holds : Node → Prop}
    (step : ∀ node : Node, (∀ child ∈ node.vec, Holds child) →
      (∀ entry ∈ node.map, Holds entry.2) → Holds node) : ∀ node, Holds node
  | ⟨content, vec, map, mapOrder⟩ =>
      step ⟨content, vec, map, mapOrder⟩
        (fun child (inVec : child ∈ vec) =>
          have := List.sizeOf_lt_of_mem inVec
          inductionOn step child)
        (fun entry (inMap : entry ∈ map) =>
          have := List.sizeOf_lt_of_mem inMap
          have : sizeOf entry.2 < 1 + sizeOf entry := by
            rcases entry with ⟨key, child⟩
            simp
            omega
          inductionOn step entry.2)
  termination_by node => sizeOf node
  decreasing_by all_goals simp; omega

end Node

/-! ## Writing -/

/-- What the program takes from Boost.Spirit and from the streams of the standard library. -/
structure Library where
  /-- `iso8859_1::space`. -/
  space : UInt8 → Bool
  /-- `strict_double`, a number in floating point that has a dot or an exponent. -/
  strictDouble : List UInt8 → Option (UInt64 × List UInt8)
  /-- What a stream writes for a `double`. -/
  doubleText : UInt64 → StdString

namespace JSON

/-- `escapes`. -/
def escapes : List (UInt8 × StdString) :=
  [(34, ascii "\\\""), (39, ascii "\\'")]

/--
What `JSON::EscapeString` returns, if its loop ends: what a character is replaced by is not
looked at again.
-/
def escapeString (str : StdString) : StdString :=
  str.flatMap fun ch => (escapes.lookup ch).getD [ch]

/-- What a stream writes for an `int64`. -/
def integerText (val : Int64) : StdString :=
  if val < 0 then 45 :: DecimalText.write val.toInt.natAbs
  else DecimalText.write val.toInt.natAbs

def primitiveText (library : Library) : JSONValue → StdString
  | .bool val => if val then ascii "true" else ascii "false"
  | .integer val => integerText val
  | .double bits => library.doubleText bits
  | .string val => 34 :: escapeString val ++ [34]

/-- A member of an object as it is written; its key is not escaped. -/
def memberText (key text : StdString) : StdString :=
  34 :: key ++ ascii "\":" ++ text

end JSON

namespace Node

variable (library : Library)

mutual

/--
What `JSON::Write` writes, if its loops end: `writeWithin` has their counters. A key without an
entry would get an empty node by `_map[key]`.
-/
def write : Node → StdString
  | ⟨.null, _, _, _⟩ => ascii "null"
  | ⟨.primitive val, _, _, _⟩ => JSON.primitiveText library val
  | ⟨.array, vec, _, _⟩ => 91 :: (ascii ", ").intercalate (writeAll vec) ++ [93]
  | ⟨.object, _, map, mapOrder⟩ =>
      let texts := writeMap map
      123 :: [44].intercalate (mapOrder.map fun key =>
        JSON.memberText key ((texts.lookup key).getD (ascii "null"))) ++ [125]

def writeAll : List Node → List StdString
  | [] => []
  | node :: nodes => write node :: writeAll nodes

def writeMap : List (StdString × Node) → List (StdString × StdString)
  | [] => []
  | (key, node) :: map => (key, write node) :: writeMap map

end

theorem writeAll_eq_map (nodes : List Node) :
    writeAll library nodes = nodes.map (write library) := by
  induction nodes with
  | nil => rfl
  | cons node nodes ih => rw [writeAll, ih, List.map_cons]

theorem writeMap_eq_map (map : List (StdString × Node)) :
    writeMap library map = map.map fun entry => (entry.1, entry.2.write library) := by
  induction map with
  | nil => rfl
  | cons entry map ih => rw [writeMap, ih, List.map_cons]

/-- What `JSON::ToString` returns, if the loops of `Write` end. -/
def toText (node : Node) : StdString :=
  let json := node.write library
  if json.head? = some 91 then 123 :: json ++ [125] else json

end Node

/-! ## What a node shows -/

def JSONValue.json : JSONValue → JSON
  | .bool val => .bool val
  | .integer val => .integer val
  | .double bits => .double bits
  | .string val => .string val

namespace Node

mutual

/-- The types, values, members and member order of a node and of what it holds. -/
def json : Node → JSON
  | ⟨.null, _, _, _⟩ => .null
  | ⟨.primitive val, _, _, _⟩ => val.json
  | ⟨.array, vec, _, _⟩ => .array (jsonAll vec)
  | ⟨.object, _, map, mapOrder⟩ =>
      let values := jsonMap map
      .object (mapOrder.map fun key => (key, (values.lookup key).getD .null))

def jsonAll : List Node → List JSON
  | [] => []
  | node :: nodes => json node :: jsonAll nodes

def jsonMap : List (StdString × Node) → List (StdString × JSON)
  | [] => []
  | (key, node) :: map => (key, json node) :: jsonMap map

end

end Node

end Poolserver
