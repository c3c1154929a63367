import Poolserver.JSON.Node

/-!
# Trees of nodes

A tree that a text denotes becomes nodes by `Add` and `Set`, the innermost first. A key that
comes again keeps its first place and takes its last value, so that what is seen of the nodes
is the tree with such keys collapsed.
-/

namespace Poolserver

namespace JSON

mutual

/-- A tree as it is given to `Add`, `Set` and an assignment. -/
def data : JSON → Data
  | .null => .node Node.empty
  | .bool val => .primitive (.bool val)
  | .integer val => .primitive (.integer val)
  | .double bits => .primitive (.double bits)
  | .string val => .primitive (.string val)
  | .array items => .node (pushAll items (Node.ofType .array))
  | .object members => .node (putAll members (Node.ofType .object))

/-- Adds items one after the other. -/
def pushAll : List JSON → Node → Node
  | [], node => node
  | item :: items, node => pushAll items (node.push item.data)

/-- Sets members one after the other. -/
def putAll : List (StdString × JSON) → Node → Node
  | [], node => node
  | (key, value) :: members, node => putAll members (node.put key value.data)

end

mutual

/-- A tree in which every key of an object has its first place and its last value. -/
def normalize : JSON → JSON
  | .null => .null
  | .bool val => .bool val
  | .integer val => .integer val
  | .double bits => .double bits
  | .string val => .string val
  | .array items => .array (normalizeAll items)
  | .object members => .object (OrderedMap.collapse (normalizeMembers members))

def normalizeAll : List JSON → List JSON
  | [] => []
  | item :: items => normalize item :: normalizeAll items

def normalizeMembers : List (StdString × JSON) → List (StdString × JSON)
  | [] => []
  | (key, value) :: members => (key, normalize value) :: normalizeMembers members

end

theorem pushAll_eq_foldl (items : List JSON) (node : Node) :
    pushAll items node = items.foldl (fun node item => node.push item.data) node := by
  induction items generalizing node with
  | nil => rfl
  | cons item items ih => rw [pushAll, ih, List.foldl_cons]

theorem putAll_eq_foldl (members : List (StdString × JSON)) (node : Node) :
    putAll members node =
      members.foldl (fun node member => node.put member.1 member.2.data) node := by
  induction members generalizing node with
  | nil => rfl
  | cons member members ih => rw [putAll, ih, List.foldl_cons]

theorem normalizeAll_eq_map (items : List JSON) : normalizeAll items = items.map normalize := by
  induction items with
  | nil => rfl
  | cons item items ih => rw [normalizeAll, ih, List.map_cons]

theorem normalizeMembers_eq_map (members : List (StdString × JSON)) :
    normalizeMembers members = members.map fun member => (member.1, member.2.normalize) := by
  induction members with
  | nil => rfl
  | cons member members ih => rw [normalizeMembers, ih, List.map_cons]

end JSON

/-! ## What is seen of the nodes -/

namespace Node

theorem jsonAll_eq_map (nodes : List Node) : jsonAll nodes = nodes.map json := by
  induction nodes with
  | nil => rfl
  | cons node nodes ih => rw [jsonAll, ih, List.map_cons]

theorem jsonMap_eq_map (map : List (StdString × Node)) :
    jsonMap map = map.map fun entry => (entry.1, entry.2.json) := by
  induction map with
  | nil => rfl
  | cons entry map ih => rw [jsonMap, ih, List.map_cons]

theorem json_array {node : Node} (isArray : node.content = .array) :
    node.json = .array (node.vec.map json) := by
  rcases node with ⟨content, vec, map, mapOrder⟩
  rw [show content = .array from isArray, json, jsonAll_eq_map]

theorem json_object {node : Node} (isObject : node.content = .object) :
    node.json = .object (node.mapOrder.map fun key =>
      (key, ((node.map.lookup key).map json).getD .null)) := by
  rcases node with ⟨content, vec, map, mapOrder⟩
  rw [show content = .object from isObject, json]
  simp only [jsonMap_eq_map, OrderedMap.lookup_map]

/-- Data that shows as a value wherever it is assigned. -/
def Shows (val : Data) (value : JSON) : Prop :=
  ∀ old : Node, (old.assign val).json = value

theorem pushAll_shows {items : List JSON} (eachShows : ∀ item ∈ items, Shows item.data item.normalize) :
    (JSON.pushAll items (ofType .array)).content = .array ∧
      (JSON.pushAll items (ofType .array)).vec.map json = items.map JSON.normalize := by
  rw [JSON.pushAll_eq_foldl]
  induction items using List.reverseRecOn with
  | nil => exact ⟨rfl, rfl⟩
  | append_singleton items item ih =>
      have before := ih fun other otherMem => eachShows other (List.mem_append_left _ otherMem)
      rw [List.foldl_append, List.foldl_cons, List.foldl_nil]
      refine ⟨rfl, ?_⟩
      rw [push, List.map_append, List.map_append, before.2]
      rw [List.map_singleton, List.map_singleton, eachShows item (by simp) empty]

/-- What is known of an object that members were set in. -/
structure Holds (members : List (StdString × JSON)) (node : Node) : Prop where
  isObject : node.content = .object
  order : node.mapOrder = (members.map Prod.fst).eraseDups
  values : ∀ key, (node.map.lookup key).map json =
    (members.reverse.lookup key).map JSON.normalize

theorem Holds.put {members : List (StdString × JSON)} {node : Node} (holds : Holds members node)
    {key : StdString} {value : JSON} (eachShows : Shows value.data value.normalize) :
    Holds (members ++ [(key, value)]) (node.put key value.data) := by
  have knows : (node.map.lookup key).isSome = true ↔ key ∈ members.map Prod.fst := by
    have same := congrArg Option.isSome (holds.values key)
    rw [Option.isSome_map, Option.isSome_map] at same
    rw [same, OrderedMap.lookup_isSome_iff_mem, List.map_reverse, List.mem_reverse]
  refine ⟨rfl, ?_, ?_⟩
  · rw [List.map_append, List.map_singleton, OrderedMap.eraseDups_track _ _ knows, ← holds.order]
    rfl
  · intro other
    rw [Node.put, OrderedMap.lookup_update]
    rw [List.reverse_append, List.reverse_singleton, List.singleton_append, List.lookup_cons]
    cases other == key with
    | true => exact congrArg some (eachShows _)
    | false => exact holds.values other

theorem putAll_holds {members : List (StdString × JSON)}
    (eachShows : ∀ member ∈ members, Shows member.2.data member.2.normalize) :
    Holds members (JSON.putAll members (ofType .object)) := by
  rw [JSON.putAll_eq_foldl]
  induction members using List.reverseRecOn with
  | nil => exact ⟨rfl, rfl, fun _ => rfl⟩
  | append_singleton members member ih =>
      have before := ih fun other otherMem => eachShows other (List.mem_append_left _ otherMem)
      rw [List.foldl_append, List.foldl_cons, List.foldl_nil]
      exact before.put (eachShows member (by simp))

theorem Holds.json_eq {members : List (StdString × JSON)} {node : Node}
    (holds : Holds members node) : node.json = (JSON.object members).normalize := by
  rw [json_object holds.isObject, JSON.normalize, OrderedMap.collapse_eq_map JSON.null]
  have keys : (JSON.normalizeMembers members).map Prod.fst = members.map Prod.fst := by
    rw [JSON.normalizeMembers_eq_map, List.map_map]
    rfl
  rw [keys, holds.order]
  congr 1
  apply List.map_congr_left
  intro key _
  rw [holds.values, JSON.normalizeMembers_eq_map, ← List.map_reverse, OrderedMap.lookup_map]

mutual

/-- A tree shows as what it denotes, wherever it is assigned. -/
theorem shows_data : ∀ value : JSON, Shows value.data value.normalize
  | .null => fun _ => rfl
  | .bool _ => fun _ => by rfl
  | .integer _ => fun _ => by rfl
  | .double _ => fun _ => by rfl
  | .string _ => fun _ => by rfl
  | .array items => by
      intro old
      have pushed := pushAll_shows (shows_data_all items)
      rw [JSON.data, assign, json_array pushed.1, pushed.2, JSON.normalize,
        JSON.normalizeAll_eq_map]
  | .object members => by
      intro old
      rw [JSON.data, assign]
      exact (putAll_holds (shows_data_members members)).json_eq

theorem shows_data_all : ∀ items : List JSON, ∀ item ∈ items, Shows item.data item.normalize
  | [] => by simp
  | first :: items => by
      intro item itemMem
      rcases List.mem_cons.mp itemMem with isFirst | inRest
      · rw [isFirst]
        exact shows_data first
      · exact shows_data_all items item inRest

theorem shows_data_members : ∀ members : List (StdString × JSON), ∀ member ∈ members,
    Shows member.2.data member.2.normalize
  | [] => by simp
  | (key, value) :: members => by
      intro member memberMem
      rcases List.mem_cons.mp memberMem with isFirst | inRest
      · rw [isFirst]
        exact shows_data value
      · exact shows_data_members members member inRest

end

end Node

end Poolserver
