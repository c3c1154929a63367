import Poolserver.JSON.Built

/-!
# Sequences of calls on a node

A node of a program is a new one on which calls were made, and so is everything that it was given
a copy of. What such a node holds under its keys is compared with the stores that the calls made,
one after the other: the list of keys has every key once, where it was stored first, and a key has
the value that was stored last. A call that throws leaves the node as it was.
-/

namespace Poolserver.Node

/-- The types that have no value, which `SetType` gives. -/
inductive Structured where
  | null
  | array
  | object
  deriving DecidableEq, Repr

def Structured.content : Structured → Content
  | .null => .null
  | .array => .array
  | .object => .object

mutual

/-- A call on a node. What an `operator[]` returns is a node on which calls are made in turn. -/
inductive Call where
  | lookup (key : StdString) (calls : List Call)
  | item (index : UInt32) (calls : List Call)
  | set (key : StdString) (val : Given)
  | add (val : Given)
  | addNull
  | assign (val : Given)
  | setType (type : Structured)

/-- A primitive value, or a copy of a node on which these calls were made. -/
inductive Given where
  | primitive (val : JSONValue)
  | copy (calls : List Call)

end

/-- `JSON::AddNull`. -/
def addNull (node : Node) : Except StdException Node :=
  match node.content with
  | .array | .null => .ok { node with content := .array, vec := node.vec ++ [empty] }
  | _ => .error (.json (ascii "Node is not an array type"))

/-- `JSON::operator[](uint32)`. -/
def item (node : Node) (index : UInt32) : Except StdException Node :=
  match node.vec[index.toNat]? with
  | some child => .ok child
  | none => .error (JSON.outOfRange index.toNat node.vec.length)

/-- What a call leaves behind: a call that throws changes nothing. -/
def after (node : Node) : Except StdException Node → Node
  | .ok next => next
  | .error _ => node

/-- The node under a key; `_map[key]` makes an empty one where there is none. -/
def member (node : Node) (key : StdString) : Node :=
  (node.map.lookup key).getD empty

mutual

def perform : Call → Node → Node
  | .lookup key calls, node => node.after <|
      (node.touch key).map fun touched =>
        touched.withMember key (performAll calls (touched.member key))
  | .item index calls, node => node.after <|
      (node.item index).map fun child => node.withItem index.toNat (performAll calls child)
  | .set key val, node => node.after (node.set key val.data)
  | .add val, node => node.after (node.add val.data)
  | .addNull, node => node.after node.addNull
  | .assign val, node => node.assign val.data
  | .setType type, node => { node with content := type.content }

def performAll : List Call → Node → Node
  | [], node => node
  | call :: calls, node => performAll calls (perform call node)

def Given.data : Given → Data
  | .primitive val => .primitive val
  | .copy calls => .node (performAll calls empty)

end

/-- A new node on which calls were made. -/
def made (calls : List Call) : Node :=
  performAll calls empty

theorem performAll_append (earlier later : List Call) (node : Node) :
    performAll (earlier ++ later) node = performAll later (performAll earlier node) := by
  induction earlier generalizing node with
  | nil => rfl
  | cons call earlier ih => exact ih _

/-! ## The stores of the calls -/

/-- The type of a node, and the members that calls stored in it, one after the other. -/
structure Ledger where
  content : Content
  stores : List (StdString × Node)

namespace Ledger

def empty : Ledger :=
  ⟨.null, []⟩

/-- What was stored last under a key. -/
def last (ledger : Ledger) (key : StdString) : Node :=
  (ledger.stores.reverse.lookup key).getD Node.empty

/-- The keys in the order in which they were first stored. -/
def keys (ledger : Ledger) : List StdString :=
  (ledger.stores.map Prod.fst).eraseDups

/-- A store, which is refused where the type is another one. -/
def store (ledger : Ledger) (key : StdString) (child : Node) : Ledger :=
  match ledger.content with
  | .object | .null => ⟨.object, ledger.stores ++ [(key, child)]⟩
  | _ => ledger

/-- A new item, likewise. -/
def grow (ledger : Ledger) : Ledger :=
  match ledger.content with
  | .array | .null => { ledger with content := .array }
  | _ => ledger

mutual

/-- What a call stores. A copy takes over the stores of the node that is copied. -/
def record : Call → Ledger → Ledger
  | .lookup key calls, ledger => ledger.store key (performAll calls (ledger.last key))
  | .item _ _, ledger => ledger
  | .set key val, ledger => ledger.store key ((ledger.last key).assign val.data)
  | .add _, ledger => ledger.grow
  | .addNull, ledger => ledger.grow
  | .assign (.primitive val), ledger => { ledger with content := .primitive val }
  | .assign (.copy calls), _ => recordAll calls empty
  | .setType type, ledger => { ledger with content := type.content }

def recordAll : List Call → Ledger → Ledger
  | [], ledger => ledger
  | call :: calls, ledger => recordAll calls (record call ledger)

end

end Ledger

/-- The stores of the calls on a new node. -/
def storesOf (calls : List Call) : Ledger :=
  .recordAll calls .empty

/-! ## What a node holds of the stores -/

variable {node next child : Node} {ledger : Ledger} {key : StdString}

/-- The order list has the keys as they were first stored, the map what was stored last. -/
structure Keeps (ledger : Ledger) (node : Node) : Prop where
  content : node.content = ledger.content
  order : node.mapOrder = ledger.keys
  values : ∀ key, node.map.lookup key = ledger.stores.reverse.lookup key

theorem Keeps.member_eq (keeps : Keeps ledger node) (key : StdString) :
    node.member key = ledger.last key := by
  rw [member, keeps.values, Ledger.last]

theorem Keeps.known_iff (keeps : Keeps ledger node) (key : StdString) :
    (node.map.lookup key).isSome = true ↔ key ∈ ledger.stores.map Prod.fst := by
  rw [keeps.values, OrderedMap.lookup_isSome_iff_mem, List.map_reverse, List.mem_reverse]

/-- A node that was told of one more store. -/
theorem Keeps.stored (keeps : Keeps ledger node) (content : next.content = .object)
    (order : next.mapOrder =
      OrderedMap.track (node.map.lookup key).isSome key node.mapOrder)
    (values : ∀ other, next.map.lookup other =
      if other == key then some child else node.map.lookup other) :
    Keeps ⟨.object, ledger.stores ++ [(key, child)]⟩ next := by
  refine ⟨content, ?_, ?_⟩
  · rw [order, keeps.order, Ledger.keys, Ledger.keys, List.map_append, List.map_singleton,
      OrderedMap.eraseDups_track key _ (keeps.known_iff key)]
  · intro other
    rw [values, keeps.values, List.reverse_append, List.reverse_singleton, List.singleton_append,
      List.lookup_cons]
    cases other == key <;> rfl

theorem Keeps.put (keeps : Keeps ledger node) (key : StdString) (val : Data) :
    Keeps ⟨.object, ledger.stores ++ [(key, (ledger.last key).assign val)]⟩
      (node.put key val) := by
  apply keeps.stored rfl rfl
  intro other
  rw [Node.put, OrderedMap.lookup_update, ← keeps.member_eq]
  rfl

theorem Keeps.set (keeps : Keeps ledger node) (key : StdString) (val : Data) :
    Keeps (ledger.store key ((ledger.last key).assign val)) (node.after (node.set key val)) := by
  have put := keeps.put key val
  unfold Node.set Ledger.store
  rw [keeps.content]
  cases ledger.content with
  | null => exact put
  | object => exact put
  | array => exact keeps
  | primitive other => exact keeps

theorem Keeps.lookup (keeps : Keeps ledger node) (key : StdString) (change : Node → Node) :
    Keeps (ledger.store key (change (ledger.last key)))
      (node.after ((node.touch key).map fun touched =>
        touched.withMember key (change (touched.member key)))) := by
  have touched : ∀ found : Node, found = ledger.last key →
      Keeps ⟨.object, ledger.stores ++ [(key, change (ledger.last key))]⟩
        (withMember ⟨.object, node.vec, OrderedMap.update key (fun old => old.getD empty) node.map,
          OrderedMap.track (node.map.lookup key).isSome key node.mapOrder⟩ key (change found)) := by
    rintro found rfl
    apply keeps.stored rfl rfl
    intro other
    simp only [withMember, OrderedMap.lookup_update]
    cases other == key <;> rfl
  have found : (OrderedMap.update key (fun old => old.getD empty) node.map).lookup key =
      some (ledger.last key) := by
    rw [OrderedMap.lookup_update, if_pos (beq_self_eq_true key), ← keeps.member_eq]
    rfl
  have stored := touched _ (congrArg (fun child => child.getD empty) found)
  unfold touch Ledger.store
  rw [keeps.content]
  cases ledger.content with
  | null => exact stored
  | object => exact stored
  | array => exact keeps
  | primitive other => exact keeps

theorem Keeps.add (keeps : Keeps ledger node) (val : Data) :
    Keeps ledger.grow (node.after (node.add val)) := by
  have pushed : Keeps { ledger with content := .array } (node.push val) :=
    ⟨rfl, keeps.order, keeps.values⟩
  unfold Node.add Ledger.grow
  rw [keeps.content]
  cases ledger.content with
  | null => exact pushed
  | array => exact pushed
  | object => exact keeps
  | primitive other => exact keeps

theorem addNull_eq_add (node : Node) : node.addNull = node.add (.node empty) := by
  unfold addNull Node.add
  rfl

theorem Keeps.item (keeps : Keeps ledger node) (index : UInt32) (change : Node → Node) :
    Keeps ledger (node.after
      ((node.item index).map fun child => node.withItem index.toNat (change child))) := by
  cases node.item index with
  | error _ => exact keeps
  | ok child => exact ⟨keeps.content, keeps.order, keeps.values⟩

theorem Keeps.withContent (keeps : Keeps ledger node) (content : Content) :
    Keeps { ledger with content } { node with content } :=
  ⟨rfl, keeps.order, keeps.values⟩

theorem keeps_empty : Keeps .empty empty :=
  ⟨rfl, rfl, fun _ => rfl⟩

mutual

/-- A call makes the stores that are recorded of it. -/
theorem keeps_perform : ∀ (call : Call) {ledger : Ledger} {node : Node},
    Keeps ledger node → Keeps (ledger.record call) (perform call node)
  | .lookup key calls, _, _, keeps => keeps.lookup key (performAll calls)
  | .item index calls, _, _, keeps => keeps.item index (performAll calls)
  | .set key val, _, _, keeps => keeps.set key val.data
  | .add val, _, _, keeps => keeps.add val.data
  | .addNull, _, node, keeps => by
      rw [Node.perform, addNull_eq_add]
      exact keeps.add (.node empty)
  | .assign (.primitive val), _, _, keeps => keeps.withContent (.primitive val)
  | .assign (.copy calls), _, _, _ => keeps_performAll calls keeps_empty
  | .setType type, _, _, keeps => keeps.withContent type.content

theorem keeps_performAll : ∀ (calls : List Call) {ledger : Ledger} {node : Node},
    Keeps ledger node → Keeps (ledger.recordAll calls) (performAll calls node)
  | [], _, _, keeps => keeps
  | call :: calls, _, _, keeps => keeps_performAll calls (keeps_perform call keeps)

end

theorem keeps_made (calls : List Call) : Keeps (storesOf calls) (made calls) :=
  keeps_performAll calls keeps_empty

/-! ## The nodes in a node -/

/-- A node that calls lead to. -/
def Reached (node : Node) : Prop :=
  ∃ calls, made calls = node

/-- Every node in the vector and in the map is reached by calls of its own. -/
structure HoldsReached (node : Node) : Prop where
  items : ∀ child ∈ node.vec, Reached child
  members : ∀ entry ∈ node.map, Reached entry.2

theorem reached_empty : Reached empty :=
  ⟨[], rfl⟩

theorem Reached.performAll (reached : Reached node) (calls : List Call) :
    Reached (performAll calls node) := by
  rcases reached with ⟨earlier, rfl⟩
  exact ⟨earlier ++ calls, performAll_append earlier calls empty⟩

theorem Reached.assign (reached : Reached node) (val : Given) : Reached (node.assign val.data) := by
  cases val with
  | primitive val => exact reached.performAll [.assign (.primitive val)]
  | copy calls => exact ⟨calls, rfl⟩

theorem HoldsReached.member (holds : HoldsReached node) (key : StdString) :
    Reached (node.member key) := by
  unfold Node.member
  cases found : node.map.lookup key with
  | none => exact reached_empty
  | some child => exact holds.members _ (OrderedMap.mem_of_lookup found)

theorem HoldsReached.update (holds : HoldsReached node) (content : Content)
    (order : List StdString) {f : Option Node → Node} (changed : Reached (f (node.map.lookup key))) :
    HoldsReached ⟨content, node.vec, OrderedMap.update key f node.map, order⟩ := by
  refine ⟨holds.items, ?_⟩
  intro entry entryMem
  rcases OrderedMap.mem_update entryMem with old | new
  · exact holds.members entry old
  · rw [new]
    exact changed

theorem HoldsReached.push (holds : HoldsReached node) (val : Given) :
    HoldsReached (node.push val.data) := by
  refine ⟨?_, holds.members⟩
  intro child childMem
  rcases List.mem_append.mp childMem with old | new
  · exact holds.items child old
  · rw [List.mem_singleton.mp new]
    exact reached_empty.assign val

theorem HoldsReached.lookup (holds : HoldsReached node) (key : StdString) (calls : List Call) :
    HoldsReached (node.after ((node.touch key).map fun touched =>
      touched.withMember key (Node.performAll calls (touched.member key)))) := by
  cases touches : node.touch key with
  | error _ => exact holds
  | ok touched =>
      have holdsTouched : HoldsReached touched := by
        rw [eq_of_touch touches]
        exact holds.update .object _ (f := fun old => old.getD empty) (holds.member key)
      exact holdsTouched.update _ _ (f := fun _ => Node.performAll calls (touched.member key))
        ((holdsTouched.member key).performAll calls)

theorem HoldsReached.item (holds : HoldsReached node) (index : UInt32) (calls : List Call) :
    HoldsReached (node.after ((node.item index).map fun child =>
      node.withItem index.toNat (Node.performAll calls child))) := by
  cases finds : node.item index with
  | error _ => exact holds
  | ok child =>
      have childMem : child ∈ node.vec := by
        unfold Node.item at finds
        split at finds
        · rename_i itemAt
          rw [← Except.ok.inj finds]
          exact List.mem_of_getElem? itemAt
        · simp at finds
      refine ⟨?_, holds.members⟩
      intro other otherMem
      rcases List.mem_or_eq_of_mem_set otherMem with old | new
      · exact holds.items other old
      · rw [new]
        exact (holds.items child childMem).performAll calls

theorem HoldsReached.set (holds : HoldsReached node) (key : StdString) (val : Given) :
    HoldsReached (node.after (node.set key val.data)) := by
  cases sets : node.set key val.data with
  | error _ => exact holds
  | ok next =>
      rw [after, eq_of_set sets]
      exact holds.update .object _ (f := fun old => (old.getD empty).assign val.data)
        ((holds.member key).assign val)

theorem HoldsReached.add (holds : HoldsReached node) (val : Given) :
    HoldsReached (node.after (node.add val.data)) := by
  cases adds : node.add val.data with
  | error _ => exact holds
  | ok next =>
      rw [after, eq_of_add adds]
      exact holds.push val

theorem holdsReached_empty : HoldsReached empty :=
  ⟨by simp [empty, ofType], by simp [empty, ofType]⟩

mutual

/-- A call keeps every node in a node one that calls lead to. -/
theorem holdsReached_perform : ∀ (call : Call) {node : Node},
    HoldsReached node → HoldsReached (perform call node)
  | .lookup key calls, _, holds => holds.lookup key calls
  | .item index calls, _, holds => holds.item index calls
  | .set key val, _, holds => holds.set key val
  | .add val, _, holds => holds.add val
  | .addNull, node, holds => by
      rw [perform, addNull_eq_add]
      exact holds.add (.copy [])
  | .assign (.primitive _), _, holds => ⟨holds.items, holds.members⟩
  | .assign (.copy calls), _, _ => holdsReached_performAll calls holdsReached_empty
  | .setType _, _, holds => ⟨holds.items, holds.members⟩

theorem holdsReached_performAll : ∀ (calls : List Call) {node : Node},
    HoldsReached node → HoldsReached (performAll calls node)
  | [], _, holds => holds
  | call :: calls, _, holds => holdsReached_performAll calls (holdsReached_perform call holds)

end

theorem holdsReached_made (calls : List Call) : HoldsReached (made calls) :=
  holdsReached_performAll calls holdsReached_empty

/-! ## The text of an object -/

variable (library : Library)

/-- `Write` goes through the list of keys and writes the node under each. -/
theorem write_object {node : Node} (isObject : node.content = .object) :
    node.write library = 123 :: [44].intercalate (node.mapOrder.map fun key =>
      JSON.memberText key ((node.member key).write library)) ++ [125] := by
  rcases node with ⟨content, vec, map, mapOrder⟩
  rw [show content = .object from isObject, write]
  have texts : ∀ key, ((writeMap library map).lookup key).getD (ascii "null") =
      (member ⟨.object, vec, map, mapOrder⟩ key).write library := by
    intro key
    rw [writeMap_eq_map, OrderedMap.lookup_map, member]
    cases map.lookup key <;> rfl
  simp only [texts]

/-- An assigned value is written as itself, whatever the node was before. -/
theorem write_assign (old : Node) (val : Data) :
    (old.assign val).write library = (empty.assign val).write library := by
  cases val with
  | primitive val => rfl
  | node child => rfl

/--
The list of keys has the keys of the map, each once, in the order in which they were first stored,
and an object is written member by member in that order, each with what was stored last. The text
is that of a `Write` that ends, as it does within the reach of its counters.
-/
structure Ordered (ledger : Ledger) (node : Node) : Prop where
  nodup : node.mapOrder.Nodup
  keys : ∀ key, key ∈ node.mapOrder ↔ key ∈ node.map.map Prod.fst
  order : node.mapOrder = ledger.keys
  written : node.content = .object →
    node.write library = 123 :: [44].intercalate (ledger.keys.map fun key =>
      JSON.memberText key ((ledger.last key).write library)) ++ [125]

theorem Keeps.ordered {ledger : Ledger} {node : Node} (keeps : Keeps ledger node) :
    Ordered library ledger node := by
  refine ⟨?_, ?_, keeps.order, ?_⟩
  · rw [keeps.order]
    exact OrderedMap.nodup_eraseDups _
  · intro key
    rw [keeps.order, Ledger.keys, List.mem_eraseDups, ← keeps.known_iff,
      OrderedMap.lookup_isSome_iff_mem]
  · intro isObject
    simp only [write_object library isObject, keeps.order, keeps.member_eq]

/-- A node and all nodes in it keep the list of keys in step with the map, whatever was called. -/
theorem made_ordered (calls : List Call) :
    Ordered library (storesOf calls) (made calls) ∧ HoldsReached (made calls) :=
  ⟨(keeps_made calls).ordered library, holdsReached_made calls⟩

/-- A key that comes again keeps its place, also behind a call that throws. -/
example : (made [.set (ascii "b") (.primitive (.bool true)), .lookup (ascii "a") [],
    .add (.copy []), .set (ascii "b") (.primitive (.integer 2))]).mapOrder =
      [ascii "b", ascii "a"] := by
  decide

end Poolserver.Node
