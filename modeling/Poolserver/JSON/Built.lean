import Poolserver.JSON.Tree

/-!
# Nodes that the class can build

The operations of `JSON` keep the list of keys in step with the map. A node that they build
shows a value whose objects have different keys, which is its own normal form.
-/

namespace Poolserver.Node

/-! ## Access by reference -/

/-- `JSON::operator[](std::string)`, which makes sure that the key has a node. -/
def touch (node : Node) (key : StdString) : Except StdException Node :=
  match node.content with
  | .object | .null => .ok
      { node with
        content := .object
        mapOrder := OrderedMap.track (node.map.lookup key).isSome key node.mapOrder
        map := OrderedMap.update key (fun old => old.getD empty) node.map }
  | _ => .error (.json (ascii "Node is not an object type"))

/-- What is left when the node under a key was changed through its reference. -/
def withMember (node : Node) (key : StdString) (child : Node) : Node :=
  { node with map := OrderedMap.update key (fun _ => child) node.map }

/-- What is left when the node at a position was changed through its reference. -/
def withItem (node : Node) (position : ℕ) (child : Node) : Node :=
  { node with vec := node.vec.set position child }

section Returns

variable {node next : Node} {key : StdString} {val : Data}

theorem eq_of_add (adds : node.add val = .ok next) : next = node.push val := by
  unfold add at adds
  split at adds
  · exact (Except.ok.inj adds).symm
  · exact (Except.ok.inj adds).symm
  · simp at adds

theorem eq_of_set (sets : node.set key val = .ok next) : next = node.put key val := by
  unfold set at sets
  split at sets
  · exact (Except.ok.inj sets).symm
  · exact (Except.ok.inj sets).symm
  · simp at sets

theorem eq_of_touch (touches : node.touch key = .ok next) :
    next = ⟨.object, node.vec, OrderedMap.update key (fun old => old.getD empty) node.map,
      OrderedMap.track (node.map.lookup key).isSome key node.mapOrder⟩ := by
  unfold touch at touches
  split at touches
  · exact (Except.ok.inj touches).symm
  · exact (Except.ok.inj touches).symm
  · simp at touches

end Returns

/-- The nodes that the operations of the class build from new ones. -/
inductive Built : Node → Prop where
  | ofType {content : Content} (structured : ∀ val, content ≠ .primitive val) :
      Built (ofType content)
  | setType {node : Node} {content : Content} (built : Built node)
      (structured : ∀ val, content ≠ .primitive val) : Built { node with content }
  | assign {node : Node} (val : JSONValue) (built : Built node) :
      Built (node.assign (.primitive val))
  | add {node next : Node} {val : Data} (built : Built node)
      (copied : ∀ child, val = .node child → Built child) (adds : node.add val = .ok next) :
      Built next
  | set {node next : Node} {key : StdString} {val : Data} (built : Built node)
      (copied : ∀ child, val = .node child → Built child) (sets : node.set key val = .ok next) :
      Built next
  | touch {node next : Node} {key : StdString} (built : Built node)
      (touches : node.touch key = .ok next) : Built next
  | withMember {node child : Node} {key : StdString} (built : Built node) (changed : Built child)
      (known : (node.map.lookup key).isSome = true) : Built (node.withMember key child)
  | withItem {node child : Node} {position : ℕ} (built : Built node) (changed : Built child) :
      Built (node.withItem position child)

/-! ## The order list and the map -/

/-- The list of keys has the keys of the map, each once, at every level. -/
inductive Consistent : Node → Prop where
  | mk {node : Node} (nodup : node.mapOrder.Nodup)
      (keys : ∀ key, key ∈ node.mapOrder ↔ (node.map.lookup key).isSome = true)
      (items : ∀ child ∈ node.vec, Consistent child)
      (members : ∀ entry ∈ node.map, Consistent entry.2) : Consistent node

variable {node child : Node} {key : StdString}

theorem Consistent.of_lookup (consistent : Consistent node)
    (found : node.map.lookup key = some child) : Consistent child := by
  rcases consistent with ⟨_, _, _, members⟩
  exact members _ (OrderedMap.mem_of_lookup found)

/-- A new value under a key, where the order list is told of it. -/
theorem Consistent.updated (consistent : Consistent node) (content : Content)
    (f : Option Node → Node) (changed : Consistent (f (node.map.lookup key))) :
    Consistent ⟨content, node.vec, OrderedMap.update key f node.map,
      OrderedMap.track (node.map.lookup key).isSome key node.mapOrder⟩ := by
  rcases consistent with ⟨nodup, keys, items, members⟩
  refine ⟨?_, ?_, items, ?_⟩
  · cases known : (node.map.lookup key).isSome with
    | true => exact nodup
    | false =>
        have absent : key ∉ node.mapOrder := by
          rw [keys, known]
          exact Bool.false_ne_true
        exact List.nodup_append.mpr ⟨nodup, by simp, by
          intro other otherMem same sameMem equal
          rw [List.mem_singleton] at sameMem
          exact absent (sameMem ▸ equal ▸ otherMem)⟩
  · intro other
    rw [OrderedMap.lookup_update]
    cases known : (node.map.lookup key).isSome with
    | true =>
        by_cases same : other = key
        · subst same
          simp [OrderedMap.track, keys, known]
        · simp [OrderedMap.track, keys, same]
    | false =>
        by_cases same : other = key
        · subst same
          simp [OrderedMap.track]
        · simp [OrderedMap.track, keys, same]
  · intro entry entryMem
    rcases OrderedMap.mem_update entryMem with old | new
    · exact members entry old
    · rw [new]
      exact changed

theorem Consistent.withContent (consistent : Consistent node) (content : Content) :
    Consistent { node with content } := by
  rcases consistent with ⟨nodup, keys, items, members⟩
  exact ⟨nodup, keys, items, members⟩

theorem Consistent.assigned (consistent : Consistent node) {val : Data}
    (copied : ∀ child, val = .node child → Consistent child) : Consistent (node.assign val) := by
  cases val with
  | primitive val => exact consistent.withContent (.primitive val)
  | node child => exact copied child rfl

theorem Consistent.ofType (content : Content) : Consistent (ofType content) :=
  ⟨by simp [Node.ofType], by simp [Node.ofType], by simp [Node.ofType], by simp [Node.ofType]⟩

theorem Consistent.pushed (consistent : Consistent node) {val : Data}
    (copied : ∀ child, val = .node child → Consistent child) : Consistent (node.push val) := by
  rcases consistent with ⟨nodup, keys, items, members⟩
  refine ⟨nodup, keys, ?_, members⟩
  intro child childMem
  rcases List.mem_append.mp childMem with old | new
  · exact items child old
  · rw [List.mem_singleton] at new
    rw [new]
    exact (Consistent.ofType .null).assigned copied

theorem Consistent.getD (consistent : Consistent node) (key : StdString) :
    Consistent ((node.map.lookup key).getD empty) := by
  cases found : node.map.lookup key with
  | none => exact .ofType .null
  | some child => exact consistent.of_lookup found

/-- Every operation keeps the order list in step with the map. -/
theorem Built.consistent (built : Built node) : Consistent node := by
  induction built with
  | ofType _ => exact .ofType _
  | setType _ _ ih => exact ih.withContent _
  | assign val _ ih => exact ih.withContent (.primitive val)
  | @add node next val _ _ adds ih copied =>
      rw [eq_of_add adds]
      exact ih.pushed copied
  | @set node next key val _ _ sets ih copied =>
      rw [eq_of_set sets]
      exact ih.updated .object (fun old => (old.getD empty).assign val) ((ih.getD key).assigned copied)
  | @touch node next key _ touches ih =>
      rw [eq_of_touch touches]
      exact ih.updated .object (fun old => old.getD empty) (ih.getD key)
  | @withMember node child key _ _ known ih changed =>
      have updated : Consistent ⟨node.content, node.vec,
          OrderedMap.update key (fun _ => child) node.map,
          OrderedMap.track (node.map.lookup key).isSome key node.mapOrder⟩ :=
        ih.updated node.content (fun _ => child) changed
      rw [known] at updated
      exact updated
  | withItem _ _ ih changed =>
      rcases ih with ⟨nodup, keys, items, members⟩
      refine ⟨nodup, keys, ?_, members⟩
      intro other otherMem
      rcases List.mem_or_eq_of_mem_set otherMem with old | new
      · exact items other old
      · exact new ▸ changed

/-- What is shown of a consistent node has different keys in every object. -/
theorem Consistent.normalize_json (consistent : Consistent node) :
    node.json.normalize = node.json := by
  induction consistent with
  | @mk node nodup keys _ _ items members =>
      rcases node with ⟨content, vec, map, mapOrder⟩
      cases content with
      | null => rfl
      | primitive val => cases val <;> rfl
      | array =>
          rw [json_array rfl, JSON.normalize, JSON.normalizeAll_eq_map, List.map_map]
          congr 1
          apply List.map_congr_left
          intro child childMem
          exact items child childMem
      | object =>
          rw [json_object rfl, JSON.normalize, JSON.normalizeMembers_eq_map, List.map_map]
          have same : mapOrder.map ((fun member : StdString × JSON =>
              (member.1, member.2.normalize)) ∘ fun key =>
                (key, ((map.lookup key).map json).getD .null)) =
              mapOrder.map fun key => (key, ((map.lookup key).map json).getD .null) := by
            apply List.map_congr_left
            intro key keyMem
            rcases Option.isSome_iff_exists.mp ((keys key).mp keyMem) with ⟨child, found⟩
            have childNormal : child.json.normalize = child.json :=
              members (key, child) (OrderedMap.mem_of_lookup found)
            simp [show map.lookup key = some child from found, childNormal]
          rw [same, OrderedMap.collapse_of_nodup]
          rw [List.map_map]
          exact nodup.map Function.injective_id

end Poolserver.Node
