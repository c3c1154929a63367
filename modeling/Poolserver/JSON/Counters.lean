import Poolserver.JSON.Literals

/-!
# The counters of the writer

`Write` counts the items of an array, and `EscapeString` the characters of a string, in 32 bits;
the members of an object are counted in 64 bits. A counter that cannot reach the length it is
compared with starts over, and the writer never ends. Within the reach of its counters the writer
ends with the text that the reader undoes.
-/

namespace Poolserver

namespace JSON

/--
The loop of `Write` over the items of an array, from an index on, given what their calls of
`Write` end with; the fuel bounds the number of its turns.
-/
def itemsLoop (texts : List (Option StdString)) : ℕ → UInt32 → Option StdString
  | 0, _ => none
  | fuel + 1, i =>
      match texts[i.toNat]? with
      | none => some []
      | some text => do
          let item ← text
          let rest ← itemsLoop texts fuel (i + 1)
          return (if i = 0 then [] else ascii ", ") ++ item ++ rest

end JSON

namespace Node

variable (library : Library) (fuel : ℕ)

mutual

/-- `JSON::Write`, where each of its loops with 32 bits takes so many turns at most. -/
def writeWithin : Node → Option StdString
  | ⟨.null, _, _, _⟩ => some (ascii "null")
  | ⟨.primitive (.string val), _, _, _⟩ => JSON.writeString fuel val
  | ⟨.primitive val, _, _, _⟩ => some (JSON.primitiveText library val)
  | ⟨.array, vec, _, _⟩ =>
      (JSON.itemsLoop (writeAllWithin vec) fuel 0).map fun items => 91 :: items ++ [93]
  | ⟨.object, _, map, mapOrder⟩ =>
      let texts := writeMapWithin map
      -- the loop over the keys has a counter of 64 bits
      let members := mapOrder.mapM fun key =>
        ((texts.lookup key).getD (some (ascii "null"))).map (JSON.memberText key)
      members.map fun members => 123 :: [44].intercalate members ++ [125]

def writeAllWithin : List Node → List (Option StdString)
  | [] => []
  | node :: nodes => writeWithin node :: writeAllWithin nodes

def writeMapWithin : List (StdString × Node) → List (StdString × Option StdString)
  | [] => []
  | (key, node) :: map => (key, writeWithin node) :: writeMapWithin map

end

/-- `JSON::ToString`, likewise. -/
def toTextWithin (node : Node) : Option StdString :=
  (node.writeWithin library fuel).map fun json =>
    if json.head? = some 91 then 123 :: json ++ [125] else json

theorem writeAllWithin_eq_map (nodes : List Node) :
    writeAllWithin library fuel nodes = nodes.map (writeWithin library fuel) := by
  induction nodes with
  | nil => rfl
  | cons node nodes ih => rw [writeAllWithin, ih, List.map_cons]

theorem writeMapWithin_eq_map (map : List (StdString × Node)) :
    writeMapWithin library fuel map =
      map.map fun entry => (entry.1, entry.2.writeWithin library fuel) := by
  induction map with
  | nil => rfl
  | cons entry map ih => rw [writeMapWithin, ih, List.map_cons]

end Node

/-! ## What the loops count -/

namespace JSON

mutual

/--
No array has `2 ^ 32` items or more, and no string so many characters, where a quote and an
apostrophe count twice.
-/
def Countable : JSON → Prop
  | .null => True
  | .bool _ => True
  | .integer _ => True
  | .double _ => True
  | .string val => val.length + val.countP (fun ch => ch = 34 ∨ ch = 39) < 2 ^ 32
  | .array items => items.length < 2 ^ 32 ∧ CountableAll items
  | .object members => CountableMembers members

def CountableAll : List JSON → Prop
  | [] => True
  | item :: items => Countable item ∧ CountableAll items

def CountableMembers : List (StdString × JSON) → Prop
  | [] => True
  | (_, value) :: members => Countable value ∧ CountableMembers members

end

theorem countableAll_iff {items : List JSON} :
    CountableAll items ↔ ∀ item ∈ items, item.Countable := by
  induction items with
  | nil => simp [CountableAll]
  | cons item items ih => rw [CountableAll, ih, List.forall_mem_cons]

theorem countableMembers_iff {members : List (StdString × JSON)} :
    CountableMembers members ↔ ∀ member ∈ members, member.2.Countable := by
  induction members with
  | nil => simp [CountableMembers]
  | cons member members ih => rw [CountableMembers, ih, List.forall_mem_cons]

/-- The items from an index on as they are written, with a separator in front of all but the first. -/
def separated (i : UInt32) (items : List StdString) : StdString :=
  if i = 0 then (ascii ", ").intercalate items else items.flatMap fun item => ascii ", " ++ item

theorem separated_cons {i : UInt32} {item : StdString} {items : List StdString} (next : i + 1 ≠ 0) :
    separated i (item :: items) =
      (if i = 0 then [] else ascii ", ") ++ item ++ separated (i + 1) items := by
  rw [separated, separated, if_neg next]
  split
  · rw [JSONReader.intercalate_cons, List.nil_append]
  · rw [List.flatMap_cons]

/-- A counter that is below a length of less than `2 ^ 32` is counted up without a wrap. -/
theorem toNat_next {i : UInt32} {length : ℕ} (below : i.toNat < length) (small : length < 2 ^ 32) :
    (i + 1).toNat = i.toNat + 1 ∧ i + 1 ≠ 0 := by
  have next : (i + 1).toNat = i.toNat + 1 := by
    rw [UInt32.toNat_add, UInt32.toNat_one]
    exact Nat.mod_eq_of_lt (by omega)
  refine ⟨next, fun zero => ?_⟩
  rw [zero, UInt32.toNat_zero] at next
  omega

/-- The loop ends only where its counter reaches the number of items. -/
theorem length_of_itemsLoop {texts : List (Option StdString)} {fuel : ℕ} {i : UInt32}
    {result : StdString} (ends : itemsLoop texts fuel i = some result) :
    texts.length < 2 ^ 32 := by
  induction fuel generalizing i result with
  | zero => cases ends
  | succ fuel ih =>
      unfold itemsLoop at ends
      split at ends
      · rename_i behind
        rw [List.getElem?_eq_none_iff] at behind
        exact behind.trans_lt i.toNat_lt
      · simp only [Option.bind_eq_bind, Option.bind_eq_some_iff] at ends
        rcases ends with ⟨item, _, rest, restEnds, _⟩
        exact ih restEnds

/-- The loop writes the items that are left, each of which has been written. -/
theorem itemsLoop_eq_some {texts : List (Option StdString)} {fuel : ℕ} {i : UInt32}
    {result : StdString} (ends : itemsLoop texts fuel i = some result) :
    ∃ items, texts.drop i.toNat = items.map some ∧ result = separated i items := by
  have small := length_of_itemsLoop ends
  induction fuel generalizing i result with
  | zero => cases ends
  | succ fuel ih =>
      unfold itemsLoop at ends
      split at ends
      · rename_i behind
        rw [List.getElem?_eq_none_iff] at behind
        refine ⟨[], List.drop_eq_nil_of_le behind, ?_⟩
        rw [← Option.some.inj ends, separated]
        split <;> rfl
      · rename_i text textAt
        rcases List.getElem?_eq_some_iff.mp textAt with ⟨below, found⟩
        rcases toNat_next below small with ⟨next, nonzero⟩
        simp only [Option.bind_eq_bind, Option.bind_eq_some_iff] at ends
        rcases ends with ⟨item, isItem, rest, restEnds, resultEq⟩
        rcases ih restEnds with ⟨items, left, restEq⟩
        refine ⟨item :: items, ?_, ?_⟩
        · rw [List.drop_eq_getElem_cons below, found, isItem, ← next, left, List.map_cons]
        · rw [separated_cons nonzero, ← restEq]
          exact (Option.some.inj resultEq).symm

theorem exists_itemsLoop {items : List StdString} (small : items.length < 2 ^ 32) {fuel : ℕ}
    {i : UInt32} (enough : items.length - i.toNat < fuel) :
    ∃ result, itemsLoop (items.map some) fuel i = some result := by
  induction fuel generalizing i with
  | zero => omega
  | succ fuel ih =>
      unfold itemsLoop
      split
      · exact ⟨[], rfl⟩
      · rename_i text textAt
        rcases List.getElem?_eq_some_iff.mp textAt with ⟨below, found⟩
        rw [List.length_map] at below
        rw [List.getElem_map] at found
        rcases toNat_next below small with ⟨next, _⟩
        rcases ih (i := i + 1) (by omega) with ⟨rest, restEnds⟩
        rw [← found, restEnds]
        exact ⟨_, rfl⟩

theorem itemsLoop_of_length_lt {items : List StdString} (small : items.length < 2 ^ 32) {fuel : ℕ}
    (enough : items.length < fuel) :
    itemsLoop (items.map some) fuel 0 = some ((ascii ", ").intercalate items) := by
  rcases exists_itemsLoop small (i := 0) ((Nat.sub_le _ _).trans_lt enough) with ⟨result, ends⟩
  rcases itemsLoop_eq_some ends with ⟨written, left, resultEq⟩
  rw [UInt32.toNat_zero, List.drop_zero] at left
  have same := (List.map_injective_iff.mpr (Option.some_injective _)) left
  rw [ends, resultEq, separated, if_pos rfl, same]

theorem countable_string {val : StdString} :
    (JSON.string val).Countable ↔ (escapeString val).length < 2 ^ 32 := by
  rw [length_escapeString, Countable]

theorem countable_quoteless {val : StdString} (quoteless : Quoteless val) :
    (JSON.string val).Countable ↔ val.length < 2 ^ 32 := by
  rw [countable_string, JSONReader.escapeString_quoteless quoteless]

end JSON

/-! ## What the writer ends with -/

section Results

variable {α β : Type} {f : α → Option β} {items : List α}

theorem mapM_eq_some {results : List β} :
    items.mapM f = some results ↔ items.map f = results.map some := by
  induction items generalizing results with
  | nil => cases results <;> simp
  | cons item items ih =>
      simp only [List.mapM_cons, Option.bind_eq_bind, Option.bind_eq_some_iff, List.map_cons]
      constructor
      · rintro ⟨result, isResult, others, rest, same⟩
        rw [← Option.some.inj same, List.map_cons, isResult, ih.mp rest]
      · intro same
        rcases results with _ | ⟨result, others⟩
        · cases same
        · rw [List.map_cons, List.cons.injEq] at same
          exact ⟨result, same.1, others, ih.mpr same.2, rfl⟩

/-- Where each item has a result only if it is good, a list of results says so of all items. -/
theorem eq_map_of_map_eq {results : List β} {g : α → β} {Good : α → Prop}
    (same : items.map f = results.map some)
    (each : ∀ item ∈ items, ∀ result, f item = some result → Good item ∧ result = g item) :
    (∀ item ∈ items, Good item) ∧ results = items.map g := by
  induction items generalizing results with
  | nil =>
      rw [List.map_nil, eq_comm, List.map_eq_nil_iff] at same
      exact ⟨fun _ absent => (List.not_mem_nil absent).elim, same⟩
  | cons item items ih =>
      rcases results with _ | ⟨result, others⟩
      · cases same
      · rw [List.map_cons, List.map_cons, List.cons.injEq] at same
        rcases each item List.mem_cons_self result same.1 with ⟨good, isResult⟩
        rcases ih same.2 fun other inside => each other (List.mem_cons_of_mem _ inside) with
          ⟨allGood, others⟩
        exact ⟨List.forall_mem_cons.mpr ⟨good, allGood⟩, by rw [isResult, others, List.map_cons]⟩

end Results

namespace Node

variable {library : Library} {fuel : ℕ}

theorem lookup_writeMapWithin (map : List (StdString × Node)) (key : StdString) :
    (writeMapWithin library fuel map).lookup key =
      (map.lookup key).map (writeWithin library fuel) := by
  rw [writeMapWithin_eq_map, OrderedMap.lookup_map]

/-- What is written for a key, where its node is written only with a good text. -/
theorem member_eq_some {map : List (StdString × Node)} {key : StdString} {result : StdString}
    (members : ∀ entry ∈ map, ∀ {text}, entry.2.writeWithin library fuel = some text →
      entry.2.json.Countable ∧ text = entry.2.write library)
    (isResult : (((writeMapWithin library fuel map).lookup key).getD
      (some (ascii "null"))).map (JSON.memberText key) = some result) :
    (((map.lookup key).map json).getD .null).Countable ∧
      result = JSON.memberText key (((writeMap library map).lookup key).getD (ascii "null")) := by
  rw [lookup_writeMapWithin, Option.map_eq_some_iff] at isResult
  rcases isResult with ⟨text, isText, rfl⟩
  rw [writeMap_eq_map, OrderedMap.lookup_map]
  cases found : map.lookup key with
  | none =>
      rw [found] at isText
      exact ⟨trivial, by rw [← Option.some.inj isText]; rfl⟩
  | some child =>
      rw [found] at isText
      rcases members (key, child) (OrderedMap.mem_of_lookup found) isText with ⟨countable, rfl⟩
      exact ⟨countable, rfl⟩

theorem member_of_countable {map : List (StdString × Node)} {key : StdString}
    (members : ∀ entry ∈ map, entry.2.json.Countable →
      entry.2.writeWithin library fuel = some (entry.2.write library))
    (small : (((map.lookup key).map json).getD .null).Countable) :
    (((writeMapWithin library fuel map).lookup key).getD (some (ascii "null"))).map
        (JSON.memberText key) =
      some (JSON.memberText key (((writeMap library map).lookup key).getD (ascii "null"))) := by
  rw [lookup_writeMapWithin, writeMap_eq_map, OrderedMap.lookup_map]
  cases found : map.lookup key with
  | none => rfl
  | some child =>
      rw [found] at small
      have written := members (key, child) (OrderedMap.mem_of_lookup found) small
      simp only [Option.map_some, Option.getD_some] at written ⊢
      rw [written, Option.map_some]

/-- Where the writer ends, the counters have reached what they count, and the text is `Write`'s. -/
theorem writeWithin_eq_some {node : Node} {text : StdString}
    (written : node.writeWithin library fuel = some text) :
    node.json.Countable ∧ text = node.write library := by
  induction node using inductionOn generalizing text with
  | step node items members =>
      rcases node with ⟨content, vec, map, mapOrder⟩
      cases content with
      | null => exact ⟨trivial, (Option.some.inj written).symm⟩
      | primitive val =>
          cases val with
          | string val =>
              rcases JSON.writeString_eq_some written with ⟨small, isText⟩
              exact ⟨JSON.countable_string.mpr small, isText⟩
          | bool val => exact ⟨trivial, (Option.some.inj written).symm⟩
          | integer val => exact ⟨trivial, (Option.some.inj written).symm⟩
          | double bits => exact ⟨trivial, (Option.some.inj written).symm⟩
      | array =>
          rw [writeWithin, writeAllWithin_eq_map, Option.map_eq_some_iff] at written
          rcases written with ⟨text, ends, rfl⟩
          have small := JSON.length_of_itemsLoop ends
          rcases JSON.itemsLoop_eq_some ends with ⟨texts, left, rfl⟩
          rw [UInt32.toNat_zero, List.drop_zero] at left
          rcases eq_map_of_map_eq left fun child inside _ => items child inside with
            ⟨countable, rfl⟩
          rw [List.length_map] at small
          refine ⟨?_, ?_⟩
          · rw [json_array rfl, JSON.Countable, List.length_map, JSON.countableAll_iff,
              List.forall_mem_map]
            exact ⟨small, countable⟩
          · rw [write, writeAll_eq_map, JSON.separated, if_pos rfl]
      | object =>
          simp only [writeWithin, Option.map_eq_some_iff] at written
          rcases written with ⟨texts, ends, rfl⟩
          rw [mapM_eq_some] at ends
          rcases eq_map_of_map_eq ends fun key _ _ => member_eq_some members with
            ⟨countable, rfl⟩
          refine ⟨?_, by rw [write]⟩
          rw [json_object rfl, JSON.Countable, JSON.countableMembers_iff, List.forall_mem_map]
          exact countable

/-- Within the reach of its counters the writer ends, after `2 ^ 32` turns of each loop at most. -/
theorem writeWithin_of_countable {node : Node} (countable : node.json.Countable)
    (enough : 2 ^ 32 ≤ fuel) : node.writeWithin library fuel = some (node.write library) := by
  induction node using inductionOn with
  | step node items members =>
      rcases node with ⟨content, vec, map, mapOrder⟩
      cases content with
      | null => rfl
      | primitive val =>
          cases val with
          | string val =>
              have small := JSON.countable_string.mp countable
              exact JSON.writeString_of_lt small ((JSON.length_le_escapeString val).trans_lt
                (small.trans_le enough))
          | bool val => rfl
          | integer val => rfl
          | double bits => rfl
      | array =>
          rw [json_array rfl, JSON.Countable, List.length_map, JSON.countableAll_iff,
            List.forall_mem_map] at countable
          have texts : vec.map (writeWithin library fuel) =
              (vec.map (write library)).map some := by
            rw [List.map_map]
            exact List.map_congr_left fun child inside => items child inside (countable.2 child inside)
          have ends := @JSON.itemsLoop_of_length_lt (vec.map (write library))
            (by rw [List.length_map]; exact countable.1) _
            (by rw [List.length_map]; exact countable.1.trans_le enough)
          rw [writeWithin, writeAllWithin_eq_map, texts, ends, write, writeAll_eq_map]
          rfl
      | object =>
          rw [json_object rfl, JSON.Countable, JSON.countableMembers_iff,
            List.forall_mem_map] at countable
          have ends : mapOrder.mapM (fun key =>
              (((writeMapWithin library fuel map).lookup key).getD (some (ascii "null"))).map
                (JSON.memberText key)) = some (mapOrder.map fun key =>
              JSON.memberText key (((writeMap library map).lookup key).getD (ascii "null"))) := by
            rw [mapM_eq_some, List.map_map]
            exact List.map_congr_left fun key keyMem => member_of_countable members
              (countable key keyMem)
          simp only [writeWithin, ends, Option.map_some, write]

theorem toTextWithin_eq_some {node : Node} {text : StdString}
    (written : node.toTextWithin library fuel = some text) :
    node.json.Countable ∧ text = node.toText library := by
  rw [toTextWithin, Option.map_eq_some_iff] at written
  rcases written with ⟨json, written, rfl⟩
  rcases writeWithin_eq_some written with ⟨countable, rfl⟩
  exact ⟨countable, rfl⟩

theorem toTextWithin_of_countable {node : Node} (countable : node.json.Countable)
    (enough : 2 ^ 32 ≤ fuel) : node.toTextWithin library fuel = some (node.toText library) := by
  rw [toTextWithin, writeWithin_of_countable countable enough, Option.map_some, toText]

/-- The writer ends exactly within the reach of its counters. -/
theorem exists_toTextWithin_iff {node : Node} :
    (∃ fuel text, node.toTextWithin library fuel = some text) ↔ node.json.Countable := by
  constructor
  · rintro ⟨fuel, text, written⟩
    exact (toTextWithin_eq_some written).1
  · exact fun countable => ⟨2 ^ 32, _, toTextWithin_of_countable countable le_rfl⟩

/-! ## The round trip -/

/-- The writer ends, and the reader makes the same value of what it has written. -/
def RoundTrips (library : Library) (node : Node) : Prop :=
  ∃ fuel text read, node.toTextWithin library fuel = some text ∧
    fromString library text = some (.ok read) ∧ read.json = node.json

/--
An object that the operations of the class build, without numbers in floating point and without
quotes in its strings and keys, is written and read back exactly if the counters of the writer can
count its strings and arrays: with the same members in the same order, at every level.
-/
theorem roundTrips_iff (documented : library.Documented) {node : Node} (built : node.Built)
    (isObject : node.content = .object) (plain : node.json.Plain) :
    RoundTrips library node ↔ node.json.Countable := by
  constructor
  · rintro ⟨fuel, text, _, written, _⟩
    exact exists_toTextWithin_iff.mp ⟨fuel, text, written⟩
  · intro countable
    rcases fromString_toText documented built isObject plain with ⟨read, parsed, same⟩
    exact ⟨2 ^ 32, _, read, toTextWithin_of_countable countable le_rfl, parsed, same⟩

/-- An object with a key that was set twice, and a list of an empty object and a number. -/
def Sample.written : Node :=
  (((ofType .object).put (ascii "b") (.primitive (.integer (-7)))).put (ascii "a")
    (.node (((ofType .array).push (.node (ofType .object))).push (.primitive (.integer 0))))).put
      (ascii "b") (.primitive (.string (ascii "x y")))

theorem Sample.written_built : Sample.written.Built := by
  have object : Built (ofType .object) := .ofType (by simp)
  have array : Built (ofType .array) := .ofType (by simp)
  have one : Built ((ofType .array).push (.node (ofType .object))) :=
    array.add (by rintro child ⟨⟩; exact object) rfl
  have list : Built (((ofType .array).push (.node (ofType .object))).push
      (.primitive (.integer 0))) :=
    one.add (by simp) rfl
  have first : Built ((ofType .object).put (ascii "b") (.primitive (.integer (-7)))) :=
    object.set (by simp) rfl
  have second : Built (((ofType .object).put (ascii "b") (.primitive (.integer (-7)))).put
      (ascii "a") (.node (((ofType .array).push (.node (ofType .object))).push
        (.primitive (.integer 0))))) :=
    first.set (by rintro child ⟨⟩; exact list) rfl
  unfold Sample.written
  exact second.set (by simp) rfl

theorem roundTrips_sample :
    Sample.written.toText Sample.library =
        ascii "\x7b\"b\":\"x y\",\"a\":[\x7b\x7d, 0]\x7d" ∧
      RoundTrips Sample.library Sample.written := by
  have shown : Sample.written.json = .object [(ascii "b", .string (ascii "x y")),
      (ascii "a", .array [.object [], .integer 0])] := by
    rfl
  have quoteless : JSON.Quoteless (ascii "b") ∧ JSON.Quoteless (ascii "x y") ∧
      JSON.Quoteless (ascii "a") := by
    unfold JSON.Quoteless
    decide
  have plain : Sample.written.json.Plain := by
    rw [shown]
    exact ⟨quoteless.1, quoteless.2.1, quoteless.2.2, ⟨trivial, trivial, trivial⟩, trivial⟩
  have countable : Sample.written.json.Countable := by
    rw [shown]
    have string : (JSON.string (ascii "x y")).Countable := JSON.countable_string.mpr (by decide)
    exact ⟨string, ⟨by decide, trivial, trivial, trivial⟩, trivial⟩
  exact ⟨by decide +kernel, (roundTrips_iff Sample.library_documented Sample.written_built rfl
    plain).mpr countable⟩

/-- An object with a string of that length. -/
def Sample.long (length : ℕ) : Node :=
  (ofType .object).put (ascii "a") (.primitive (.string (List.replicate length 120)))

theorem Sample.long_built (length : ℕ) : (Sample.long length).Built := by
  have object : Built (ofType .object) := .ofType (by simp)
  exact object.set (by simp) rfl

theorem Sample.long_plain (length : ℕ) : (Sample.long length).json.Plain := by
  have key : JSON.Quoteless (ascii "a") := by
    unfold JSON.Quoteless
    decide
  have string : JSON.Quoteless (List.replicate length 120) := by
    constructor
    · exact fun quote => absurd (List.eq_of_mem_replicate quote) (by decide)
    · exact fun quote => absurd (List.eq_of_mem_replicate quote) (by decide)
  exact ⟨key, string, trivial⟩

theorem Sample.long_uncountable {length : ℕ} (large : 2 ^ 32 ≤ length) :
    ¬(Sample.long length).json.Countable := by
  rintro ⟨countable, _⟩
  have counted := JSON.countable_string.mp countable
  have longer := (JSON.length_le_escapeString (List.replicate length 120)).trans_lt counted
  rw [List.length_replicate] at longer
  omega

/-- The index of `EscapeString` does not get to the end of a string of `2 ^ 32` bytes. -/
theorem exists_not_roundTrips : ¬∀ node : Node, node.Built → node.content = .object →
    node.json.Plain → RoundTrips Sample.library node := by
  intro always
  have built := Sample.long_built (2 ^ 32)
  have plain := Sample.long_plain (2 ^ 32)
  rcases always _ built rfl plain with ⟨fuel, text, _, written, _⟩
  exact Sample.long_uncountable le_rfl (exists_toTextWithin_iff.mp ⟨fuel, text, written⟩)

end Node

end Poolserver
