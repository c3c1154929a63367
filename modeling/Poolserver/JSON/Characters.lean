import Mathlib.Data.Bool.AllAny
import Poolserver.JSON.RoundTrip
import Poolserver.JSON.Whole

/-!
# Values that were read

The strings and keys of a value that was read are pieces of the text that it was read from, and
what is written for a value has no characters but theirs and those of punctuation, words and
numbers. So a value that came out of one line goes into one line. It is in its normal form, and
what the accessors take from it is so too.
-/

namespace Poolserver

/-- A blank or a visible character. -/
def Printable (ch : UInt8) : Prop :=
  32 ≤ ch ∧ ch ≤ 126

instance : DecidablePred Printable :=
  fun ch => inferInstanceAs (Decidable (32 ≤ ch ∧ ch ≤ 126))

/-- What a stream writes for a `double` has no line breaks and other such characters. -/
def Library.PrintsDoubles (library : Library) : Prop :=
  ∀ bits, ∀ ch ∈ library.doubleText bits, Printable ch

namespace JSON

mutual

/-- The characters of the strings and keys of a value. -/
def characters : JSON → List UInt8
  | .null => []
  | .bool _ => []
  | .integer _ => []
  | .double _ => []
  | .string val => val
  | .array items => charactersAll items
  | .object members => charactersMembers members

def charactersAll : List JSON → List UInt8
  | [] => []
  | item :: items => characters item ++ charactersAll items

def charactersMembers : List (StdString × JSON) → List UInt8
  | [] => []
  | (key, value) :: members => key ++ characters value ++ charactersMembers members

end

variable {ch : UInt8}

theorem mem_charactersAll {items : List JSON} :
    ch ∈ charactersAll items ↔ ∃ item ∈ items, ch ∈ item.characters := by
  induction items with
  | nil => simp [charactersAll]
  | cons item items ih => simp [charactersAll, ih]

theorem mem_charactersMembers {members : List (StdString × JSON)} :
    ch ∈ charactersMembers members ↔
      ∃ member ∈ members, ch ∈ member.1 ∨ ch ∈ member.2.characters := by
  induction members with
  | nil => simp [charactersMembers]
  | cons member members ih => simp [charactersMembers, ih, or_assoc]

/-! ## The accessors -/

theorem characters_member {node value : JSON} {key : StdString}
    (found : node.member key = .ok value) : value.characters ⊆ node.characters := by
  intro ch chMem
  unfold member at found
  split at found
  · rename_i members
    injection found with same
    subst same
    cases lookupEq : members.lookup key with
    | none => simp [lookupEq, characters] at chMem
    | some value =>
        rw [lookupEq] at chMem
        exact mem_charactersMembers.mpr ⟨_, OrderedMap.mem_of_lookup lookupEq, .inr chMem⟩
  · injection found with same
    subst same
    cases chMem
  · cases found

mutual

theorem characters_normalize : ∀ value : JSON, value.normalize.characters ⊆ value.characters
  | .null => fun _ => id
  | .bool _ => fun _ => id
  | .integer _ => fun _ => id
  | .double _ => fun _ => id
  | .string _ => fun _ => id
  | .array items => characters_normalizeAll items
  | .object members => by
      intro ch chMem
      rw [normalize, characters, mem_charactersMembers] at chMem
      rcases chMem with ⟨member, memberMem, chMem⟩
      apply characters_normalizeMembers members
      rw [mem_charactersMembers]
      exact ⟨member, OrderedMap.collapse_subset memberMem, chMem⟩

theorem characters_normalizeAll : ∀ items : List JSON,
    charactersAll (normalizeAll items) ⊆ charactersAll items
  | [] => fun _ => id
  | item :: items => by
      intro ch chMem
      rw [normalizeAll, charactersAll, List.mem_append] at chMem
      rw [charactersAll, List.mem_append]
      exact chMem.imp (characters_normalize item ·) (characters_normalizeAll items ·)

theorem characters_normalizeMembers : ∀ members : List (StdString × JSON),
    charactersMembers (normalizeMembers members) ⊆ charactersMembers members
  | [] => fun _ => id
  | (key, value) :: members => by
      intro ch chMem
      rw [normalizeMembers, charactersMembers, List.mem_append, List.mem_append] at chMem
      rw [charactersMembers, List.mem_append, List.mem_append]
      exact chMem.imp (Or.imp id (characters_normalize value ·))
        (characters_normalizeMembers members ·)

end

/-! ## The normal form -/

theorem nodup_keys_collapse (members : List (StdString × JSON)) :
    ((OrderedMap.collapse members).map Prod.fst).Nodup := by
  rw [OrderedMap.collapse_eq_map .null, List.map_map]
  have keys : Prod.fst ∘ (fun key => (key, (members.reverse.lookup key).getD .null)) = id := rfl
  rw [keys, List.map_id]
  exact OrderedMap.nodup_eraseDups _

/-- An object of different keys whose values are in their normal form. -/
theorem normalize_object {members : List (StdString × JSON)}
    (nodup : (members.map Prod.fst).Nodup)
    (normal : ∀ member ∈ members, member.2.normalize = member.2) :
    (JSON.object members).normalize = .object members := by
  have kept : ∀ member ∈ members, (member.1, member.2.normalize) = member := by
    intro member memberMem
    rw [normal member memberMem]
  rw [normalize, normalizeMembers_eq_map, List.map_congr_left kept, List.map_id',
    OrderedMap.collapse_of_nodup nodup]

theorem normalize_array {items : List JSON} (normal : ∀ item ∈ items, item.normalize = item) :
    (JSON.array items).normalize = .array items := by
  rw [normalize, normalizeAll_eq_map, List.map_congr_left normal, List.map_id']

mutual

theorem normalize_normalize : ∀ value : JSON, value.normalize.normalize = value.normalize
  | .null => rfl
  | .bool _ => rfl
  | .integer _ => rfl
  | .double _ => rfl
  | .string _ => rfl
  | .array items => normalize_array (normalize_of_mem_all items)
  | .object members => by
      apply normalize_object
      · exact nodup_keys_collapse _
      · intro member memberMem
        exact normalize_of_mem_members members member (OrderedMap.collapse_subset memberMem)

theorem normalize_of_mem_all : ∀ items : List JSON,
    ∀ item ∈ normalizeAll items, item.normalize = item
  | [] => by simp [normalizeAll]
  | first :: items => by
      intro item itemMem
      rcases List.mem_cons.mp itemMem with rfl | inRest
      · exact normalize_normalize first
      · exact normalize_of_mem_all items item inRest

theorem normalize_of_mem_members : ∀ members : List (StdString × JSON),
    ∀ member ∈ normalizeMembers members, member.2.normalize = member.2
  | [] => by simp [normalizeMembers]
  | (key, value) :: members => by
      intro member memberMem
      rcases List.mem_cons.mp memberMem with rfl | inRest
      · exact normalize_normalize value
      · exact normalize_of_mem_members members member inRest

end

theorem normalize_member {node value : JSON} {key : StdString} (normal : node.normalize = node)
    (found : node.member key = .ok value) : value.normalize = value := by
  unfold member at found
  split at found
  · rename_i members
    injection found with same
    subst same
    cases lookupEq : members.lookup key with
    | none => rfl
    | some value =>
        have memberMem := OrderedMap.mem_of_lookup lookupEq
        rw [normalize, JSON.object.injEq] at normal
        rw [← normal] at memberMem
        exact normalize_of_mem_members members _ (OrderedMap.collapse_subset memberMem)
  · injection found with same
    subst same
    rfl
  · cases found

/-! ## Writing -/

theorem mem_of_mem_intercalate {sep : StdString} {texts : List StdString}
    (chMem : ch ∈ sep.intercalate texts) : ch ∈ sep ∨ ∃ text ∈ texts, ch ∈ text := by
  cases texts with
  | nil => cases chMem
  | cons text texts =>
      rw [JSONReader.intercalate_cons, List.mem_append, List.mem_flatMap] at chMem
      rcases chMem with inFirst | ⟨other, otherMem, inOther⟩
      · exact .inr ⟨text, List.mem_cons_self, inFirst⟩
      · rcases List.mem_append.mp inOther with inSep | inText
        · exact .inl inSep
        · exact .inr ⟨other, List.mem_cons_of_mem _ otherMem, inText⟩

theorem printable_integerText {val : Int64} (chMem : ch ∈ integerText val) : Printable ch := by
  have digits : ∀ {ch}, ch ∈ DecimalText.write val.toInt.natAbs → Printable ch := by
    intro ch chMem
    rcases DecimalText.isDigit_of_mem_write chMem with ⟨low, high⟩
    exact ⟨UInt8.le_trans (by decide) low, UInt8.le_trans high (by decide)⟩
  unfold integerText at chMem
  split at chMem
  · rcases List.mem_cons.mp chMem with rfl | inDigits
    · decide
    · exact digits inDigits
  · exact digits chMem

theorem mem_escapeString {str : StdString} (chMem : ch ∈ escapeString str) :
    Printable ch ∨ ch ∈ str := by
  rcases List.mem_flatMap.mp chMem with ⟨original, originalMem, inEscape⟩
  have table : ∀ pair ∈ escapes, pair.2.all (fun ch => Printable ch) = true :=
    List.all_iff_forall_prop.mp (by decide)
  cases found : escapes.lookup original with
  | none =>
      rw [found, Option.getD_none, List.mem_singleton] at inEscape
      exact .inr (inEscape ▸ originalMem)
  | some text =>
      rw [found, Option.getD_some] at inEscape
      exact .inl (List.all_iff_forall_prop.mp (table _ (OrderedMap.mem_of_lookup found)) ch inEscape)

theorem mem_memberText {key text : StdString} (chMem : ch ∈ memberText key text) :
    Printable ch ∨ ch ∈ key ∨ ch ∈ text := by
  have separator : ∀ ch ∈ ascii "\":", Printable ch :=
    List.all_iff_forall_prop.mp (by decide)
  rw [memberText, List.mem_append, List.mem_append, List.mem_cons] at chMem
  rcases chMem with ((rfl | inKey) | inSeparator) | inText
  · exact .inl (by decide)
  · exact .inr (.inl inKey)
  · exact .inl (separator ch inSeparator)
  · exact .inr (.inr inText)

variable {library : Library}

mutual

/-- What is written for a value is printable where it is not of its strings and keys. -/
theorem mem_write (prints : library.PrintsDoubles) : ∀ value : JSON, ch ∈ value.write library →
    Printable ch ∨ ch ∈ value.characters
  | .null => by
      have table : ∀ ch ∈ ascii "null", Printable ch :=
        List.all_iff_forall_prop.mp (by decide)
      exact fun chMem => .inl (table ch chMem)
  | .bool true => by
      have table : ∀ ch ∈ ascii "true", Printable ch :=
        List.all_iff_forall_prop.mp (by decide)
      exact fun chMem => .inl (table ch chMem)
  | .bool false => by
      have table : ∀ ch ∈ ascii "false", Printable ch :=
        List.all_iff_forall_prop.mp (by decide)
      exact fun chMem => .inl (table ch chMem)
  | .integer _ => fun chMem => .inl (printable_integerText chMem)
  | .double bits => fun chMem => .inl (prints bits ch chMem)
  | .string val => by
      intro chMem
      rw [write, primitiveText, List.mem_append, List.mem_cons, List.mem_singleton] at chMem
      rcases chMem with (rfl | inside) | rfl
      · exact .inl (by decide)
      · exact mem_escapeString inside
      · exact .inl (by decide)
  | .array items => by
      intro chMem
      have separator : ∀ ch ∈ ascii ", ", Printable ch :=
        List.all_iff_forall_prop.mp (by decide)
      rw [write, List.mem_append, List.mem_cons, List.mem_singleton] at chMem
      rcases chMem with (rfl | inside) | rfl
      · exact .inl (by decide)
      · rcases mem_of_mem_intercalate inside with inSeparator | ⟨text, textMem, inText⟩
        · exact .inl (separator ch inSeparator)
        · exact mem_writeAll prints items textMem inText
      · exact .inl (by decide)
  | .object members => by
      intro chMem
      have separator : ∀ ch ∈ ([44] : StdString), Printable ch :=
        List.all_iff_forall_prop.mp (by decide)
      rw [write, List.mem_append, List.mem_cons, List.mem_singleton] at chMem
      rcases chMem with (rfl | inside) | rfl
      · exact .inl (by decide)
      · rcases mem_of_mem_intercalate inside with inSeparator | ⟨text, textMem, inText⟩
        · exact .inl (separator ch inSeparator)
        · exact mem_writeMembers prints members textMem inText
      · exact .inl (by decide)

theorem mem_writeAll (prints : library.PrintsDoubles) : ∀ items : List JSON, ∀ {text : StdString},
    text ∈ writeAll library items → ch ∈ text → Printable ch ∨ ch ∈ charactersAll items
  | [] => fun textMem => by cases textMem
  | item :: items => by
      intro textMem chMem
      rw [charactersAll, List.mem_append]
      rcases List.mem_cons.mp textMem with rfl | inRest
      · exact (mem_write prints item chMem).imp id .inl
      · exact (mem_writeAll prints items inRest chMem).imp id .inr

theorem mem_writeMembers (prints : library.PrintsDoubles) :
    ∀ members : List (StdString × JSON), ∀ {text : StdString},
    text ∈ writeMembers library members → ch ∈ text →
      Printable ch ∨ ch ∈ charactersMembers members
  | [] => fun textMem => by cases textMem
  | (key, value) :: members => by
      intro textMem chMem
      rw [charactersMembers, List.mem_append, List.mem_append]
      rcases List.mem_cons.mp textMem with rfl | inRest
      · rcases mem_memberText chMem with printable | inKey | inText
        · exact .inl printable
        · exact .inr (.inl (.inl inKey))
        · exact (mem_write prints value inText).imp id fun inValue => .inl (.inr inValue)
      · exact (mem_writeMembers prints members inRest chMem).imp id .inr

end

/-- `JSON::ToString` for a node that shows a value. -/
def toText (library : Library) (value : JSON) : StdString :=
  let json := value.write library
  if json.head? = some 91 then 123 :: json ++ [125] else json

theorem mem_toText (prints : library.PrintsDoubles) {value : JSON}
    (chMem : ch ∈ value.toText library) : Printable ch ∨ ch ∈ value.characters := by
  simp only [toText] at chMem
  split at chMem
  · rw [List.mem_append, List.mem_cons, List.mem_singleton] at chMem
    rcases chMem with (rfl | inside) | rfl
    · exact .inl (by decide)
    · exact mem_write prints value inside
    · exact .inl (by decide)
  · exact mem_write prints value chMem

theorem toText_json (library : Library) (node : Node) :
    node.toText library = node.json.toText library := by
  rw [Node.toText, JSON.toText, Node.write_eq]

/-- What is written for an object is read as the object, without the keys that come twice. -/
theorem fromString_object (documented : library.Documented) {members : List (StdString × JSON)}
    (plain : (JSON.object members).Plain) :
    ∃ read, Node.fromString library ((JSON.object members).toText library) = some (.ok read) ∧
      read.json = (JSON.object members).normalize := by
  rcases JSONReader.parse_write documented plain with ⟨read, parsed, same⟩
  exact ⟨read, parsed, same⟩

end JSON

/-! ## Reading -/

namespace JSONReader

open Spirit

variable {library : Library} {value : JSON} {input rest : Input}

theorem string_within {str : StdString} (found : string library input = some (str, rest)) :
    str ⊆ input := by
  intro ch chMem
  have content := (quoted_iff.mp found).1
  have inside : ch ∈ input.dropWhile library.space := by
    rw [content]
    simp [chMem]
  exact List.dropWhile_suffix _ |>.subset inside

/-- The strings and keys of a value are pieces of the text that it is derived from. -/
theorem characters_of_value (documented : library.Documented)
    (derives : Value library value input rest) : value.characters ⊆ input := by
  have bounded : ∀ bound input value rest, input.length < bound →
      Value library value input rest → value.characters ⊆ input := by
    intro bound
    induction bound with
    | zero => exact fun _ _ _ short => absurd short (Nat.not_lt_zero _)
    | succ bound ih =>
        intro input value rest short derives
        cases derives with
        | object opens derives =>
            intro ch chMem
            have opened := lit_consumes opens
            rcases JSON.mem_charactersMembers.mp chMem with ⟨member, memberMem, inMember⟩
            have consumes : ∀ input member rest,
                Pair library (Value library) member input rest → Consumes input rest := by
              intro input member rest derives
              exact pair_consumes (fun _ _ _ _ => value_consumes documented) derives
                (Nat.lt_succ_self _)
            rcases derives.within consumes (fun _ _ _ => lit_consumes) member memberMem with
              ⟨behind, middle, pair, suffix⟩
            have outside := suffix.trans opened.1
            rcases pair with ⟨name, separates, derives⟩
            have toInner := (string_consumes name).trans (lit_consumes separates)
            rcases inMember with inKey | inValue
            · exact outside.subset (string_within name inKey)
            · apply outside.subset
              apply toInner.1.subset
              have shorter := Nat.lt_of_lt_of_le toInner.2 suffix.length_le
              exact ih _ _ _ (by have := opened.2; omega) derives inValue
        | array opens derives =>
            intro ch chMem
            have opened := lit_consumes opens
            rcases JSON.mem_charactersAll.mp chMem with ⟨item, itemMem, inItem⟩
            rcases derives.within (fun _ _ _ => value_consumes documented)
              (fun _ _ _ => lit_consumes) item itemMem with ⟨behind, middle, derives, suffix⟩
            apply (suffix.trans opened.1).subset
            have shorter := suffix.length_le
            exact ih _ _ _ (by have := opened.2; omega) derives inItem
        | simple derives =>
            cases derives with
            | string found => exact string_within found
            | double found => exact List.nil_subset _
            | integer noDouble found => exact List.nil_subset _
            | boolTrue found => exact List.nil_subset _
            | boolFalse found => exact List.nil_subset _
            | null found => exact List.nil_subset _
  exact bounded _ _ _ _ (Nat.lt_succ_self _) derives

end JSONReader

/-- The strings and keys of a node that was read are pieces of the text. -/
theorem Node.characters_of_fromString {library : Library} (documented : library.Documented)
    {text : StdString} {node : Node} (read : fromString library text = some (.ok node)) :
    node.json.characters ⊆ text := by
  rcases fromString_cases documented text with
    ⟨value, rest, found, derives, _, returns, shown⟩ | ⟨_, exception, throws⟩
  · rw [read, Option.some.injEq, Except.ok.injEq] at returns
    rw [returns, shown]
    intro ch chMem
    have inValue := JSON.characters_normalize value chMem
    cases derives with
    | object derives => exact JSONReader.characters_of_value documented derives inValue
    | array derives => exact JSONReader.characters_of_value documented derives inValue
  · rw [read] at throws
    cases throws

/-- A node that was read shows a value in its normal form. -/
theorem Node.normalize_of_fromString {library : Library} (documented : library.Documented)
    {text : StdString} {node : Node} (read : fromString library text = some (.ok node)) :
    node.json.normalize = node.json := by
  rcases fromString_cases documented text with
    ⟨value, rest, found, _, _, returns, shown⟩ | ⟨_, exception, throws⟩
  · rw [read, Option.some.injEq, Except.ok.injEq] at returns
    rw [returns, shown]
    exact JSON.normalize_normalize value
  · rw [read] at throws
    cases throws

end Poolserver
