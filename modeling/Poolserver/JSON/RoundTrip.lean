import Poolserver.JSON.Actions
import Poolserver.JSON.Built

/-!
# Writing, then reading

What `ToString` writes for an object is a text that the grammar derives the same object from,
if it holds no number in floating point and no string or key with a quote. The white space
that the writer puts between the items of an array is skipped, and a string is taken as it
stands, whatever it holds besides quotes.
-/

namespace Poolserver

namespace JSON

/-- A string without double and single quotes. -/
def Quoteless (str : StdString) : Prop :=
  34 ∉ str ∧ 39 ∉ str

mutual

/-- Built from null, bool, integers, strings without quotes, arrays and objects. -/
def Plain : JSON → Prop
  | .null => True
  | .bool _ => True
  | .integer _ => True
  | .double _ => False
  | .string val => Quoteless val
  | .array items => PlainAll items
  | .object members => PlainMembers members

def PlainAll : List JSON → Prop
  | [] => True
  | item :: items => Plain item ∧ PlainAll items

def PlainMembers : List (StdString × JSON) → Prop
  | [] => True
  | (key, value) :: members => Quoteless key ∧ Plain value ∧ PlainMembers members

end

variable (library : Library)

mutual

/-- What is written for a value that a node shows. -/
def write : JSON → StdString
  | .null => ascii "null"
  | .bool val => primitiveText library (.bool val)
  | .integer val => primitiveText library (.integer val)
  | .double bits => primitiveText library (.double bits)
  | .string val => primitiveText library (.string val)
  | .array items => 91 :: (ascii ", ").intercalate (writeAll items) ++ [93]
  | .object members => 123 :: [44].intercalate (writeMembers members) ++ [125]

def writeAll : List JSON → List StdString
  | [] => []
  | item :: items => write item :: writeAll items

def writeMembers : List (StdString × JSON) → List StdString
  | [] => []
  | (key, value) :: members => memberText key (write value) :: writeMembers members

end

theorem writeAll_eq_map (items : List JSON) :
    writeAll library items = items.map (write library) := by
  induction items with
  | nil => rfl
  | cons item items ih => rw [writeAll, ih, List.map_cons]

theorem writeMembers_eq_map (members : List (StdString × JSON)) :
    writeMembers library members =
      members.map fun member => memberText member.1 (member.2.write library) := by
  induction members with
  | nil => rfl
  | cons member members ih => rw [writeMembers, ih, List.map_cons]

end JSON

/-! ## A node is written as what it shows -/

namespace Node

variable (library : Library)

mutual

theorem write_eq : ∀ node : Node, node.write library = node.json.write library
  | ⟨.null, _, _, _⟩ => rfl
  | ⟨.primitive val, _, _, _⟩ => by cases val <;> rfl
  | ⟨.array, vec, _, _⟩ => by rw [write, json, JSON.write, writeAll_eq vec]
  | ⟨.object, _, map, mapOrder⟩ => by
      rw [write, json, JSON.write, JSON.writeMembers_eq_map, List.map_map]
      congr 4
      funext key
      simp only [Function.comp_apply, writeMap_eq map, OrderedMap.lookup_map]
      cases (jsonMap map).lookup key <;> rfl

theorem writeAll_eq : ∀ nodes : List Node,
    writeAll library nodes = JSON.writeAll library (jsonAll nodes)
  | [] => rfl
  | node :: nodes => by rw [writeAll, jsonAll, JSON.writeAll, write_eq node, writeAll_eq nodes]

theorem writeMap_eq : ∀ map : List (StdString × Node),
    writeMap library map =
      (jsonMap map).map fun entry => (entry.1, entry.2.write library)
  | [] => rfl
  | (key, node) :: map => by rw [writeMap, jsonMap, List.map_cons, write_eq node, writeMap_eq map]

end

end Node

/-! ## What is written is derived -/

namespace JSONReader

open Spirit

variable {library : Library}

theorem intercalate_cons (sep text : StdString) (texts : List StdString) :
    sep.intercalate (text :: texts) = text ++ texts.flatMap fun other => sep ++ other := by
  induction texts generalizing text with
  | nil => simp [List.intercalate]
  | cons other texts ih =>
      rw [List.intercalate_cons_cons, ih, List.flatMap_cons]
      simp only [List.append_assoc]

theorem dropWhile_visible (documented : library.Documented) {ch : UInt8} (rest : Input)
    (visible : 33 ≤ ch ∧ ch ≤ 126) : (ch :: rest).dropWhile library.space = ch :: rest := by
  have noSpace := documented.space_visible ch visible.1 visible.2
  rw [List.dropWhile_cons_of_neg (by simp [noSpace])]

theorem lit_self (documented : library.Documented) {ch : UInt8} (rest : Input)
    (visible : 33 ≤ ch ∧ ch ≤ 126) : lit library ch (ch :: rest) = some (ch, rest) :=
  lit_iff.mpr ⟨rfl, dropWhile_visible documented rest visible⟩

/-- A text that no number goes on with. -/
def Closing (rest : Input) : Prop :=
  ∃ ch behind, rest = ch :: behind ∧ ch ∈ ([44, 93, 125] : List UInt8)

theorem longLong_integerText {val : Int64} {rest : Input} (closing : Closing rest) :
    longLong (JSON.integerText val ++ rest) = some (val, rest) := by
  have ends : ∀ ch, rest.head? = some ch → ¬DecimalText.IsDigit ch := by
    rcases closing with ⟨closer, behind, rfl, isCloser⟩
    intro ch isHead
    injection isHead with same
    subst same
    have table : ∀ ch ∈ ([44, 93, 125] : List UInt8), ¬DecimalText.IsDigit ch := by
      decide +kernel
    exact table closer isCloser
  have digits := DecimalText.takeWhile_write_append val.toInt.natAbs ends
  have behind := DecimalText.dropWhile_write_append val.toInt.natAbs ends
  have written := DecimalText.write_ne_nil val.toInt.natAbs
  have low := Int64.le_toInt val
  have high := Int64.toInt_lt val
  unfold JSON.integerText
  split
  · rename_i negative
    have negativeInt : val.toInt < 0 := by
      simpa using Int64.lt_iff_toInt_lt.mp negative
    have signed : sign (45 :: DecimalText.write val.toInt.natAbs ++ rest) =
        (true, DecimalText.write val.toInt.natAbs ++ rest) := rfl
    have number : -(val.toInt.natAbs : ℤ) = val.toInt := by omega
    simp only [longLong, signed, digits, behind, DecimalText.value_write, if_true, number]
    rw [if_pos ⟨written, low, high⟩, Int64.ofInt_toInt]
  · rename_i nonnegative
    have nonnegativeInt : 0 ≤ val.toInt := by
      simpa using Int64.le_iff_toInt_le.mp (Int64.not_lt.mp nonnegative)
    have unsigned : sign (DecimalText.write val.toInt.natAbs ++ rest) =
        (false, DecimalText.write val.toInt.natAbs ++ rest) := by
      rcases List.exists_cons_of_ne_nil written with ⟨ch, others, isCons⟩
      have isDigit : DecimalText.IsDigit ch :=
        DecimalText.isDigit_of_mem_write (isCons ▸ List.mem_cons_self)
      have noMinus : ch ≠ 45 := by rintro rfl; revert isDigit; decide
      have noPlus : ch ≠ 43 := by rintro rfl; revert isDigit; decide
      rw [isCons, List.cons_append, sign, if_neg noMinus, if_neg noPlus]
    have number : (val.toInt.natAbs : ℤ) = val.toInt := by omega
    simp only [longLong, unsigned, digits, behind, DecimalText.value_write, number,
      Bool.false_eq_true, if_false]
    rw [if_pos ⟨written, low, high⟩, Int64.ofInt_toInt]

theorem strictDouble_integerText (documented : library.Documented) {val : Int64} {rest : Input}
    (closing : Closing rest) : library.strictDouble (JSON.integerText val ++ rest) = none := by
  rcases closing with ⟨ch, behind, rfl, isCloser⟩
  have table : ∀ ch ∈ ([44, 93, 125] : List UInt8),
      ¬DecimalText.IsDigit ch ∧ ch ∉ ([46, 69, 101] : List UInt8) := by
    decide +kernel
  rcases table ch isCloser with ⟨noDigit, noPoint⟩
  have written := DecimalText.write_ne_nil val.toInt.natAbs
  have digits : ∀ digit ∈ DecimalText.write val.toInt.natAbs, DecimalText.IsDigit digit :=
    fun _ => DecimalText.isDigit_of_mem_write
  unfold JSON.integerText
  split
  · exact documented.strictDouble_integer [45] _ ch behind (.inr rfl) written digits noDigit noPoint
  · exact documented.strictDouble_integer [] _ ch behind (.inl rfl) written digits noDigit noPoint

theorem string_quoteless {str : StdString} {input rest : Input} (quoteless : JSON.Quoteless str)
    (begins : input.dropWhile library.space = 34 :: str ++ 34 :: rest) :
    string library input = some (str, rest) := by
  rw [string, skipped, begins]
  exact quoted_iff.mpr ⟨rfl, quoteless.1⟩

theorem escapeString_quoteless {str : StdString} (quoteless : JSON.Quoteless str) :
    JSON.escapeString str = str := by
  have kept : ∀ ch ∈ str, (JSON.escapes.lookup ch).getD [ch] = [ch] := by
    intro ch chMem
    have noDouble : (ch == 34) = false :=
      beq_eq_false_iff_ne.mpr fun same => quoteless.1 (same ▸ chMem)
    have noSingle : (ch == 39) = false :=
      beq_eq_false_iff_ne.mpr fun same => quoteless.2 (same ▸ chMem)
    have noEscape : JSON.escapes.lookup ch = none := by
      simp only [JSON.escapes, List.lookup_cons, noDouble, noSingle, List.lookup_nil]
    rw [noEscape]
    rfl
  rw [JSON.escapeString, List.flatMap_congr kept]
  exact List.flatMap_singleton' str

/-- A value is read back from what is written for it. -/
def ReadsBack (library : Library) (value : JSON) : Prop :=
  ∀ input rest, input.dropWhile library.space = value.write library ++ rest →
    (∀ val, value = .integer val → Closing rest) → Value library value input rest

/-- What is written for a value begins with a character that is no space. -/
theorem write_begins (library : Library) {value : JSON} (plain : value.Plain) :
    ∃ ch behind, value.write library = ch :: behind ∧ 33 ≤ ch ∧ ch ≤ 126 := by
  cases value with
  | null => exact ⟨_, _, rfl, by decide⟩
  | bool val => cases val <;> exact ⟨_, _, rfl, by decide⟩
  | integer val =>
      have written := DecimalText.write_ne_nil val.toInt.natAbs
      rcases List.exists_cons_of_ne_nil written with ⟨ch, others, isCons⟩
      have isDigit : DecimalText.IsDigit ch :=
        DecimalText.isDigit_of_mem_write (isCons ▸ List.mem_cons_self)
      by_cases negative : val < 0
      · refine ⟨45, DecimalText.write val.toInt.natAbs, ?_, by decide⟩
        simp only [JSON.write, JSON.primitiveText, JSON.integerText, if_pos negative]
      · refine ⟨ch, others, ?_, ?_⟩
        · simp only [JSON.write, JSON.primitiveText, JSON.integerText, if_neg negative, isCons]
        · have low : (33 : UInt8) ≤ 48 := by decide
          have high : (57 : UInt8) ≤ 126 := by decide
          exact ⟨UInt8.le_trans low isDigit.1, UInt8.le_trans isDigit.2 high⟩
  | double bits => exact plain.elim
  | string val => exact ⟨_, _, rfl, by decide⟩
  | array items => exact ⟨_, _, rfl, by decide⟩
  | object members => exact ⟨_, _, rfl, by decide⟩

theorem dropWhile_write (documented : library.Documented) {value : JSON} (plain : value.Plain)
    (rest : Input) :
    (value.write library ++ rest).dropWhile library.space = value.write library ++ rest := by
  rcases write_begins library plain with ⟨ch, behind, begins, visible⟩
  rw [begins]
  exact dropWhile_visible documented (behind ++ rest) visible

theorem plain_of_mem {items : List JSON} (plain : JSON.PlainAll items) :
    ∀ item ∈ items, item.Plain := by
  induction items with
  | nil => simp
  | cons first items ih =>
      intro item itemMem
      rcases List.mem_cons.mp itemMem with rfl | inRest
      · exact plain.1
      · exact ih plain.2 item inRest

theorem plain_of_mem_members {members : List (StdString × JSON)}
    (plain : JSON.PlainMembers members) :
    ∀ member ∈ members, JSON.Quoteless member.1 ∧ member.2.Plain := by
  induction members with
  | nil => simp
  | cons first members ih =>
      intro member memberMem
      rcases List.mem_cons.mp memberMem with rfl | inRest
      · exact ⟨plain.1, plain.2.1⟩
      · exact ih plain.2.2 member inRest

/-- The items behind the first: each with its comma and its space. -/
theorem tail_readsBack (documented : library.Documented) {items : List JSON}
    (reads : ∀ item ∈ items, ReadsBack library item ∧ item.Plain) (rest : Input) :
    Tail (comma library) (lit library 93) (Value library) items
      ((items.flatMap fun item => ascii ", " ++ item.write library) ++ 93 :: rest) rest := by
  induction items with
  | nil => exact .close (lit_self documented rest (by decide))
  | cons item items ih =>
      have first := reads item List.mem_cons_self
      have others := ih fun other otherMem => reads other (List.mem_cons_of_mem _ otherMem)
      have separator : ascii ", " = [44, 32] := rfl
      simp only [List.flatMap_cons, List.append_assoc, separator, List.cons_append,
        List.nil_append] at others ⊢
      refine .item (lit_self documented _ (by decide)) (first.1 _ _ ?_ ?_) others
      · rw [List.dropWhile_cons_of_pos documented.space_blank]
        exact dropWhile_write documented first.2 _
      · intro val _
        cases items with
        | nil => exact ⟨_, _, rfl, by decide⟩
        | cons next items => exact ⟨_, _, rfl, by decide⟩

theorem array_readsBack (documented : library.Documented) {items : List JSON}
    (reads : ∀ item ∈ items, ReadsBack library item ∧ item.Plain) :
    ReadsBack library (.array items) := by
  intro input rest begins _
  rw [JSON.write, JSON.writeAll_eq_map, List.cons_append, List.cons_append, List.append_assoc,
    List.singleton_append] at begins
  refine .array (lit_iff.mpr ⟨rfl, begins⟩) ?_
  cases items with
  | nil => exact .empty (lit_self documented rest (by decide))
  | cons item items =>
      have first := reads item List.mem_cons_self
      have others := tail_readsBack documented
        (fun other otherMem => reads other (List.mem_cons_of_mem _ otherMem)) rest
      rw [List.map_cons, intercalate_cons, List.flatMap_map, List.append_assoc]
      refine .items (first.1 _ _ (dropWhile_write documented first.2 _) ?_) others
      intro val _
      cases items with
      | nil => exact ⟨_, _, rfl, by decide⟩
      | cons next items => exact ⟨_, _, rfl, by decide⟩

theorem pair_readsBack (documented : library.Documented) {member : StdString × JSON}
    {rest : Input} (quoteless : JSON.Quoteless member.1) (plain : member.2.Plain)
    (reads : ReadsBack library member.2) (closing : Closing rest) :
    Pair library (Value library) member
      (JSON.memberText member.1 (member.2.write library) ++ rest) rest := by
  rcases member with ⟨key, value⟩
  have isCons : JSON.memberText key (value.write library) ++ rest =
      34 :: key ++ 34 :: (58 :: (value.write library ++ rest)) := by
    simp only [JSON.memberText, List.append_assoc, List.cons_append]
    rfl
  rw [isCons]
  refine .mk (string_quoteless quoteless ?_) (lit_self documented _ (by decide))
    (reads _ _ (dropWhile_write documented plain rest) fun _ _ => closing)
  exact dropWhile_visible documented _ (by decide)

theorem members_tail_readsBack (documented : library.Documented)
    {members : List (StdString × JSON)}
    (reads : ∀ member ∈ members, ReadsBack library member.2 ∧ JSON.Quoteless member.1 ∧
      member.2.Plain) (rest : Input) :
    Tail (comma library) (lit library 125) (Pair library (Value library)) members
      ((members.flatMap fun member =>
        [44] ++ JSON.memberText member.1 (member.2.write library)) ++ 125 :: rest) rest := by
  induction members with
  | nil => exact .close (lit_self documented rest (by decide))
  | cons member members ih =>
      have first := reads member List.mem_cons_self
      have others := ih fun other otherMem => reads other (List.mem_cons_of_mem _ otherMem)
      rw [List.flatMap_cons, List.append_assoc, List.append_assoc]
      refine .item (lit_self documented _ (by decide))
        (pair_readsBack documented first.2.1 first.2.2 first.1 ?_) others
      cases members with
      | nil => exact ⟨_, _, rfl, by decide⟩
      | cons next members => exact ⟨_, _, rfl, by decide⟩

theorem object_readsBack (documented : library.Documented) {members : List (StdString × JSON)}
    (reads : ∀ member ∈ members, ReadsBack library member.2 ∧ JSON.Quoteless member.1 ∧
      member.2.Plain) : ReadsBack library (.object members) := by
  intro input rest begins _
  rw [JSON.write, JSON.writeMembers_eq_map, List.cons_append, List.cons_append, List.append_assoc,
    List.singleton_append] at begins
  refine .object (lit_iff.mpr ⟨rfl, begins⟩) ?_
  cases members with
  | nil => exact .empty (lit_self documented rest (by decide))
  | cons member members =>
      have first := reads member List.mem_cons_self
      have others := members_tail_readsBack documented
        (fun other otherMem => reads other (List.mem_cons_of_mem _ otherMem)) rest
      rw [List.map_cons, intercalate_cons, List.flatMap_map, List.append_assoc]
      refine .items (pair_readsBack documented first.2.1 first.2.2 first.1 ?_) others
      cases members with
      | nil => exact ⟨_, _, rfl, by decide⟩
      | cons next members => exact ⟨_, _, rfl, by decide⟩

mutual

theorem readsBack (documented : library.Documented) : ∀ value : JSON, value.Plain →
    ReadsBack library value
  | .null, _ => fun _ _ begins _ => .simple (.null (word_iff.mpr ⟨rfl, begins⟩))
  | .bool true, _ => fun _ _ begins _ => .simple (.boolTrue (word_iff.mpr ⟨rfl, begins⟩))
  | .bool false, _ => fun _ _ begins _ => .simple (.boolFalse (word_iff.mpr ⟨rfl, begins⟩))
  | .integer val, _ => by
      intro input rest begins closes
      have closing := closes val rfl
      refine .simple (.integer ?_ ?_)
      · rw [strictDouble, skipped, begins]
        exact strictDouble_integerText documented closing
      · rw [integer, skipped, begins]
        exact longLong_integerText closing
  | .double _, plain => plain.elim
  | .string val, plain => by
      intro input rest begins _
      refine .simple (.string (string_quoteless plain ?_))
      rw [begins, JSON.write, JSON.primitiveText, escapeString_quoteless plain]
      simp
  | .array items, plain =>
      array_readsBack documented fun item itemMem =>
        ⟨readsBack_all documented items plain item itemMem, plain_of_mem plain item itemMem⟩
  | .object members, plain =>
      object_readsBack documented fun member memberMem =>
        ⟨readsBack_members documented members plain member memberMem,
          plain_of_mem_members plain member memberMem⟩

theorem readsBack_all (documented : library.Documented) : ∀ items : List JSON,
    JSON.PlainAll items → ∀ item ∈ items, ReadsBack library item
  | [], _ => by simp
  | first :: items, plain => by
      intro item itemMem
      rcases List.mem_cons.mp itemMem with isFirst | inRest
      · rw [isFirst]
        exact readsBack documented first plain.1
      · exact readsBack_all documented items plain.2 item inRest

theorem readsBack_members (documented : library.Documented) :
    ∀ members : List (StdString × JSON), JSON.PlainMembers members →
      ∀ member ∈ members, ReadsBack library member.2
  | [], _ => by simp
  | (key, value) :: members, plain => by
      intro member memberMem
      rcases List.mem_cons.mp memberMem with isFirst | inRest
      · rw [isFirst]
        exact readsBack documented value plain.2.1
      · exact readsBack_members documented members plain.2.2 member inRest

end

/-- What is written for an object is read as the object in its normal form. -/
theorem parse_write (documented : library.Documented) {members : List (StdString × JSON)}
    (plain : (JSON.object members).Plain) :
    ∃ read, parse library ((JSON.object members).write library) Node.empty = some (.ok read) ∧
      read.json = (JSON.object members).normalize := by
  have begins := dropWhile_write documented plain []
  have derives : Json library (.object members) ((JSON.object members).write library) [] := by
    refine .object (readsBack documented _ plain _ [] ?_ fun val isInteger => nomatch isInteger)
    simpa only [List.append_nil] using begins
  rcases parse_cases documented ((JSON.object members).write library) with
    ⟨found, rest, _, unique, parsed⟩ | ⟨refused, _⟩
  · rcases unique _ _ derives with ⟨rfl, rfl⟩
    refine ⟨_, by rw [parse, parsed]; rfl, ?_⟩
    exact Node.shows_data (.object members) Node.empty
  · exact absurd derives (refused _ _)

end JSONReader

/-! ## The round trip -/

namespace Node

open JSONReader

variable {library : Library} {node : Node}

/--
Every object that the operations of the class build, without numbers in floating point and
without quotes in its strings and keys, is read back from what `ToString` writes, if it ends:
with the same members in the same order, at every level.
-/
theorem fromString_toText (documented : library.Documented) (built : node.Built)
    (isObject : node.content = .object) (plain : node.json.Plain) :
    ∃ read, fromString library (node.toText library) = some (.ok read) ∧ read.json = node.json := by
  have shown := json_object isObject
  have normal := built.consistent.normalize_json
  have begins : (node.write library).head? = some 123 := by
    rw [write_eq, shown]
    rfl
  have text : node.toText library = node.json.write library := by
    rw [toText, begins, if_neg (by decide), write_eq]
  rw [shown] at plain
  rcases parse_write documented plain with ⟨read, parsed, same⟩
  refine ⟨read, ?_, ?_⟩
  · rw [fromString, text, shown]
    exact parsed
  · rw [same, ← shown, normal]

end Node

end Poolserver
