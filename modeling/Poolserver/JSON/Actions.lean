import Poolserver.JSON.Grammar
import Poolserver.JSON.Tree

/-!
# The semantic actions follow the derivation

An action runs as soon as its parser matches and is not undone when an alternative is
abandoned. What is abandoned with a trace begins with a bracket or, in an object, with the
quote of a key: behind it no bracket can close, so that the whole text is refused. On a text
that is accepted the actions are those of its derivation.
-/

namespace Poolserver.JSONReader

open Spirit

namespace SemanticFunctions

variable {s : SemanticFunctions} {top : Node} {below : List Node}

/-- The state after a value was stored. -/
def store (s : SemanticFunctions) (val : Data) : SemanticFunctions :=
  (s.setData val).getD s

/-- The top of the stack is an object. -/
def InObject (s : SemanticFunctions) : Prop :=
  ∃ top below, s.stack = top :: below ∧ top.content = .object

/-- The top of the stack is an array. -/
def InArray (s : SemanticFunctions) : Prop :=
  ∃ top below, s.stack = top :: below ∧ top.content = .array

/-- A value can be stored. -/
def Ready (s : SemanticFunctions) : Prop :=
  InArray s ∨ InObject s ∧ s.nameStack ≠ []

theorem setData_object {key : StdString} {names : List StdString} (stack : s.stack = top :: below)
    (isObject : top.content = .object) (namesEq : s.nameStack = key :: names) (val : Data) :
    setData val s = some { s with stack := top.put key val :: below, nameStack := names } := by
  simp [setData, stack, namesEq, isObject, Node.set, Except.toOption]

theorem setData_array (stack : s.stack = top :: below) (isArray : top.content = .array)
    (val : Data) : setData val s = some { s with stack := top.push val :: below } := by
  simp [setData, stack, isArray, Node.add, Except.toOption]

theorem Ready.setData (ready : Ready s) (val : Data) : s.setData val = some (s.store val) := by
  rcases ready with ⟨top, below, stack, isArray⟩ | ⟨⟨top, below, stack, isObject⟩, named⟩
  · rw [store, setData_array stack isArray val]
    rfl
  · rcases List.exists_cons_of_ne_nil named with ⟨key, names, namesEq⟩
    rw [store, setData_object stack isObject namesEq val]
    rfl

theorem Ready.stack_ne_nil (ready : Ready s) : s.stack ≠ [] := by
  rcases ready with ⟨top, below, stack, _⟩ | ⟨⟨top, below, stack, _⟩, _⟩
  · simp [stack]
  · simp [stack]

theorem Ready.top_ne_null (ready : Ready s) (stack : s.stack = top :: below) :
    top.content ≠ .null := by
  rcases ready with ⟨other, others, same, isArray⟩ | ⟨⟨other, others, same, isObject⟩, _⟩
  · rw [stack] at same
    injection same with same _
    simp [same, isArray]
  · rw [stack] at same
    injection same with same _
    simp [same, isObject]

/-- A new node is put on the stack where the top is not null. -/
theorem Ready.beginNode (ready : Ready s) (content : Content) :
    s.beginNode content = some { s with stack := Node.ofType content :: s.stack } := by
  rcases List.exists_cons_of_ne_nil ready.stack_ne_nil with ⟨top, below, stack⟩
  simp [SemanticFunctions.beginNode, stack, ready.top_ne_null stack]

/-- A node that is closed is stored in the one below it. -/
theorem endNode_below {node : Node} (stack : s.stack = node :: below) (nested : below ≠ []) :
    endNode s = setData (.node node) { s with stack := below } := by
  rcases List.exists_cons_of_ne_nil nested with ⟨next, others, rfl⟩
  simp [endNode, stack]

/-- A member of an object: its key is pushed, and taken when its value is stored. -/
def storeMember (s : SemanticFunctions) (member : StdString × JSON) : SemanticFunctions :=
  ({ s with nameStack := member.1 :: s.nameStack } : SemanticFunctions).store member.2.data

def storeItem (s : SemanticFunctions) (item : JSON) : SemanticFunctions :=
  s.store item.data

theorem storeMember_eq (stack : s.stack = top :: below) (isObject : top.content = .object)
    (member : StdString × JSON) :
    s.storeMember member =
      { s with stack := top.put member.1 member.2.data :: below } := by
  have stored := setData_object (s := { s with nameStack := member.1 :: s.nameStack }) stack
    isObject rfl member.2.data
  rw [storeMember, store, stored]
  rfl

theorem storeItem_eq (stack : s.stack = top :: below) (isArray : top.content = .array)
    (item : JSON) : s.storeItem item = { s with stack := top.push item.data :: below } := by
  rw [storeItem, store, setData_array stack isArray]
  rfl

theorem storeMembers_eq (members : List (StdString × JSON)) (stack : s.stack = top :: below)
    (isObject : top.content = .object) :
    members.foldl storeMember s = { s with stack := JSON.putAll members top :: below } := by
  induction members generalizing s top with
  | nil =>
      rw [List.foldl_nil, JSON.putAll, ← stack]
  | cons member members ih =>
      rw [List.foldl_cons, storeMember_eq stack isObject, ih rfl rfl]
      rfl

theorem storeItems_eq (items : List JSON) (stack : s.stack = top :: below)
    (isArray : top.content = .array) :
    items.foldl storeItem s = { s with stack := JSON.pushAll items top :: below } := by
  induction items generalizing s top with
  | nil =>
      rw [List.foldl_nil, JSON.pushAll, ← stack]
  | cons item items ih =>
      rw [List.foldl_cons, storeItem_eq stack isArray, ih rfl rfl]
      rfl

end SemanticFunctions

open SemanticFunctions

/-! ## Texts and derivations -/

section Derivations

variable {library : Library} {input rest : Input} {value : JSON}

/-- A text that begins with a bracket. -/
def Opens (library : Library) (input : Input) : Prop :=
  lit library 123 input ≠ none ∨ lit library 91 input ≠ none

theorem lit_begins {ch : UInt8} (opened : lit library ch input ≠ none) :
    ∃ behind, input.dropWhile library.space = ch :: behind := by
  rcases Option.ne_none_iff_exists'.mp opened with ⟨⟨found, behind⟩, same⟩
  exact ⟨behind, (lit_iff.mp same).2⟩

theorem lit_exclusive {ch other : UInt8} (opened : lit library ch input ≠ none)
    (differs : ch ≠ other) : lit library other input = none := by
  rcases lit_begins opened with ⟨behind, begins⟩
  exact lit_eq_none begins differs

theorem lit_consumes {ch found : UInt8} (matched : lit library ch input = some (found, rest)) :
    Consumes input rest := by
  apply skipped_consumes _ matched
  intro input isChar
  rw [(char_iff.mp isChar).2]
  exact .cons (List.suffix_refl rest)

theorem string_consumes {str : StdString} (matched : string library input = some (str, rest)) :
    Consumes input rest :=
  skipped_consumes (fun _ => quoted_consumes) matched

theorem word_consumes {literal found : StdString} (nonempty : literal ≠ [])
    (matched : word library literal input = some (found, rest)) : Consumes input rest := by
  apply skipped_consumes _ matched
  intro input isText
  rcases List.exists_cons_of_ne_nil nonempty with ⟨ch, others, rfl⟩
  rw [(text_iff.mp isText).2, List.cons_append]
  exact .cons (List.suffix_append others rest)

theorem simple_consumes (documented : library.Documented)
    (derives : Simple library value input rest) : Consumes input rest := by
  cases derives with
  | string found => exact string_consumes found
  | double found =>
      exact skipped_consumes (fun input => documented.strictDouble_consumes input _ _) found
  | integer _ found => exact skipped_consumes (fun _ => longLong_consumes) found
  | boolTrue found => exact word_consumes (by decide) found
  | boolFalse found => exact word_consumes (by decide) found
  | null found => exact word_consumes (by decide) found

theorem pair_consumes {member : StdString × JSON} {Reads : JSON → Input → Input → Prop} {bound : ℕ}
    (reads : ∀ input value rest, input.length < bound → Reads value input rest →
      Consumes input rest)
    (derives : Pair library Reads member input rest) (short : input.length < bound) :
    Consumes input rest := by
  rcases derives with ⟨name, separates, derives⟩
  have toInner := (string_consumes name).trans (lit_consumes separates)
  exact toInner.trans (reads _ _ _ (toInner.2.trans short) derives)

theorem value_consumes (documented : library.Documented)
    (derives : Value library value input rest) : Consumes input rest := by
  have bounded : ∀ bound input value rest, input.length < bound →
      Value library value input rest → Consumes input rest := by
    intro bound
    induction bound with
    | zero => exact fun _ _ _ short => absurd short (Nat.not_lt_zero _)
    | succ bound ih =>
        intro input value rest short derives
        cases derives with
        | object opens derives =>
            have opened := lit_consumes opens
            refine opened.trans (derives.consumes ?_ (fun _ _ _ => lit_consumes)
              (fun _ _ _ => lit_consumes) (Nat.lt_of_lt_of_le opened.2 (Nat.le_of_lt_succ short)))
            exact fun _ _ _ short derives => pair_consumes ih derives short
        | array opens derives =>
            have opened := lit_consumes opens
            exact opened.trans (derives.consumes ih (fun _ _ _ => lit_consumes)
              (fun _ _ _ => lit_consumes) (Nat.lt_of_lt_of_le opened.2 (Nat.le_of_lt_succ short)))
        | simple derives => exact simple_consumes documented derives
  exact bounded _ _ _ _ (Nat.lt_succ_self _) derives

/-- No value begins with a closing bracket. -/
theorem value_not_closing (documented : library.Documented) {ch : UInt8}
    (closing : ch ∈ ([93, 125] : List UInt8)) (derives : Value library value input rest) :
    lit library ch input = none := by
  by_contra closes
  rcases lit_begins closes with ⟨behind, begins⟩
  have table : ∀ ch ∈ ([93, 125] : List UInt8),
      ch ≠ 123 ∧ ch ≠ 91 ∧ ch ∈ ([91, 93, 123, 125] : List UInt8) := by
    decide +kernel
  have differs := table ch closing
  cases derives with
  | object opens _ => simp [lit_eq_none begins differs.1] at opens
  | array opens _ => simp [lit_eq_none begins differs.2.1] at opens
  | simple derives =>
      rw [simple_iff documented, simpleMatcher_of_begins documented begins differs.2.2] at derives
      simp at derives

end Derivations

/-! ## Rules -/

section Rules

variable {library : Library} {rule : Rule} {bound : ℕ}

/-- A rule that reads values, on texts up to a length. -/
def Follows (library : Library) (rule : Rule) (bound : ℕ) : Prop :=
  ∀ s input, s.Ready → input.length < bound →
    Outcome (rule s input) s (fun value => Value library value input)
      (fun value => s.store value.data) (Opens library input)

theorem simple_eq (library : Library) :
    simple library = action (simpleMatcher library) fun value => setData value.data := by
  unfold simple number simpleMatcher
  rw [alt_assoc]
  refine alt_action (fun _ => rfl) ?_
  refine alt_action (fun _ => rfl) ?_
  refine alt_action (fun _ => rfl) ?_
  refine alt_action (fun _ => rfl) ?_
  refine alt_action (fun _ => rfl) ?_
  exact action_firstOf_singleton fun _ => rfl

theorem simple_outcome (documented : library.Documented) {s : SemanticFunctions} (ready : s.Ready)
    (input : Input) :
    Outcome (simple library s input) s (fun value => Simple library value input)
      (fun value => s.store value.data) False := by
  rw [simple_eq]
  have outcome := action_outcome (simpleMatcher library) input
    (fun value rest _ => ready.setData value.data)
  exact outcome.congr (fun value rest => (simple_iff documented).symm) id

theorem simple_fails (documented : library.Documented) {input : Input}
    (opens : Opens library input) :
    (∀ s, simple library s input = some (s, none)) ∧
      ∀ value rest, ¬Simple library value input rest := by
  have noSimple : simpleMatcher library input = none := by
    rcases opens with opened | opened
    · rcases lit_begins opened with ⟨behind, begins⟩
      exact simpleMatcher_of_begins documented begins (by decide)
    · rcases lit_begins opened with ⟨behind, begins⟩
      exact simpleMatcher_of_begins documented begins (by decide)
  refine ⟨fun s => ?_, fun value rest derives => ?_⟩
  · rw [simple_eq, action, noSimple]
  · rw [simple_iff documented, noSimple] at derives
    simp at derives

theorem pair_outcome (follows : Follows library rule bound) {s : SemanticFunctions}
    (inObject : s.InObject) {input : Input} (short : input.length < bound) :
    Outcome (pair library rule s input) s
      (fun member => Pair library (Value library) member input) s.storeMember
      (string library input ≠ none) := by
  have outcome : Outcome (pair library rule s input) s
      (fun member rest => ∃ key middle value, string library input = some (key, middle) ∧
        (∃ ch inner part, colon library middle = some (ch, inner) ∧
          Value library part inner rest ∧ value = part) ∧ member = (key, value))
      s.storeMember (string library input ≠ none) := by
    refine seq_outcome Prod.mk fun key middle name => ?_
    refine ⟨{ s with nameStack := key :: s.nameStack }, colon library middle ≠ none, rfl, ?_⟩
    refine seq_outcome (fun _ value => value) fun ch inner separates => ?_
    refine ⟨_, Opens library inner, rfl, ?_⟩
    have toInner := (string_consumes name).trans (lit_consumes separates)
    exact follows _ inner (.inr ⟨inObject, List.cons_ne_nil _ _⟩) (toInner.2.trans short)
  refine outcome.congr ?_ id
  intro member rest
  constructor
  · rintro ⟨key, middle, value, name, ⟨ch, inner, part, separates, derives, rfl⟩, rfl⟩
    exact ⟨name, separates, derives⟩
  · rintro ⟨name, separates, derives⟩
    exact ⟨_, _, _, name, ⟨_, _, _, separates, derives, rfl⟩, rfl⟩

theorem members_listable (documented : library.Documented) (follows : Follows library rule bound) :
    Listable (pair library rule) (comma library) (lit library 125) (Pair library (Value library))
      InObject storeMember (fun input => string library input ≠ none) bound where
  outcome _ _ inObject short := pair_outcome follows inObject short
  ready_update s member inObject := by
    rcases inObject with ⟨top, below, stack, isObject⟩
    rw [storeMember_eq stack isObject]
    exact ⟨_, _, rfl, rfl⟩
  consumes _ _ _ short derives :=
    pair_consumes (fun _ _ _ _ => value_consumes documented) derives short
  separator_consumes _ _ _ := lit_consumes
  reads_open input member rest derives := by
    rcases derives with ⟨name, _, _⟩
    rcases string_begins name with ⟨behind, begins⟩
    exact lit_eq_none begins (by decide)
  trace_open input traced := by
    rcases Option.ne_none_iff_exists'.mp traced with ⟨⟨str, rest⟩, name⟩
    rcases string_begins name with ⟨behind, begins⟩
    exact lit_eq_none begins (by decide)
  separator_open input ch rest separates :=
    lit_eq_none (lit_iff.mp separates).2 (by decide)

theorem elements_listable (documented : library.Documented)
    (follows : Follows library rule bound) :
    Listable rule (comma library) (lit library 93) (Value library) InArray storeItem
      (Opens library) bound where
  outcome s input inArray short := follows s input (.inl inArray) short
  ready_update s item inArray := by
    rcases inArray with ⟨top, below, stack, isArray⟩
    rw [storeItem_eq stack isArray]
    exact ⟨_, _, rfl, rfl⟩
  consumes _ _ _ _ derives := value_consumes documented derives
  separator_consumes _ _ _ := lit_consumes
  reads_open _ _ _ derives := value_not_closing documented (by decide) derives
  trace_open input opens := by
    rcases opens with brace | bracket
    · exact lit_exclusive brace (by decide)
    · exact lit_exclusive bracket (by decide)
  separator_open input ch rest separates :=
    lit_eq_none (lit_iff.mp separates).2 (by decide)

/-- `object`, from a state where its begin and its end are known. -/
theorem object_outcome (documented : library.Documented) (follows : Follows library rule bound)
    {s begun : SemanticFunctions} (final : JSON → SemanticFunctions) {node : Node}
    {below : List Node} {input : Input} (short : input.length ≤ bound)
    (begins : s.beginNode .object = some begun) (stack : begun.stack = node :: below)
    (isObject : node.content = .object)
    (ends : ∀ members, endNode { begun with stack := JSON.putAll members node :: below } =
      some (final (.object members))) :
    Outcome (object library rule s input) s
      (fun value rest => ∃ ch inner members, lit library 123 input = some (ch, inner) ∧
        Bracketed (comma library) (lit library 125) (Pair library (Value library)) members inner
          rest ∧ value = .object members)
      final (lit library 123 input ≠ none) := by
  refine seq_outcome (fun _ members => JSON.object members) fun ch inner opens => ?_
  refine ⟨begun, True, begins, ?_⟩
  refine bracketed_outcome (members_listable documented follows) ⟨node, below, stack, isObject⟩
    (Nat.lt_of_lt_of_le (lit_consumes opens).2 short) ?_
  intro ch members
  rw [storeMembers_eq members stack isObject]
  exact ends members

theorem array_outcome (documented : library.Documented) (follows : Follows library rule bound)
    {s begun : SemanticFunctions} (final : JSON → SemanticFunctions) {node : Node}
    {below : List Node} {input : Input} (short : input.length ≤ bound)
    (begins : s.beginNode .array = some begun) (stack : begun.stack = node :: below)
    (isArray : node.content = .array)
    (ends : ∀ items, endNode { begun with stack := JSON.pushAll items node :: below } =
      some (final (.array items))) :
    Outcome (array library rule s input) s
      (fun value rest => ∃ ch inner items, lit library 91 input = some (ch, inner) ∧
        Bracketed (comma library) (lit library 93) (Value library) items inner rest ∧
          value = .array items)
      final (lit library 91 input ≠ none) := by
  refine seq_outcome (fun _ items => JSON.array items) fun ch inner opens => ?_
  refine ⟨begun, True, begins, ?_⟩
  refine bracketed_outcome (elements_listable documented follows) ⟨node, below, stack, isArray⟩
    (Nat.lt_of_lt_of_le (lit_consumes opens).2 short) ?_
  intro ch items
  rw [storeItems_eq items stack isArray]
  exact ends items

/-- `value` follows the grammar on every text that its fuel is enough for. -/
theorem value_follows (documented : library.Documented) (depth : ℕ) :
    Follows library (value library depth) depth := by
  induction depth with
  | zero => exact fun _ _ _ short => absurd short (Nat.not_lt_zero _)
  | succ depth ih =>
      intro s input ready short
      have fits := Nat.le_of_lt_succ short
      have nested := ready.stack_ne_nil
      have isObject := object_outcome documented ih (fun value => s.store value.data) fits
        (ready.beginNode .object) rfl rfl fun members => by
          rw [endNode_below rfl nested]
          exact ready.setData _
      have isArray := array_outcome documented ih (fun value => s.store value.data) fits
        (ready.beginNode .array) rfl rfl fun items => by
          rw [endNode_below rfl nested]
          exact ready.setData _
      have arrayOrSimple := alt_outcome isArray (simple_outcome documented ready input)
        (by rintro _ _ ⟨_, _, _, opens, _⟩; simp [opens])
        (fun opened => simple_fails documented (.inr opened))
      have all := alt_outcome isObject arrayOrSimple
        (by rintro _ _ ⟨_, _, _, opens, _⟩; simp [opens])
        (fun opened => by
          have noArray := lit_exclusive opened (by decide : (123 : UInt8) ≠ 91)
          have noSimple := simple_fails documented (.inl opened)
          refine ⟨fun left => ?_, ?_⟩
          · simp only [alt, array, seq, action, noArray, noSimple.1 left]
          · rintro value rest (⟨_, _, _, opens, _⟩ | derives)
            · simp [noArray] at opens
            · exact noSimple.2 _ _ derives)
      apply all.congr
      · intro value rest
        constructor
        · rintro (⟨_, _, _, opens, derives, rfl⟩ | ⟨_, _, _, opens, derives, rfl⟩ | derives)
          · exact .object opens derives
          · exact .array opens derives
          · exact .simple derives
        · intro derives
          cases derives with
          | object opens derives => exact .inl ⟨_, _, _, opens, derives, rfl⟩
          | array opens derives => exact .inr (.inl ⟨_, _, _, opens, derives, rfl⟩)
          | simple derives => exact .inr (.inr derives)
      · rintro (opened | opened | impossible)
        · exact .inl opened
        · exact .inr opened
        · exact impossible.elim

end Rules

/-! ## `Parse` -/

section Parse

variable {library : Library} {str : StdString}

/-- The state when a value was read: what is on the stacks was taken. -/
def closed (value : JSON) : SemanticFunctions :=
  ⟨[], [], Node.empty.assign value.data⟩

theorem Value.of_object {input rest : Input} {members : List (StdString × JSON)}
    (derives : Value library (.object members) input rest) :
    ∃ ch inner, lit library 123 input = some (ch, inner) ∧
      Bracketed (comma library) (lit library 125) (Pair library (Value library)) members inner
        rest := by
  cases derives with
  | object opens derives => exact ⟨_, _, opens, derives⟩
  | simple derives => nomatch derives

theorem Value.of_array {input rest : Input} {items : List JSON}
    (derives : Value library (.array items) input rest) :
    ∃ ch inner, lit library 91 input = some (ch, inner) ∧
      Bracketed (comma library) (lit library 93) (Value library) items inner rest := by
  cases derives with
  | array opens derives => exact ⟨_, _, opens, derives⟩
  | simple derives => nomatch derives

theorem json_outcome (documented : library.Documented) (str : StdString) :
    Outcome (json library (str.length + 1) (new Node.empty) str) (new Node.empty)
      (fun value => Json library value str) closed (Opens library str) := by
  have follows := value_follows documented (str.length + 1)
  have beginsObject : (new Node.empty).beginNode .object =
      some ⟨[Node.ofType .object], [], Node.empty⟩ := rfl
  have beginsArray : (new Node.empty).beginNode .array =
      some ⟨[Node.ofType .array], [], Node.empty⟩ := rfl
  have isObject := object_outcome documented follows closed (Nat.le_succ str.length)
    beginsObject rfl rfl fun _ => rfl
  have isArray := array_outcome documented follows closed (Nat.le_succ str.length)
    beginsArray rfl rfl fun _ => rfl
  have all := alt_outcome isObject isArray
    (by rintro _ _ ⟨_, _, _, opens, _⟩; simp [opens])
    (fun opened => by
      have noArray := lit_exclusive opened (by decide : (123 : UInt8) ≠ 91)
      refine ⟨fun left => ?_, ?_⟩
      · simp only [array, seq, action, noArray]
      · rintro value rest ⟨_, _, _, opens, _⟩
        simp [noArray] at opens)
  refine all.congr ?_ id
  intro value rest
  constructor
  · rintro (⟨_, _, _, opens, derives, rfl⟩ | ⟨_, _, _, opens, derives, rfl⟩)
    · exact .object (.object opens derives)
    · exact .array (.array opens derives)
  · intro derives
    cases derives with
    | object derives =>
        rcases derives.of_object with ⟨ch, inner, opens, derives⟩
        exact .inl ⟨ch, inner, _, opens, derives, rfl⟩
    | array derives =>
        rcases derives.of_array with ⟨ch, inner, opens, derives⟩
        exact .inr ⟨ch, inner, _, opens, derives, rfl⟩

/-- A text with a derivation is read by it, and any other text is refused. -/
theorem parse_cases (documented : library.Documented) (str : StdString) :
    (∃ value rest, Json library value str rest ∧
        (∀ other otherRest, Json library other str otherRest → other = value ∧ otherRest = rest) ∧
        phraseParse library str Node.empty =
          some (closed value, some (rest.dropWhile library.space))) ∨
      ((∀ value rest, ¬Json library value str rest) ∧
        ∃ left, phraseParse library str Node.empty = some (left, none)) := by
  unfold phraseParse
  cases json_outcome documented str with
  | reads value rest derives unique returns =>
      rw [returns]
      exact .inl ⟨value, rest, derives, unique, rfl⟩
  | fails left derives returns _ =>
      rw [returns]
      exact .inr ⟨derives, left, rfl⟩

theorem Json.consumes (documented : library.Documented) {value : JSON} {rest : Input}
    (derives : Json library value str rest) : Consumes str rest := by
  cases derives with
  | object derives => exact value_consumes documented derives
  | array derives => exact value_consumes documented derives

/--
Where `Parse` returns, both stacks are empty, there is one derivation of a prefix of the text,
and the node shows the tree that it denotes, where a repeated key has its first place and its
last value.
-/
theorem actions_follow_derivation (documented : library.Documented) {node : Node}
    (returns : parse library str Node.empty = some (.ok node)) :
    ∃ s value rest,
      phraseParse library str Node.empty = some (s, some (rest.dropWhile library.space)) ∧
      s.stack = [] ∧ s.nameStack = [] ∧ s.callerNode = node ∧
      Json library value str rest ∧ rest <:+ str ∧
      (∀ other otherRest, Json library other str otherRest → other = value ∧ otherRest = rest) ∧
      node.json = value.normalize := by
  rcases parse_cases documented str with ⟨value, rest, derives, unique, parsed⟩ | ⟨_, left, parsed⟩
  · rw [parse, parsed] at returns
    have same : (closed value).callerNode = node := by
      simpa using returns
    refine ⟨closed value, value, rest, parsed, rfl, rfl, same, derives,
      (derives.consumes documented).1, unique, ?_⟩
    rw [← same]
    exact Node.shows_data value Node.empty
  · rw [parse, parsed] at returns
    simp at returns

theorem actions_follow_derivation_sample :
    ∃ (node : Node) (s : SemanticFunctions) (value : JSON) (rest : StdString),
      phraseParse Sample.library (ascii "\x7b\"a\": [1, \x7b\x7d], \"b\":null ,\"a\":\"x\"\x7d y")
        Node.empty = some (s, some (rest.dropWhile Sample.library.space)) ∧
      s.stack = [] ∧ s.nameStack = [] ∧ s.callerNode = node ∧ node.json = value.normalize ∧
      node.toText Sample.library = ascii "\x7b\"a\":\"x\",\"b\":null\x7d" := by
  have written : (parse Sample.library
      (ascii "\x7b\"a\": [1, \x7b\x7d], \"b\":null ,\"a\":\"x\"\x7d y") Node.empty).map
        (fun outcome => outcome.toOption.map (Node.toText Sample.library)) =
      some (some (ascii "\x7b\"a\":\"x\",\"b\":null\x7d")) := by
    decide +kernel
  simp only [Option.map_eq_some_iff] at written
  rcases written with ⟨outcome, returns, node, isOk, text⟩
  cases outcome with
  | error _ => simp [Except.toOption] at isOk
  | ok found =>
      rcases actions_follow_derivation Sample.library_documented returns with
        ⟨s, value, rest, parsed, stack, names, same, _, _, _, shown⟩
      have foundEq : found = node := by
        simpa [Except.toOption] using isOk
      subst foundEq
      exact ⟨found, s, value, rest, parsed, stack, names, same, shown, text⟩

end Parse

end Poolserver.JSONReader
