import Mathlib.Data.List.Count
import Poolserver.Shared.ByteBuffer

/-!
# Parameters of prepared statements

`BindParameters` copies the parameters of a `PreparedStatement` into the slots of a
connection's statement. Its counter, the indices and the number of slots have eight bits,
the vector of parameters grows to 256 entries, and a server counts placeholders in more.
An index below the largest that was never set holds what `resize` put there: a value of
type `int8` with the tag `MYSQL_UINT8`, on which `boost::get` throws.
-/

namespace Poolserver.MySQL

/-- The members of `enum_field_types` that are written to a slot; zero is the first. -/
inductive FieldType where
  | decimal | tiny | short | long | float | double | null | longlong | varString
  deriving DecidableEq, Repr

/-- `MySQLValue`; floating point numbers are kept as their bits. -/
inductive MySQLValue where
  | int8 (value : Int8)
  | int16 (value : Int16)
  | int32 (value : Int32)
  | int64 (value : Int64)
  | uint8 (value : UInt8)
  | uint16 (value : UInt16)
  | uint32 (value : UInt32)
  | uint64 (value : UInt64)
  | float (bits : UInt32)
  | double (bits : UInt64)
  | string (value : StdString)
  deriving DecidableEq

inductive MySQLValueTypes where
  | uint8 | uint16 | uint32 | uint64 | int8 | int16 | int32 | int64
  | float | double | string | null
  deriving DecidableEq, Repr

structure PreparedStatementData where
  value : MySQLValue
  type : MySQLValueTypes
  deriving DecidableEq

/-- What `resize` fills a vector with. -/
def PreparedStatementData.initial : PreparedStatementData := ⟨.int8 0, .uint8⟩

/-- The arguments of a call of `Set`. -/
structure Setting where
  index : UInt8
  value : MySQLValue
  type : MySQLValueTypes

def Setting.entry (setting : Setting) : PreparedStatementData :=
  ⟨setting.value, setting.type⟩

namespace Setting

def setUInt8 (index value : UInt8) : Setting := ⟨index, .uint8 value, .uint8⟩
def setBool (index : UInt8) (value : Bool) : Setting := setUInt8 index (if value then 1 else 0)
def setUInt16 (index : UInt8) (value : UInt16) : Setting := ⟨index, .uint16 value, .uint16⟩
def setUInt32 (index : UInt8) (value : UInt32) : Setting := ⟨index, .uint32 value, .uint32⟩
def setUInt64 (index : UInt8) (value : UInt64) : Setting := ⟨index, .uint64 value, .uint64⟩
def setInt8 (index : UInt8) (value : Int8) : Setting := ⟨index, .int8 value, .int8⟩
def setInt16 (index : UInt8) (value : Int16) : Setting := ⟨index, .int16 value, .int16⟩
def setInt32 (index : UInt8) (value : Int32) : Setting := ⟨index, .int32 value, .int32⟩
def setInt64 (index : UInt8) (value : Int64) : Setting := ⟨index, .int64 value, .int64⟩
def setFloat (index : UInt8) (bits : UInt32) : Setting := ⟨index, .float bits, .float⟩
def setDouble (index : UInt8) (bits : UInt64) : Setting := ⟨index, .double bits, .double⟩
def setString (index : UInt8) (value : StdString) : Setting := ⟨index, .string value, .string⟩
def setNull (index : UInt8) : Setting := ⟨index, .int64 0, .null⟩

/-- A call of `Set` that one of the other setters makes. -/
inductive Typed : Setting → Prop where
  | uint8 (index value : UInt8) : Typed (setUInt8 index value)
  | bool (index : UInt8) (value : Bool) : Typed (setBool index value)
  | uint16 (index : UInt8) (value : UInt16) : Typed (setUInt16 index value)
  | uint32 (index : UInt8) (value : UInt32) : Typed (setUInt32 index value)
  | uint64 (index : UInt8) (value : UInt64) : Typed (setUInt64 index value)
  | int8 (index : UInt8) (value : Int8) : Typed (setInt8 index value)
  | int16 (index : UInt8) (value : Int16) : Typed (setInt16 index value)
  | int32 (index : UInt8) (value : Int32) : Typed (setInt32 index value)
  | int64 (index : UInt8) (value : Int64) : Typed (setInt64 index value)
  | float (index : UInt8) (bits : UInt32) : Typed (setFloat index bits)
  | double (index : UInt8) (bits : UInt64) : Typed (setDouble index bits)
  | string (index : UInt8) (value : StdString) : Typed (setString index value)
  | null (index : UInt8) : Typed (setNull index)

end Setting

structure PreparedStatement where
  data : List PreparedStatementData
  index : UInt32
  deriving DecidableEq

namespace PreparedStatement

def new (index : UInt32) : PreparedStatement := ⟨[], index⟩

/-- `PreparedStatement::Set`. -/
def set (stmt : PreparedStatement) (setting : Setting) : PreparedStatement :=
  let data :=
    if stmt.data.length ≤ setting.index.toNat then
      stmt.data.rightpad (setting.index.toNat + 1) .initial
    else stmt.data
  { stmt with data := data.set setting.index.toNat setting.entry }

/-- A statement after a sequence of calls of `Set`. -/
def setAll (index : UInt32) (settings : List Setting) : PreparedStatement :=
  settings.foldl set (new index)

end PreparedStatement

/-- A statement of the client library, with the connection it was initialised on. -/
structure MysqlStmt where
  connection : ℕ
  sql : StdString
  /-- `mysql_stmt_param_count`. -/
  paramCount : ℕ
  deriving DecidableEq, Repr

/-- The members of `MYSQL_BIND` that are written. -/
structure MysqlBind where
  bufferType : FieldType
  buffer : Option BinaryData
  bufferLength : ℕ
  isNullValue : Bool
  length : Option ℕ
  isUnsigned : Bool
  deriving DecidableEq, Repr

namespace MysqlBind

/-- A slot after `memset`. -/
def zero : MysqlBind := ⟨.decimal, none, 0, false, none, false⟩

/-- `ConnectionPreparedStatement::SetValue`, on its slot. -/
def setValue (type : FieldType) (value : BinaryData) (isUnsigned : Bool) (_param : MysqlBind) :
    MysqlBind where
  bufferType := type
  buffer := some value
  bufferLength := 0
  isNullValue := false
  length := none
  isUnsigned

/-- `ConnectionPreparedStatement::SetString`, which copies the terminating zero. -/
def setString (str : StdString) (param : MysqlBind) : MysqlBind :=
  { param with
    bufferType := .varString
    buffer := some (str ++ [0])
    bufferLength := str.length + 1
    isNullValue := false
    length := some str.length }

/-- `ConnectionPreparedStatement::SetNull`. -/
def setNull (param : MysqlBind) : MysqlBind :=
  { param with
    bufferType := .null
    buffer := none
    bufferLength := 0
    isNullValue := true
    length := none }

/-- One turn of `ClearParameters`. -/
def clear (param : MysqlBind) : MysqlBind :=
  { param with length := none, buffer := none }

end MysqlBind

open ByteOrder (littleEndian)

/--
What the `switch` of `BindParameters` does to a slot, if `boost::get` finds the type that it
asks for.
-/
def PreparedStatementData.write? (entry : PreparedStatementData) :
    Option (MysqlBind → MysqlBind) :=
  match entry.type, entry.value with
  | .uint8, .uint8 value => some (.setValue .tiny (littleEndian 1 value.toNat) true)
  | .uint16, .uint16 value => some (.setValue .short (littleEndian 2 value.toNat) true)
  | .uint32, .uint32 value => some (.setValue .long (littleEndian 4 value.toNat) true)
  | .uint64, .uint64 value => some (.setValue .longlong (littleEndian 8 value.toNat) true)
  | .int8, .int8 value => some (.setValue .tiny (littleEndian 1 value.toUInt8.toNat) false)
  | .int16, .int16 value => some (.setValue .short (littleEndian 2 value.toUInt16.toNat) false)
  | .int32, .int32 value => some (.setValue .long (littleEndian 4 value.toUInt32.toNat) false)
  | .int64, .int64 value =>
      some (.setValue .longlong (littleEndian 8 value.toUInt64.toNat) false)
  | .float, .float bits => some (.setValue .float (littleEndian 4 bits.toNat) false)
  | .double, .double bits => some (.setValue .double (littleEndian 8 bits.toNat) false)
  | .string, .string value => some (.setString value)
  | .null, _ => some .setNull
  | _, _ => none

/-- The value has the type that the tag says. -/
def PreparedStatementData.Holds (entry : PreparedStatementData) : Prop :=
  entry.write? ≠ none

instance (entry : PreparedStatementData) : Decidable entry.Holds :=
  decidable_of_iff (entry.write?.isSome = true) Option.isSome_iff_ne_none

theorem Setting.Typed.holds {setting : Setting} (typed : setting.Typed) : setting.entry.Holds := by
  cases typed <;> exact Option.some_ne_none _

theorem PreparedStatementData.not_holds_initial : ¬PreparedStatementData.initial.Holds := by
  decide

structure ConnectionPreparedStatement where
  stmt : MysqlStmt
  bind : List MysqlBind
  paramCount : UInt8
  counted : paramCount = UInt8.ofNat stmt.paramCount
  sized : bind.length = paramCount.toNat

/-- How a function ends: it returns, or an exception leaves it. -/
inductive Ending where
  | returned
  | badGet
  deriving DecidableEq, Repr

/-- An execution of `BindParameters`. -/
structure Binding where
  statement : ConnectionPreparedStatement
  ending : Ending
  /-- The values of the counter, one a turn. -/
  visited : List UInt8
  /-- The slots that are written. -/
  touched : List UInt8

namespace ConnectionPreparedStatement

/-- The constructor, which keeps the low eight bits of the number of placeholders. -/
def new (stmt : MysqlStmt) : ConnectionPreparedStatement where
  stmt
  bind := List.replicate (UInt8.ofNat stmt.paramCount).toNat .zero
  paramCount := UInt8.ofNat stmt.paramCount
  counted := rfl
  sized := List.length_replicate

/-- A write to a slot; one behind the slots is left to `Binding.touched`. -/
def modify (cstmt : ConnectionPreparedStatement) (index : UInt8)
    (write : MysqlBind → MysqlBind) : ConnectionPreparedStatement where
  stmt := cstmt.stmt
  bind := cstmt.bind.modify index.toNat write
  paramCount := cstmt.paramCount
  counted := cstmt.counted
  sized := (List.length_modify _ _ _).trans cstmt.sized

def clearParameters (cstmt : ConnectionPreparedStatement) : ConnectionPreparedStatement where
  stmt := cstmt.stmt
  bind := cstmt.bind.map MysqlBind.clear
  paramCount := cstmt.paramCount
  counted := cstmt.counted
  sized := List.length_map _ |>.trans cstmt.sized

/-- The loop of `BindParameters` from a counter on, for a number of turns. -/
def bindFrom (stmt : PreparedStatement) :
    ℕ → UInt8 → ConnectionPreparedStatement → Option Binding
  | 0, _, _ => none
  | turns + 1, i, cstmt =>
      match stmt.data[i.toNat]? with
      | none => some ⟨cstmt, .returned, [], []⟩
      | some entry =>
          match entry.write? with
          | none => some ⟨cstmt, .badGet, [i], []⟩
          | some write => do
              let rest ← bindFrom stmt turns (i + 1) (cstmt.modify i write)
              return { rest with visited := i :: rest.visited, touched := i :: rest.touched }

/--
`ConnectionPreparedStatement::BindParameters`. The counter has come round after 256 turns, so
that a loop which goes on then never ends.
-/
def bindParameters (cstmt : ConnectionPreparedStatement) (stmt : PreparedStatement) :
    Option Binding :=
  bindFrom stmt 257 0 cstmt

/-! ## The loop -/

variable {stmt : PreparedStatement} {cstmt : ConnectionPreparedStatement} {binding : Binding}

theorem bindFrom_succ {turns : ℕ} {i : UInt8}
    (ended : bindFrom stmt turns i cstmt = some binding) :
    bindFrom stmt (turns + 1) i cstmt = some binding := by
  induction turns generalizing i cstmt binding with
  | zero => cases ended
  | succ turns ih =>
      rw [bindFrom] at ended ⊢
      split at ended
      · exact ended
      split at ended
      · exact ended
      rename_i write _
      simp only [Option.bind_eq_bind, Option.bind_eq_some_iff] at ended ⊢
      rcases ended with ⟨rest, ended, bound⟩
      exact ⟨rest, ih ended, bound⟩

theorem bindFrom_mono {turns more : ℕ} {i : UInt8} (le : turns ≤ more)
    (ended : bindFrom stmt turns i cstmt = some binding) :
    bindFrom stmt more i cstmt = some binding := by
  induction more, le using Nat.le_induction with
  | base => exact ended
  | succ more le ih => exact bindFrom_succ ih

/-- With a parameter to copy at every value of the counter, the loop does not end. -/
theorem bindFrom_eq_none
    (always : ∀ i : UInt8, ∃ entry, stmt.data[i.toNat]? = some entry ∧ entry.Holds)
    (turns : ℕ) (i : UInt8) : bindFrom stmt turns i cstmt = none := by
  induction turns generalizing i cstmt with
  | zero => rfl
  | succ turns ih =>
      rcases always i with ⟨entry, present, holds⟩
      rcases Option.ne_none_iff_exists'.mp holds with ⟨write, writeEq⟩
      rw [bindFrom, present]
      simp [writeEq, ih]

/-- A parameter that is missing or cannot be copied ends the loop. -/
theorem exists_bindFrom (cstmt : ConnectionPreparedStatement) {i last : UInt8} (turns : ℕ)
    (reach : i.toNat + turns = last.toNat)
    (stops : ∀ entry, stmt.data[last.toNat]? = some entry → ¬entry.Holds) :
    ∃ binding, bindFrom stmt (turns + 1) i cstmt = some binding := by
  induction turns generalizing i cstmt with
  | zero =>
      obtain rfl : i = last := UInt8.toNat_inj.mp (by omega)
      rw [bindFrom]
      split
      · exact ⟨_, rfl⟩
      rename_i entry present
      rw [not_not.mp (stops entry present)]
      exact ⟨_, rfl⟩
  | succ turns ih =>
      rw [bindFrom]
      split
      · exact ⟨_, rfl⟩
      split
      · exact ⟨_, rfl⟩
      rename_i write _
      have next : (i + 1).toNat = i.toNat + 1 := by
        have below := last.toNat_lt
        rw [UInt8.toNat_add, show (1 : UInt8).toNat = 1 from rfl]
        omega
      rcases ih (cstmt.modify i write) (i := i + 1) (by omega) with ⟨rest, restEq⟩
      rw [restEq]
      exact ⟨_, rfl⟩

/-- What does not end within the turns of `bindParameters` never ends. -/
theorem bindParameters_eq_some_iff :
    cstmt.bindParameters stmt = some binding ↔
      ∃ turns, bindFrom stmt turns 0 cstmt = some binding := by
  constructor
  · intro ended
    exact ⟨257, ended⟩
  · rintro ⟨turns, ended⟩
    by_cases always : ∀ i : UInt8, ∃ entry, stmt.data[i.toNat]? = some entry ∧ entry.Holds
    · rw [bindFrom_eq_none always] at ended
      cases ended
    push Not at always
    rcases always with ⟨last, stops⟩
    rcases exists_bindFrom cstmt last.toNat (i := 0) (by simp) stops with ⟨found, foundEq⟩
    have below := last.toNat_lt
    have enough : cstmt.bindParameters stmt = some found :=
      bindFrom_mono (by omega) foundEq
    rcases le_total turns 257 with le | le
    · exact bindFrom_mono le ended
    · exact enough.trans ((bindFrom_mono le enough).symm.trans ended)

/-- A loop that returns has written the slot of every value that its counter took. -/
theorem touched_eq_visited {turns : ℕ} {i : UInt8}
    (ended : bindFrom stmt turns i cstmt = some binding) (returned : binding.ending = .returned) :
    binding.touched = binding.visited := by
  induction turns generalizing i cstmt binding with
  | zero => cases ended
  | succ turns ih =>
      rw [bindFrom] at ended
      split at ended
      · rw [Option.some.injEq] at ended
        subst ended
        rfl
      split at ended
      · rw [Option.some.injEq] at ended
        subst ended
        cases returned
      simp only [Option.bind_eq_bind, Option.bind_eq_some_iff] at ended
      rcases ended with ⟨rest, ended, bound⟩
      simp only [Option.pure_def, Option.some.injEq] at bound
      subst bound
      exact congrArg (i :: ·) (ih ended returned)

/-- The loop returns if it can copy the parameters from its counter on, and throws otherwise. -/
theorem holds_of_bindFrom {turns : ℕ} {i : UInt8}
    (ended : bindFrom stmt turns i cstmt = some binding) :
    binding.statement.stmt = cstmt.stmt ∧
      (binding.ending = .returned → ∀ index entry, i.toNat ≤ index →
        stmt.data[index]? = some entry → entry.Holds) ∧
      (binding.ending = .badGet → ∃ entry ∈ stmt.data, ¬entry.Holds) := by
  induction turns generalizing i cstmt binding with
  | zero => cases ended
  | succ turns ih =>
      rw [bindFrom] at ended
      split at ended
      · rename_i missing
        rw [Option.some.injEq] at ended
        subst ended
        refine ⟨rfl, ?_, fun thrown => by cases thrown⟩
        intro _ index entry behind present
        rw [List.getElem?_eq_none_iff] at missing
        rw [List.getElem?_eq_none (missing.trans behind)] at present
        cases present
      rename_i entry present
      split at ended
      · rename_i refused
        rw [Option.some.injEq] at ended
        subst ended
        refine ⟨rfl, fun returned => ?_, fun _ => ?_⟩
        · cases returned
        · exact ⟨entry, List.mem_of_getElem? present, not_not.mpr refused⟩
      rename_i write writeEq
      simp only [Option.bind_eq_bind, Option.bind_eq_some_iff] at ended
      rcases ended with ⟨rest, ended, bound⟩
      simp only [Option.pure_def, Option.some.injEq] at bound
      subst bound
      rcases ih ended with ⟨sameStmt, held, thrown⟩
      refine ⟨sameStmt, ?_, thrown⟩
      intro returned index other behind otherPresent
      by_cases here : index = i.toNat
      · rw [here, present, Option.some.injEq] at otherPresent
        simp [← otherPresent, PreparedStatementData.Holds, writeEq]
      · -- behind the last value of the counter it starts again, which only checks more
        refine held returned index other ?_ otherPresent
        rw [UInt8.toNat_add, show (1 : UInt8).toNat = 1 from rfl]
        omega

theorem stmt_of_bindParameters (bound : cstmt.bindParameters stmt = some binding) :
    binding.statement.stmt = cstmt.stmt :=
  (holds_of_bindFrom bound).1

theorem ending_eq_returned_iff (bound : cstmt.bindParameters stmt = some binding) :
    binding.ending = .returned ↔ ∀ entry ∈ stmt.data, entry.Holds := by
  rcases holds_of_bindFrom bound with ⟨_, held, thrown⟩
  constructor
  · intro returned entry entryMem
    rcases List.getElem?_of_mem entryMem with ⟨index, present⟩
    exact held returned index entry (Nat.zero_le _) present
  · intro holds
    cases ending : binding.ending with
    | returned => rfl
    | badGet =>
        rcases thrown ending with ⟨entry, entryMem, refused⟩
        exact absurd (holds entry entryMem) refused

/-- From some parameter on, the loop visits the others one after the other. -/
theorem bindFrom_of_holds (cstmt : ConnectionPreparedStatement)
    (few : stmt.data.length < 256) (holds : ∀ entry ∈ stmt.data, entry.Holds) {left start : ℕ}
    (length : start + left = stmt.data.length) :
    ∃ binding, bindFrom stmt (left + 1) (UInt8.ofNat start) cstmt = some binding ∧
      binding.ending = .returned ∧
      binding.visited = (List.range' start left).map UInt8.ofNat := by
  have startEq : (UInt8.ofNat start).toNat = start := by
    rw [UInt8.toNat_ofNat']
    omega
  induction left generalizing start cstmt with
  | zero =>
      rw [bindFrom, startEq, List.getElem?_eq_none (by omega)]
      exact ⟨_, rfl, rfl, rfl⟩
  | succ left ih =>
      have present := List.getElem?_eq_getElem (show start < stmt.data.length by omega)
      rcases Option.ne_none_iff_exists'.mp (holds _ (List.mem_of_getElem? present)) with
        ⟨write, writeEq⟩
      have next : UInt8.ofNat start + 1 = UInt8.ofNat (start + 1) := by
        rw [UInt8.ofNat_add]
        rfl
      have nextLength : start + 1 + left = stmt.data.length := by omega
      have nextEq : (UInt8.ofNat (start + 1)).toNat = start + 1 := by
        rw [UInt8.toNat_ofNat']
        omega
      rcases ih (cstmt.modify (UInt8.ofNat start) write) nextLength nextEq with
        ⟨rest, restEq, returned, visited⟩
      rw [bindFrom, startEq, present]
      simp only [writeEq, next, restEq]
      exact ⟨_, rfl, returned, by simp [visited, List.range'_succ]⟩

/-! ## Coverage -/

/-- `BindParameters` ends, visits each parameter once and stays within the slots. -/
def Covers (cstmt : ConnectionPreparedStatement) (stmt : PreparedStatement) : Prop :=
  ∃ turns binding, bindFrom stmt turns 0 cstmt = some binding ∧ binding.ending = .returned ∧
    (∀ index < stmt.data.length, (binding.visited.map UInt8.toNat).count index = 1) ∧
    ∀ slot ∈ binding.touched, slot < cstmt.paramCount

theorem covers_iff_holds :
    cstmt.Covers stmt ↔
      stmt.data.length ≤ cstmt.paramCount.toNat ∧ ∀ entry ∈ stmt.data, entry.Holds := by
  constructor
  · rintro ⟨turns, binding, ended, returned, once, inside⟩
    have bound := bindParameters_eq_some_iff.mpr ⟨turns, ended⟩
    refine ⟨?_, (ending_eq_returned_iff bound).mp returned⟩
    by_contra exceeds
    have occurs : stmt.data.length - 1 ∈ binding.visited.map UInt8.toNat := by
      rw [← List.count_pos_iff, once _ (by omega)]
      exact one_pos
    rcases List.mem_map.mp occurs with ⟨slot, slotMem, slotEq⟩
    rw [← touched_eq_visited ended returned] at slotMem
    have slotInside := UInt8.lt_iff_toNat_lt.mp (inside slot slotMem)
    omega
  · rintro ⟨fits, holds⟩
    have slots := cstmt.paramCount.toNat_lt
    rcases bindFrom_of_holds cstmt (by omega) holds (Nat.zero_add stmt.data.length) with
      ⟨binding, ended, returned, visited⟩
    have small : ∀ index ∈ List.range stmt.data.length,
        (UInt8.toNat ∘ UInt8.ofNat) index = id index := by
      intro index indexMem
      have below := List.mem_range.mp indexMem
      rw [Function.comp_apply, UInt8.toNat_ofNat', id_eq]
      omega
    have numbers : binding.visited.map UInt8.toNat = List.range stmt.data.length := by
      rw [visited, List.map_map, ← List.range_eq_range', List.map_congr_left small, List.map_id]
    refine ⟨_, binding, ended, returned, ?_, ?_⟩
    · intro index below
      rw [numbers, List.count_eq_one_of_mem List.nodup_range (List.mem_range.mpr below)]
    · intro slot slotMem
      rw [touched_eq_visited ended returned] at slotMem
      have isIndex : slot.toNat ∈ List.range stmt.data.length := by
        rw [← numbers]
        exact List.mem_map_of_mem slotMem
      rw [UInt8.lt_iff_toNat_lt]
      exact (List.mem_range.mp isIndex).trans_le fits

end ConnectionPreparedStatement

/-! ## Sequences of settings -/

namespace PreparedStatement

/-- One more than the largest index that is set. -/
def size (settings : List Setting) : ℕ :=
  settings.foldl (fun size setting => max size (setting.index.toNat + 1)) 0

/-- What an index was set to last. -/
def lastSet? (settings : List Setting) (index : ℕ) : Option PreparedStatementData :=
  (settings.reverse.find? fun setting => setting.index.toNat = index).map Setting.entry

theorem size_snoc (settings : List Setting) (setting : Setting) :
    size (settings ++ [setting]) = max (size settings) (setting.index.toNat + 1) := by
  simp [size]

theorem lastSet?_snoc (settings : List Setting) (setting : Setting) (i : ℕ) :
    lastSet? (settings ++ [setting]) i =
      if i = setting.index.toNat then some setting.entry else lastSet? settings i := by
  by_cases same : setting.index.toNat = i
  · simp [lastSet?, same]
  · simp [lastSet?, same, Ne.symm same]

theorem setAll_snoc (index : UInt32) (settings : List Setting) (setting : Setting) :
    setAll index (settings ++ [setting]) = (setAll index settings).set setting := by
  simp [setAll]

/-- The vector after `Set`, by index: in between stands what `resize` fills in. -/
theorem getElem?_set_data (stmt : PreparedStatement) (setting : Setting) (i : ℕ) :
    (stmt.set setting).data[i]? =
      if i = setting.index.toNat then some setting.entry
      else if i < setting.index.toNat then some (stmt.data[i]?.getD .initial)
      else stmt.data[i]? := by
  rw [set]
  split
  · rename_i short
    simp only [List.getElem?_set, List.rightpad, List.getElem?_append, List.getElem?_replicate]
    grind
  · rename_i long
    simp only [List.getElem?_set]
    grind

theorem lastSet?_eq_none {settings : List Setting} {i : ℕ} (beyond : size settings ≤ i) :
    lastSet? settings i = none := by
  induction settings using List.reverseRecOn with
  | nil => rfl
  | append_singleton settings setting ih =>
      rw [size_snoc] at beyond
      rw [lastSet?_snoc, if_neg (by omega), ih (by omega)]

/-- The vector of a statement, by index. -/
theorem getElem?_setAll (index : UInt32) (settings : List Setting) (i : ℕ) :
    (setAll index settings).data[i]? =
      if i < size settings then some ((lastSet? settings i).getD .initial) else none := by
  induction settings using List.reverseRecOn with
  | nil => simp [setAll, new, size]
  | append_singleton settings setting ih =>
      rw [setAll_snoc, size_snoc, lastSet?_snoc, getElem?_set_data, ih]
      by_cases inside : i < size settings
      · grind
      · rw [lastSet?_eq_none (not_lt.mp inside)]
        grind

theorem length_setAll (index : UInt32) (settings : List Setting) :
    (setAll index settings).data.length = size settings := by
  refine le_antisymm ?_ ?_
  · rw [← List.getElem?_eq_none_iff, getElem?_setAll, if_neg (lt_irrefl _)]
  · by_contra shorter
    have behind := getElem?_setAll index settings (setAll index settings).data.length
    rw [List.getElem?_eq_none le_rfl, if_pos (not_le.mp shorter)] at behind
    cases behind

/-- A parameter that was skipped cannot be copied. -/
theorem forall_holds_setAll_iff (index : UInt32) (settings : List Setting) :
    (∀ entry ∈ (setAll index settings).data, entry.Holds) ↔
      ∀ i < size settings, ∃ entry, lastSet? settings i = some entry ∧ entry.Holds := by
  constructor
  · intro holds i inside
    have present := getElem?_setAll index settings i
    rw [if_pos inside] at present
    have held := holds _ (List.mem_of_getElem? present)
    cases lastEq : lastSet? settings i with
    | none =>
        rw [lastEq] at held
        exact absurd held PreparedStatementData.not_holds_initial
    | some entry =>
        rw [lastEq] at held
        exact ⟨entry, rfl, held⟩
  · intro every entry entryMem
    rcases List.getElem?_of_mem entryMem with ⟨i, present⟩
    rw [getElem?_setAll] at present
    split at present
    · rename_i inside
      rcases every i inside with ⟨last, lastEq, holds⟩
      rw [lastEq, Option.getD_some, Option.some.injEq] at present
      rw [← present]
      exact holds
    · cases present

/--
`BindParameters` covers the parameters just when they fit in the low eight bits of the number of
placeholders and every index below the largest was set, last to a value of its type.
-/
theorem covers_setAll_iff (index : UInt32) (settings : List Setting)
    (cstmt : ConnectionPreparedStatement) :
    cstmt.Covers (setAll index settings) ↔
      size settings ≤ cstmt.stmt.paramCount % 256 ∧
        ∀ i < size settings, ∃ entry, lastSet? settings i = some entry ∧ entry.Holds := by
  rw [ConnectionPreparedStatement.covers_iff_holds, length_setAll, forall_holds_setAll_iff,
    cstmt.counted, UInt8.toNat_ofNat']

/-- What an index was set to last can be copied, if it was set. -/
theorem exists_lastSet?_iff {settings : List Setting} (typed : ∀ setting ∈ settings, setting.Typed)
    (i : ℕ) :
    (∃ entry, lastSet? settings i = some entry ∧ entry.Holds) ↔
      ∃ setting ∈ settings, setting.index.toNat = i := by
  constructor
  · rintro ⟨entry, lastEq, _⟩
    rcases Option.map_eq_some_iff.mp lastEq with ⟨setting, found, _⟩
    have settingMem := List.mem_of_find?_eq_some found
    exact ⟨setting, List.mem_reverse.mp settingMem, by simpa using List.find?_some found⟩
  · rintro ⟨setting, settingMem, indexEq⟩
    have isFound : (settings.reverse.find? fun setting => setting.index.toNat = i).isSome := by
      rw [List.find?_isSome]
      exact ⟨setting, List.mem_reverse.mpr settingMem, by simpa using indexEq⟩
    rcases Option.isSome_iff_exists.mp isFound with ⟨last, found⟩
    have lastMem := List.mem_of_find?_eq_some found
    refine ⟨last.entry, ?_, (typed last (List.mem_reverse.mp lastMem)).holds⟩
    rw [lastSet?, found, Option.map_some]

/-- With setters that agree with their types, only an index that was skipped is in the way. -/
theorem covers_setAll_iff_of_typed (index : UInt32) {settings : List Setting}
    (typed : ∀ setting ∈ settings, setting.Typed) (cstmt : ConnectionPreparedStatement) :
    cstmt.Covers (setAll index settings) ↔
      size settings ≤ cstmt.stmt.paramCount % 256 ∧
        ∀ i < size settings, ∃ setting ∈ settings, setting.index.toNat = i := by
  rw [ConnectionPreparedStatement.covers_iff_holds, length_setAll, forall_holds_setAll_iff,
    cstmt.counted, UInt8.toNat_ofNat']
  exact and_congr_right fun _ => forall₂_congr fun i _ => exists_lastSet?_iff typed i

namespace Sample

/-- The setting of every index there is. -/
def full : List Setting :=
  (List.range 256).map fun i => .setUInt8 (UInt8.ofNat i) 1

end Sample

/-- With all of 256 placeholders set the loop never ends, and no slot was made for it. -/
theorem exists_not_covers :
    ∃ (settings : List Setting) (stmt : MysqlStmt),
      (∀ setting ∈ settings, setting.Typed) ∧ size settings ≤ stmt.paramCount ∧
      (∀ turns, ConnectionPreparedStatement.bindFrom (setAll 0 settings) turns 0 (.new stmt) =
        none) ∧
      ¬(ConnectionPreparedStatement.new stmt).Covers (setAll 0 settings) := by
  have size : size Sample.full = 256 := by decide +kernel
  have typed : ∀ setting ∈ Sample.full, setting.Typed := by
    intro setting settingMem
    rcases List.mem_map.mp settingMem with ⟨i, _, rfl⟩
    exact .uint8 _ _
  have never : ∀ turns, ConnectionPreparedStatement.bindFrom (setAll 0 Sample.full) turns 0
      (.new ⟨0, [], 256⟩) = none := by
    intro turns
    apply ConnectionPreparedStatement.bindFrom_eq_none
    intro i
    have below : i.toNat < 256 := i.toNat_lt
    have isSet : ∃ setting ∈ Sample.full, setting.index.toNat = i.toNat :=
      ⟨.setUInt8 i 1, List.mem_map.mpr ⟨i.toNat, List.mem_range.mpr below, by simp⟩, rfl⟩
    rcases (exists_lastSet?_iff typed _).mpr isSet with ⟨entry, lastEq, holds⟩
    refine ⟨entry, ?_, holds⟩
    rw [getElem?_setAll, if_pos (size ▸ below), lastEq, Option.getD_some]
  refine ⟨Sample.full, ⟨0, [], 256⟩, typed, size.le, never, ?_⟩
  rintro ⟨turns, binding, ended, _⟩
  rw [never] at ended
  cases ended

end PreparedStatement

end Poolserver.MySQL
