import Poolserver.MySQL.PreparedStatement

/-!
# Results of prepared statements

A `ResultSet` stores the rows of a statement and counts them in `_rowCount`. The
constructor takes the count from `mysql_stmt_num_rows`, while the rows come from
`mysql_stmt_fetch` one after the other, and it sets no count at all where it returns early.
What a fetch leaves in the bound buffers is a parameter.
-/

namespace Poolserver.MySQL

/-- The outcome of `mysql_stmt_fetch`, with the row it has put into the buffers. -/
structure Fetch (ρ : Type) where
  code : UInt32
  row : ρ
  deriving DecidableEq, Repr

/-- `ResultSet::_NextSTMTRow`: zero, or `MYSQL_DATA_TRUNCATED`, in the low eight bits. -/
def Fetch.next {ρ : Type} (fetch : Fetch ρ) : Bool :=
  let ret := fetch.code.toUInt8
  ret == 0 || ret == 101

/-- What the calls of the client library come to while a result is read. -/
structure Reading (ρ : Type) where
  /-- `mysql_stmt_result_metadata` is not null. -/
  metadata : Bool
  fieldCount : UInt32
  storeFails : Bool
  bindFails : Bool
  numRows : UInt64
  fetches : List (Fetch ρ)
  /-- The memory that becomes `_rowCount`. -/
  uninitialized : UInt64

structure ResultSet (ρ : Type) where
  rowCount : UInt64
  currentRow : UInt64
  fieldCount : UInt32
  rows : List ρ
  deriving DecidableEq, Repr

namespace ResultSet

variable {ρ : Type}

/-- The loop over the rows, while there are outcomes for `mysql_stmt_fetch`. -/
def fetchAll : List (Fetch ρ) → Option (List ρ)
  | [] => none
  | fetch :: fetches => if fetch.next then (fetchAll fetches).map (fetch.row :: ·) else some []

/-- The constructor for prepared statements. -/
def ofStatement (result : Bool) (fieldCount : UInt32) (reading : Reading ρ) :
    Option (ResultSet ρ) :=
  if !result || reading.storeFails || reading.bindFails then
    some ⟨reading.uninitialized, 0, fieldCount, []⟩
  else
    (fetchAll reading.fetches).map fun rows => ⟨reading.numRows, 0, fieldCount, rows⟩

/-- `ResultSet::FetchRow`; an index past the rows has no meaning. -/
def fetchRow (set : ResultSet ρ) : Option (Option ρ × ResultSet ρ) :=
  if set.rowCount ≤ set.currentRow then some (none, set)
  else
    match set.rows[set.currentRow.toNat]? with
    | none => none
    | some row => some (some row, { set with currentRow := set.currentRow + 1 })

/-- What a number of calls of `FetchRow` return. -/
def fetchRows : ℕ → ResultSet ρ → Option (List (Option ρ))
  | 0, _ => some []
  | calls + 1, set => do
      let (row, set) ← set.fetchRow
      let rows ← fetchRows calls set
      return row :: rows

/-- The indices that the destructor deletes, from its 32-bit counter on, in a number of turns. -/
def deleted (set : ResultSet ρ) : ℕ → UInt32 → List UInt32
  | 0, _ => []
  | turns + 1, i => if i.toUInt64 < set.rowCount then i :: deleted set turns (i + 1) else []

/-- A result set that counts its rows, hands out each of them once and deletes no others. -/
structure Consistent (set : ResultSet ρ) : Prop where
  counted : set.rowCount.toNat = set.rows.length
  fetched : ∀ calls, fetchRows calls set =
    some ((set.rows.map some ++ List.replicate calls none).take calls)
  deleted : ∀ turns, ∀ i ∈ set.deleted turns 0, i.toNat < set.rows.length

variable {set : ResultSet ρ}

theorem fetchRows_of_counted (counted : set.rowCount.toNat = set.rows.length) (calls : ℕ)
    (inside : set.currentRow.toNat ≤ set.rows.length) :
    fetchRows calls set =
      some (((set.rows.drop set.currentRow.toNat).map some ++
        List.replicate calls none).take calls) := by
  induction calls generalizing set with
  | zero => rfl
  | succ calls ih =>
      by_cases ended : set.rowCount ≤ set.currentRow
      · have allFetched : set.rows.length ≤ set.currentRow.toNat := by
          rw [← counted]
          exact UInt64.le_iff_toNat_le.mp ended
        have again := ih counted inside
        rw [List.drop_eq_nil_of_le allFetched] at again ⊢
        rw [fetchRows, fetchRow, if_pos ended]
        simp [again, List.replicate_succ]
      · have below : set.currentRow.toNat < set.rows.length := by
          rw [← counted, ← UInt64.lt_iff_toNat_lt]
          exact UInt64.not_le.mp ended
        have next : (set.currentRow + 1).toNat = set.currentRow.toNat + 1 := by
          have bound := set.rowCount.toNat_lt
          rw [UInt64.toNat_add, show (1 : UInt64).toNat = 1 from rfl]
          omega
        have present := List.getElem?_eq_getElem below
        have again := @ih { set with currentRow := set.currentRow + 1 } counted (by
          rw [next]
          exact below)
        rw [next] at again
        rw [fetchRows, fetchRow, if_neg ended, present, List.drop_eq_getElem_cons below]
        have padding : ∀ behind : List (Option ρ),
            (behind ++ List.replicate calls none).take calls =
              (behind ++ List.replicate (calls + 1) none).take calls := by
          intro behind
          rw [List.take_append, List.take_append, List.take_replicate, List.take_replicate]
          congr 2
          omega
        simp only [Option.bind_eq_bind, Option.bind_some, again, padding, List.map_cons,
          List.cons_append, List.take_succ_cons, Option.pure_def]

theorem deleted_lt (turns : ℕ) {start : UInt32} :
    ∀ i ∈ set.deleted turns start, i.toNat < set.rowCount.toNat := by
  induction turns generalizing start with
  | zero => simp [deleted]
  | succ turns ih =>
      intro i iMem
      rw [deleted] at iMem
      split at iMem
      · rename_i inside
        rcases List.mem_cons.mp iMem with rfl | later
        · simpa [UInt64.lt_iff_toNat_lt] using inside
        · exact ih i later
      · cases iMem

/-- A result set from which no row was fetched yet is consistent just when it counts its rows. -/
theorem consistent_iff (fresh : set.currentRow = 0) :
    set.Consistent ↔ set.rowCount.toNat = set.rows.length := by
  constructor
  · exact Consistent.counted
  · intro counted
    refine ⟨counted, ?_, ?_⟩
    · intro calls
      have fetched := fetchRows_of_counted counted calls (by simp [fresh])
      simpa [fresh] using fetched
    · intro turns i iMem
      rw [← counted]
      exact deleted_lt turns i iMem

/-- The rows that are stored are those in front of the first fetch that finds none. -/
theorem fetchAll_eq_some {fetches : List (Fetch ρ)} {rows : List ρ}
    (fetched : fetchAll fetches = some rows) :
    rows = (fetches.takeWhile Fetch.next).map Fetch.row := by
  induction fetches generalizing rows with
  | nil => cases fetched
  | cons fetch fetches ih =>
      rw [fetchAll] at fetched
      split at fetched
      · rename_i next
        rcases Option.map_eq_some_iff.mp fetched with ⟨later, fetchedLater, rfl⟩
        rw [List.takeWhile_cons_of_pos next, List.map_cons, ← ih fetchedLater]
      · rename_i stops
        rw [Option.some.injEq] at fetched
        rw [← fetched, List.takeWhile_cons_of_neg stops, List.map_nil]

/-- Whether the constructor counts right: what was announced is stored, or chance has it. -/
def Counts (result : Bool) (reading : Reading ρ) : Prop :=
  if !result || reading.storeFails || reading.bindFails then reading.uninitialized = 0
  else reading.numRows.toNat = (reading.fetches.takeWhile Fetch.next).length

theorem consistent_iff_of_ofStatement {result : Bool} {fieldCount : UInt32} {reading : Reading ρ}
    (built : ofStatement result fieldCount reading = some set) :
    set.Consistent ↔ Counts result reading := by
  rw [ofStatement] at built
  rw [Counts]
  split at built
  · rename_i early
    rw [Option.some.injEq] at built
    subst built
    rw [if_pos early, consistent_iff rfl, List.length_nil, ← UInt64.toNat_inj]
    rfl
  · rename_i late
    rcases Option.map_eq_some_iff.mp built with ⟨rows, fetched, rfl⟩
    rw [if_neg late, consistent_iff rfl, fetchAll_eq_some fetched, List.length_map]

end ResultSet

end Poolserver.MySQL
