import Poolserver.MySQL.DatabaseConnection
import Poolserver.MySQL.QueryResult

/-!
# Prepared statements on a connection that reconnects

A connection keeps the statements it has prepared in a table. `_HandleMySQLErrno` opens a new
handle after some errors and leaves the table as it is, and `Execute` and `_Query` then try again
with what the table holds. A statement belongs to the handle it was initialised on, so the log of
the client library tells which executions come after that handle was closed.
-/

namespace Poolserver.MySQL

open RunTrace

/-- `DatabaseConnection` with its table of statements, `_stmts`. -/
structure StatementConnection extends DatabaseConnection where
  stmts : List (Option ConnectionPreparedStatement)

/-- The calls of the client library that concern statements, and those of the connection. -/
inductive StatementCall where
  | prepare (stmt : MysqlStmt) (status : Status)
  | bindParam (stmt : MysqlStmt) (status : Status)
  | execute (stmt : MysqlStmt) (status : Status)
  | library (call : LibraryCall)
  deriving DecidableEq, Repr

/-- What the calls of the client library come to in an attempt to run a statement. -/
inductive Turn where
  | runs
  /-- `mysql_stmt_execute` fails, or `mysql_stmt_bind_param` before it. -/
  | fails (bound : Bool) (lErrno : UInt32)
  deriving DecidableEq, Repr

/-- The calls of an attempt that gets as far as the execution. -/
def Turn.executedCalls (stmt : MysqlStmt) (status : Status) : List StatementCall :=
  [.bindParam stmt none, .execute stmt status]

@[simp] theorem Turn.execute_mem_executedCalls {stmt executed : MysqlStmt}
    {status other : Status} :
    StatementCall.execute executed other ∈ executedCalls stmt status ↔
      executed = stmt ∧ other = status := by
  simp [executedCalls]

/-- The calls of an attempt that fails. -/
def Turn.failedCalls (bound : Bool) (stmt : MysqlStmt) (lErrno : UInt32) : List StatementCall :=
  if bound then executedCalls stmt (some lErrno) else [.bindParam stmt (some lErrno)]

/-- How `Execute` or `_Query` ends. -/
structure StatementAttempt where
  ending : Ending
  returned : Bool
  /-- `result`, `resultSTMT` and `fieldCount` are set. -/
  outputs : Bool
  connection : StatementConnection
  calls : List StatementCall

namespace StatementConnection

def new : StatementConnection where
  toDatabaseConnection := .new
  stmts := []

/-- `DatabaseConnection::GetPreparedStatement`; the entries that were skipped are null. -/
def getPreparedStatement (conn : StatementConnection) (index : UInt32) :
    Option ConnectionPreparedStatement :=
  conn.stmts[index.toNat]?.join

/-- A change of the statement that an entry of the table points to. -/
def store (conn : StatementConnection) (index : UInt32) (cstmt : ConnectionPreparedStatement) :
    StatementConnection :=
  { conn with stmts := conn.stmts.set index.toNat (some cstmt) }

/-- What the checks in front of the calls of the client library come to. -/
inductive Entered where
  | ends (attempt : StatementAttempt)
  | bound (cstmt : ConnectionPreparedStatement)

/-- The checks of `Execute` and `_Query`, and `BindParameters`. -/
def enter (stmt : PreparedStatement) (conn : StatementConnection) : Option Entered :=
  match conn.mysql, conn.getPreparedStatement stmt.index with
  | none, _ => some (.ends ⟨.returned, false, false, conn, []⟩)
  | some _, none => some (.ends ⟨.returned, false, false, conn, []⟩)
  | some _, some cstmt => do
      let binding ← cstmt.bindParameters stmt
      match binding.ending with
      | .returned => return .bound binding.statement
      | .badGet =>
          return .ends ⟨.badGet, false, false, conn.store stmt.index binding.statement, []⟩

/--
`Execute`, or `_Query` where it sets outputs, while there are outcomes for its attempts. Both of
them try again as `Execute` where the binding fails.
-/
def runStatement (stmt : PreparedStatement) :
    Bool → List Turn → List Status → StatementConnection → Option StatementAttempt
  | sets, turns, connects, conn =>
      match conn.enter stmt with
      | none => none
      | some (.ends attempt) => some attempt
      | some (.bound cstmt) =>
          let conn := conn.store stmt.index cstmt
          match turns with
          | [] => none
          | .runs :: _ =>
              some ⟨.returned, true, sets, conn.store stmt.index cstmt.clearParameters,
                Turn.executedCalls cstmt.stmt none⟩
          | .fails isBound lErrno :: turns => do
              let handled ← DatabaseConnection.handleMySQLErrno connects lErrno
                conn.toDatabaseConnection
              let conn := { conn with toDatabaseConnection := handled.connection }
              let failed := Turn.failedCalls isBound cstmt.stmt lErrno ++
                handled.calls.map .library
              if handled.returned then do
                -- Try again
                let again ← runStatement stmt (sets && isBound) turns handled.connects conn
                return { again with calls := failed ++ again.calls }
              else
                return ⟨.returned, false, false, conn.store stmt.index cstmt.clearParameters,
                  failed⟩

/-- `DatabaseConnection::Execute(PreparedStatement*)`. -/
def execute (stmt : PreparedStatement) (turns : List Turn) (connects : List Status)
    (conn : StatementConnection) : Option StatementAttempt :=
  runStatement stmt false turns connects conn

/-- `DatabaseConnection::_Query(PreparedStatement*)`. -/
def queryStatement (stmt : PreparedStatement) (turns : List Turn) (connects : List Status)
    (conn : StatementConnection) : Option StatementAttempt :=
  runStatement stmt true turns connects conn

/-- The outcomes of `mysql_stmt_init` and `mysql_stmt_prepare`. -/
inductive Preparation where
  | initFails
  | prepareFails (code : UInt32)
  | prepared (paramCount : ℕ)
  deriving DecidableEq, Repr

/-- The table resized for an index; `index + 1` has 32 bits. -/
def room (stmts : List (Option ConnectionPreparedStatement)) (index : UInt32) :
    List (Option ConnectionPreparedStatement) :=
  if stmts.length ≤ index.toNat then
    (stmts.take (index + 1).toNat).rightpad (index + 1).toNat none
  else stmts

/-- `DatabaseConnection::PrepareStatement`; there is no room for the last index. -/
def prepareStatement (conn : StatementConnection) (index : UInt32) (sql : StdString)
    (preparation : Preparation) : Option (StatementConnection × Bool × List StatementCall) :=
  match conn.mysql, preparation with
  | none, _ => some (conn, false, [])
  | some _, .initFails => some (conn, false, [])
  | some handle, .prepareFails code =>
      some (conn, false, [.prepare ⟨handle, sql, 0⟩ (some code)])
  | some handle, .prepared paramCount =>
      let stmt : MysqlStmt := ⟨handle, sql, paramCount⟩
      let stmts := room conn.stmts index
      if index.toNat < stmts.length then
        let conn := { conn with stmts := stmts.set index.toNat (some (.new stmt)) }
        some (conn, true, [.prepare stmt none])
      else none

end StatementConnection

/-- The requests to a connection; the last is one of a text. -/
inductive StatementRequest (ρ : Type) where
  | prepareStatement (index : UInt32) (sql : StdString)
      (preparation : StatementConnection.Preparation)
  | execute (stmt : PreparedStatement) (turns : List Turn) (connects : List Status)
  | query (stmt : PreparedStatement) (turns : List Turn) (connects : List Status)
      (reading : Reading ρ)
  | text (request : Request)

structure StatementAnswer (ρ : Type) where
  ending : Ending
  returned : Bool
  calls : List StatementCall
  /-- The result set that `Query(PreparedStatement*)` returns. -/
  result : Option (ResultSet ρ)

variable {ρ : Type}

def StatementConnection.step (conn : StatementConnection) :
    StatementRequest ρ → Option (StatementConnection × StatementAnswer ρ)
  | .prepareStatement index sql preparation => do
      let (conn, returned, calls) ← conn.prepareStatement index sql preparation
      return (conn, ⟨.returned, returned, calls, none⟩)
  | .execute stmt turns connects => do
      let attempt ← execute stmt turns connects conn
      return (attempt.connection, ⟨attempt.ending, attempt.returned, attempt.calls, none⟩)
  | .query stmt turns connects reading => do
      let attempt ← queryStatement stmt turns connects conn
      if attempt.returned then do
        let fieldCount := if attempt.outputs then reading.fieldCount else 0
        let set ← ResultSet.ofStatement (attempt.outputs && reading.metadata) fieldCount reading
        return (attempt.connection, ⟨attempt.ending, true, attempt.calls, some set⟩)
      else return (attempt.connection, ⟨attempt.ending, false, attempt.calls, none⟩)
  | .text request => do
      let (database, answer) ← conn.toDatabaseConnection.step request
      return ({ conn with toDatabaseConnection := database },
        ⟨.returned, answer.returned, answer.calls.map .library, none⟩)

abbrev StatementEntry (ρ : Type) :=
  Entry StatementConnection (StatementRequest ρ) (StatementAnswer ρ)

/-- The histories of a connection with statements. -/
abbrev StatementRun : List (StatementEntry ρ) → StatementConnection → Prop :=
  Run StatementConnection.step StatementConnection.new

/-! ## The table of statements -/

namespace StatementConnection

@[simp] theorem toDatabaseConnection_store (conn : StatementConnection) (index : UInt32)
    (cstmt : ConnectionPreparedStatement) :
    (conn.store index cstmt).toDatabaseConnection = conn.toDatabaseConnection := rfl

/-- The statement of the client library that an index stands for. -/
def stmtAt (conn : StatementConnection) (index : UInt32) : Option MysqlStmt :=
  (conn.getPreparedStatement index).map ConnectionPreparedStatement.stmt

theorem getPreparedStatement_store (conn : StatementConnection) (index other : UInt32)
    (cstmt : ConnectionPreparedStatement) :
    (conn.store index cstmt).getPreparedStatement other =
      if index = other ∧ index.toNat < conn.stmts.length then some cstmt
      else conn.getPreparedStatement other := by
  simp only [getPreparedStatement, store, List.getElem?_set, UInt32.toNat_inj]
  by_cases same : index = other
  · subst same
    by_cases inside : index.toNat < conn.stmts.length
    · simp [inside]
    · simp [inside]
  · simp [same]

theorem stmtAt_store {conn : StatementConnection} {index : UInt32}
    {cstmt : ConnectionPreparedStatement} (same : conn.stmtAt index = some cstmt.stmt) :
    (conn.store index cstmt).stmtAt = conn.stmtAt := by
  funext other
  rw [stmtAt, getPreparedStatement_store]
  split
  · rename_i here
    rw [← here.1, same, Option.map_some]
  · rfl

/-- The connection has a handle, the statement is in the table, and its parameters can be copied. -/
structure Ready (conn : StatementConnection) (stmt : PreparedStatement) : Prop where
  handle : conn.mysql ≠ none
  found : conn.stmtAt stmt.index ≠ none
  holds : ∀ entry ∈ stmt.data, entry.Holds

/-- The checks end a call only if it is not ready, with nothing done. -/
structure Stops (conn : StatementConnection) (stmt : PreparedStatement)
    (attempt : StatementAttempt) : Prop where
  notReady : ¬conn.Ready stmt
  returned : attempt.returned = false
  calls : attempt.calls = []
  database : attempt.connection.toDatabaseConnection = conn.toDatabaseConnection
  stmtAt : attempt.connection.stmtAt = conn.stmtAt

theorem stops_of_enter {conn : StatementConnection} {stmt : PreparedStatement}
    {attempt : StatementAttempt} (enters : conn.enter stmt = some (.ends attempt)) :
    Stops conn stmt attempt := by
  rw [enter] at enters
  split at enters
  · rename_i isNull
    simp only [Option.some.injEq, Entered.ends.injEq] at enters
    subst enters
    exact ⟨fun ready => ready.handle isNull, rfl, rfl, rfl, rfl⟩
  · rename_i notFound
    simp only [Option.some.injEq, Entered.ends.injEq] at enters
    subst enters
    exact ⟨fun ready => ready.found (by simp [stmtAt, notFound]), rfl, rfl, rfl, rfl⟩
  rename_i cstmt hasHandle found
  simp only [Option.bind_eq_bind, Option.bind_eq_some_iff] at enters
  rcases enters with ⟨binding, bound, enters⟩
  have ending := ConnectionPreparedStatement.ending_eq_returned_iff bound
  have sameStmt := ConnectionPreparedStatement.stmt_of_bindParameters bound
  split at enters
  · simp at enters
  · rename_i thrown
    simp only [Option.pure_def, Option.some.injEq, Entered.ends.injEq] at enters
    subst enters
    refine ⟨fun ready => ?_, rfl, rfl, rfl, stmtAt_store ?_⟩
    · have returned := ending.mpr ready.holds
      rw [thrown] at returned
      cases returned
    · rw [stmtAt, found, Option.map_some, sameStmt]

theorem ready_of_enter {conn : StatementConnection} {stmt : PreparedStatement}
    {cstmt : ConnectionPreparedStatement} (enters : conn.enter stmt = some (.bound cstmt)) :
    conn.Ready stmt ∧ conn.stmtAt stmt.index = some cstmt.stmt := by
  rw [enter] at enters
  split at enters
  · simp at enters
  · simp at enters
  rename_i found hasHandle isFound
  simp only [Option.bind_eq_bind, Option.bind_eq_some_iff] at enters
  rcases enters with ⟨binding, bound, enters⟩
  have ending := ConnectionPreparedStatement.ending_eq_returned_iff bound
  have sameStmt := ConnectionPreparedStatement.stmt_of_bindParameters bound
  split at enters
  · rename_i returned
    simp only [Option.pure_def, Option.some.injEq, Entered.bound.injEq] at enters
    subst enters
    refine ⟨⟨by simp [hasHandle], by simp [stmtAt, isFound], ending.mp returned⟩, ?_⟩
    rw [stmtAt, isFound, Option.map_some, sameStmt]
  · simp at enters

end StatementConnection

/-! ## Attempts -/

variable {conn : StatementConnection} {stmt : PreparedStatement} {turns : List Turn}
  {connects : List Status} {sets : Bool} {attempt : StatementAttempt}

/-- The executions of `runStatement`. -/
inductive Runs (stmt : PreparedStatement) :
    Bool → List Turn → List Status → StatementConnection → StatementAttempt → Prop where
  | ended {sets : Bool} {turns : List Turn} {connects : List Status} {conn : StatementConnection}
      {attempt : StatementAttempt} (enters : conn.enter stmt = some (.ends attempt)) :
      Runs stmt sets turns connects conn attempt
  | ran {sets : Bool} {turns : List Turn} {connects : List Status} {conn : StatementConnection}
      {cstmt : ConnectionPreparedStatement} (enters : conn.enter stmt = some (.bound cstmt)) :
      Runs stmt sets (.runs :: turns) connects conn
        ⟨.returned, true, sets,
          (conn.store stmt.index cstmt).store stmt.index cstmt.clearParameters,
          Turn.executedCalls cstmt.stmt none⟩
  | failed {sets isBound : Bool} {lErrno : UInt32} {turns : List Turn} {connects : List Status}
      {conn : StatementConnection} {cstmt : ConnectionPreparedStatement} {handled : Attempt}
      (enters : conn.enter stmt = some (.bound cstmt))
      (handles : DatabaseConnection.handleMySQLErrno connects lErrno conn.toDatabaseConnection =
        some handled)
      (lost : ¬handled.returned) :
      Runs stmt sets (.fails isBound lErrno :: turns) connects conn
        ⟨.returned, false, false,
          StatementConnection.store
            { conn.store stmt.index cstmt with toDatabaseConnection := handled.connection }
            stmt.index cstmt.clearParameters,
          Turn.failedCalls isBound cstmt.stmt lErrno ++ handled.calls.map .library⟩
  | retried {sets isBound : Bool} {lErrno : UInt32} {turns : List Turn} {connects : List Status}
      {conn : StatementConnection} {cstmt : ConnectionPreparedStatement} {handled : Attempt}
      {again : StatementAttempt} (enters : conn.enter stmt = some (.bound cstmt))
      (handles : DatabaseConnection.handleMySQLErrno connects lErrno conn.toDatabaseConnection =
        some handled)
      (reconnected : handled.returned)
      (retries : Runs stmt (sets && isBound) turns handled.connects
        { conn.store stmt.index cstmt with toDatabaseConnection := handled.connection } again) :
      Runs stmt sets (.fails isBound lErrno :: turns) connects conn
        { again with
          calls := Turn.failedCalls isBound cstmt.stmt lErrno ++ handled.calls.map .library ++
            again.calls }

open StatementConnection

theorem runs_of_runStatement (ran : runStatement stmt sets turns connects conn = some attempt) :
    Runs stmt sets turns connects conn attempt := by
  induction turns generalizing sets connects conn attempt with
  | nil =>
      rw [runStatement] at ran
      split at ran
      · cases ran
      · rename_i ended enters
        rw [Option.some.injEq] at ran
        subst ran
        exact .ended enters
      · cases ran
  | cons turn turns ih =>
      rw [runStatement] at ran
      split at ran
      · cases ran
      · rename_i ended enters
        rw [Option.some.injEq] at ran
        subst ran
        exact .ended enters
      rename_i cstmt enters
      cases turn with
      | runs =>
          rw [Option.some.injEq] at ran
          subst ran
          exact .ran enters
      | fails isBound lErrno =>
          simp only [Option.bind_eq_bind, Option.bind_eq_some_iff] at ran
          rcases ran with ⟨handled, handles, ran⟩
          split at ran
          · rename_i reconnected
            simp only [Option.bind_eq_some_iff] at ran
            rcases ran with ⟨again, retries, ran⟩
            simp only [Option.pure_def, Option.some.injEq] at ran
            subst ran
            exact .retried enters handles reconnected (ih retries)
          · rename_i lost
            simp only [Option.pure_def, Option.some.injEq] at ran
            subst ran
            exact .failed enters handles lost

/-- The table keeps its statements, whatever is copied into their slots. -/
theorem Runs.stmtAt (runs : Runs stmt sets turns connects conn attempt) :
    attempt.connection.stmtAt = conn.stmtAt := by
  induction runs with
  | ended enters => exact (stops_of_enter enters).stmtAt
  | ran enters =>
      have first := stmtAt_store (ready_of_enter enters).2
      refine (stmtAt_store ?_).trans first
      rw [first]
      exact (ready_of_enter enters).2
  | @failed _ _ _ _ _ _ cstmt _ enters handles lost =>
      have first := stmtAt_store (ready_of_enter enters).2
      refine (@stmtAt_store _ _ cstmt.clearParameters ?_).trans first
      exact (congrFun first _).trans (ready_of_enter enters).2
  | retried enters handles reconnected retries ih =>
      exact ih.trans (stmtAt_store (ready_of_enter enters).2)

theorem eq_of_execute_mem_failed {isBound : Bool} {executed failing : MysqlStmt} {lErrno : UInt32}
    {status : Status} {calls : List LibraryCall}
    (callMem : StatementCall.execute executed status ∈
      Turn.failedCalls isBound failing lErrno ++ calls.map .library) : executed = failing := by
  cases isBound with
  | false => simp [Turn.failedCalls] at callMem
  | true =>
      simp only [Turn.failedCalls, if_true, List.mem_append, Turn.execute_mem_executedCalls,
        List.mem_map, reduceCtorEq, and_false, exists_false, or_false] at callMem
      exact callMem.1

/-- Every execution of a call is one of the statement in the table. -/
theorem Runs.executes (runs : Runs stmt sets turns connects conn attempt) {executed : MysqlStmt}
    {status : Status} (callMem : StatementCall.execute executed status ∈ attempt.calls) :
    conn.stmtAt stmt.index = some executed := by
  induction runs with
  | ended enters =>
      rw [(stops_of_enter enters).calls] at callMem
      cases callMem
  | ran enters =>
      rw [(ready_of_enter enters).2, (Turn.execute_mem_executedCalls.mp callMem).1]
  | failed enters handles lost =>
      rw [(ready_of_enter enters).2, eq_of_execute_mem_failed callMem]
  | retried enters handles reconnected retries ih =>
      rcases List.mem_append.mp callMem with callMem | callMem
      · rw [(ready_of_enter enters).2, eq_of_execute_mem_failed callMem]
      · exact (congrFun (stmtAt_store (ready_of_enter enters).2) _).symm.trans (ih callMem)

/-! ## Handles -/

/-- The handle of a connection is among those that were opened. -/
def Numbered (database : DatabaseConnection) : Prop :=
  ∀ handle, database.mysql = some handle → handle < database.opened

/-- A handle that was opened and that the connection does not have any more. -/
def Gone (database : DatabaseConnection) (handle : ℕ) : Prop :=
  handle < database.opened ∧ database.mysql ≠ some handle

/-- Calls that lead from one state of a connection to another: what is gone was closed. -/
structure Follows (calls : List LibraryCall) (database next : DatabaseConnection) : Prop where
  numbered : Numbered next
  opened : database.opened ≤ next.opened
  gone : ∀ handle, Gone next handle ↔ Gone database handle ∨ .close (some handle) ∈ calls

variable {database next last : DatabaseConnection} {calls later : List LibraryCall}

theorem Follows.trans (first : Follows calls database next) (second : Follows later next last) :
    Follows (calls ++ later) database last := by
  refine ⟨second.numbered, first.opened.trans second.opened, fun handle => ?_⟩
  rw [second.gone, first.gone, List.mem_append, or_assoc]

theorem Follows.query (numbered : Numbered database) (handle : ℕ) (status : Status) :
    Follows [.query handle status] database database :=
  ⟨numbered, le_rfl, by simp⟩

/-- An error is met with a new handle: the failing attempts to connect all ask for another. -/
def Reopens (connects : List Status) (lErrno : UInt32) : Prop :=
  lErrno ∈ clientErrors ∧ ∃ (failed : List UInt32) (rest : List Status),
    connects = failed.map some ++ none :: rest ∧ ∀ code ∈ failed, code ∈ clientErrors

theorem reopens_cons_none {connects : List Status} {lErrno : UInt32}
    (retried : lErrno ∈ clientErrors) : Reopens (none :: connects) lErrno :=
  ⟨retried, [], connects, rfl, fun code codeMem => by cases codeMem⟩

theorem reopens_cons_some {connects : List Status} {lErrno code : UInt32}
    (retried : lErrno ∈ clientErrors) :
    Reopens (some code :: connects) lErrno ↔ Reopens connects code := by
  constructor
  · rintro ⟨_, failed, rest, connectsEq, failedRetried⟩
    cases failed with
    | nil => simp at connectsEq
    | cons other failed =>
        simp only [List.map_cons, List.cons_append, List.cons.injEq,
          Option.some.injEq] at connectsEq
        rcases connectsEq with ⟨rfl, connectsEq⟩
        exact ⟨failedRetried _ (by simp), failed, rest, connectsEq,
          fun other otherMem => failedRetried other (List.mem_cons_of_mem _ otherMem)⟩
  · rintro ⟨codeRetried, failed, rest, rfl, failedRetried⟩
    refine ⟨retried, code :: failed, rest, rfl, ?_⟩
    intro other otherMem
    rcases List.mem_cons.mp otherMem with rfl | otherMem
    · exact codeRetried
    · exact failedRetried other otherMem

/-- A reconnect gives its handle up first. -/
theorem follows_openWith (numbered : Numbered database) (status : Status) :
    Follows [.close database.mysql, .connect status] database
      (database.close.openWith status) := by
  have opened : database.close.opened = database.opened := by
    rw [DatabaseConnection.close]
    split <;> rfl
  have closed : ∀ handle, LibraryCall.close (some handle) ∈
      [LibraryCall.close database.mysql, .connect status] ↔ database.mysql = some handle := by
    intro handle
    simp [eq_comm]
  cases status with
  | none =>
      refine ⟨?_, ?_, fun handle => ?_⟩
      · intro handle isHandle
        rw [DatabaseConnection.openWith, Option.some.injEq] at isHandle
        rw [DatabaseConnection.openWith, isHandle]
        exact Nat.lt_succ_self _
      · rw [DatabaseConnection.openWith, opened]
        exact Nat.le_succ _
      · have below := numbered handle
        simp only [Gone, DatabaseConnection.openWith, opened, closed, ne_eq, Option.some.injEq]
        by_cases current : database.mysql = some handle
        · have := below current
          simp only [current, not_true_eq_false, and_false, or_true, iff_true]
          omega
        · simp only [current, not_false_eq_true, and_true, or_false]
          omega
  | some code =>
      refine ⟨?_, opened.ge, fun handle => ?_⟩
      · intro handle isHandle
        cases isHandle
      · have below := numbered handle
        simp only [Gone, DatabaseConnection.openWith, opened, closed, ne_eq, reduceCtorEq,
          not_false_eq_true, and_true]
        by_cases current : database.mysql = some handle
        · simp [current, below current]
        · simp [current]

theorem Handles.follows {connects : List Status} {lErrno : UInt32} {handled : Attempt}
    (handles : Handles connects lErrno database handled) (numbered : Numbered database) :
    Follows handled.calls database handled.connection := by
  induction handles with
  | unhandled other => exact ⟨numbered, le_rfl, by simp⟩
  | reconnected retried => exact follows_openWith numbered none
  | @refused _ _ code _ _ retried again ih =>
      have first := follows_openWith numbered (some code)
      exact first.trans (ih first.numbered)

theorem Handles.returned_iff {connects : List Status} {lErrno : UInt32} {handled : Attempt}
    (handles : Handles connects lErrno database handled) :
    (handled.returned = true ↔ Reopens connects lErrno) ∧
      (handled.returned = true ↔ .connect none ∈ handled.calls) := by
  induction handles with
  | unhandled other =>
      exact ⟨iff_of_false Bool.false_ne_true fun reopens => other reopens.1, by simp⟩
  | reconnected retried =>
      exact ⟨iff_of_true rfl (reopens_cons_none retried), by simp⟩
  | refused retried again ih =>
      rw [reopens_cons_some retried]
      exact ⟨ih.1, ih.2.trans (by simp)⟩

theorem execute_follows {queries connects : List Status} {executed : Attempt}
    (executes : DatabaseConnection.execute queries connects database = some executed)
    (numbered : Numbered database) : Follows executed.calls database executed.connection := by
  induction queries generalizing connects database executed with
  | nil =>
      rw [DatabaseConnection.execute] at executes
      split at executes
      · rw [Option.some.injEq] at executes
        subst executes
        exact ⟨numbered, le_rfl, by simp⟩
      · cases executes
  | cons status queries ih =>
      rw [DatabaseConnection.execute] at executes
      split at executes
      · rw [Option.some.injEq] at executes
        subst executes
        exact ⟨numbered, le_rfl, by simp⟩
      rename_i handle _
      have sent := Follows.query numbered handle status
      cases status with
      | none =>
          rw [Option.some.injEq] at executes
          subst executes
          exact sent
      | some lErrno =>
          simp only [Option.bind_eq_bind, Option.bind_eq_some_iff] at executes
          rcases executes with ⟨handled, handles, executes⟩
          have failed := sent.trans ((handles_of_handleMySQLErrno handles).follows numbered)
          split at executes
          · simp only [Option.bind_eq_some_iff] at executes
            rcases executes with ⟨again, retries, executes⟩
            simp only [Option.pure_def, Option.some.injEq] at executes
            subst executes
            exact failed.trans (ih retries failed.numbered)
          · simp only [Option.pure_def, Option.some.injEq] at executes
            subst executes
            exact failed

/-- The calls that concern the connection. -/
def StatementCall.library? : StatementCall → Option LibraryCall
  | .library call => some call
  | _ => none

def libraryCalls (calls : List StatementCall) : List LibraryCall :=
  calls.filterMap StatementCall.library?

@[simp] theorem libraryCalls_append (earlier later : List StatementCall) :
    libraryCalls (earlier ++ later) = libraryCalls earlier ++ libraryCalls later :=
  List.filterMap_append

@[simp] theorem libraryCalls_map (calls : List LibraryCall) :
    libraryCalls (calls.map .library) = calls := by
  simp [libraryCalls, List.filterMap_map, Function.comp_def, StatementCall.library?]

@[simp] theorem libraryCalls_executedCalls (stmt : MysqlStmt) (status : Status) :
    libraryCalls (Turn.executedCalls stmt status) = [] := rfl

@[simp] theorem libraryCalls_failedCalls (isBound : Bool) (stmt : MysqlStmt) (lErrno : UInt32) :
    libraryCalls (Turn.failedCalls isBound stmt lErrno) = [] := by
  cases isBound <;> rfl

theorem mem_libraryCalls {calls : List StatementCall} {call : LibraryCall} :
    call ∈ libraryCalls calls ↔ StatementCall.library call ∈ calls := by
  rw [libraryCalls, List.mem_filterMap]
  constructor
  · rintro ⟨statementCall, callMem, isLibrary⟩
    cases statementCall with
    | library other =>
        rw [StatementCall.library?, Option.some.injEq] at isLibrary
        exact isLibrary ▸ callMem
    | _ => cases isLibrary
  · intro callMem
    exact ⟨_, callMem, rfl⟩

theorem Runs.follows (runs : Runs stmt sets turns connects conn attempt)
    (numbered : Numbered conn.toDatabaseConnection) :
    Follows (libraryCalls attempt.calls) conn.toDatabaseConnection
      attempt.connection.toDatabaseConnection := by
  induction runs with
  | ended enters =>
      have stops := stops_of_enter enters
      rw [stops.calls, stops.database]
      exact ⟨numbered, le_rfl, by simp [libraryCalls]⟩
  | ran enters => exact ⟨numbered, le_rfl, by simp⟩
  | failed enters handles lost =>
      simpa using (handles_of_handleMySQLErrno handles).follows numbered
  | retried enters handles reconnected retries ih =>
      have first := (handles_of_handleMySQLErrno handles).follows numbered
      simpa using first.trans (ih first.numbered)

/-! ## Logs -/

/-- No statement is executed after the handle was closed on which it was initialised. -/
def Live (log : List StatementCall) : Prop :=
  ∀ earlier (stmt : MysqlStmt) status later,
    log = earlier ++ StatementCall.execute stmt status :: later →
      StatementCall.library (.close (some stmt.connection)) ∉ earlier

variable {log : List StatementCall}

theorem live_of_append {calls : List StatementCall} (live : Live (log ++ calls)) : Live log := by
  intro earlier stmt status later split
  exact live earlier stmt status (later ++ calls) (by simp [split])

theorem live_snoc {call : StatementCall} :
    Live (log ++ [call]) ↔ Live log ∧ ∀ stmt status, call = .execute stmt status →
      StatementCall.library (.close (some stmt.connection)) ∉ log := by
  constructor
  · intro live
    refine ⟨live_of_append live, ?_⟩
    rintro stmt status rfl
    exact live log stmt status [] rfl
  · rintro ⟨live, last⟩ earlier stmt status later split
    rcases List.eq_nil_or_concat later with rfl | ⟨before, other, rfl⟩
    · rcases List.append_inj' split rfl with ⟨rfl, same⟩
      rw [List.cons.injEq] at same
      exact last stmt status same.1
    · rw [List.concat_eq_append, ← List.cons_append, ← List.append_assoc] at split
      exact live earlier stmt status before (List.append_inj' split rfl).1

theorem live_append {calls : List StatementCall}
    (none : ∀ stmt status, StatementCall.execute stmt status ∉ calls) :
    Live (log ++ calls) ↔ Live log := by
  induction calls using List.reverseRecOn with
  | nil => rw [List.append_nil]
  | append_singleton calls call ih =>
      rw [← List.append_assoc, live_snoc, ih fun stmt status callMem =>
        none stmt status (List.mem_append_left _ callMem)]
      apply and_iff_left
      rintro stmt status rfl
      exact absurd (by simp) (none stmt status)

/-- An attempt that gets as far as the execution executes its statement, whatever follows. -/
theorem live_append_execute {stmt : MysqlStmt} {status : Status} {calls : List LibraryCall} :
    Live (log ++ (Turn.executedCalls stmt status ++ calls.map .library)) ↔
      Live log ∧ StatementCall.library (.close (some stmt.connection)) ∉ log := by
  have bound := @live_append log [StatementCall.bindParam stmt none] (by simp)
  have executed :=
    @live_snoc (log ++ [StatementCall.bindParam stmt none]) (StatementCall.execute stmt status)
  rw [bound, List.append_assoc] at executed
  rw [← List.append_assoc, live_append (by simp)]
  refine executed.trans (and_congr_right fun _ => ?_)
  simp

/-! ## Survival -/

/-- A call that has connected executes a statement of a handle that is new. -/
def Renews (conn : StatementConnection) (calls : List StatementCall) : Prop :=
  StatementCall.library (.connect none) ∈ calls →
    ∃ (stmt : MysqlStmt) (status : Status),
      StatementCall.execute stmt status ∈ calls ∧ conn.opened ≤ stmt.connection

/-- An attempt that gets as far as the execution. -/
def Turn.executes : Turn → Bool
  | .runs => true
  | .fails isBound _ => isBound

/--
The first attempt of a call executes a statement of the handle in use, if it executes one, and no
error leads to another handle.
-/
structure Spared (conn : StatementConnection) (stmt : PreparedStatement) (turns : List Turn)
    (connects : List Status) : Prop where
  current : ∀ turn ∈ turns.head?, turn.executes = true →
    ∀ owner ∈ conn.stmtAt stmt.index, conn.mysql = some owner.connection
  stays : ∀ isBound lErrno, .fails isBound lErrno ∈ turns.head? → ¬Reopens connects lErrno

/-- What is known of a connection: its handles have numbers, and what is gone was closed. -/
structure Knows (log : List StatementCall) (conn : StatementConnection) : Prop where
  numbered : Numbered conn.toDatabaseConnection
  owned : ∀ index, ∀ owner ∈ conn.stmtAt index, owner.connection < conn.opened
  gone : ∀ handle, Gone conn.toDatabaseConnection handle ↔
    StatementCall.library (.close (some handle)) ∈ log

theorem Knows.not_closed_iff (knows : Knows log conn) {index : UInt32} {owner : MysqlStmt}
    (found : conn.stmtAt index = some owner) :
    StatementCall.library (.close (some owner.connection)) ∉ log ↔
      conn.mysql = some owner.connection := by
  rw [← knows.gone, Gone, not_and_not_right]
  exact imp_iff_right (knows.owned index owner found)

theorem spared_runs_iff {owner : MysqlStmt} (found : conn.stmtAt stmt.index = some owner) :
    Spared conn stmt (.runs :: turns) connects ↔ conn.mysql = some owner.connection := by
  constructor
  · intro spared
    exact spared.current .runs rfl rfl owner found
  · intro current
    refine ⟨?_, ?_⟩
    · intro turn _ _ other otherFound
      rw [found, Option.mem_some_iff] at otherFound
      rw [← otherFound]
      exact current
    · intro isBound lErrno first
      simp at first

theorem spared_fails_iff {owner : MysqlStmt} {isBound : Bool} {lErrno : UInt32}
    (found : conn.stmtAt stmt.index = some owner) :
    Spared conn stmt (.fails isBound lErrno :: turns) connects ↔
      (isBound = true → conn.mysql = some owner.connection) ∧ ¬Reopens connects lErrno := by
  constructor
  · intro spared
    exact ⟨fun bound => spared.current _ rfl bound owner found, spared.stays isBound lErrno rfl⟩
  · rintro ⟨current, stays⟩
    refine ⟨?_, ?_⟩
    · intro turn first executes other otherFound
      rw [List.head?_cons, Option.mem_some_iff] at first
      rw [found, Option.mem_some_iff] at otherFound
      rw [← otherFound]
      subst first
      exact current executes
    · intro other code first
      rw [List.head?_cons, Option.mem_some_iff, Turn.fails.injEq] at first
      rw [← first.2]
      exact stays

theorem Runs.live_and_renews_iff (runs : Runs stmt sets turns connects conn attempt)
    (knows : Knows log conn) :
    Live (log ++ attempt.calls) ∧ Renews conn attempt.calls ↔
      Live log ∧ (conn.Ready stmt → Spared conn stmt turns connects) := by
  have executes : ∀ executed status, StatementCall.execute executed status ∈ attempt.calls →
      conn.stmtAt stmt.index = some executed := fun executed status => runs.executes
  cases runs with
  | ended enters =>
      have stops := stops_of_enter enters
      rw [stops.calls, List.append_nil]
      exact and_congr_right fun _ => iff_of_true (fun connected => by cases connected)
        fun ready => absurd ready stops.notReady
  | @ran _ turns _ _ cstmt enters =>
      rcases ready_of_enter enters with ⟨ready, found⟩
      have appended := @live_append_execute log cstmt.stmt none []
      rw [List.map_nil, List.append_nil, knows.not_closed_iff found] at appended
      have renews : Renews conn (Turn.executedCalls cstmt.stmt none) := by
        intro connected
        simp [Turn.executedCalls] at connected
      rw [and_iff_left renews, appended, imp_iff_right ready, spared_runs_iff found]
  | @failed _ isBound lErrno turns _ _ cstmt handled enters handles lost =>
      rcases ready_of_enter enters with ⟨ready, found⟩
      have returned := (handles_of_handleMySQLErrno handles).returned_iff
      have renews : Renews conn
          (Turn.failedCalls isBound cstmt.stmt lErrno ++ handled.calls.map .library) := by
        intro connected
        refine absurd (returned.2.mpr ?_) lost
        rw [← mem_libraryCalls] at connected
        simpa using connected
      rw [and_iff_left renews, imp_iff_right ready, spared_fails_iff found,
        and_iff_left (returned.1.not.mp lost)]
      cases isBound with
      | false =>
          have appended := @live_append log
            (Turn.failedCalls false cstmt.stmt lErrno ++ handled.calls.map .library)
            (by simp [Turn.failedCalls])
          simpa using appended
      | true =>
          have appended := @live_append_execute log cstmt.stmt (some lErrno) handled.calls
          rw [knows.not_closed_iff found] at appended
          simpa [Turn.failedCalls] using appended
  | @retried _ isBound lErrno turns _ _ cstmt handled again enters handles reconnected retries =>
      rcases ready_of_enter enters with ⟨ready, found⟩
      have returned := (handles_of_handleMySQLErrno handles).returned_iff
      apply iff_of_false
      · rintro ⟨_, renews⟩
        have connected : StatementCall.library (.connect none) ∈
            Turn.failedCalls isBound cstmt.stmt lErrno ++ handled.calls.map .library ++
              again.calls := by
          rw [← mem_libraryCalls]
          simp [returned.2.mp reconnected]
        rcases renews connected with ⟨executed, status, callMem, isNew⟩
        have owned := knows.owned _ executed (executes executed status callMem)
        omega
      · rintro ⟨_, spared⟩
        exact (spared ready).stays isBound lErrno rfl (returned.1.mp reconnected)

/-! ## Histories -/

/-- What a request that runs a statement is given. -/
def StatementRequest.attempt? :
    StatementRequest ρ → Option (PreparedStatement × List Turn × List Status)
  | .execute stmt turns connects => some (stmt, turns, connects)
  | .query stmt turns connects _ => some (stmt, turns, connects)
  | _ => none

/-- A request runs a statement, or leaves the log without an execution. -/
inductive StatementMoves (entry : StatementEntry ρ) : Prop where
  | attempts {stmt : PreparedStatement} {turns : List Turn} {connects : List Status} {sets : Bool}
      {attempt : StatementAttempt} (event : entry.event.attempt? = some (stmt, turns, connects))
      (runs : Runs stmt sets turns connects entry.before attempt)
      (after : entry.after = attempt.connection) (calls : entry.output.calls = attempt.calls)
  | rests (event : entry.event.attempt? = none)
      (calls : ∀ stmt status, StatementCall.execute stmt status ∉ entry.output.calls)
      (follows : Numbered entry.before.toDatabaseConnection →
        Follows (libraryCalls entry.output.calls) entry.before.toDatabaseConnection
          entry.after.toDatabaseConnection)
      (owned : ∀ index, ∀ owner ∈ entry.after.stmtAt index,
        owner ∈ entry.before.stmtAt index ∨ entry.before.mysql = some owner.connection)

theorem getElem?_room (stmts : List (Option ConnectionPreparedStatement)) (index : UInt32)
    {i : ℕ} {cstmt : ConnectionPreparedStatement}
    (found : (room stmts index)[i]?.join = some cstmt) : stmts[i]?.join = some cstmt := by
  rw [room] at found
  split at found
  · simp only [List.rightpad, List.getElem?_append, List.getElem?_take,
      List.getElem?_replicate] at found
    grind
  · exact found

theorem prepareStatement_eq_some {index : UInt32} {sql : StdString} {preparation : Preparation}
    {next : StatementConnection} {returned : Bool} {calls : List StatementCall}
    (prepared : conn.prepareStatement index sql preparation = some (next, returned, calls)) :
    next.toDatabaseConnection = conn.toDatabaseConnection ∧
      (∀ stmt status, StatementCall.execute stmt status ∉ calls) ∧ libraryCalls calls = [] ∧
      ∀ other, ∀ owner ∈ next.stmtAt other,
        owner ∈ conn.stmtAt other ∨ conn.mysql = some owner.connection := by
  unfold prepareStatement at prepared
  split at prepared
  · simp only [Option.some.injEq, Prod.mk.injEq] at prepared
    rcases prepared with ⟨rfl, _, rfl⟩
    exact ⟨rfl, by simp, rfl, fun other owner found => Or.inl found⟩
  · simp only [Option.some.injEq, Prod.mk.injEq] at prepared
    rcases prepared with ⟨rfl, _, rfl⟩
    exact ⟨rfl, by simp, rfl, fun other owner found => Or.inl found⟩
  · simp only [Option.some.injEq, Prod.mk.injEq] at prepared
    rcases prepared with ⟨rfl, _, rfl⟩
    exact ⟨rfl, by simp, rfl, fun other owner found => Or.inl found⟩
  rename_i handle paramCount hasHandle
  simp only [Option.ite_none_right_eq_some, Option.some.injEq, Prod.mk.injEq] at prepared
  rcases prepared with ⟨_, rfl, _, rfl⟩
  refine ⟨rfl, by simp, rfl, ?_⟩
  intro other owner found
  rcases Option.map_eq_some_iff.mp found with ⟨cstmt, entryEq, rfl⟩
  rw [getPreparedStatement, List.getElem?_set] at entryEq
  split at entryEq
  · rw [Option.join_some, Option.some.injEq] at entryEq
    rw [← entryEq]
    exact Or.inr hasHandle
  · left
    rw [Option.mem_def, stmtAt, getPreparedStatement, getElem?_room _ _ entryEq, Option.map_some]

theorem statementMoves_of_step {entry : StatementEntry ρ}
    (stepped : entry.before.step entry.event = some (entry.after, entry.output)) :
    StatementMoves entry := by
  rcases entry with ⟨before, event, output, after⟩
  cases event with
  | prepareStatement index sql preparation =>
      simp only [StatementConnection.step, Option.bind_eq_bind, Option.bind_eq_some_iff] at stepped
      rcases stepped with ⟨⟨next, returned, calls⟩, prepared, stepped⟩
      simp only [Option.pure_def, Option.some.injEq, Prod.mk.injEq] at stepped
      rcases stepped with ⟨rfl, rfl⟩
      rcases prepareStatement_eq_some prepared with ⟨same, none, silent, owned⟩
      refine .rests rfl none ?_ owned
      intro numbered
      rw [silent, same]
      exact ⟨numbered, le_rfl, by simp⟩
  | execute stmt turns connects =>
      simp only [StatementConnection.step, Option.bind_eq_bind, Option.bind_eq_some_iff] at stepped
      rcases stepped with ⟨attempt, runs, stepped⟩
      simp only [Option.pure_def, Option.some.injEq, Prod.mk.injEq] at stepped
      rcases stepped with ⟨rfl, rfl⟩
      exact .attempts rfl (runs_of_runStatement runs) rfl rfl
  | query stmt turns connects reading =>
      simp only [StatementConnection.step, Option.bind_eq_bind, Option.bind_eq_some_iff] at stepped
      rcases stepped with ⟨attempt, runs, stepped⟩
      have ran := runs_of_runStatement runs
      split at stepped
      · simp only [Option.bind_eq_some_iff] at stepped
        rcases stepped with ⟨set, _, stepped⟩
        simp only [Option.pure_def, Option.some.injEq, Prod.mk.injEq] at stepped
        rcases stepped with ⟨rfl, rfl⟩
        exact .attempts rfl ran rfl rfl
      · simp only [Option.pure_def, Option.some.injEq, Prod.mk.injEq] at stepped
        rcases stepped with ⟨rfl, rfl⟩
        exact .attempts rfl ran rfl rfl
  | text request =>
      simp only [StatementConnection.step, Option.bind_eq_bind, Option.bind_eq_some_iff] at stepped
      rcases stepped with ⟨⟨database, answer⟩, answered, stepped⟩
      simp only [Option.pure_def, Option.some.injEq, Prod.mk.injEq] at stepped
      rcases stepped with ⟨rfl, rfl⟩
      refine .rests rfl (by simp) ?_ fun index owner found => Or.inl found
      intro numbered
      rcases execute_of_step answered with ⟨outcomes, executed, executes, afterEq, callsEq⟩
      rw [libraryCalls_map, afterEq, callsEq]
      exact execute_follows executes numbered

variable {trace : List (StatementEntry ρ)} {final : StatementConnection}

/-- The calls of the client library in a history. -/
def callLog (trace : List (StatementEntry ρ)) : List StatementCall :=
  trace.flatMap fun entry => entry.output.calls

theorem callLog_snoc (trace : List (StatementEntry ρ)) (entry : StatementEntry ρ) :
    callLog (trace ++ [entry]) = callLog trace ++ entry.output.calls := by
  simp [callLog]

/-- Statements are executed on live handles, and on a new one after a reconnect. -/
structure Survives (trace : List (StatementEntry ρ)) : Prop where
  live : Live (callLog trace)
  renews : ∀ entry ∈ trace, entry.event.attempt?.isSome →
    Renews entry.before entry.output.calls

/-- A request that runs a statement which is ready is spared. -/
def Undisturbed (entry : StatementEntry ρ) : Prop :=
  ∀ stmt turns connects, entry.event.attempt? = some (stmt, turns, connects) →
    entry.before.Ready stmt → Spared entry.before stmt turns connects

theorem survives_snoc {entry : StatementEntry ρ} :
    Survives (trace ++ [entry]) ↔ Survives trace ∧ Live (callLog trace ++ entry.output.calls) ∧
      (entry.event.attempt?.isSome → Renews entry.before entry.output.calls) := by
  constructor
  · rintro ⟨live, renews⟩
    rw [callLog_snoc] at live
    refine ⟨⟨live_of_append live, ?_⟩, live, renews entry (by simp)⟩
    intro other otherMem
    exact renews other (List.mem_append_left _ otherMem)
  · rintro ⟨survives, live, renews⟩
    refine ⟨callLog_snoc trace entry ▸ live, ?_⟩
    intro other otherMem
    rcases List.mem_append.mp otherMem with otherMem | otherMem
    · exact survives.renews other otherMem
    · rw [List.mem_singleton] at otherMem
      subst otherMem
      exact renews

/-- The closed handles stay those that are gone. -/
theorem Knows.follow {calls : List StatementCall} {next : StatementConnection}
    (knows : Knows log conn)
    (follows : Follows (libraryCalls calls) conn.toDatabaseConnection next.toDatabaseConnection)
    (owned : ∀ index, ∀ owner ∈ next.stmtAt index,
      owner ∈ conn.stmtAt index ∨ conn.mysql = some owner.connection) :
    Knows (log ++ calls) next := by
  refine ⟨follows.numbered, ?_, ?_⟩
  · intro index owner found
    refine lt_of_lt_of_le ?_ follows.opened
    rcases owned index owner found with found | current
    · exact knows.owned index owner found
    · exact knows.numbered _ current
  · intro handle
    rw [follows.gone, knows.gone, List.mem_append, mem_libraryCalls]

theorem StatementMoves.knows {entry : StatementEntry ρ} (moves : StatementMoves entry)
    (knows : Knows (callLog trace) entry.before) :
    Knows (callLog (trace ++ [entry])) entry.after := by
  rw [callLog_snoc]
  cases moves with
  | attempts event runs after calls =>
      rw [after, calls]
      apply knows.follow (runs.follows knows.numbered)
      intro index owner found
      rw [runs.stmtAt] at found
      exact Or.inl found
  | rests event calls follows owned => exact knows.follow (follows knows.numbered) owned

theorem StatementMoves.survives_snoc_iff {entry : StatementEntry ρ} (moves : StatementMoves entry)
    (knows : Knows (callLog trace) entry.before) :
    Survives (trace ++ [entry]) ↔ Survives trace ∧ Undisturbed entry := by
  rw [survives_snoc]
  refine and_congr_right fun survives => ?_
  cases moves with
  | @attempts stmt turns connects _ _ event runs after calls =>
      have verdict := runs.live_and_renews_iff knows
      rw [← calls, and_iff_right survives.live] at verdict
      rw [event, Option.isSome_some, imp_iff_right rfl, verdict]
      constructor
      · intro spared other otherTurns otherConnects same
        rw [event, Option.some.injEq, Prod.mk.injEq, Prod.mk.injEq] at same
        rcases same with ⟨rfl, rfl, rfl⟩
        exact spared
      · intro undisturbed
        exact undisturbed stmt turns connects event
  | rests event calls follows owned =>
      refine iff_of_true ⟨(live_append calls).mpr survives.live, ?_⟩ ?_
      · simp [event]
      · intro stmt turns connects same
        rw [event] at same
        cases same

theorem knows_new : Knows [] StatementConnection.new := by
  refine ⟨?_, ?_, ?_⟩
  · intro handle isHandle
    simp [StatementConnection.new, DatabaseConnection.new] at isHandle ⊢
    omega
  · intro index owner found
    simp [StatementConnection.stmtAt, getPreparedStatement, StatementConnection.new] at found
  · intro handle
    simp only [Gone, StatementConnection.new, DatabaseConnection.new, List.not_mem_nil, iff_false]
    simp
    omega

/--
In a history, the statements survive just when every request that runs a statement in the table
finds it prepared on the handle in use, if it gets as far as the execution, and meets no error that
leads to another handle.
-/
theorem survives_iff (run : StatementRun trace final) :
    Survives trace ↔ ∀ entry ∈ trace, Undisturbed entry := by
  refine (run.invariant (fun trace final => Knows (callLog trace) final ∧
    (Survives trace ↔ ∀ entry ∈ trace, Undisturbed entry)) (fun _ => True)
    (fun _ _ => trivial) ⟨knows_new, ?_⟩ ?_).2
  · refine iff_of_true ⟨?_, by simp⟩ (by simp)
    intro earlier stmt status later split
    simp [callLog] at split
  intro trace entry held _ stepped
  have moves := statementMoves_of_step stepped
  refine ⟨moves.knows held.1, ?_⟩
  rw [moves.survives_snoc_iff held.1, held.2]
  simp [or_imp, forall_and]

/-! ## Sample histories -/

namespace Sample

def statement : MysqlStmt := ⟨0, ascii "SELECT 1", 0⟩

def prepare : StatementRequest Unit :=
  .prepareStatement 0 (ascii "SELECT 1") (.prepared 0)

def run : StatementRequest Unit :=
  .execute (.new 0) [.runs] []

/-- The server is gone while a text is executed, and the reconnect succeeds. -/
def reopened : StatementRequest Unit :=
  .text (.execute ⟨[some 2006, none], [none]⟩)

/-- The statement that is prepared on the new handle. -/
def renewed : MysqlStmt := ⟨1, ascii "SELECT 1", 0⟩

/-- A statement runs, and is prepared again after a reconnect in between. -/
def careful : List (StatementRequest Unit) :=
  [prepare, run, reopened, prepare, run]

/-- The server is gone, the reconnect succeeds, and the statement of the old handle is rejected. -/
def disturbed : StatementRequest Unit :=
  .execute (.new 0) [.fails true 2006, .fails true 0] [none]

end Sample

theorem survives_sample :
    ∃ (trace : List (StatementEntry Unit)) (final : StatementConnection),
      StatementRun trace final ∧ trace.map Entry.event = Sample.careful ∧
      callLog trace = [.prepare Sample.statement none, .bindParam Sample.statement none,
        .execute Sample.statement none, .library (.query 0 (some 2006)),
        .library (.close (some 0)), .library (.connect none), .library (.query 1 none),
        .prepare Sample.renewed none, .bindParam Sample.renewed none,
        .execute Sample.renewed none] ∧
      Survives trace := by
  have found : ∃ result ∈ replay StatementConnection.step StatementConnection.new Sample.careful,
      callLog result.1 = [.prepare Sample.statement none, .bindParam Sample.statement none,
        .execute Sample.statement none, .library (.query 0 (some 2006)),
        .library (.close (some 0)), .library (.connect none), .library (.query 1 none),
        .prepare Sample.renewed none, .bindParam Sample.renewed none,
        .execute Sample.renewed none] ∧
      ∀ entry ∈ result.1, ∀ given ∈ entry.event.attempt?, given.2.1 = [.runs] ∧
        ∃ owner ∈ entry.before.stmtAt given.1.index,
          entry.before.mysql = some owner.connection := by
    decide +kernel
  rcases found with ⟨⟨trace, final⟩, replayed, logEq, current⟩
  have run : StatementRun trace final := .ofReplay replayed
  refine ⟨trace, final, run, map_event_replay replayed, logEq, (survives_iff run).mpr ?_⟩
  intro entry entryMem stmt turns connects given _
  rcases current entry entryMem _ given with ⟨turnsEq, owner, owned, handle⟩
  subst turnsEq
  exact (spared_runs_iff owned).mpr handle

/-- After a reconnect the statement of the closed handle is executed. -/
theorem exists_execute_after_close :
    ∃ (trace : List (StatementEntry Unit)) (final : StatementConnection),
      StatementRun trace final ∧ trace.map Entry.event = [Sample.prepare, Sample.disturbed] ∧
      callLog trace = [.prepare Sample.statement none, .bindParam Sample.statement none,
        .execute Sample.statement (some 2006), .library (.close (some 0)),
        .library (.connect none), .bindParam Sample.statement none,
        .execute Sample.statement (some 0)] ∧
      ¬Survives trace := by
  have found : ∃ result ∈ replay StatementConnection.step StatementConnection.new
      [Sample.prepare, Sample.disturbed],
      callLog result.1 = [.prepare Sample.statement none, .bindParam Sample.statement none,
        .execute Sample.statement (some 2006), .library (.close (some 0)),
        .library (.connect none), .bindParam Sample.statement none,
        .execute Sample.statement (some 0)] := by
    decide +kernel
  rcases found with ⟨⟨trace, final⟩, replayed, logEq⟩
  refine ⟨trace, final, .ofReplay replayed, map_event_replay replayed, logEq, ?_⟩
  intro survives
  refine survives.live [.prepare Sample.statement none, .bindParam Sample.statement none,
    .execute Sample.statement (some 2006), .library (.close (some 0)), .library (.connect none),
    .bindParam Sample.statement none] Sample.statement (some 0) [] logEq ?_
  simp [Sample.statement]

end Poolserver.MySQL
