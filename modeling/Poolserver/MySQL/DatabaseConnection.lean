import Mathlib.Data.Finset.Basic
import Poolserver.Lib.RunTrace

/-!
# A database connection and its reconnects

`Execute` and `_HandleMySQLErrno` call each other around `Open`, which sets `_mysql` to what
`mysql_real_connect` returns. The outcomes of `mysql_query` and `mysql_real_connect` are inputs:
nothing for success, else the error code; `mysql_init` succeeds.
-/

namespace Poolserver.MySQL

open RunTrace

/-- The outcome of a function of the client library. -/
abbrev Status := Option UInt32

/-- The error codes after which a connection is opened again, `ClientError`. -/
def clientErrors : List UInt32 :=
  [2006, 2013, 2048, 2055]

structure DatabaseConnection where
  /-- `_mysql`; handles are numbered as they are connected. -/
  mysql : Option ℕ
  mysqlConnectError : UInt32
  /-- The number of the next handle. -/
  opened : ℕ
  /-- The handles that are connected and not closed. -/
  live : Finset ℕ

/-- The calls of the client library. -/
inductive LibraryCall where
  | query (handle : ℕ) (status : Status)
  | close (handle : Option ℕ)
  | connect (status : Status)
  deriving DecidableEq, Repr

/-- What a function of the connection returns, with the outcomes it has not used. -/
structure Attempt where
  returned : Bool
  connection : DatabaseConnection
  calls : List LibraryCall
  connects : List Status

namespace DatabaseConnection

/-- The connection after the first, successful, `Open`. -/
def new : DatabaseConnection where
  mysql := some 0
  mysqlConnectError := 0
  opened := 1
  live := {0}

/-- `mysql_close(_mysql)`, which does nothing for a null pointer. -/
def close (conn : DatabaseConnection) : DatabaseConnection :=
  match conn.mysql with
  | none => conn
  | some handle => { conn with live := conn.live.erase handle }

/-- `DatabaseConnection::Open`, which throws if it does not succeed. -/
def openWith (conn : DatabaseConnection) : Status → DatabaseConnection
  | none =>
      { conn with
        mysql := some conn.opened
        opened := conn.opened + 1
        live := insert conn.opened conn.live }
  | some code => { conn with mysql := none, mysqlConnectError := code }

/-- `DatabaseConnection::_HandleMySQLErrno`, while there are outcomes for `mysql_real_connect`. -/
def handleMySQLErrno : List Status → UInt32 → DatabaseConnection → Option Attempt
  | connects, lErrno, conn =>
      if lErrno ∉ clientErrors then some ⟨false, conn, [], connects⟩
      else
        match connects with
        | [] => none
        | none :: connects =>
            some ⟨true, conn.close.openWith none, [.close conn.mysql, .connect none], connects⟩
        | some code :: connects => do
            let conn' := conn.close.openWith (some code)
            let attempt ← handleMySQLErrno connects conn'.mysqlConnectError conn'
            return { attempt with
              calls := .close conn.mysql :: .connect (some code) :: attempt.calls }

/-- `DatabaseConnection::Execute`, while there are outcomes for `mysql_query`. -/
def execute : List Status → List Status → DatabaseConnection → Option Attempt
  | queries, connects, conn =>
      match conn.mysql with
      | none => some ⟨false, conn, [], connects⟩
      | some handle =>
          match queries with
          | [] => none
          | none :: _ => some ⟨true, conn, [.query handle none], connects⟩
          | some lErrno :: queries => do
              let handled ← handleMySQLErrno connects lErrno conn
              let failed := .query handle (some lErrno) :: handled.calls
              if handled.returned then do
                -- Try again
                let again ← execute queries handled.connects handled.connection
                return { again with calls := failed ++ again.calls }
              else return { handled with calls := failed }

end DatabaseConnection

/-- What the calls of the client library come to while a request is handled. -/
structure Outcomes where
  queries : List Status
  connects : List Status

inductive Request where
  | execute (outcomes : Outcomes)
  /-- `Query` does the same, and then fails as well if there is no row. -/
  | query (outcomes : Outcomes) (rows : Bool)

structure Answer where
  returned : Bool
  calls : List LibraryCall
  deriving DecidableEq, Repr

def DatabaseConnection.step (conn : DatabaseConnection) :
    Request → Option (DatabaseConnection × Answer)
  | .execute outcomes => do
      let attempt ← execute outcomes.queries outcomes.connects conn
      return (attempt.connection, ⟨attempt.returned, attempt.calls⟩)
  | .query outcomes rows => do
      let attempt ← execute outcomes.queries outcomes.connects conn
      return (attempt.connection, ⟨attempt.returned && rows, attempt.calls⟩)

abbrev ConnectionEntry := Entry DatabaseConnection Request Answer

/-- The histories of a connection. -/
abbrev ConnectionRun : List ConnectionEntry → DatabaseConnection → Prop :=
  Run DatabaseConnection.step DatabaseConnection.new

/-! ## Recovery -/

/-- A reconnect fails with an error code after which no other is attempted. -/
def GivesUp (calls : List LibraryCall) : Prop :=
  ∃ code ∉ clientErrors, .connect (some code) ∈ calls

def LibraryCall.connectError? : LibraryCall → Option UInt32
  | .connect status => status
  | _ => none

instance (calls : List LibraryCall) : Decidable (GivesUp calls) :=
  decidable_of_iff (∃ call ∈ calls, ∃ code ∈ call.connectError?, code ∉ clientErrors) <| by
    constructor
    · rintro ⟨call, callMem, code, isError, unhandled⟩
      cases call with
      | query handle status => cases isError
      | close handle => cases isError
      | connect status =>
          rw [LibraryCall.connectError?, Option.mem_def] at isError
          subst isError
          exact ⟨code, unhandled, callMem⟩
    · rintro ⟨code, unhandled, callMem⟩
      exact ⟨_, callMem, code, rfl, unhandled⟩

/-- The server accepts connections while the call is handled. -/
def Outcomes.Accepting (outcomes : Outcomes) : Prop :=
  ∀ status ∈ outcomes.connects, status = none

/-- A call that sends its query on a live handle, or connects first, and fails for its own sake. -/
structure Recovers (conn : DatabaseConnection) (answer : Answer) : Prop where
  sends : ∃ call calls, answer.calls = call :: calls ∧
    ((∃ handle status, call = .query handle status ∧ handle ∈ conn.live) ∨
      ∃ status, call = .connect status)
  fails : answer.returned = false → ∃ handle code, .query handle (some code) ∈ answer.calls

/-- The handle of a connection is live. -/
def Sane (conn : DatabaseConnection) : Prop :=
  ∀ handle, conn.mysql = some handle → handle ∈ conn.live

variable {conn : DatabaseConnection} {attempt : Attempt}

open DatabaseConnection

theorem sane_openWith (status : Status) : Sane (conn.openWith status) := by
  intro handle isHandle
  cases status with
  | none =>
      rw [openWith, Option.some.injEq] at isHandle
      simp [openWith, isHandle]
  | some code => cases isHandle

theorem not_givesUp_nil : ¬GivesUp [] := by
  rintro ⟨_, _, callMem⟩
  cases callMem

/-- The executions of `_HandleMySQLErrno`. -/
inductive Handles : List Status → UInt32 → DatabaseConnection → Attempt → Prop where
  | unhandled {connects : List Status} {lErrno : UInt32} {conn : DatabaseConnection}
      (other : lErrno ∉ clientErrors) :
      Handles connects lErrno conn ⟨false, conn, [], connects⟩
  | reconnected {connects : List Status} {lErrno : UInt32} {conn : DatabaseConnection}
      (retried : lErrno ∈ clientErrors) :
      Handles (none :: connects) lErrno conn
        ⟨true, conn.close.openWith none, [.close conn.mysql, .connect none], connects⟩
  | refused {connects : List Status} {lErrno code : UInt32} {conn : DatabaseConnection}
      {attempt : Attempt} (retried : lErrno ∈ clientErrors)
      (again : Handles connects code (conn.close.openWith (some code)) attempt) :
      Handles (some code :: connects) lErrno conn
        { attempt with calls := .close conn.mysql :: .connect (some code) :: attempt.calls }

theorem handles_of_handleMySQLErrno {connects : List Status} {lErrno : UInt32}
    (handled : handleMySQLErrno connects lErrno conn = some attempt) :
    Handles connects lErrno conn attempt := by
  induction connects generalizing lErrno conn attempt with
  | nil =>
      unfold handleMySQLErrno at handled
      split at handled
      · rename_i other
        rw [Option.some.injEq] at handled
        subst handled
        exact .unhandled other
      · cases handled
  | cons status connects ih =>
      unfold handleMySQLErrno at handled
      split at handled
      · rename_i other
        rw [Option.some.injEq] at handled
        subst handled
        exact .unhandled other
      rename_i retried
      rw [not_not] at retried
      cases status with
      | none =>
          rw [Option.some.injEq] at handled
          subst handled
          exact .reconnected retried
      | some code =>
          simp only [Option.bind_eq_bind, Option.bind_eq_some_iff] at handled
          rcases handled with ⟨inner, inner_handled, handled⟩
          simp only [Option.pure_def, Option.some.injEq] at handled
          subst handled
          exact .refused retried (ih inner_handled)

/-- The connection loses its handle just when it gives up. -/
theorem handleMySQLErrno_eq_some {connects : List Status} {lErrno : UInt32}
    (handled : handleMySQLErrno connects lErrno conn = some attempt) :
    (Sane conn → Sane attempt.connection) ∧
      (attempt.connection.mysql = none ↔
        GivesUp attempt.calls ∨ (conn.mysql = none ∧ lErrno ∉ clientErrors)) ∧
      (attempt.returned = true → attempt.connection.mysql ≠ none) := by
  have handles := handles_of_handleMySQLErrno handled
  clear handled
  induction handles with
  | unhandled other =>
      refine ⟨id, ?_, fun returned => by cases returned⟩
      simp [not_givesUp_nil, other]
  | reconnected retried =>
      refine ⟨fun _ => sane_openWith none, ?_, fun _ => Option.some_ne_none _⟩
      refine iff_of_false (Option.some_ne_none _) ?_
      rintro (⟨code, _, callMem⟩ | ⟨_, unhandled⟩)
      · simp at callMem
      · exact unhandled retried
  | @refused _ _ code _ inner retried again ih =>
      rcases ih with ⟨sane, lost, reconnected⟩
      refine ⟨fun _ => sane (sane_openWith (some code)), ?_, reconnected⟩
      rw [lost]
      constructor
      · rintro (⟨other, unhandled, callMem⟩ | ⟨_, unhandled⟩)
        · exact Or.inl ⟨other, unhandled, by simp [callMem]⟩
        · exact Or.inl ⟨code, unhandled, by simp⟩
      · rintro (⟨other, unhandled, callMem⟩ | ⟨_, unhandled⟩)
        · simp only [List.mem_cons, LibraryCall.connect.injEq, Option.some.injEq, reduceCtorEq,
            false_or] at callMem
          rcases callMem with rfl | callMem
          · exact Or.inr ⟨rfl, unhandled⟩
          · exact Or.inl ⟨other, unhandled, callMem⟩
        · exact absurd retried unhandled

/-- A call on a connection with a handle. -/
structure Executes (conn : DatabaseConnection) (attempt : Attempt) : Prop where
  sane : Sane attempt.connection
  lost : attempt.connection.mysql = none ↔ GivesUp attempt.calls
  sends : ∃ handle status calls, attempt.calls = .query handle status :: calls ∧
    handle ∈ conn.live
  fails : attempt.returned = false → ∃ handle code, .query handle (some code) ∈ attempt.calls

theorem givesUp_cons_query {handle : ℕ} {status : Status} {calls : List LibraryCall} :
    GivesUp (.query handle status :: calls) ↔ GivesUp calls := by
  simp [GivesUp]

theorem givesUp_append {earlier later : List LibraryCall} :
    GivesUp (earlier ++ later) ↔ GivesUp earlier ∨ GivesUp later := by
  simp only [GivesUp, List.mem_append, and_or_left, exists_or]

theorem execute_of_handle {queries connects : List Status} (sane : Sane conn)
    (hasHandle : conn.mysql ≠ none)
    (executed : execute queries connects conn = some attempt) : Executes conn attempt := by
  induction queries generalizing connects conn attempt with
  | nil =>
      rcases Option.ne_none_iff_exists'.mp hasHandle with ⟨handle, isHandle⟩
      rw [execute, isHandle] at executed
      cases executed
  | cons status queries ih =>
      rcases Option.ne_none_iff_exists'.mp hasHandle with ⟨handle, isHandle⟩
      have live := sane handle isHandle
      rw [execute, isHandle] at executed
      cases status with
      | none =>
          simp only [Option.some.injEq] at executed
          subst executed
          refine ⟨sane, ?_, ⟨handle, none, [], rfl, live⟩, fun failed => by cases failed⟩
          exact iff_of_false hasHandle (givesUp_cons_query.not.mpr not_givesUp_nil)
      | some lErrno =>
          simp only [Option.bind_eq_bind, Option.bind_eq_some_iff] at executed
          rcases executed with ⟨handled, handles, executed⟩
          rcases handleMySQLErrno_eq_some handles with ⟨saneHandled, lost, reconnected⟩
          have lostIff : handled.connection.mysql = none ↔ GivesUp handled.calls := by
            rw [lost]
            exact or_iff_left fun both => hasHandle both.1
          split at executed
          · rename_i returned
            simp only [Option.bind_eq_some_iff] at executed
            rcases executed with ⟨again, retries, executed⟩
            simp only [Option.pure_def, Option.some.injEq] at executed
            subst executed
            have reopened := reconnected returned
            have retry := ih (saneHandled sane) reopened retries
            refine ⟨retry.sane, ?_, ⟨handle, some lErrno, _, rfl, live⟩, ?_⟩
            · rw [retry.lost, List.cons_append, givesUp_cons_query, givesUp_append, ← lostIff]
              exact (or_iff_right reopened).symm
            · intro _
              exact ⟨handle, lErrno, by simp⟩
          · simp only [Option.pure_def, Option.some.injEq] at executed
            subst executed
            refine ⟨saneHandled sane, ?_, ⟨handle, some lErrno, _, rfl, live⟩, ?_⟩
            · rw [givesUp_cons_query]
              exact lostIff
            · intro _
              exact ⟨handle, lErrno, by simp⟩

theorem execute_of_null {queries connects : List Status} (isNull : conn.mysql = none) :
    execute queries connects conn = some ⟨false, conn, [], connects⟩ := by
  unfold execute
  rw [isNull]

/-! ## Histories -/

variable {trace : List ConnectionEntry} {last : DatabaseConnection}

/-- `Query` is an `Execute` as far as the connection is concerned. -/
theorem execute_of_step {request : Request} {next : DatabaseConnection} {answer : Answer}
    (stepped : conn.step request = some (next, answer)) :
    ∃ (outcomes : Outcomes) (attempt : Attempt),
      execute outcomes.queries outcomes.connects conn = some attempt ∧
        next = attempt.connection ∧ answer.calls = attempt.calls := by
  cases request with
  | execute outcomes =>
      simp only [DatabaseConnection.step, Option.bind_eq_bind, Option.bind_eq_some_iff] at stepped
      rcases stepped with ⟨attempt, executed, stepped⟩
      simp only [Option.pure_def, Option.some.injEq, Prod.mk.injEq] at stepped
      exact ⟨outcomes, attempt, executed, stepped.1.symm, by rw [← stepped.2]⟩
  | query outcomes rows =>
      simp only [DatabaseConnection.step, Option.bind_eq_bind, Option.bind_eq_some_iff] at stepped
      rcases stepped with ⟨attempt, executed, stepped⟩
      simp only [Option.pure_def, Option.some.injEq, Prod.mk.injEq] at stepped
      exact ⟨outcomes, attempt, executed, stepped.1.symm, by rw [← stepped.2]⟩

/-- A request leaves no handle if it had none or gives up, and uses a live one if it has one. -/
theorem step_answers {entry : ConnectionEntry}
    (stepped : entry.before.step entry.event = some (entry.after, entry.output))
    (sane : Sane entry.before) :
    Sane entry.after ∧
      (entry.after.mysql = none ↔ entry.before.mysql = none ∨ GivesUp entry.output.calls) := by
  rcases execute_of_step stepped with ⟨outcomes, attempt, executed, afterEq, callsEq⟩
  rw [afterEq, callsEq]
  by_cases isNull : entry.before.mysql = none
  · rw [execute_of_null isNull, Option.some.injEq] at executed
    rw [← executed]
    exact ⟨sane, iff_of_true isNull (Or.inl isNull)⟩
  · have executes := execute_of_handle sane isNull executed
    exact ⟨executes.sane, executes.lost.trans (or_iff_right isNull).symm⟩

/-- A connection has no handle just when a request has given up. -/
theorem null_iff_of_run (run : ConnectionRun trace last) :
    Sane last ∧ (last.mysql = none ↔ ∃ entry ∈ trace, GivesUp entry.output.calls) := by
  refine run.invariant (fun trace last => Sane last ∧
    (last.mysql = none ↔ ∃ entry ∈ trace, GivesUp entry.output.calls)) (fun _ => True)
    (fun _ _ => trivial) ?_ ?_
  · refine ⟨?_, by simp [DatabaseConnection.new]⟩
    intro handle isHandle
    rw [DatabaseConnection.new, Option.some.injEq] at isHandle
    simp [DatabaseConnection.new, ← isHandle]
  intro trace entry held _ stepped
  rcases step_answers stepped held.1 with ⟨sane, lost⟩
  refine ⟨sane, ?_⟩
  rw [lost, held.2]
  simp [or_and_right, exists_or]

/-- With a handle `Execute` recovers; without one it does nothing. -/
theorem recovers_iff_handle {entry : ConnectionEntry} {outcomes : Outcomes}
    (eventEq : entry.event = .execute outcomes)
    (stepped : entry.before.step entry.event = some (entry.after, entry.output))
    (sane : Sane entry.before) :
    Recovers entry.before entry.output ↔ entry.before.mysql ≠ none := by
  simp only [DatabaseConnection.step, eventEq, Option.bind_eq_bind,
    Option.bind_eq_some_iff] at stepped
  rcases stepped with ⟨attempt, executed, stepped⟩
  simp only [Option.pure_def, Option.some.injEq, Prod.mk.injEq] at stepped
  rcases stepped with ⟨_, outputEq⟩
  rw [← outputEq]
  constructor
  · intro recovers isNull
    rw [execute_of_null isNull, Option.some.injEq] at executed
    rcases recovers.sends with ⟨call, calls, callsEq, _⟩
    rw [← executed] at callsEq
    cases callsEq
  · intro hasHandle
    have executes := execute_of_handle sane hasHandle executed
    rcases executes.sends with ⟨handle, status, calls, callsEq, live⟩
    exact ⟨⟨_, calls, callsEq, Or.inl ⟨handle, status, rfl, live⟩⟩, executes.fails⟩

/--
In a history, every `Execute` while the server accepts connections recovers just when no request
before it has given up.
-/
theorem recovers_iff (run : ConnectionRun trace last) :
    (∀ entry ∈ trace, ∀ outcomes, entry.event = .execute outcomes → outcomes.Accepting →
      Recovers entry.before entry.output) ↔
    ∀ earlier entry later outcomes, trace = earlier ++ entry :: later →
      entry.event = .execute outcomes → outcomes.Accepting →
      ∀ other ∈ earlier, ¬GivesUp other.output.calls := by
  have atEntry : ∀ {earlier entry later outcomes}, trace = earlier ++ entry :: later →
      entry.event = .execute outcomes →
      (Recovers entry.before entry.output ↔ ∀ other ∈ earlier, ¬GivesUp other.output.calls) := by
    intro earlier entry later outcomes split eventEq
    rw [split] at run
    rcases run.split with ⟨runBefore, stepped⟩
    rcases null_iff_of_run runBefore with ⟨sane, isNull⟩
    rw [recovers_iff_handle eventEq stepped sane, Ne, isNull]
    push Not
    rfl
  constructor
  · intro recovers earlier entry later outcomes split eventEq accepting
    refine (atEntry split eventEq).mp (recovers entry ?_ outcomes eventEq accepting)
    rw [split]
    simp
  · intro keeps entry entryMem outcomes eventEq accepting
    rcases List.append_of_mem entryMem with ⟨earlier, later, split⟩
    exact (atEntry split eventEq).mpr (keeps earlier entry later outcomes split eventEq accepting)

/-! ## Sample histories -/

namespace Sample

/-- The server is gone, the first reconnect loses it again, and the second succeeds. -/
def outage : Request :=
  .execute ⟨[some 2006, none], [some 2013, none]⟩

/-- The server is gone and refuses the reconnect. -/
def refusal : Request :=
  .execute ⟨[some 2006], [some 2003]⟩

def working : Request :=
  .execute ⟨[none], []⟩

end Sample

theorem recovers_sample :
    ∃ (trace : List ConnectionEntry) (last : DatabaseConnection),
      ConnectionRun trace last ∧ trace.map Entry.event = [Sample.outage, Sample.working] ∧
      trace.map (fun entry => entry.output.returned) = [true, true] ∧
      ∀ entry ∈ trace, ∀ outcomes, entry.event = .execute outcomes → outcomes.Accepting →
        Recovers entry.before entry.output := by
  have found : ∃ result ∈ replay DatabaseConnection.step DatabaseConnection.new
      [Sample.outage, Sample.working],
      result.1.map (fun entry => entry.output.returned) = [true, true] ∧
      ∀ entry ∈ result.1, ¬GivesUp entry.output.calls := by
    decide
  rcases found with ⟨⟨trace, last⟩, replayed, returned, keeps⟩
  have run : ConnectionRun trace last := .ofReplay replayed
  refine ⟨trace, last, run, map_event_replay replayed, returned, (recovers_iff run).mpr ?_⟩
  intro earlier entry later outcomes split _ _ other otherMem
  refine keeps other ?_
  rw [split]
  exact List.mem_append_left _ otherMem

/-- A refused reconnect leaves a connection that fails without a call of the library. -/
theorem exists_lasting_failure :
    ∃ (trace : List ConnectionEntry) (last : DatabaseConnection),
      ConnectionRun trace last ∧ trace.map Entry.event = [Sample.refusal, Sample.working] ∧
      trace.map Entry.output =
        [⟨false, [.query 0 (some 2006), .close (some 0), .connect (some 2003)]⟩, ⟨false, []⟩] ∧
      ¬∀ entry ∈ trace, ∀ outcomes, entry.event = .execute outcomes → outcomes.Accepting →
        Recovers entry.before entry.output := by
  have found : ∃ result ∈ replay DatabaseConnection.step DatabaseConnection.new
      [Sample.refusal, Sample.working],
      result.1.map Entry.output =
        [⟨false, [.query 0 (some 2006), .close (some 0), .connect (some 2003)]⟩, ⟨false, []⟩] := by
    decide
  rcases found with ⟨⟨trace, last⟩, replayed, outputs⟩
  have events := map_event_replay replayed
  refine ⟨trace, last, .ofReplay replayed, events, outputs, ?_⟩
  intro recovers
  rcases List.map_eq_cons_iff.mp events with ⟨first, rest, rfl, _, events⟩
  rcases List.map_eq_singleton_iff.mp events with ⟨second, rfl, secondEq⟩
  simp only [List.map_cons, List.map_nil, List.cons.injEq, and_true] at outputs
  rcases (recovers second (by simp) _ secondEq (by simp [Outcomes.Accepting])).sends with
    ⟨call, calls, callsEq, _⟩
  rw [outputs.2] at callsEq
  cases callsEq

end Poolserver.MySQL
