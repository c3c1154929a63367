import Poolserver.MySQL.Statements

/-!
# The result sets that queries return

`Query(PreparedStatement*)` builds a result set from what `_Query` has set. Where a binding
failed and the retry succeeded, `_Query` reports success with nothing set, since the retry is
an `Execute`; the constructor then returns early, as it does where there is no result or it
cannot be stored or bound.
-/

namespace Poolserver.MySQL

open RunTrace StatementConnection

variable {ρ : Type}

/-- No binding failed in front of the attempt that succeeds. -/
def Binds (turns : List Turn) : Bool :=
  (turns.takeWhile (· ≠ .runs)).all Turn.executes

/-- A call that succeeds has set its outputs just when it did not go over to `Execute`. -/
theorem Runs.outputs {stmt : PreparedStatement} {sets : Bool} {turns : List Turn}
    {connects : List Status} {conn : StatementConnection} {attempt : StatementAttempt}
    (runs : Runs stmt sets turns connects conn attempt) (returned : attempt.returned = true) :
    attempt.outputs = (sets && Binds turns) := by
  induction runs with
  | ended enters =>
      rw [(stops_of_enter enters).returned] at returned
      cases returned
  | ran enters => simp [Binds]
  | failed enters handles lost => cases returned
  | @retried _ isBound _ _ _ _ _ _ _ enters handles reconnected retries ih =>
      rw [ih returned]
      simp [Binds, Turn.executes, Bool.and_assoc]

variable {trace : List (StatementEntry ρ)} {final : StatementConnection}

/--
In a history, a result set that a query returns is consistent just when its rows are read and as
many are fetched as were announced, or nothing is read and the memory of the count was zero.
-/
theorem consistent_result_iff (run : StatementRun trace final) :
    ∀ entry ∈ trace, ∀ stmt turns connects reading,
      entry.event = .query stmt turns connects reading → ∀ set ∈ entry.output.result,
        (set.Consistent ↔ ResultSet.Counts (Binds turns && reading.metadata) reading) := by
  intro entry entryMem stmt turns connects reading queried set returned
  rcases List.append_of_mem entryMem with ⟨earlier, later, rfl⟩
  have stepped := run.split.2
  simp only [queried, StatementConnection.step, Option.bind_eq_bind,
    Option.bind_eq_some_iff] at stepped
  rcases stepped with ⟨attempt, ran, stepped⟩
  have runs := runs_of_runStatement ran
  split at stepped
  · rename_i succeeded
    simp only [Option.bind_eq_some_iff] at stepped
    rcases stepped with ⟨built, builds, stepped⟩
    simp only [Option.pure_def, Option.some.injEq, Prod.mk.injEq] at stepped
    rw [← stepped.2, Option.mem_some_iff] at returned
    subst returned
    rw [ResultSet.consistent_iff_of_ofStatement builds, runs.outputs succeeded, Bool.true_and]
  · simp only [Option.pure_def, Option.some.injEq, Prod.mk.injEq] at stepped
    rw [← stepped.2] at returned
    cases returned

/-! ## Sample histories -/

namespace Sample

/-- Two rows are announced and fetched. -/
def rows : StatementRequest ℕ :=
  .query (.new 0) [.runs] [] ⟨true, 1, false, false, 2, [⟨0, 7⟩, ⟨0, 8⟩, ⟨100, 0⟩], 5⟩

/-- A statement without a result set. -/
def noResult : StatementRequest ℕ :=
  .query (.new 0) [.runs] [] ⟨false, 0, false, false, 0, [], 5⟩

def prepareQuery : StatementRequest ℕ :=
  .prepareStatement 0 (ascii "SELECT 1") (.prepared 0)

end Sample

theorem consistent_result_sample :
    ∃ (trace : List (StatementEntry ℕ)) (final : StatementConnection),
      StatementRun trace final ∧ trace.map Entry.event = [Sample.prepareQuery, Sample.rows] ∧
      trace.map (fun entry => entry.output.result) = [none, some ⟨2, 0, 1, [7, 8]⟩] ∧
      ∀ entry ∈ trace, ∀ set ∈ entry.output.result, set.Consistent := by
  have found : ∃ result ∈ replay StatementConnection.step StatementConnection.new
      [Sample.prepareQuery, Sample.rows],
      result.1.map (fun entry => entry.output.result) = [none, some ⟨2, 0, 1, [7, 8]⟩] := by
    decide +kernel
  rcases found with ⟨⟨trace, final⟩, replayed, results⟩
  have run : StatementRun trace final := .ofReplay replayed
  have events := map_event_replay replayed
  refine ⟨trace, final, run, events, results, ?_⟩
  rcases List.map_eq_cons_iff.mp events with ⟨first, rest, rfl, _, events⟩
  rcases List.map_eq_singleton_iff.mp events with ⟨second, rfl, queried⟩
  simp only [List.map_cons, List.map_nil, List.cons.injEq, and_true] at results
  intro entry entryMem set returned
  simp only [List.mem_cons, List.not_mem_nil, or_false] at entryMem
  rcases entryMem with rfl | rfl
  · rw [results.1] at returned
    cases returned
  · apply (consistent_result_iff run entry (by simp) _ _ _ _ queried set returned).mpr
    simp [ResultSet.Counts, Binds, Fetch.next]

/-- Without a result set, the first `FetchRow` goes past the rows. -/
theorem exists_inconsistent_result :
    ∃ (trace : List (StatementEntry ℕ)) (final : StatementConnection),
      StatementRun trace final ∧ trace.map Entry.event = [Sample.prepareQuery, Sample.noResult] ∧
      ∃ entry ∈ trace, ∃ set ∈ entry.output.result, set.fetchRow = none ∧ ¬set.Consistent := by
  have found : ∃ result ∈ replay StatementConnection.step StatementConnection.new
      [Sample.prepareQuery, Sample.noResult],
      ∃ entry ∈ result.1, entry.output.result = some ⟨5, 0, 0, []⟩ := by
    decide +kernel
  rcases found with ⟨⟨trace, final⟩, replayed, entry, entryMem, returned⟩
  refine ⟨trace, final, .ofReplay replayed, map_event_replay replayed, entry, entryMem, _, returned,
    by decide, ?_⟩
  intro consistent
  have counted := consistent.counted
  cases counted

end Poolserver.MySQL
