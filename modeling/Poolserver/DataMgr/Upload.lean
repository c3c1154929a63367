import Poolserver.DataMgr.DataMgr

/-!
# What an upload does to the shares

Whatever is pushed while `Upload` runs, the shares of its queries, those of the query it is
building and those left in the deque are the initial and the pushed ones in their order.
-/

namespace Poolserver.DataMgr

open Stratum RunTrace

/-! ## Queries -/

/-- The bulk query for a list of shares. -/
def insertText (batch : List Share) : StdString :=
  insertPrefix ++ (ascii ",").intercalate (batch.map row)

/-- The queries that a run executes, in order. -/
def queries (trace : List (Entry State Event (List StdString))) : List StdString :=
  trace.flatMap Entry.output

/-- The share that a step of another thread pushes. -/
def Event.share : Event → Option Share
  | push share => some share
  | upload => none

/-- The shares that a run pushes, in order. -/
def pushed (trace : List (Entry State Event (List StdString))) : List Share :=
  trace.filterMap fun entry => entry.event.share

/-- A query to which more rows will be added. -/
def openText (rows : List Share) : StdString :=
  insertPrefix ++ rows.flatMap fun share => row share ++ ascii ","

theorem insertText_concat (rows : List Share) (last : Share) :
    insertText (rows ++ [last]) = openText rows ++ row last := by
  have joined : (ascii ",").intercalate ((rows ++ [last]).map row) =
      (rows.flatMap fun share => row share ++ ascii ",") ++ row last := by
    induction rows with
    | nil => simp [List.intercalate]
    | cons share rows ih =>
        have rest : (rows ++ [last]).map row ≠ [] := by simp
        rw [List.cons_append, List.map_cons, List.intercalate_cons_of_ne_nil rest, ih]
        simp
  rw [insertText, joined, openText, List.append_assoc]

theorem openText_concat (rows : List Share) (last : Share) :
    openText (rows ++ [last]) = insertText (rows ++ [last]) ++ ascii "," := by
  rw [insertText_concat]
  simp [openText]

/-! ## The invariant -/

variable {config : UploadConfig} {initial : List Share}
  {trace : List (Entry State Event (List StdString))} {state next : State}

/-- The rows of the query that is being built at a point of `Upload`. -/
inductive Building (config : UploadConfig) : Point → List Share → Prop where
  | logSize : Building config .logSize []
  | loopSize : Building config .loopSize []
  | pop (rows : List Share) (i : Int32) (few : rows.length < config.bulkCount.toNat)
      (counted : i.toUInt32.toNat = rows.length) :
      Building config (.pop (openText rows) i) rows
  | leftSize (rows : List Share) (last : Share) (i : Int32)
      (few : rows.length < config.bulkCount.toNat) (counted : i.toUInt32.toNat = rows.length) :
      Building config (.leftSize (insertText (rows ++ [last])) i) (rows ++ [last])
  | returned : Building config .returned []

/-- `Pop` is about to be called. -/
def Point.Pops : Point → Prop
  | pop _ _ => True
  | _ => False

/-- The batches that were executed and the rows of the open query account for all shares. -/
structure Accounts (config : UploadConfig) (initial : List Share)
    (trace : List (Entry State Event (List StdString))) (state : State)
    (batches : List (List Share)) (rows : List Share) : Prop where
  executed : queries trace = batches.map insertText
  sized : ∀ batch ∈ batches, 1 ≤ batch.length ∧ batch.length ≤ config.bulkCount.toNat
  building : Building config state.point rows
  conserved : batches.flatten ++ rows ++ state.datastore = initial ++ pushed trace
  nonempty : state.point.Pops → state.datastore ≠ []

theorem toNat_add_one {i : Int32} {bound : UInt32} {count : ℕ}
    (counted : i.toUInt32.toNat = count) (few : count < bound.toNat) :
    (i + 1).toUInt32.toNat = count + 1 := by
  have sum : (i + 1).toUInt32 = i.toUInt32 + 1 := rfl
  have small := bound.toNat_lt
  rw [sum, UInt32.toNat_add, counted]
  exact Nat.mod_eq_of_lt (by simpa using by omega)

theorem forLoop_eq (query : StdString) (i : Int32) {count : ℕ}
    (counted : i.toUInt32.toNat = count) :
    forLoop config query i =
      if count < config.bulkCount.toNat then (.pop query i, []) else (.loopSize, [query]) := by
  simp only [forLoop, UInt32.lt_iff_toNat_lt, counted]

/-- The inner loop is left, or goes on with a query that ends with a comma. -/
theorem forLoop_leftSize {rows : List Share} {last : Share} {i : Int32}
    (few : rows.length < config.bulkCount.toNat) (counted : i.toUInt32.toNat = rows.length) :
    forLoop config (if i.toUInt32 ≠ config.bulkCount - 1
        then insertText (rows ++ [last]) ++ ascii "," else insertText (rows ++ [last])) (i + 1) =
      if rows.length + 1 < config.bulkCount.toNat
      then (.pop (openText (rows ++ [last])) (i + 1), [])
      else (.loopSize, [insertText (rows ++ [last])]) := by
  have bound := config.bulkCount.toNat_lt
  have least : (1 : UInt32) ≤ config.bulkCount := by
    rw [UInt32.le_iff_toNat_le]
    simpa using by omega
  have final : i.toUInt32 = config.bulkCount - 1 ↔
      rows.length + 1 = config.bulkCount.toNat := by
    rw [← UInt32.toNat_inj, counted, UInt32.toNat_sub_of_le _ _ least, UInt32.toNat_one]
    omega
  rw [forLoop_eq _ _ (toNat_add_one counted few), openText_concat]
  by_cases full : rows.length + 1 = config.bulkCount.toNat
  · have notLess : ¬rows.length + 1 < config.bulkCount.toNat := by omega
    rw [if_neg notLess, if_neg notLess, if_neg (not_not.mpr (final.mpr full))]
  · have less : rows.length + 1 < config.bulkCount.toNat := by omega
    rw [if_pos less, if_pos less, if_pos (fun same => full (final.mp same))]

theorem accounts_of_uploadStep (bulk : 1 ≤ config.bulkCount.toNat)
    {executed : List StdString} {batches : List (List Share)} {rows : List Share}
    (accounts : Accounts config initial trace state batches rows)
    (stepped : uploadStep config state = some (next, executed)) :
    ∃ (added : List (List Share)) (rest : List Share), executed = added.map insertText ∧
      (∀ batch ∈ added, 1 ≤ batch.length ∧ batch.length ≤ config.bulkCount.toNat) ∧
      Building config next.point rest ∧
      added.flatten ++ rest ++ next.datastore = rows ++ state.datastore ∧
      (next.point.Pops → next.datastore ≠ []) := by
  rcases state with ⟨datastore, point⟩
  have building := accounts.building
  have nonempty := accounts.nonempty
  dsimp only at building nonempty
  cases building with
  | logSize =>
      simp only [uploadStep, Option.some.injEq, Prod.mk.injEq] at stepped
      rcases stepped with ⟨rfl, rfl⟩
      exact ⟨[], [], rfl, by simp, .loopSize, by simp, False.elim⟩
  | loopSize =>
      simp only [uploadStep] at stepped
      split at stepped
      · rename_i more
        have zero : (0 : Int32).toUInt32.toNat = 0 := rfl
        rw [forLoop_eq _ 0 zero, if_pos (by omega)] at stepped
        simp only [Option.some.injEq, Prod.mk.injEq] at stepped
        rcases stepped with ⟨rfl, rfl⟩
        have opened : Building config (.pop insertPrefix 0) [] := by
          have pop : Building config (.pop (openText []) 0) [] :=
            .pop [] 0 (by simpa using by omega) rfl
          rwa [openText, List.flatMap_nil, List.append_nil] at pop
        refine ⟨[], [], rfl, by simp, opened, by simp, fun _ => ?_⟩
        exact List.length_pos_iff.mp (Nat.zero_lt_of_lt more)
      · simp only [Option.some.injEq, Prod.mk.injEq] at stepped
        rcases stepped with ⟨rfl, rfl⟩
        exact ⟨[], [], rfl, by simp, .returned, by simp, False.elim⟩
  | pop rows i few counted =>
      cases datastore with
      | nil => exact absurd rfl (nonempty trivial)
      | cons share datastore =>
          simp only [uploadStep, Option.some.injEq, Prod.mk.injEq] at stepped
          rcases stepped with ⟨rfl, rfl⟩
          refine ⟨[], rows ++ [share], rfl, by simp, ?_, by simp, False.elim⟩
          rw [← insertText_concat]
          exact .leftSize rows share i few counted
  | leftSize rows last i few counted =>
      simp only [uploadStep] at stepped
      have full : 1 ≤ (rows ++ [last]).length ∧
          (rows ++ [last]).length ≤ config.bulkCount.toNat := by
        simp only [List.length_append, List.length_singleton]
        omega
      split at stepped
      · simp only [Option.some.injEq, Prod.mk.injEq] at stepped
        rcases stepped with ⟨rfl, rfl⟩
        exact ⟨[rows ++ [last]], [], rfl, by simpa using full, .loopSize, by simp, False.elim⟩
      · rename_i left
        rw [forLoop_leftSize few counted] at stepped
        split at stepped
        · rename_i more
          simp only [Option.some.injEq, Prod.mk.injEq] at stepped
          rcases stepped with ⟨rfl, rfl⟩
          refine ⟨[], rows ++ [last], rfl, by simp, ?_, by simp, fun _ => ?_⟩
          · exact .pop _ _ (by simpa using more) (by simpa using toNat_add_one counted few)
          · exact fun empty => left (List.length_eq_zero_iff.mpr empty)
        · simp only [Option.some.injEq, Prod.mk.injEq] at stepped
          rcases stepped with ⟨rfl, rfl⟩
          exact ⟨[rows ++ [last]], [], rfl, by simpa using full, .loopSize, by simp, False.elim⟩
  | returned => simp [uploadStep] at stepped

theorem accounts_of_step (bulk : 1 ≤ config.bulkCount.toNat)
    {entry : Entry State Event (List StdString)} {batches : List (List Share)} {rows : List Share}
    (accounts : Accounts config initial trace entry.before batches rows)
    (stepped : step config entry.before entry.event = some (entry.after, entry.output)) :
    ∃ batches rows, Accounts config initial (trace ++ [entry]) entry.after batches rows := by
  rcases entry with ⟨before, event, output, after⟩
  have queriesEq : queries (trace ++ [⟨before, event, output, after⟩]) = queries trace ++ output := by
    simp [queries]
  have pushedEq : pushed (trace ++ [⟨before, event, output, after⟩]) =
      pushed trace ++ event.share.toList := by
    cases event <;> simp [pushed, Event.share]
  have conserved := accounts.conserved
  dsimp only at accounts conserved stepped ⊢
  cases event with
  | push share =>
      simp only [step, Option.some.injEq, Prod.mk.injEq] at stepped
      rcases stepped with ⟨rfl, rfl⟩
      refine ⟨batches, rows, ?_, accounts.sized, accounts.building, ?_, by simp⟩
      · rw [queriesEq, List.append_nil, accounts.executed]
      · rw [pushedEq, ← List.append_assoc, conserved]
        simp [Event.share]
  | upload =>
      rcases accounts_of_uploadStep bulk accounts stepped with
        ⟨added, rest, rfl, sized, building, moved, nonempty⟩
      refine ⟨batches ++ added, rest, ?_, ?_, building, ?_, nonempty⟩
      · rw [queriesEq, accounts.executed, List.map_append]
      · intro batch batchMem
        rcases List.mem_append.mp batchMem with old | new
        · exact accounts.sized batch old
        · exact sized batch new
      · rw [pushedEq, List.flatten_append, List.append_assoc, List.append_assoc,
          ← List.append_assoc added.flatten, moved, ← List.append_assoc, conserved]
        simp [Event.share]

/-- The accounts are kept in every run. -/
theorem accounts_of_run (bulk : 1 ≤ config.bulkCount.toNat) (run : Run config initial trace state) :
    ∃ batches rows, Accounts config initial trace state batches rows := by
  refine run.invariant (fun trace state =>
    ∃ batches rows, Accounts config initial trace state batches rows)
    (fun _ => True) (fun _ _ => trivial) ⟨[], [], ?_⟩ ?_
  · exact ⟨rfl, by simp, .logSize, by simp [start, pushed], False.elim⟩
  · rintro trace entry ⟨batches, rows, accounts⟩ _ stepped
    exact accounts_of_step bulk accounts stepped

/-! ## The end of an upload -/

/-- Bounds the calls that `Upload` still makes while nothing is pushed. -/
def work (state : State) : ℕ :=
  3 * state.datastore.length +
    match state.point with
    | .logSize => 3
    | .loopSize => 2
    | .pop _ _ => 1
    | .leftSize _ _ => 3
    | .returned => 0

theorem work_of_uploadStep (bulk : 1 ≤ config.bulkCount.toNat) {executed : List StdString}
    (stepped : uploadStep config state = some (next, executed)) : work next < work state := by
  rcases state with ⟨datastore, point⟩
  cases point with
  | logSize =>
      simp only [uploadStep, Option.some.injEq, Prod.mk.injEq] at stepped
      rcases stepped with ⟨rfl, rfl⟩
      simp [work]
  | loopSize =>
      simp only [uploadStep] at stepped
      have zero : (0 : Int32).toUInt32.toNat = 0 := rfl
      rw [forLoop_eq _ 0 zero, if_pos (by omega : 0 < config.bulkCount.toNat)] at stepped
      split at stepped
      · simp only [Option.some.injEq, Prod.mk.injEq] at stepped
        rcases stepped with ⟨rfl, rfl⟩
        simp [work]
      · simp only [Option.some.injEq, Prod.mk.injEq] at stepped
        rcases stepped with ⟨rfl, rfl⟩
        simp [work]
  | pop query i =>
      cases datastore with
      | nil => simp [uploadStep] at stepped
      | cons share datastore =>
          simp only [uploadStep, Option.some.injEq, Prod.mk.injEq] at stepped
          rcases stepped with ⟨rfl, rfl⟩
          simp only [work, List.length_cons]
          omega
  | leftSize query i =>
      simp only [uploadStep] at stepped
      split at stepped
      · simp only [Option.some.injEq, Prod.mk.injEq] at stepped
        rcases stepped with ⟨rfl, rfl⟩
        simp [work]
      · simp only [Option.some.injEq, Prod.mk.injEq] at stepped
        rcases stepped with ⟨rfl, rfl⟩
        unfold forLoop
        split
        · simp [work]
        · simp [work]
  | returned => simp [uploadStep] at stepped

/-- `Upload` returns when it finds few enough shares. -/
theorem length_of_returned {executed : List StdString}
    (stepped : uploadStep config state = some (next, executed)) (ended : next.point = .returned) :
    next.datastore.length ≤ config.minCount.toNat := by
  have notEnded : ∀ query i, (forLoop config query i).1 ≠ .returned := by
    intro query i
    unfold forLoop
    split
    · exact Point.noConfusion
    · exact Point.noConfusion
  rcases state with ⟨datastore, point⟩
  cases point with
  | loopSize =>
      simp only [uploadStep] at stepped
      split at stepped
      · simp only [Option.some.injEq, Prod.mk.injEq] at stepped
        rcases stepped with ⟨rfl, rfl⟩
        exact absurd ended (notEnded _ _)
      · rename_i few
        simp only [Option.some.injEq, Prod.mk.injEq] at stepped
        rcases stepped with ⟨rfl, rfl⟩
        exact Nat.le_of_not_lt few
  | logSize =>
      simp only [uploadStep, Option.some.injEq, Prod.mk.injEq] at stepped
      rcases stepped with ⟨rfl, rfl⟩
      cases ended
  | pop query i =>
      cases datastore with
      | nil => simp [uploadStep] at stepped
      | cons share datastore =>
          simp only [uploadStep, Option.some.injEq, Prod.mk.injEq] at stepped
          rcases stepped with ⟨rfl, rfl⟩
          cases ended
  | leftSize query i =>
      simp only [uploadStep] at stepped
      split at stepped
      · simp only [Option.some.injEq, Prod.mk.injEq] at stepped
        rcases stepped with ⟨rfl, rfl⟩
        cases ended
      · simp only [Option.some.injEq, Prod.mk.injEq] at stepped
        rcases stepped with ⟨rfl, rfl⟩
        exact absurd ended (notEnded _ _)
  | returned => simp [uploadStep] at stepped

/-- Where `Upload` has not returned it can go on, unless it pops from an empty deque. -/
theorem exists_uploadStep (running : state.point ≠ .returned)
    (nonempty : state.point.Pops → state.datastore ≠ []) :
    ∃ next executed, uploadStep config state = some (next, executed) := by
  rcases state with ⟨datastore, point⟩
  cases point with
  | logSize => exact ⟨_, _, rfl⟩
  | loopSize =>
      simp only [uploadStep]
      split <;> exact ⟨_, _, rfl⟩
  | pop query i =>
      cases datastore with
      | nil => exact absurd rfl (nonempty trivial)
      | cons share datastore => exact ⟨_, _, rfl⟩
  | leftSize query i =>
      simp only [uploadStep]
      split <;> exact ⟨_, _, rfl⟩
  | returned => exact absurd rfl running

/-- Once nothing more is pushed, `Upload` returns. -/
theorem upload_returns (bulk : 1 ≤ config.bulkCount.toNat) (run : Run config initial trace state)
    (running : state.point ≠ .returned) :
    ∃ calls later final,
      replay (step config) state (List.replicate calls .upload) = some (later, final) ∧
      final.point = .returned ∧ final.datastore.length ≤ config.minCount.toNat := by
  generalize workEq : work state = bound
  induction bound using Nat.strong_induction_on generalizing trace state with
  | _ bound ih =>
      rcases accounts_of_run bulk run with ⟨batches, rows, accounts⟩
      have uploads : ∃ next executed, uploadStep config state = some (next, executed) :=
        exists_uploadStep running accounts.nonempty
      rcases uploads with ⟨next, executed, uploaded⟩
      have less := work_of_uploadStep bulk uploaded
      have stepped : step config state .upload = some (next, executed) := uploaded
      by_cases ended : next.point = .returned
      · refine ⟨1, [⟨state, .upload, executed, next⟩], next, ?_, ended, length_of_returned uploaded ended⟩
        rw [List.replicate_one, replay, stepped]
        rfl
      · have run' : Run config initial (trace ++ [⟨state, .upload, executed, next⟩]) next :=
          run.extend stepped
        rcases ih (work next) (by omega) run' ended rfl with
          ⟨calls, later, final, replayed, returned, few⟩
        refine ⟨calls + 1, ⟨state, .upload, executed, next⟩ :: later, final, ?_, returned, few⟩
        rw [List.replicate_succ, replay, stepped]
        simp only [replayed, Option.map_some]

/-! ## The upload as a whole -/

/-- A query is being built. -/
def Point.Open : Point → Prop
  | pop _ _ => True
  | leftSize _ _ => True
  | _ => False

/--
In every run of an upload `Pop` finds a share; the queries are batches of at least one and at
most `ShareUploadBulkCount` shares; the shares of the batches, of the open query and of the
deque are the initial and the pushed ones in their order; and without further pushes `Upload`
returns with at most `ShareUploadMinCount` shares left.
-/
theorem upload_accounts (bulk : 1 ≤ config.bulkCount.toNat) (run : Run config initial trace state) :
    (state.point.Pops → state.datastore ≠ []) ∧
    (∃ (batches : List (List Share)) (rows : List Share),
      queries trace = batches.map insertText ∧
      (∀ batch ∈ batches, 1 ≤ batch.length ∧ batch.length ≤ config.bulkCount.toNat) ∧
      batches.flatten ++ rows ++ state.datastore = initial ++ pushed trace ∧
      (¬state.point.Open → rows = [])) ∧
    (state.point ≠ .returned → ∃ calls later final,
      replay (step config) state (List.replicate calls .upload) = some (later, final) ∧
      final.point = .returned ∧ final.datastore.length ≤ config.minCount.toNat) := by
  rcases accounts_of_run bulk run with ⟨batches, rows, accounts⟩
  refine ⟨accounts.nonempty, ⟨batches, rows, accounts.executed, accounts.sized,
    accounts.conserved, ?_⟩, upload_returns bulk run⟩
  intro closed
  have building := accounts.building
  generalize state.point = point at building closed
  cases building with
  | pop => exact absurd trivial closed
  | leftSize => exact absurd trivial closed
  | _ => rfl

namespace Sample

def share : Share :=
  ⟨0x7F000001, ascii "alice", true, [], 1388534420, 16⟩

/-- Three shares, a fourth one pushed between two rows, and queries of at most two rows. -/
def uploadEvents : List Event :=
  [.upload, .upload, .upload, .push share, .upload, .upload, .upload]

end Sample

theorem upload_accounts_sample :
    ∃ trace state,
      Run ⟨2, 2⟩ (List.replicate 3 Sample.share) trace state ∧
      queries trace = [insertText [Sample.share, Sample.share]] ∧
      ∃ calls later final,
        replay (step ⟨2, 2⟩) state (List.replicate calls .upload) = some (later, final) ∧
        final.point = .returned ∧ final.datastore.length ≤ 2 := by
  have found : ∃ result ∈ replay (step ⟨2, 2⟩) (start (List.replicate 3 Sample.share))
      Sample.uploadEvents, queries result.1 = [insertText [Sample.share, Sample.share]] ∧
      result.2.point ≠ .returned := by
    decide +kernel
  rcases found with ⟨⟨trace, state⟩, replayed, executed, running⟩
  have run : Run ⟨2, 2⟩ (List.replicate 3 Sample.share) trace state := .ofReplay replayed
  exact ⟨trace, state, run, executed, (upload_accounts (by decide) run).2.2 running⟩

end Poolserver.DataMgr
