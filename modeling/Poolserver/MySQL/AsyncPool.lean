import Poolserver.MySQL.WorkQueue

/-!
# The asynchronous connections

Each asynchronous connection of `DatabaseWorkerPool` has a worker, which executes on it the
operations that the queue hands to it. `Close` stops the queue and deletes one connection after
the other; it does not wait for the workers, so that an operation is lost when its connection is
deleted before it was executed. What `DatabaseConnection::Execute` returns to a worker is an
input, and it is not looked at.
-/

namespace Poolserver.MySQL

open RunTrace

/-- Where `Close` is. -/
inductive ClosePoint where
  /-- In front of `Stop`. -/
  | stop
  /-- Between the statements of `Stop`. -/
  | notifyAll
  /-- About to delete an asynchronous connection. -/
  | delete (connection : ℕ)
  deriving DecidableEq, Repr

/-- How many connections are deleted. -/
def ClosePoint.deleted : ClosePoint → ℕ
  | delete connection => connection
  | _ => 0

structure AsyncPool (Operation : Type) where
  queue : SynchronisedQueue Operation
  /-- The operations that workers execute. -/
  executing : List (ℕ × Operation)
  /-- The operations that were executed, with what `Execute` returned. -/
  executed : List (Operation × Bool)
  close : ClosePoint

inductive PoolEvent (Operation : Type) where
  | queue (event : QueueEvent Operation)
  /-- `Execute` returns to a worker. -/
  | execute (worker : ℕ) (operation : Operation) (returned : Bool)
  /-- The next statement of `Close`. -/
  | close
  deriving DecidableEq

namespace AsyncPool

open SynchronisedQueue (Returned)

variable {Operation : Type}

def new : AsyncPool Operation where
  queue := .new
  executing := []
  executed := []
  close := .stop

/-- What a worker is given to execute. -/
def taken : Returned Operation → List (ℕ × Operation)
  | some (worker, some operation) => [(worker, operation)]
  | _ => []

/-- A step of the queue. -/
def queueStep (state : AsyncPool Operation) (event : QueueEvent Operation) :
    Option (AsyncPool Operation × Returned Operation) := do
  let (queue, returned) ← state.queue.step event
  return ({ state with queue, executing := state.executing ++ taken returned }, returned)

/-- The workers are those of the connections, and one that executes is not in `Dequeue`. -/
def Admits (connections : ℕ) (state : AsyncPool Operation) : QueueEvent Operation → Prop
  | .dequeue worker => worker < connections ∧ worker ∉ state.executing.map Prod.fst
  | _ => True

instance (connections : ℕ) (state : AsyncPool Operation) :
    DecidablePred (Admits connections state)
  | .dequeue worker =>
      inferInstanceAs (Decidable (worker < connections ∧ worker ∉ state.executing.map Prod.fst))
  | .enqueue _ _ | .stop | .notifyAll | .check _ | .block _ | .spurious _ | .wake _ | .finish _ =>
      .isTrue trivial

variable [DecidableEq Operation]

def step (connections : ℕ) (state : AsyncPool Operation) :
    PoolEvent Operation → Option (AsyncPool Operation × Returned Operation)
  | .queue event => if Admits connections state event then state.queueStep event else none
  | .execute worker operation returned =>
      -- no query is executed on a connection that is deleted
      if (worker, operation) ∈ state.executing ∧ state.close.deleted ≤ worker then
        some ({ state with
          executing := state.executing.erase (worker, operation)
          executed := state.executed ++ [(operation, returned)] }, none)
      else none
  | .close =>
      match state.close with
      | .stop => queueStep { state with close := .notifyAll } .stop
      | .notifyAll => queueStep { state with close := .delete 0 } .notifyAll
      | .delete connection =>
          if connection < connections then
            some ({ state with close := .delete (connection + 1) }, none)
          else none

/-- What is executed on connections that are not deleted. -/
def underway (state : AsyncPool Operation) : List Operation :=
  (state.executing.filter fun task => state.close.deleted ≤ task.1).map Prod.snd

/-- The step of the queue in a step of the pool. -/
def queueEvent? (state : AsyncPool Operation) :
    PoolEvent Operation → Option (QueueEvent Operation)
  | .queue event => some event
  | .execute _ _ _ => none
  | .close =>
      match state.close with
      | .stop => some .stop
      | .notifyAll => some .notifyAll
      | .delete _ => none

end AsyncPool

abbrev PoolEntry (Operation : Type) :=
  Entry (AsyncPool Operation) (PoolEvent Operation) (SynchronisedQueue.Returned Operation)

variable {Operation : Type}

/-- The runs of the pool and its `Close`. -/
abbrev PoolRun [DecidableEq Operation] (connections : ℕ) :
    List (PoolEntry Operation) → AsyncPool Operation → Prop :=
  Run (AsyncPool.step connections) AsyncPool.new

def PoolEntry.queueEntry? (entry : PoolEntry Operation) : Option (QueueEntry Operation) :=
  (entry.before.queueEvent? entry.event).map fun event =>
    ⟨entry.before.queue, event, entry.output, entry.after.queue⟩

/-- What happens to the queue. -/
def history (trace : List (PoolEntry Operation)) : List (QueueEntry Operation) :=
  trace.filterMap PoolEntry.queueEntry?

/-- `Close` deletes a connection. -/
def Deletes (entry : PoolEntry Operation) (connection : ℕ) : Prop :=
  entry.event = .close ∧ entry.before.close = .delete connection

/-- All that was enqueued before the first `Stop` was executed or is, on an open connection. -/
def NoneDropped (trace : List (PoolEntry Operation)) (state : AsyncPool Operation) : Prop :=
  ∀ earlier stop, FirstStop (history trace) earlier stop →
    (enqueued earlier).Subperm (state.executed.map Prod.fst ++ state.underway)

/-- `Stop` finds the queue empty, and `Close` a worker that executes nothing. -/
structure ClosesIdle (trace : List (PoolEntry Operation)) : Prop where
  empty : ∀ earlier stop, FirstStop (history trace) earlier stop → stop.before.queue = []
  finished : ∀ entry ∈ trace, ∀ connection, Deletes entry connection →
    connection ∉ entry.before.executing.map Prod.fst

@[simp]
theorem history_append (left right : List (PoolEntry Operation)) :
    history (left ++ right) = history left ++ history right :=
  List.filterMap_append

theorem history_of_queueEvent {entry : PoolEntry Operation} {event : QueueEvent Operation}
    (isQueueEvent : entry.before.queueEvent? entry.event = some event) :
    history [entry] = [⟨entry.before.queue, event, entry.output, entry.after.queue⟩] := by
  simp [history, PoolEntry.queueEntry?, isQueueEvent]

theorem history_of_none {entry : PoolEntry Operation}
    (noQueueEvent : entry.before.queueEvent? entry.event = none) : history [entry] = [] := by
  simp [history, PoolEntry.queueEntry?, noQueueEvent]

/-! ## Steps -/

/-- The steps of the pool, each with what it finds. -/
inductive PoolSteps [DecidableEq Operation] (connections : ℕ) (before : AsyncPool Operation) :
    PoolEvent Operation → SynchronisedQueue.Returned Operation → AsyncPool Operation → Prop where
  | queue {event : PoolEvent Operation} {queueEvent : QueueEvent Operation}
      {queue : SynchronisedQueue Operation} {returned : SynchronisedQueue.Returned Operation}
      {close : ClosePoint} (isQueueEvent : before.queueEvent? event = some queueEvent)
      (admitted : before.Admits connections queueEvent)
      (moves : before.queue.step queueEvent = some (queue, returned))
      (deleted : close.deleted = before.close.deleted)
      (stops : close ≠ before.close → queue.endQueue = true) :
      PoolSteps connections before event returned
        { before with queue, executing := before.executing ++ AsyncPool.taken returned, close }
  | execute {worker : ℕ} {operation : Operation} {returned : Bool}
      (running : (worker, operation) ∈ before.executing)
      (alive : before.close.deleted ≤ worker) :
      PoolSteps connections before (.execute worker operation returned) none
        { before with
          executing := before.executing.erase (worker, operation)
          executed := before.executed ++ [(operation, returned)] }
  | delete {connection : ℕ} (closing : before.close = .delete connection)
      (isConnection : connection < connections) :
      PoolSteps connections before .close none { before with close := .delete (connection + 1) }

theorem queueStep_eq_some {before after : AsyncPool Operation} {event : QueueEvent Operation}
    {returned : SynchronisedQueue.Returned Operation}
    (stepped : before.queueStep event = some (after, returned)) :
    ∃ queue, before.queue.step event = some (queue, returned) ∧
      after = { before with queue, executing := before.executing ++ AsyncPool.taken returned } := by
  simp only [AsyncPool.queueStep, Option.bind_eq_bind, Option.bind_eq_some_iff] at stepped
  rcases stepped with ⟨⟨queue, output⟩, moves, stepped⟩
  simp only [Option.pure_def, Option.some.injEq, Prod.mk.injEq] at stepped
  rcases stepped with ⟨rfl, rfl⟩
  exact ⟨queue, moves, rfl⟩

theorem taken_map_snd (returned : SynchronisedQueue.Returned Operation) :
    (AsyncPool.taken returned).map Prod.snd = (returned.bind Prod.snd).toList := by
  rcases returned with _ | ⟨worker, _ | operation⟩
  · rfl
  · rfl
  · rfl

theorem handed_singleton (entry : QueueEntry Operation) :
    handed [entry] = (AsyncPool.taken entry.output).map Prod.snd := by
  rw [taken_map_snd, handed, List.filterMap_cons, List.filterMap_nil, handed?]
  cases entry.output.bind Prod.snd with
  | none => rfl
  | some operation => rfl

theorem endQueue_of_taken {before after : SynchronisedQueue Operation}
    {event : QueueEvent Operation} {returned : SynchronisedQueue.Returned Operation}
    (stepped : before.step event = some (after, returned)) {task : ℕ × Operation}
    (given : task ∈ AsyncPool.taken returned) : before.endQueue = false := by
  cases steps_of_step stepped with
  | hand isLeaving running queueEq => exact running
  | _ => simp [AsyncPool.taken] at given

variable [DecidableEq Operation] {connections : ℕ} {trace : List (PoolEntry Operation)}
  {state : AsyncPool Operation}

theorem poolSteps_of_step {before after : AsyncPool Operation} {event : PoolEvent Operation}
    {output : SynchronisedQueue.Returned Operation}
    (stepped : before.step connections event = some (after, output)) :
    PoolSteps connections before event output after := by
  cases event with
  | queue event =>
      simp only [AsyncPool.step, Option.ite_none_right_eq_some] at stepped
      rcases stepped with ⟨admitted, stepped⟩
      rcases queueStep_eq_some stepped with ⟨queue, moves, rfl⟩
      exact .queue rfl admitted moves rfl (fun changed => absurd rfl changed)
  | execute worker operation returned =>
      simp only [AsyncPool.step, Option.ite_none_right_eq_some, Option.some.injEq,
        Prod.mk.injEq] at stepped
      rcases stepped with ⟨⟨running, alive⟩, rfl, rfl⟩
      exact .execute running alive
  | close =>
      cases closing : before.close with
      | stop =>
          simp only [AsyncPool.step, closing] at stepped
          rcases queueStep_eq_some stepped with ⟨queue, moves, rfl⟩
          have isStop : before.queueEvent? .close = some .stop := by
            simp only [AsyncPool.queueEvent?, closing]
          refine .queue isStop trivial moves ?_ fun _ => ?_
          · rw [closing]
            rfl
          · cases steps_of_step moves with
            | stop => rfl
      | notifyAll =>
          simp only [AsyncPool.step, closing] at stepped
          rcases queueStep_eq_some stepped with ⟨queue, moves, rfl⟩
          have isNotify : before.queueEvent? .close = some .notifyAll := by
            simp only [AsyncPool.queueEvent?, closing]
          refine .queue isNotify trivial moves ?_ fun _ => ?_
          · rw [closing]
            rfl
          · cases steps_of_step moves with
            | notifyAll stopped => exact stopped
      | delete connection =>
          simp only [AsyncPool.step, closing, Option.ite_none_right_eq_some, Option.some.injEq,
            Prod.mk.injEq] at stepped
          rcases stepped with ⟨isConnection, rfl, rfl⟩
          exact .delete closing isConnection

/-! ## Runs -/

/-- What happens to the queue in a run of the pool is a run of the queue. -/
theorem queueRun_history (run : PoolRun connections trace state) :
    QueueRun (history trace) state.queue := by
  refine run.invariant (fun trace state => QueueRun (history trace) state.queue) (fun _ => True)
    (fun _ _ => trivial) .nil ?_
  rintro trace ⟨before, event, output, after⟩ held _ stepped
  dsimp only at held stepped
  rw [history_append]
  cases poolSteps_of_step stepped with
  | @queue _ queueEvent queue _ close isQueueEvent admitted moves deleted stops =>
      rw [history_of_queueEvent isQueueEvent]
      exact held.extend moves
  | execute running alive =>
      rw [history_of_none rfl, List.append_nil]
      exact held
  | delete closing isConnection =>
      rw [history_of_none (by simp only [AsyncPool.queueEvent?, closing]), List.append_nil]
      exact held

theorem handed_perm (run : PoolRun connections trace state) :
    (handed (history trace)).Perm
      (state.executed.map Prod.fst ++ state.executing.map Prod.snd) := by
  refine run.invariant (fun trace state => (handed (history trace)).Perm
    (state.executed.map Prod.fst ++ state.executing.map Prod.snd)) (fun _ => True)
    (fun _ _ => trivial) (.refl _) ?_
  rintro trace ⟨before, event, output, after⟩ held _ stepped
  dsimp only at held stepped
  rw [history_append]
  cases poolSteps_of_step stepped with
  | queue isQueueEvent admitted moves deleted stops =>
      rw [history_of_queueEvent isQueueEvent, handed_append, handed_singleton, List.map_append,
        ← List.append_assoc]
      exact held.append_right _
  | execute running alive =>
      have taken := (List.perm_cons_erase running).map Prod.snd
      rw [history_of_none rfl, List.append_nil, List.map_append, List.append_assoc]
      exact held.trans (taken.append_left _)
  | delete closing isConnection =>
      rw [history_of_none (by simp only [AsyncPool.queueEvent?, closing]), List.append_nil]
      exact held

theorem endQueue_of_closing (run : PoolRun connections trace state)
    (closing : state.close ≠ .stop) : state.queue.endQueue = true := by
  refine run.invariant (fun _ state => state.close ≠ .stop → state.queue.endQueue = true)
    (fun _ => True) (fun _ _ => trivial) (fun changed => absurd rfl changed) ?_ closing
  rintro trace ⟨before, event, output, after⟩ held _ stepped
  dsimp only at held stepped
  cases poolSteps_of_step stepped with
  | @queue _ queueEvent queue _ close isQueueEvent admitted moves deleted stops =>
      intro closing
      by_cases same : close = before.close
      · have stopped := held (same ▸ closing)
        cases steps_of_step moves with
        | terminate isLeaving _ => exact stopped
        | _ => first | exact stopped | rfl
      · exact stops same
  | execute running alive => exact held
  | delete closing isConnection =>
      intro _
      refine held fun atStop => ?_
      rw [closing] at atStop
      cases atStop

/-- Where no connection is deleted while its worker executes, all is executed on open ones. -/
theorem deleted_le_of_run (run : PoolRun connections trace state)
    (finished : ∀ entry ∈ trace, ∀ connection, Deletes entry connection →
      connection ∉ entry.before.executing.map Prod.fst) :
    ∀ task ∈ state.executing, state.close.deleted ≤ task.1 := by
  refine (run.invariant (fun trace state => PoolRun connections trace state ∧
    ∀ task ∈ state.executing, state.close.deleted ≤ task.1)
    (fun entry => ∀ connection, Deletes entry connection →
      connection ∉ entry.before.executing.map Prod.fst) finished ⟨.nil, ?_⟩ ?_).2
  · simp [AsyncPool.new]
  rintro trace ⟨before, event, output, after⟩ ⟨runBefore, held⟩ idle stepped
  refine ⟨runBefore.extend stepped, ?_⟩
  dsimp only at runBefore held idle stepped ⊢
  cases poolSteps_of_step stepped with
  | queue isQueueEvent admitted moves deleted stops =>
      intro task taskMem
      rw [deleted]
      rcases List.mem_append.mp taskMem with old | new
      · exact held task old
      · have running := endQueue_of_taken moves new
        have atStop : before.close = .stop := by
          by_contra closing
          rw [endQueue_of_closing runBefore closing] at running
          cases running
        rw [atStop]
        exact Nat.zero_le _
  | execute running alive => exact fun task taskMem => held task (List.mem_of_mem_erase taskMem)
  | @delete connection closing isConnection =>
      intro task taskMem
      have opened := held task taskMem
      have other := idle connection ⟨rfl, closing⟩
      rw [closing, ClosePoint.deleted] at opened
      apply Nat.lt_of_le_of_ne opened
      rintro rfl
      exact other (List.mem_map_of_mem taskMem)

/-- What a worker executes when its connection is deleted is not executed any more. -/
theorem executing_of_deletes (run : PoolRun connections trace state) :
    ∀ entry ∈ trace, ∀ connection operation, Deletes entry connection →
      (connection, operation) ∈ entry.before.executing →
      (connection, operation) ∈ state.executing ∧ connection < state.close.deleted := by
  refine run.invariant (fun trace state =>
    ∀ entry ∈ trace, ∀ connection operation, Deletes entry connection →
      (connection, operation) ∈ entry.before.executing →
      (connection, operation) ∈ state.executing ∧ connection < state.close.deleted)
    (fun _ => True) (fun _ _ => trivial) (by simp) ?_
  rintro trace ⟨before, event, output, after⟩ held _ stepped
  rw [List.forall_mem_append, List.forall_mem_singleton]
  dsimp only at held stepped ⊢
  cases poolSteps_of_step stepped with
  | queue isQueueEvent admitted moves deleted stops =>
      refine ⟨fun entry entryMem connection operation deletes running => ?_, ?_⟩
      · have kept := held entry entryMem connection operation deletes running
        exact ⟨List.mem_append_left _ kept.1, deleted ▸ kept.2⟩
      · rintro connection operation ⟨rfl, closing⟩
        dsimp only at closing
        simp only [AsyncPool.queueEvent?, closing] at isQueueEvent
        cases isQueueEvent
  | @execute worker executed returned running alive =>
      refine ⟨fun entry entryMem connection operation deletes running => ?_, ?_⟩
      · have kept := held entry entryMem connection operation deletes running
        have other : (connection, operation) ≠ (worker, executed) := by
          rintro ⟨⟩
          omega
        exact ⟨(List.mem_erase_of_ne other).mpr kept.1, kept.2⟩
      · rintro connection operation ⟨isClose, _⟩
        cases isClose
  | @delete last closing isConnection =>
      refine ⟨fun entry entryMem connection operation deletes running => ?_, ?_⟩
      · have kept := held entry entryMem connection operation deletes running
        rw [closing, ClosePoint.deleted] at kept
        exact ⟨kept.1, Nat.lt_succ_of_lt kept.2⟩
      · rintro connection operation ⟨_, closes⟩ running
        rw [closing, ClosePoint.delete.injEq] at closes
        exact ⟨running, closes ▸ Nat.lt_succ_self _⟩

theorem exists_firstStop_of_deletes (run : PoolRun connections trace state)
    {entry : PoolEntry Operation} (entryMem : entry ∈ trace) {connection : ℕ}
    (deletes : Deletes entry connection) :
    ∃ earlier stop, FirstStop (history trace) earlier stop := by
  rcases run.before_of_mem entryMem with ⟨earlier, later, rfl, runBefore, _⟩
  have closing : entry.before.close ≠ .stop := by
    rw [deletes.2]
    exact ClosePoint.noConfusion
  have stopped := (handed_of_firstStop (queueRun_history runBefore)).1.mp
    (endQueue_of_closing runBefore closing)
  rcases exists_firstStop stopped with ⟨before, stop, firstStop⟩
  rw [history_append]
  exact ⟨before, stop, firstStop.extend _⟩

theorem drains_of_closesIdle (run : PoolRun connections trace state)
    (closes : ClosesIdle trace) :
    DrainsBeforeEnd (history trace) ∧ NoneDropped trace state := by
  have queueRun := queueRun_history run
  constructor
  · refine (drains_iff queueRun).2.2.mpr ?_
    intro before entry after split _ earlier stop firstStop
    exact closes.empty earlier stop (split ▸ firstStop.extend _)
  · intro earlier stop firstStop
    have opened := deleted_le_of_run run closes.finished
    have all : state.underway = state.executing.map Prod.snd := by
      rw [AsyncPool.underway, List.filter_eq_self.mpr (by simpa using opened)]
    rw [enqueued_of_firstStop queueRun firstStop, closes.empty earlier stop firstStop,
      List.append_nil, all]
    exact (handed_perm run).subperm

theorem closesIdle_of_noneDropped (run : PoolRun connections trace state)
    (saved : NoneDropped trace state) : ClosesIdle trace := by
  have queueRun := queueRun_history run
  have kept : ∀ {earlier stop}, FirstStop (history trace) earlier stop →
      stop.before.queue = [] ∧ ∀ task ∈ state.executing, state.close.deleted ≤ task.1 := by
    intro earlier stop firstStop
    have lengths := (saved earlier stop firstStop).length_le
    have given := (handed_perm run).length_eq
    have most := List.length_filter_le
      (fun task : ℕ × Operation => decide (state.close.deleted ≤ task.1)) state.executing
    rw [enqueued_of_firstStop queueRun firstStop] at lengths
    simp only [AsyncPool.underway, List.length_append, List.length_map] at lengths given
    refine ⟨List.eq_nil_of_length_eq_zero (by omega), ?_⟩
    have all := List.length_filter_eq_length_iff.mp (Nat.le_antisymm most (by omega))
    simpa using all
  refine ⟨fun earlier stop firstStop => (kept firstStop).1, ?_⟩
  intro entry entryMem connection deletes executing
  rcases List.mem_map.mp executing with ⟨⟨worker, operation⟩, running, rfl⟩
  rcases exists_firstStop_of_deletes run entryMem deletes with ⟨earlier, stop, firstStop⟩
  have lost := executing_of_deletes run entry entryMem worker operation deletes running
  have opened := (kept firstStop).2 (worker, operation) lost.1
  omega

/--
In every run of the pool and its `Close`, operations are handed out in the order in which they
are enqueued, and at most once. All that is enqueued before the first `Stop` is handed out before
a worker terminates, and is executed unless its worker still executes it on an open connection,
just when `Stop` finds the queue empty and no connection is deleted under a worker.
-/
theorem shutdown_iff (run : PoolRun connections trace state) :
    handed (history trace) <+: enqueued (history trace) ∧
      ((enqueued (history trace)).Nodup → (handed (history trace)).Nodup) ∧
      (DrainsBeforeEnd (history trace) ∧ NoneDropped trace state ↔ ClosesIdle trace) := by
  rcases drains_iff (queueRun_history run) with ⟨isPrefix, distinct, _⟩
  refine ⟨isPrefix, distinct, ?_⟩
  constructor
  · rintro ⟨_, saved⟩
    exact closesIdle_of_noneDropped run saved
  · exact drains_of_closesIdle run

/-! ## Sample runs -/

namespace Sample

/-- The steps of a worker that takes an operation or the null pointer at once. -/
def takes (worker : ℕ) : List (PoolEvent ℕ) :=
  [.queue (.dequeue worker), .queue (.check worker), .queue (.finish worker)]

/-- Everything is executed before `Close`. -/
def orderly : List (PoolEvent ℕ) :=
  [.queue (.enqueue 7 0)] ++ takes 0 ++ [.execute 0 7 true, .close, .close] ++ takes 1 ++
    [.close, .close]

/-- An operation is queued and another one executing when `Close` is called. -/
def hasty : List (PoolEvent ℕ) :=
  [.queue (.enqueue 7 0), .queue (.enqueue 8 0)] ++ takes 0 ++ [.close, .close] ++ takes 1 ++
    [.close]

end Sample

theorem shutdown_sample :
    ∃ (trace : List (PoolEntry ℕ)) (state : AsyncPool ℕ),
      PoolRun 2 trace state ∧ trace.map Entry.event = Sample.orderly ∧
      trace.filterMap Entry.output = [(0, some 7), (1, none)] ∧ state.close = .delete 2 ∧
      DrainsBeforeEnd (history trace) ∧ NoneDropped trace state := by
  have found : ∃ result ∈ replay (AsyncPool.step 2) AsyncPool.new Sample.orderly,
      result.1.filterMap Entry.output = [(0, some 7), (1, none)] ∧
        result.2.close = .delete 2 ∧
        (∀ entry ∈ history result.1, entry.event = .stop → entry.before.queue = []) ∧
        ∀ entry ∈ result.1, entry.event = .close → entry.before.executing = [] := by
    decide
  rcases found with ⟨⟨trace, state⟩, replayed, returned, closed, empty, finished⟩
  have run : PoolRun 2 trace state := .ofReplay replayed
  refine ⟨trace, state, run, map_event_replay replayed, returned, closed,
    (shutdown_iff run).2.2.mpr ⟨?_, ?_⟩⟩
  · intro earlier stop firstStop
    rcases firstStop.split with ⟨later, split⟩
    exact empty stop (by simp [split]) firstStop.stops
  · intro entry entryMem connection deletes
    simp [finished entry entryMem deletes.1]

/-- A worker terminates while an operation is in the queue; and another operation is lost. -/
theorem exists_lost_operations :
    ∃ (trace : List (PoolEntry ℕ)) (state : AsyncPool ℕ),
      PoolRun 2 trace state ∧ trace.map Entry.event = Sample.hasty ∧
      ¬DrainsBeforeEnd (history trace) ∧ ¬NoneDropped trace state := by
  have found : ∃ result ∈ replay (AsyncPool.step 2) AsyncPool.new Sample.hasty,
      (∃ entry ∈ history result.1, entry.output = some (1, none)) ∧
        (∀ entry ∈ history result.1, entry.event = .stop → entry.before.queue ≠ []) ∧
        ∃ entry ∈ result.1, (entry.event = .close ∧ entry.before.close = .delete 0) ∧
          0 ∈ entry.before.executing.map Prod.fst := by
    decide
  rcases found with ⟨⟨trace, state⟩, replayed, ⟨last, lastMem, returned⟩, filled,
    ⟨entry, entryMem, deletes, executing⟩⟩
  have run : PoolRun 2 trace state := .ofReplay replayed
  refine ⟨trace, state, run, map_event_replay replayed,
    not_drains (queueRun_history run) lastMem ⟨1, returned⟩ filled, ?_⟩
  intro saved
  exact (closesIdle_of_noneDropped run saved).finished entry entryMem 0 deletes executing

end Poolserver.MySQL
