import Poolserver.Lib.RunTrace

/-!
# The queue of database operations

`SynchronisedQueue` with the worker threads that take operations from it. `Enqueue` holds the
mutex from its beginning to its end, and so is one step. `Dequeue` gives the mutex up while it
waits, and `Stop` does not take it, so that the steps of `Dequeue` are the reads of the flag and
the wait, and those of `Stop` its two statements.
-/

namespace Poolserver.MySQL

open RunTrace

/-- Where a worker thread is in `DatabaseWorker::Work`. -/
inductive Phase where
  /-- Executing an operation, or about to call `Dequeue`. -/
  | working
  /-- In `Dequeue` with the mutex, at the condition of the loop. -/
  | checking
  /-- In `Dequeue` with the mutex, about to wait. -/
  | blocking
  /-- In `Dequeue` without the mutex, in the wait for the condition variable. -/
  | waiting
  /-- In `Dequeue` with the mutex, behind the loop. -/
  | leaving
  | exited
  deriving DecidableEq, Repr

structure SynchronisedQueue (Operation : Type) where
  endQueue : Bool
  queue : List Operation
  /-- The worker that holds the mutex. -/
  holder : Option ℕ
  /-- The workers that the condition variable has not let go. -/
  waiting : List ℕ
  workers : ℕ → Phase

inductive QueueEvent (Operation : Type) where
  /-- `Enqueue`, whose `notify_one` lets a waiting worker go. -/
  | enqueue (operation : Operation) (notified : ℕ)
  /-- `Stop` sets the flag. -/
  | stop
  /-- The `notify_all` of `Stop`. -/
  | notifyAll
  | dequeue (worker : ℕ)
  | check (worker : ℕ)
  /-- `wait` gives the mutex up. -/
  | block (worker : ℕ)
  /-- The condition variable lets a worker go without a notification. -/
  | spurious (worker : ℕ)
  /-- `wait` takes the mutex again and returns. -/
  | wake (worker : ℕ)
  | finish (worker : ℕ)
  deriving DecidableEq

namespace SynchronisedQueue

variable {Operation : Type}

/-- The queue after its construction, with workers that have just been activated. -/
def new : SynchronisedQueue Operation where
  endQueue := false
  queue := []
  holder := none
  waiting := []
  workers _ := .working

/-- A worker goes on in another phase and takes or gives up the mutex. -/
def move (state : SynchronisedQueue Operation) (worker : ℕ) (phase : Phase)
    (holder : Option ℕ) : SynchronisedQueue Operation :=
  { state with holder, workers := Function.update state.workers worker phase }

/-- What `Dequeue` returns to a worker: an operation, or a null pointer. -/
abbrev Returned (Operation : Type) := Option (ℕ × Option Operation)

def step (state : SynchronisedQueue Operation) :
    QueueEvent Operation → Option (SynchronisedQueue Operation × Returned Operation)
  | .enqueue operation notified =>
      -- without a waiting worker, `notify_one` does nothing
      if state.holder = none ∧ (state.waiting = [] ∨ notified ∈ state.waiting) then
        some ({ state with
          queue := state.queue ++ [operation]
          waiting := state.waiting.erase notified }, none)
      else none
  | .stop => some ({ state with endQueue := true }, none)
  | .notifyAll => if state.endQueue then some ({ state with waiting := [] }, none) else none
  | .dequeue worker =>
      if state.holder = none ∧ state.workers worker = .working then
        some (state.move worker .checking (some worker), none)
      else none
  | .check worker =>
      if state.workers worker = .checking then
        if state.queue = [] ∧ state.endQueue = false then
          some (state.move worker .blocking state.holder, none)
        else some (state.move worker .leaving state.holder, none)
      else none
  | .block worker =>
      if state.workers worker = .blocking then
        some ({ state.move worker .waiting none with waiting := state.waiting ++ [worker] }, none)
      else none
  | .spurious worker =>
      if worker ∈ state.waiting then
        some ({ state with waiting := state.waiting.erase worker }, none)
      else none
  | .wake worker =>
      if state.holder = none ∧ state.workers worker = .waiting ∧ worker ∉ state.waiting then
        some (state.move worker .checking (some worker), none)
      else none
  | .finish worker =>
      if state.workers worker = .leaving then
        if state.endQueue then some (state.move worker .exited none, some (worker, none))
        else
          match state.queue with
          -- the front of an empty queue
          | [] => none
          | operation :: queue =>
              some ({ state.move worker .working none with queue }, some (worker, some operation))
      else none

end SynchronisedQueue

abbrev QueueEntry (Operation : Type) :=
  Entry (SynchronisedQueue Operation) (QueueEvent Operation)
    (SynchronisedQueue.Returned Operation)

/-- The runs of a queue with any number of workers. -/
abbrev QueueRun {Operation : Type} :
    List (QueueEntry Operation) → SynchronisedQueue Operation → Prop :=
  Run SynchronisedQueue.step SynchronisedQueue.new

variable {Operation : Type}

/-! ## What is enqueued and handed out -/

def enqueued? (entry : QueueEntry Operation) : Option Operation :=
  match entry.event with
  | .enqueue operation _ => some operation
  | _ => none

def handed? (entry : QueueEntry Operation) : Option Operation :=
  entry.output.bind Prod.snd

/-- The operations that are enqueued, in order. -/
def enqueued (trace : List (QueueEntry Operation)) : List Operation :=
  trace.filterMap enqueued?

/-- The operations that are handed to workers, in order. -/
def handed (trace : List (QueueEntry Operation)) : List Operation :=
  trace.filterMap handed?

def Stops (entry : QueueEntry Operation) : Prop :=
  entry.event = .stop

/-- A worker receives the terminating null pointer. -/
def Terminates (entry : QueueEntry Operation) : Prop :=
  ∃ worker, entry.output = some (worker, none)

/-- The part of a run in front of the first `Stop`, and that `Stop`. -/
structure FirstStop (trace earlier : List (QueueEntry Operation))
    (stop : QueueEntry Operation) : Prop where
  split : ∃ later, trace = earlier ++ stop :: later
  stops : Stops stop
  first : ∀ entry ∈ earlier, ¬Stops entry

theorem exists_firstStop {trace : List (QueueEntry Operation)}
    (stops : ∃ entry ∈ trace, Stops entry) : ∃ earlier stop, FirstStop trace earlier stop := by
  induction trace with
  | nil => simp at stops
  | cons entry trace ih =>
      by_cases now : Stops entry
      · exact ⟨[], entry, ⟨trace, rfl⟩, now, by simp⟩
      · have stopsLater : ∃ entry ∈ trace, Stops entry := by
          simpa [now] using stops
        rcases ih stopsLater with ⟨earlier, stop, ⟨later, rfl⟩, isStop, first⟩
        exact ⟨entry :: earlier, stop, ⟨later, rfl⟩, isStop,
          List.forall_mem_cons.mpr ⟨now, first⟩⟩

theorem FirstStop.extend {trace earlier : List (QueueEntry Operation)}
    {stop : QueueEntry Operation} (firstStop : FirstStop trace earlier stop)
    (more : List (QueueEntry Operation)) : FirstStop (trace ++ more) earlier stop := by
  rcases firstStop with ⟨⟨later, rfl⟩, stops, first⟩
  exact ⟨⟨later ++ more, by simp⟩, stops, first⟩

/-- The first `Stop` of a longer run is that of the run, or the step behind it. -/
theorem FirstStop.concat_cases {trace earlier : List (QueueEntry Operation)}
    {entry stop : QueueEntry Operation} (firstStop : FirstStop (trace ++ [entry]) earlier stop) :
    FirstStop trace earlier stop ∨ (earlier = trace ∧ stop = entry) := by
  rcases firstStop with ⟨⟨later, split⟩, stops, first⟩
  rcases List.eq_nil_or_concat later with rfl | ⟨rest, last, rfl⟩
  · rcases List.append_inj' split rfl with ⟨rfl, lastEq⟩
    exact Or.inr ⟨rfl, (List.singleton_inj.mp lastEq).symm⟩
  · rw [List.concat_eq_append, ← List.cons_append, ← List.append_assoc] at split
    rcases List.append_inj' split rfl with ⟨rfl, _⟩
    exact Or.inl ⟨⟨rest, rfl⟩, stops, first⟩

/-- When a worker terminates, all that was enqueued before the first `Stop` has been handed out. -/
def DrainsBeforeEnd (trace : List (QueueEntry Operation)) : Prop :=
  ∀ before entry after, trace = before ++ entry :: after → Terminates entry →
    ∀ earlier stop, FirstStop before earlier stop → enqueued earlier <+: handed before

/-- A `Stop` after which a worker terminates finds the queue empty. -/
def StopsWhenEmpty (trace : List (QueueEntry Operation)) : Prop :=
  ∀ before entry after, trace = before ++ entry :: after → Terminates entry →
    ∀ earlier stop, FirstStop before earlier stop → stop.before.queue = []

@[simp]
theorem enqueued_append (left right : List (QueueEntry Operation)) :
    enqueued (left ++ right) = enqueued left ++ enqueued right :=
  List.filterMap_append

@[simp]
theorem handed_append (left right : List (QueueEntry Operation)) :
    handed (left ++ right) = handed left ++ handed right :=
  List.filterMap_append

/-! ## Steps -/

/-- What a step does to the queue and the flag. -/
inductive Moves (entry : QueueEntry Operation) : Prop where
  | enqueues (operation : Operation) (isEnqueue : enqueued? entry = some operation)
      (noReturn : entry.output = none) (notStop : ¬Stops entry)
      (queue : entry.after.queue = entry.before.queue ++ [operation])
      (flag : entry.after.endQueue = entry.before.endQueue)
  | stops (isStop : Stops entry) (noReturn : entry.output = none)
      (queue : entry.after.queue = entry.before.queue) (flag : entry.after.endQueue = true)
  | waits (noEnqueue : enqueued? entry = none) (noReturn : entry.output = none)
      (notStop : ¬Stops entry) (queue : entry.after.queue = entry.before.queue)
      (flag : entry.after.endQueue = entry.before.endQueue)
  | terminates (worker : ℕ) (noEnqueue : enqueued? entry = none)
      (returned : entry.output = some (worker, none)) (notStop : ¬Stops entry)
      (queue : entry.after.queue = entry.before.queue)
      (wasStopped : entry.before.endQueue = true) (flag : entry.after.endQueue = true)
  | hands (worker : ℕ) (operation : Operation) (noEnqueue : enqueued? entry = none)
      (returned : entry.output = some (worker, some operation)) (notStop : ¬Stops entry)
      (queue : entry.before.queue = operation :: entry.after.queue)
      (wasRunning : entry.before.endQueue = false) (flag : entry.after.endQueue = false)

/-- The steps, each with what it finds. -/
inductive Steps (before : SynchronisedQueue Operation) :
    QueueEvent Operation → SynchronisedQueue.Returned Operation →
      SynchronisedQueue Operation → Prop where
  | enqueue {operation : Operation} {notified : ℕ} (free : before.holder = none)
      (notifies : before.waiting = [] ∨ notified ∈ before.waiting) :
      Steps before (.enqueue operation notified) none
        { before with
          queue := before.queue ++ [operation]
          waiting := before.waiting.erase notified }
  | stop : Steps before .stop none { before with endQueue := true }
  | notifyAll (stopped : before.endQueue = true) :
      Steps before .notifyAll none { before with waiting := [] }
  | dequeue {worker : ℕ} (free : before.holder = none)
      (isWorking : before.workers worker = .working) :
      Steps before (.dequeue worker) none (before.move worker .checking (some worker))
  | wait {worker : ℕ} (isChecking : before.workers worker = .checking)
      (empty : before.queue = []) (running : before.endQueue = false) :
      Steps before (.check worker) none (before.move worker .blocking before.holder)
  | leave {worker : ℕ} (isChecking : before.workers worker = .checking)
      (reason : before.endQueue = true ∨ before.queue ≠ []) :
      Steps before (.check worker) none (before.move worker .leaving before.holder)
  | block {worker : ℕ} (isBlocking : before.workers worker = .blocking) :
      Steps before (.block worker) none
        { before.move worker .waiting none with waiting := before.waiting ++ [worker] }
  | spurious {worker : ℕ} (waits : worker ∈ before.waiting) :
      Steps before (.spurious worker) none
        { before with waiting := before.waiting.erase worker }
  | wake {worker : ℕ} (free : before.holder = none) (isWaiting : before.workers worker = .waiting)
      (released : worker ∉ before.waiting) :
      Steps before (.wake worker) none (before.move worker .checking (some worker))
  | terminate {worker : ℕ} (isLeaving : before.workers worker = .leaving)
      (stopped : before.endQueue = true) :
      Steps before (.finish worker) (some (worker, none)) (before.move worker .exited none)
  | hand {worker : ℕ} {operation : Operation} {queue : List Operation}
      (isLeaving : before.workers worker = .leaving) (running : before.endQueue = false)
      (queueEq : before.queue = operation :: queue) :
      Steps before (.finish worker) (some (worker, some operation))
        { before.move worker .working none with queue }

theorem steps_of_step {before after : SynchronisedQueue Operation} {event : QueueEvent Operation}
    {output : SynchronisedQueue.Returned Operation}
    (stepped : before.step event = some (after, output)) : Steps before event output after := by
  cases event with
  | enqueue operation notified =>
      simp only [SynchronisedQueue.step, Option.ite_none_right_eq_some, Option.some.injEq,
        Prod.mk.injEq] at stepped
      rcases stepped with ⟨⟨free, notifies⟩, rfl, rfl⟩
      exact .enqueue free notifies
  | stop =>
      simp only [SynchronisedQueue.step, Option.some.injEq, Prod.mk.injEq] at stepped
      rcases stepped with ⟨rfl, rfl⟩
      exact .stop
  | notifyAll =>
      simp only [SynchronisedQueue.step, Option.ite_none_right_eq_some, Option.some.injEq,
        Prod.mk.injEq] at stepped
      rcases stepped with ⟨stopped, rfl, rfl⟩
      exact .notifyAll stopped
  | dequeue worker =>
      simp only [SynchronisedQueue.step, Option.ite_none_right_eq_some, Option.some.injEq,
        Prod.mk.injEq] at stepped
      rcases stepped with ⟨⟨free, isWorking⟩, rfl, rfl⟩
      exact .dequeue free isWorking
  | check worker =>
      simp only [SynchronisedQueue.step, Option.ite_none_right_eq_some] at stepped
      rcases stepped with ⟨isChecking, stepped⟩
      split at stepped
      · rename_i idle
        cases stepped
        exact .wait isChecking idle.1 idle.2
      · rename_i reason
        rw [not_and_or, Bool.not_eq_false] at reason
        cases stepped
        exact .leave isChecking reason.symm
  | block worker =>
      simp only [SynchronisedQueue.step, Option.ite_none_right_eq_some, Option.some.injEq,
        Prod.mk.injEq] at stepped
      rcases stepped with ⟨isBlocking, rfl, rfl⟩
      exact .block isBlocking
  | spurious worker =>
      simp only [SynchronisedQueue.step, Option.ite_none_right_eq_some, Option.some.injEq,
        Prod.mk.injEq] at stepped
      rcases stepped with ⟨waits, rfl, rfl⟩
      exact .spurious waits
  | wake worker =>
      simp only [SynchronisedQueue.step, Option.ite_none_right_eq_some, Option.some.injEq,
        Prod.mk.injEq] at stepped
      rcases stepped with ⟨⟨free, isWaiting, released⟩, rfl, rfl⟩
      exact .wake free isWaiting released
  | finish worker =>
      simp only [SynchronisedQueue.step, Option.ite_none_right_eq_some] at stepped
      rcases stepped with ⟨isLeaving, stepped⟩
      split at stepped
      · rename_i stopped
        cases stepped
        exact .terminate isLeaving stopped
      · rename_i running
        rw [Bool.not_eq_true] at running
        split at stepped
        · cases stepped
        · rename_i operation queue queueEq
          cases stepped
          exact .hand isLeaving running queueEq

theorem moves_of_step {entry : QueueEntry Operation}
    (stepped : entry.before.step entry.event = some (entry.after, entry.output)) :
    Moves entry := by
  rcases entry with ⟨before, event, output, after⟩
  have steps : Steps before event output after := steps_of_step stepped
  cases steps with
  | @enqueue operation notified free notifies =>
      exact .enqueues operation rfl rfl (fun isStop => by cases isStop) rfl rfl
  | stop => exact .stops rfl rfl rfl rfl
  | @terminate worker isLeaving stopped =>
      exact .terminates worker rfl rfl (fun isStop => by cases isStop) rfl stopped stopped
  | @hand worker operation queue isLeaving running queueEq =>
      exact .hands worker operation rfl rfl (fun isStop => by cases isStop) queueEq running running
  | _ => exact .waits rfl rfl (fun isStop => by cases isStop) rfl rfl

/-! ## Runs -/

/-- What was handed out and what is in the queue is what was enqueued. -/
theorem handed_append_queue {trace : List (QueueEntry Operation)}
    {state : SynchronisedQueue Operation} (run : QueueRun trace state) :
    handed trace ++ state.queue = enqueued trace := by
  refine run.invariant (fun trace state => handed trace ++ state.queue = enqueued trace)
    (fun _ => True) (fun _ _ => trivial) rfl ?_
  intro trace entry held _ stepped
  have shape : ∀ operations, enqueued [entry] = operations →
      handed trace ++ (handed [entry] ++ entry.after.queue) =
        (handed trace ++ entry.before.queue) ++ operations →
      handed (trace ++ [entry]) ++ entry.after.queue = enqueued (trace ++ [entry]) := by
    intro operations enqueuedEq same
    rw [handed_append, enqueued_append, enqueuedEq, ← held, List.append_assoc, same]
  cases moves_of_step stepped with
  | enqueues operation isEnqueue noReturn notStop queue flag =>
      apply shape [operation]
      · simp [enqueued, isEnqueue]
      · simp [handed, handed?, noReturn, queue]
  | stops isStop noReturn queue flag =>
      have noEnqueue : enqueued? entry = none := by
        rw [enqueued?, isStop]
      apply shape []
      · simp [enqueued, noEnqueue]
      · simp [handed, handed?, noReturn, queue]
  | waits noEnqueue noReturn notStop queue flag =>
      apply shape []
      · simp [enqueued, noEnqueue]
      · simp [handed, handed?, noReturn, queue]
  | terminates worker noEnqueue returned notStop queue wasStopped flag =>
      apply shape []
      · simp [enqueued, noEnqueue]
      · simp [handed, handed?, returned, queue]
  | hands worker operation noEnqueue returned notStop queue wasRunning flag =>
      apply shape []
      · simp [enqueued, noEnqueue]
      · simp [handed, handed?, returned, queue]

/-- Nothing is handed out after `Stop`. -/
theorem handed_of_firstStop {trace : List (QueueEntry Operation)}
    {state : SynchronisedQueue Operation} (run : QueueRun trace state) :
    (state.endQueue = true ↔ ∃ entry ∈ trace, Stops entry) ∧
      ∀ earlier stop, FirstStop trace earlier stop → handed trace = handed earlier := by
  refine run.invariant (fun trace state =>
    (state.endQueue = true ↔ ∃ entry ∈ trace, Stops entry) ∧
      ∀ earlier stop, FirstStop trace earlier stop → handed trace = handed earlier)
    (fun _ => True) (fun _ _ => trivial) ?_ ?_
  · refine ⟨by simp [SynchronisedQueue.new], ?_⟩
    rintro earlier stop ⟨⟨later, split⟩, _, _⟩
    simp at split
  intro trace entry held _ stepped
  rcases held with ⟨flagHeld, handedHeld⟩
  have silent : handed? entry = none → ∀ earlier stop,
      FirstStop (trace ++ [entry]) earlier stop → handed (trace ++ [entry]) = handed earlier := by
    intro nothing earlier stop firstStop
    have kept : handed (trace ++ [entry]) = handed trace := by
      simp [handed, nothing]
    rcases firstStop.concat_cases with old | ⟨rfl, _⟩
    · rw [kept]
      exact handedHeld earlier stop old
    · exact kept
  have flagKept : ¬Stops entry → entry.after.endQueue = entry.before.endQueue →
      (entry.after.endQueue = true ↔ ∃ other ∈ trace ++ [entry], Stops other) := by
    intro notStop flag
    rw [flag, flagHeld]
    simp [notStop, or_and_right, exists_or]
  cases moves_of_step stepped with
  | enqueues operation isEnqueue noReturn notStop queue flag =>
      exact ⟨flagKept notStop flag, silent (by simp [handed?, noReturn])⟩
  | stops isStop noReturn queue flag =>
      exact ⟨iff_of_true flag ⟨entry, by simp, isStop⟩, silent (by simp [handed?, noReturn])⟩
  | waits noEnqueue noReturn notStop queue flag =>
      exact ⟨flagKept notStop flag, silent (by simp [handed?, noReturn])⟩
  | terminates worker noEnqueue returned notStop queue wasStopped flag =>
      exact ⟨flagKept notStop (flag.trans wasStopped.symm), silent (by simp [handed?, returned])⟩
  | hands worker operation noEnqueue returned notStop queue wasRunning flag =>
      refine ⟨flagKept notStop (flag.trans wasRunning.symm), ?_⟩
      intro earlier stop firstStop
      rcases firstStop.concat_cases with old | ⟨_, rfl⟩
      · -- a queue that was stopped hands nothing out
        rcases old.split with ⟨later, rfl⟩
        have wasStopped := flagHeld.mpr ⟨stop, by simp, old.stops⟩
        rw [wasRunning] at wasStopped
        cases wasStopped
      · exact absurd firstStop.stops notStop

/--
Only the holder of the mutex is inside `Dequeue`; it is about to wait while the queue is empty,
and behind the loop it finds a reason.
-/
structure Excludes (state : SynchronisedQueue Operation) : Prop where
  checking : ∀ worker, state.workers worker = .checking → state.holder = some worker
  blocking : ∀ worker, state.workers worker = .blocking →
    state.holder = some worker ∧ state.queue = []
  leaving : ∀ worker, state.workers worker = .leaving →
    state.holder = some worker ∧ (state.endQueue = true ∨ state.queue ≠ [])

theorem excludes_move {state : SynchronisedQueue Operation} (excludes : Excludes state)
    {worker : ℕ} {phase : Phase} {holder : Option ℕ}
    (others : ∀ other, state.holder = some other → other ≠ worker → holder = some other)
    (checks : phase = .checking → holder = some worker)
    (blocks : phase = .blocking → holder = some worker ∧ state.queue = [])
    (leaves : phase = .leaving →
      holder = some worker ∧ (state.endQueue = true ∨ state.queue ≠ [])) :
    Excludes (state.move worker phase holder) := by
  constructor
  · intro other otherPhase
    by_cases same : other = worker
    · subst same
      exact checks (by simpa [SynchronisedQueue.move] using otherPhase)
    · simp only [SynchronisedQueue.move, Function.update_of_ne same] at otherPhase
      exact others other (excludes.checking other otherPhase) same
  · intro other otherPhase
    by_cases same : other = worker
    · subst same
      exact blocks (by simpa [SynchronisedQueue.move] using otherPhase)
    · simp only [SynchronisedQueue.move, Function.update_of_ne same] at otherPhase
      rcases excludes.blocking other otherPhase with ⟨holds, empty⟩
      exact ⟨others other holds same, empty⟩
  · intro other otherPhase
    by_cases same : other = worker
    · subst same
      exact leaves (by simpa [SynchronisedQueue.move] using otherPhase)
    · simp only [SynchronisedQueue.move, Function.update_of_ne same] at otherPhase
      rcases excludes.leaving other otherPhase with ⟨holds, reason⟩
      exact ⟨others other holds same, reason⟩

/-- A worker that leaves `Dequeue` or waits in it gives up the mutex, if it held it. -/
theorem excludes_release {state : SynchronisedQueue Operation} (excludes : Excludes state)
    {worker : ℕ} {phase : Phase} (holds : state.holder = some worker)
    (outside : phase ≠ .checking ∧ phase ≠ .blocking ∧ phase ≠ .leaving) :
    Excludes (state.move worker phase none) := by
  refine excludes_move excludes ?_ (fun checks => absurd checks outside.1)
    (fun blocks => absurd blocks outside.2.1) (fun leaves => absurd leaves outside.2.2)
  intro other otherHolds differs
  rw [holds, Option.some.injEq] at otherHolds
  exact absurd otherHolds.symm differs

theorem excludes_of_step {before after : SynchronisedQueue Operation} {event : QueueEvent Operation}
    {output : SynchronisedQueue.Returned Operation} (excludes : Excludes before)
    (steps : Steps before event output after) : Excludes after := by
  have enters : ∀ worker, before.holder = none →
      Excludes (before.move worker .checking (some worker)) := by
    intro worker free
    refine excludes_move excludes ?_ (fun _ => rfl) Phase.noConfusion Phase.noConfusion
    intro other holds
    rw [free] at holds
    cases holds
  cases steps with
  | enqueue free notifies =>
      refine ⟨excludes.checking, fun worker phase => ?_, fun worker phase => ?_⟩
      · -- a worker that is about to wait holds the mutex
        have holds := (excludes.blocking worker phase).1
        rw [free] at holds
        cases holds
      · exact ⟨(excludes.leaving worker phase).1, Or.inr (by simp)⟩
  | stop =>
      refine ⟨excludes.checking, excludes.blocking, fun worker phase => ?_⟩
      exact ⟨(excludes.leaving worker phase).1, Or.inl rfl⟩
  | notifyAll stopped => exact ⟨excludes.checking, excludes.blocking, excludes.leaving⟩
  | dequeue free isWorking => exact enters _ free
  | @wait worker isChecking empty running =>
      have holds := excludes.checking worker isChecking
      exact excludes_move excludes (fun _ otherHolds _ => otherHolds) (fun _ => holds)
        (fun _ => ⟨holds, empty⟩) Phase.noConfusion
  | @leave worker isChecking reason =>
      have holds := excludes.checking worker isChecking
      exact excludes_move excludes (fun _ otherHolds _ => otherHolds) (fun _ => holds)
        Phase.noConfusion (fun _ => ⟨holds, reason⟩)
  | @block worker isBlocking =>
      have moved : Excludes (before.move worker .waiting none) :=
        excludes_release excludes (excludes.blocking worker isBlocking).1 (by simp)
      exact ⟨moved.checking, moved.blocking, moved.leaving⟩
  | spurious waits => exact ⟨excludes.checking, excludes.blocking, excludes.leaving⟩
  | wake free isWaiting released => exact enters _ free
  | @terminate worker isLeaving stopped =>
      exact excludes_release excludes (excludes.leaving worker isLeaving).1 (by simp)
  | @hand worker operation queue isLeaving running queueEq =>
      have moved : Excludes (before.move worker .working none) :=
        excludes_release excludes (excludes.leaving worker isLeaving).1 (by simp)
      refine ⟨moved.checking, fun other phase => ?_, fun other phase => ?_⟩
      · have held := (moved.blocking other phase).1
        cases held
      · have held := (moved.leaving other phase).1
        cases held

theorem excludes_of_run {trace : List (QueueEntry Operation)}
    {state : SynchronisedQueue Operation} (run : QueueRun trace state) : Excludes state := by
  refine run.invariant (fun _ state => Excludes state) (fun _ => True) (fun _ _ => trivial) ?_ ?_
  · exact ⟨fun _ => Phase.noConfusion, fun _ => Phase.noConfusion, fun _ => Phase.noConfusion⟩
  · exact fun _ _ excludes _ stepped => excludes_of_step excludes (steps_of_step stepped)

/-- `Dequeue` never takes the front of an empty queue. -/
theorem finish_defined {trace : List (QueueEntry Operation)}
    {state : SynchronisedQueue Operation} (run : QueueRun trace state) {worker : ℕ}
    (isLeaving : state.workers worker = .leaving) :
    (state.step (.finish worker)).isSome = true := by
  rcases ((excludes_of_run run).leaving worker isLeaving).2 with stopped | filled
  · simp [SynchronisedQueue.step, isLeaving, stopped]
  · rcases List.exists_cons_of_ne_nil filled with ⟨operation, queue, queueEq⟩
    cases flag : state.endQueue with
    | true => simp [SynchronisedQueue.step, isLeaving, flag]
    | false => simp [SynchronisedQueue.step, isLeaving, flag, queueEq]

/-- What was enqueued before the first `Stop` was handed out or was in the queue then. -/
theorem enqueued_of_firstStop {trace earlier : List (QueueEntry Operation)}
    {stop : QueueEntry Operation} {state : SynchronisedQueue Operation}
    (run : QueueRun trace state) (firstStop : FirstStop trace earlier stop) :
    enqueued earlier = handed trace ++ stop.before.queue := by
  have handedEq := (handed_of_firstStop run).2 earlier stop firstStop
  rcases firstStop.split with ⟨later, rfl⟩
  rw [handedEq]
  exact (handed_append_queue run.split.1).symm

/--
Operations are handed out in the order in which they are enqueued; and those enqueued before
`Stop` are all handed out before a worker terminates just when `Stop` finds the queue empty.
-/
theorem drains_iff {trace : List (QueueEntry Operation)} {state : SynchronisedQueue Operation}
    (run : QueueRun trace state) :
    handed trace <+: enqueued trace ∧ ((enqueued trace).Nodup → (handed trace).Nodup) ∧
      (DrainsBeforeEnd trace ↔ StopsWhenEmpty trace) := by
  have isPrefix : handed trace <+: enqueued trace := ⟨state.queue, handed_append_queue run⟩
  refine ⟨isPrefix, fun distinct => distinct.sublist isPrefix.sublist, ?_⟩
  have drained : ∀ {before entry after earlier stop}, trace = before ++ entry :: after →
      FirstStop before earlier stop →
      (enqueued earlier <+: handed before ↔ stop.before.queue = []) := by
    intro before entry after earlier stop split firstStop
    rw [split] at run
    rw [enqueued_of_firstStop run.split.1 firstStop]
    constructor
    · intro isPrefix
      have lengths := isPrefix.length_le
      rw [List.length_append] at lengths
      exact List.eq_nil_of_length_eq_zero (by omega)
    · intro empty
      rw [empty, List.append_nil]
  constructor
  · intro drains before entry after split terminates earlier stop firstStop
    exact (drained split firstStop).mp (drains before entry after split terminates _ _ firstStop)
  · intro stops before entry after split terminates earlier stop firstStop
    exact (drained split firstStop).mpr (stops before entry after split terminates _ _ firstStop)

/-- Where a worker terminates and every `Stop` finds something in the queue, operations are lost. -/
theorem not_drains {trace : List (QueueEntry Operation)} {state : SynchronisedQueue Operation}
    (run : QueueRun trace state) {entry : QueueEntry Operation} (entryMem : entry ∈ trace)
    (terminates : Terminates entry)
    (filled : ∀ stop ∈ trace, Stops stop → stop.before.queue ≠ []) : ¬DrainsBeforeEnd trace := by
  intro drains
  rcases List.append_of_mem entryMem with ⟨before, after, split⟩
  have runBefore := run
  rw [split] at runBefore
  rcases runBefore.split with ⟨runBefore, stepped⟩
  have stopped : entry.before.endQueue = true := by
    rcases terminates with ⟨worker, returned⟩
    cases moves_of_step stepped with
    | terminates _ _ _ _ _ wasStopped _ => exact wasStopped
    | enqueues operation isEnqueue noReturn => simp [noReturn] at returned
    | stops isStop noReturn => simp [noReturn] at returned
    | waits noEnqueue noReturn => simp [noReturn] at returned
    | hands other operation noEnqueue returnedOperation => simp [returnedOperation] at returned
  rcases exists_firstStop ((handed_of_firstStop runBefore).1.mp stopped) with
    ⟨earlier, stop, firstStop⟩
  have stopMem : stop ∈ trace := by
    rcases firstStop.split with ⟨later, beforeEq⟩
    simp [split, beforeEq]
  exact filled stop stopMem firstStop.stops
    ((drains_iff run).2.2.mp drains before entry after split terminates earlier stop firstStop)

end Poolserver.MySQL
