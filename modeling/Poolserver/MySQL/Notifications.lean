import Poolserver.MySQL.AsyncPool

/-!
# No notification is lost

`Enqueue` notifies a worker, and a worker that is about to wait holds the mutex: before `Stop`,
the workers do not all wait while something is queued. So what is queued is handed out, and what
is handed out is executed, without a wake-up that nobody caused.
-/

namespace Poolserver.MySQL

open RunTrace

variable {Operation : Type} {connections : ℕ}

/-- A worker inside `Dequeue` can go on, and where something is queued, so can one outside. -/
structure Attended (connections : ℕ) (queue : SynchronisedQueue Operation) : Prop where
  held : ∀ worker, queue.holder = some worker →
    queue.workers worker = .checking ∨ queue.workers worker = .blocking ∨
      queue.workers worker = .leaving
  connected : ∀ worker, queue.workers worker ≠ .working → worker < connections
  alive : queue.endQueue = false → ∀ worker, queue.workers worker ≠ .exited
  distinct : queue.waiting.Nodup
  waits : ∀ worker ∈ queue.waiting, queue.workers worker = .waiting
  notified : queue.endQueue = false → queue.queue ≠ [] →
    ∃ worker < connections, worker ∉ queue.waiting

theorem Attended.notMem {queue : SynchronisedQueue Operation} (attended : Attended connections queue)
    {worker : ℕ} (elsewhere : queue.workers worker ≠ .waiting) : worker ∉ queue.waiting :=
  fun waits => elsewhere (attended.waits worker waits)

theorem attended_move {queue : SynchronisedQueue Operation} (attended : Attended connections queue)
    {worker : ℕ} {phase : Phase} {holder : Option ℕ}
    (holds : ∀ other, holder = some other →
      other = worker ∧ (phase = .checking ∨ phase = .blocking ∨ phase = .leaving))
    (isConnection : worker < connections) (lives : queue.endQueue = false → phase ≠ .exited)
    (released : worker ∉ queue.waiting) : Attended connections (queue.move worker phase holder) where
  held other otherHolds := by
    rcases holds other otherHolds with ⟨rfl, inside⟩
    simpa [SynchronisedQueue.move] using inside
  connected other entered := by
    by_cases same : other = worker
    · subst same
      exact isConnection
    · simp only [SynchronisedQueue.move, Function.update_of_ne same] at entered
      exact attended.connected other entered
  alive running other := by
    by_cases same : other = worker
    · subst same
      simpa [SynchronisedQueue.move] using lives running
    · simpa [SynchronisedQueue.move, Function.update_of_ne same] using attended.alive running other
  distinct := attended.distinct
  waits other otherWaits := by
    have same : other ≠ worker := by
      rintro rfl
      exact released otherWaits
    simpa [SynchronisedQueue.move, Function.update_of_ne same] using attended.waits other otherWaits
  notified := attended.notified

theorem attended_enter {queue : SynchronisedQueue Operation} (attended : Attended connections queue)
    {worker : ℕ} (isConnection : worker < connections) (released : worker ∉ queue.waiting) :
    Attended connections (queue.move worker .checking (some worker)) := by
  refine attended_move attended ?_ isConnection (fun _ => Phase.noConfusion) released
  rintro other ⟨⟩
  exact ⟨rfl, .inl rfl⟩

/-- The worker with the mutex goes on in `Dequeue`. -/
theorem attended_inside {queue : SynchronisedQueue Operation}
    (attended : Attended connections queue) {worker : ℕ} {phase : Phase}
    (holds : queue.holder = some worker) (isConnection : worker < connections)
    (inside : phase = .blocking ∨ phase = .leaving) (released : worker ∉ queue.waiting) :
    Attended connections (queue.move worker phase queue.holder) := by
  refine attended_move attended ?_ isConnection ?_ released
  · intro other otherHolds
    rw [holds, Option.some.injEq] at otherHolds
    exact ⟨otherHolds.symm, .inr inside⟩
  · rintro _ rfl
    rcases inside with wrong | wrong
    · cases wrong
    · cases wrong

theorem attended_release {queue : SynchronisedQueue Operation}
    (attended : Attended connections queue) {worker : ℕ} {phase : Phase}
    (isConnection : worker < connections) (lives : queue.endQueue = false → phase ≠ .exited)
    (released : worker ∉ queue.waiting) : Attended connections (queue.move worker phase none) := by
  refine attended_move attended ?_ isConnection lives released
  rintro other ⟨⟩

theorem attended_of_step {before after : SynchronisedQueue Operation}
    {event : QueueEvent Operation} {output : SynchronisedQueue.Returned Operation}
    (someWorker : 0 < connections) (admitted : ∀ worker, event = .dequeue worker → worker < connections)
    (excludes : Excludes before) (attended : Attended connections before)
    (steps : Steps before event output after) : Attended connections after := by
  have connected : ∀ {worker phase}, before.workers worker = phase → phase ≠ .working →
      worker < connections := by
    intro worker phase inPhase entered
    exact attended.connected worker (inPhase ▸ entered)
  have released : ∀ {worker phase}, before.workers worker = phase → phase ≠ .waiting →
      worker ∉ before.waiting := by
    intro worker phase inPhase elsewhere
    exact attended.notMem (inPhase ▸ elsewhere)
  cases steps with
  | @enqueue operation notified free notifies =>
      refine ⟨attended.held, attended.connected, attended.alive, attended.distinct.erase _,
        fun worker waits => attended.waits worker (List.mem_of_mem_erase waits), fun _ _ => ?_⟩
      rcases notifies with nobody | waits
      · exact ⟨0, someWorker, by simp [nobody]⟩
      · exact ⟨notified, connected (attended.waits notified waits) Phase.noConfusion,
          attended.distinct.not_mem_erase⟩
  | stop =>
      refine ⟨attended.held, attended.connected, ?_, attended.distinct, attended.waits, ?_⟩
      · exact fun running => by cases running
      · exact fun running => by cases running
  | notifyAll stopped =>
      refine ⟨attended.held, attended.connected, attended.alive, List.nodup_nil, by simp, ?_⟩
      intro running
      rw [stopped] at running
      cases running
  | @dequeue worker free isWorking =>
      exact attended_enter attended (admitted worker rfl) (released isWorking Phase.noConfusion)
  | @wait worker isChecking empty running =>
      exact attended_inside attended (excludes.checking worker isChecking)
        (connected isChecking Phase.noConfusion) (.inl rfl)
        (released isChecking Phase.noConfusion)
  | @leave worker isChecking reason =>
      exact attended_inside attended (excludes.checking worker isChecking)
        (connected isChecking Phase.noConfusion) (.inr rfl)
        (released isChecking Phase.noConfusion)
  | @block worker isBlocking =>
      have absent := released isBlocking Phase.noConfusion
      have moved : Attended connections (before.move worker .waiting none) :=
        attended_release attended (connected isBlocking Phase.noConfusion)
          (fun _ => Phase.noConfusion) absent
      refine ⟨moved.held, moved.connected, moved.alive, ?_, ?_, fun _ filled => ?_⟩
      · exact List.nodup_append_comm.mp (List.nodup_cons.mpr ⟨absent, attended.distinct⟩)
      · rw [List.forall_mem_append, List.forall_mem_singleton]
        exact ⟨moved.waits, by simp [SynchronisedQueue.move]⟩
      · -- it still holds the mutex, and found the queue empty
        exact absurd (excludes.blocking worker isBlocking).2 filled
  | @spurious worker waits =>
      refine ⟨attended.held, attended.connected, attended.alive, attended.distinct.erase _,
        fun other otherWaits => attended.waits other (List.mem_of_mem_erase otherWaits), ?_⟩
      intro running filled
      rcases attended.notified running filled with ⟨other, isConnection, absent⟩
      exact ⟨other, isConnection, fun otherWaits => absent (List.mem_of_mem_erase otherWaits)⟩
  | @wake worker free isWaiting absent =>
      exact attended_enter attended (connected isWaiting Phase.noConfusion) absent
  | @terminate worker isLeaving stopped =>
      refine attended_release attended (connected isLeaving Phase.noConfusion) ?_
        (released isLeaving Phase.noConfusion)
      intro running
      rw [stopped] at running
      cases running
  | @hand worker operation queue isLeaving running queueEq =>
      have moved : Attended connections (before.move worker .working none) :=
        attended_release attended (connected isLeaving Phase.noConfusion)
          (fun _ => Phase.noConfusion) (released isLeaving Phase.noConfusion)
      refine ⟨moved.held, moved.connected, moved.alive, moved.distinct, moved.waits, ?_⟩
      exact fun _ _ => attended.notified running (by simp [queueEq])

/-- The steps that the queue still needs from the worker inside or from the next one. -/
def attention (queue : SynchronisedQueue Operation) : ℕ :=
  match queue.holder with
  | none => if queue.queue = [] then 0 else 3
  | some worker => if queue.workers worker = .checking then 2 else 1

theorem attention_le (queue : SynchronisedQueue Operation) : attention queue ≤ 3 := by
  unfold attention
  split
  · split <;> omega
  · split <;> omega

variable [DecidableEq Operation] {trace : List (PoolEntry Operation)} {state : AsyncPool Operation}

theorem attended_of_run (someWorker : 0 < connections) (run : PoolRun connections trace state) :
    Attended connections state.queue := by
  refine (run.invariant (fun trace state => PoolRun connections trace state ∧
    Attended connections state.queue) (fun _ => True) (fun _ _ => trivial) ⟨.nil, ?_⟩ ?_).2
  · refine ⟨?_, ?_, fun _ _ => Phase.noConfusion, List.nodup_nil, by simp [AsyncPool.new,
      SynchronisedQueue.new], fun _ filled => absurd rfl filled⟩
    · rintro worker ⟨⟩
    · exact fun worker entered => absurd rfl entered
  rintro trace ⟨before, event, output, after⟩ ⟨runBefore, held⟩ _ stepped
  refine ⟨runBefore.extend stepped, ?_⟩
  dsimp only at runBefore held stepped ⊢
  cases poolSteps_of_step stepped with
  | queue isQueueEvent admitted moves deleted stops =>
      refine attended_of_step someWorker ?_ (excludes_of_run (queueRun_history runBefore)) held
        (steps_of_step moves)
      rintro worker rfl
      exact admitted.1
  | execute running alive => exact held
  | delete closing isConnection => exact held

/-! ## Progress -/

/-- Bounds the steps that are left while nothing is enqueued. -/
def AsyncPool.remaining (state : AsyncPool Operation) : ℕ :=
  4 * state.queue.queue.length + state.executing.length + attention state.queue

/-- The steps of the workers, with what `Execute` returns for an operation. -/
inductive PoolEvent.Inward (outcome : Operation → Bool) : PoolEvent Operation → Prop where
  | dequeue (worker : ℕ) : Inward outcome (.queue (.dequeue worker))
  | check (worker : ℕ) : Inward outcome (.queue (.check worker))
  | block (worker : ℕ) : Inward outcome (.queue (.block worker))
  | wake (worker : ℕ) : Inward outcome (.queue (.wake worker))
  | finish (worker : ℕ) : Inward outcome (.queue (.finish worker))
  | execute (worker : ℕ) (operation : Operation) :
      Inward outcome (.execute worker operation (outcome operation))

/-- A step of a worker that leads closer to an empty queue. -/
structure Serves (connections : ℕ) (outcome : Operation → Bool) (state : AsyncPool Operation)
    (event : PoolEvent Operation) (next : AsyncPool Operation) : Prop where
  inward : event.Inward outcome
  moves : ∃ returned, state.step connections event = some (next, returned)
  less : next.remaining < state.remaining
  running : next.queue.endQueue = state.queue.endQueue

section Serving

variable {outcome : Operation → Bool}

theorem poolStep_eq {event : QueueEvent Operation} {queue : SynchronisedQueue Operation}
    {returned : SynchronisedQueue.Returned Operation} (admitted : state.Admits connections event)
    (stepped : state.queue.step event = some (queue, returned)) :
    state.step connections (.queue event) =
      some ({ state with queue, executing := state.executing ++ AsyncPool.taken returned },
        returned) := by
  rw [AsyncPool.step, if_pos admitted, AsyncPool.queueStep, stepped]
  rfl

theorem exists_execute {worker : ℕ} {operation : Operation}
    (running : (worker, operation) ∈ state.executing) (opened : state.close.deleted ≤ worker) :
    ∃ event next, Serves connections outcome state event next := by
  have moves : state.step connections (.execute worker operation (outcome operation)) =
      some ({ state with
        executing := state.executing.erase (worker, operation)
        executed := state.executed ++ [(operation, outcome operation)] }, none) := by
    rw [AsyncPool.step, if_pos ⟨running, opened⟩]
  refine ⟨_, _, .execute worker operation, ⟨_, moves⟩, ?_, rfl⟩
  have shorter := List.length_erase_of_mem running
  have someRunning := List.length_pos_of_mem running
  simp only [AsyncPool.remaining, shorter]
  omega

theorem exists_check {worker : ℕ} (unstopped : state.queue.endQueue = false)
    (holds : state.queue.holder = some worker) (checks : state.queue.workers worker = .checking) :
    ∃ event next, Serves connections outcome state event next := by
  have goesOn : ∃ phase ≠ Phase.checking, state.queue.step (.check worker) =
      some (state.queue.move worker phase state.queue.holder, none) := by
    by_cases empty : state.queue.queue = []
    · refine ⟨.blocking, Phase.noConfusion, ?_⟩
      rw [SynchronisedQueue.step, if_pos checks, if_pos ⟨empty, unstopped⟩]
    · refine ⟨.leaving, Phase.noConfusion, ?_⟩
      rw [SynchronisedQueue.step, if_pos checks, if_neg fun both => empty both.1]
  rcases goesOn with ⟨phase, elsewhere, moves⟩
  refine ⟨_, _, .check worker, ⟨_, poolStep_eq trivial moves⟩, ?_, rfl⟩
  simp [AsyncPool.remaining, attention, holds, checks, elsewhere, SynchronisedQueue.move,
    AsyncPool.taken]

theorem exists_block {worker : ℕ} (excludes : Excludes state.queue)
    (holds : state.queue.holder = some worker) (blocks : state.queue.workers worker = .blocking) :
    ∃ event next, Serves connections outcome state event next := by
  have empty := (excludes.blocking worker blocks).2
  have moves : state.queue.step (.block worker) =
      some ({ state.queue.move worker .waiting none with
        waiting := state.queue.waiting ++ [worker] }, none) := by
    rw [SynchronisedQueue.step, if_pos blocks]
  refine ⟨_, _, .block worker, ⟨_, poolStep_eq trivial moves⟩, ?_, rfl⟩
  simp [AsyncPool.remaining, attention, holds, blocks, empty, SynchronisedQueue.move,
    AsyncPool.taken]

theorem exists_finish {worker : ℕ} (excludes : Excludes state.queue)
    (unstopped : state.queue.endQueue = false) (holds : state.queue.holder = some worker)
    (leaves : state.queue.workers worker = .leaving) :
    ∃ event next, Serves connections outcome state event next := by
  have filled : state.queue.queue ≠ [] := by
    rcases (excludes.leaving worker leaves).2 with stopped | filled
    · rw [unstopped] at stopped
      cases stopped
    · exact filled
  rcases List.exists_cons_of_ne_nil filled with ⟨operation, queue, queueEq⟩
  have moves : state.queue.step (.finish worker) =
      some ({ state.queue.move worker .working none with queue }, some (worker, some operation)) := by
    simp only [SynchronisedQueue.step, if_pos leaves, unstopped, queueEq, Bool.false_eq_true,
      if_false]
  refine ⟨_, _, .finish worker, ⟨_, poolStep_eq trivial moves⟩, ?_, rfl⟩
  have before : attention state.queue = 1 := by
    simp [attention, holds, leaves]
  apply lt_of_le_of_lt (Nat.add_le_add_left (attention_le _) _)
  simp only [AsyncPool.remaining, AsyncPool.taken, List.length_append, queueEq,
    List.length_cons, List.length_nil, before]
  omega

theorem exists_dequeue (excludes : Excludes state.queue)
    (attended : Attended connections state.queue) (unstopped : state.queue.endQueue = false)
    (free : state.queue.holder = none) (idle : state.executing = [])
    (filled : state.queue.queue ≠ []) :
    ∃ event next, Serves connections outcome state event next := by
  rcases attended.notified unstopped filled with ⟨worker, isConnection, released⟩
  have less : AsyncPool.remaining { state with
      queue := state.queue.move worker .checking (some worker)
      executing := state.executing ++ AsyncPool.taken none } < state.remaining := by
    simp [AsyncPool.remaining, attention, free, filled, SynchronisedQueue.move, AsyncPool.taken]
  cases phase : state.queue.workers worker with
  | working =>
      have enters : state.queue.step (.dequeue worker) =
          some (state.queue.move worker .checking (some worker), none) := by
        rw [SynchronisedQueue.step, if_pos ⟨free, phase⟩]
      have admitted : state.Admits connections (.dequeue worker) :=
        ⟨isConnection, by simp [idle]⟩
      exact ⟨_, _, .dequeue worker, ⟨_, poolStep_eq admitted enters⟩, less, rfl⟩
  | waiting =>
      have enters : state.queue.step (.wake worker) =
          some (state.queue.move worker .checking (some worker), none) := by
        rw [SynchronisedQueue.step, if_pos ⟨free, phase, released⟩]
      exact ⟨_, _, .wake worker, ⟨_, poolStep_eq trivial enters⟩, less, rfl⟩
  | checking =>
      have holds := excludes.checking worker phase
      rw [free] at holds
      cases holds
  | blocking =>
      have holds := (excludes.blocking worker phase).1
      rw [free] at holds
      cases holds
  | leaving =>
      have holds := (excludes.leaving worker phase).1
      rw [free] at holds
      cases holds
  | exited => exact absurd phase (attended.alive unstopped worker)

/-- Before `Stop`, a worker can go on while the mutex is held or something is left to do. -/
theorem exists_serves (someWorker : 0 < connections) (run : PoolRun connections trace state)
    (unstopped : state.queue.endQueue = false)
    (busy : ¬(state.queue.queue = [] ∧ state.executing = [] ∧ state.queue.holder = none)) :
    ∃ event next, Serves connections outcome state event next := by
  have attended := attended_of_run someWorker run
  have excludes := excludes_of_run (queueRun_history run)
  cases holderEq : state.queue.holder with
  | some worker =>
      rcases attended.held worker holderEq with checks | blocks | leaves
      · exact exists_check unstopped holderEq checks
      · exact exists_block excludes holderEq blocks
      · exact exists_finish excludes unstopped holderEq leaves
  | none =>
      by_cases executes : state.executing = []
      · have filled : state.queue.queue ≠ [] := fun empty => busy ⟨empty, executes, holderEq⟩
        exact exists_dequeue excludes attended unstopped holderEq executes filled
      · rcases List.exists_mem_of_ne_nil _ executes with ⟨⟨worker, operation⟩, running⟩
        have atStop : state.close = .stop := by
          by_contra closing
          rw [endQueue_of_closing run closing] at unstopped
          cases unstopped
        exact exists_execute running (atStop ▸ Nat.zero_le _)

end Serving

end Poolserver.MySQL
