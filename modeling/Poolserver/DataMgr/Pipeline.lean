import Poolserver.DataMgr.Upload
import Poolserver.MySQL.Notifications

/-!
# From a share to its query

The timer of `DataMgr` starts one upload after the other. An upload hands its queries to
`ExecuteAsync`, which puts them into the queue of the database, where other threads put the
inserts of blocks; the workers of the asynchronous connections take them from there and execute
them.
-/

namespace Poolserver.DataMgr

open Stratum RunTrace MySQL

/-- An operation in the queue of the database. -/
inductive Operation where
  | upload (query : StdString)
  | other (query : StdString)
  deriving DecidableEq, Repr

def Operation.uploaded? : Operation → Option StdString
  | upload query => some query
  | other _ => none

structure Pipeline where
  uploads : State
  /-- The query with which `Upload` is about to enter the queue. -/
  outbox : List StdString
  pool : AsyncPool Operation

inductive PipelineEvent where
  | push (share : Share)
  /-- `UploadTimerExpired`. -/
  | expire
  /-- The next call of `Size` or `Pop` by `Upload`. -/
  | upload
  /-- `ExecuteAsync` enters the queue. -/
  | executeAsync (notified : ℕ)
  /-- Another thread enqueues an operation. -/
  | enqueue (query : StdString) (notified : ℕ)
  /-- Anything else in the pool of connections. -/
  | pool (event : PoolEvent Operation)

namespace Pipeline

/-- The constructor of `DataMgr` starts the timer. -/
def new : Pipeline where
  uploads := ⟨[], .returned⟩
  outbox := []
  pool := .new

def Enqueues : PoolEvent Operation → Prop
  | .queue (.enqueue _ _) => True
  | _ => False

instance : DecidablePred Enqueues
  | .queue (.enqueue _ _) => .isTrue trivial
  | .queue .stop | .queue .notifyAll | .queue (.dequeue _) | .queue (.check _)
  | .queue (.block _) | .queue (.spurious _) | .queue (.wake _) | .queue (.finish _)
  | .execute _ _ _ | .close => .isFalse id

variable (config : UploadConfig) (connections : ℕ)

/-- A step of the pool of connections. -/
def poolStep (state : Pipeline) (event : PoolEvent Operation) : Option (Pipeline × Unit) := do
  let (pool, _) ← state.pool.step connections event
  return ({ state with pool }, ())

def step (state : Pipeline) : PipelineEvent → Option (Pipeline × Unit)
  | .push share =>
      some ({ state with
        uploads := { state.uploads with datastore := state.uploads.datastore ++ [share] } }, ())
  | .expire =>
      if state.outbox = [] ∧ state.uploads.point = .returned then
        some ({ state with uploads := { state.uploads with point := .logSize } }, ())
      else none
  | .upload =>
      if state.outbox = [] then do
        let (uploads, outbox) ← uploadStep config state.uploads
        return ({ state with uploads, outbox }, ())
      else none
  | .executeAsync notified =>
      match state.outbox with
      | [] => none
      | query :: outbox =>
          poolStep connections { state with outbox } (.queue (.enqueue (.upload query) notified))
  | .enqueue query notified =>
      poolStep connections state (.queue (.enqueue (.other query) notified))
  | .pool event => if Enqueues event then none else poolStep connections state event

end Pipeline

abbrev PipelineEntry := Entry Pipeline PipelineEvent Unit

/-- The runs of the pool from the construction of `DataMgr` and of the database pool. -/
abbrev PipelineRun (config : UploadConfig) (connections : ℕ) :
    List PipelineEntry → Pipeline → Prop :=
  RunTrace.Run (Pipeline.step config connections) Pipeline.new

/-- The shares that a run pushes, in order. -/
def pushedIn (trace : List PipelineEntry) : List Share :=
  trace.filterMap fun entry =>
    match entry.event with
    | .push share => some share
    | _ => none

/-! ## Where the shares are -/

/--
The shares are in the batches of queries, in the query that is being built or in the deque, and
the queries were handed to workers, are in the queue or about to enter it.
-/
structure Flow (config : UploadConfig) (connections : ℕ) (trace : List PipelineEntry)
    (state : Pipeline) (batches : List (List Share)) (rows : List Share)
    (poolTrace : List (PoolEntry Operation)) : Prop where
  pooled : PoolRun connections poolTrace state.pool
  batched : (enqueued (history poolTrace)).filterMap Operation.uploaded? ++ state.outbox =
    batches.map insertText
  sized : ∀ batch ∈ batches, 1 ≤ batch.length ∧ batch.length ≤ config.bulkCount.toNat
  building : Building config state.uploads.point rows
  nonempty : state.uploads.point.Pops → state.uploads.datastore ≠ []
  conserved : batches.flatten ++ rows ++ state.uploads.datastore = pushedIn trace

variable {config : UploadConfig} {connections : ℕ} {trace : List PipelineEntry}
  {state next : Pipeline} {batches : List (List Share)} {rows : List Share}
  {poolTrace : List (PoolEntry Operation)}

theorem pushedIn_concat (trace : List PipelineEntry) (entry : PipelineEntry) :
    pushedIn (trace ++ [entry]) = pushedIn trace ++ pushedIn [entry] :=
  List.filterMap_append

/-- The part of an upload of which a step of it needs to know. -/
theorem Flow.accounts (flow : Flow config connections trace state batches rows poolTrace) :
    Accounts config (rows ++ state.uploads.datastore) [] state.uploads [] rows where
  executed := rfl
  sized := by simp
  building := flow.building
  conserved := by simp [pushed]
  nonempty := flow.nonempty

theorem poolStep_eq_some {event : PoolEvent Operation}
    (stepped : state.poolStep connections event = some (next, ())) :
    ∃ pool returned, state.pool.step connections event = some (pool, returned) ∧
      next = { state with pool } := by
  simp only [Pipeline.poolStep, Option.bind_eq_bind, Option.bind_eq_some_iff] at stepped
  rcases stepped with ⟨⟨pool, returned⟩, moves, stepped⟩
  simp only [Option.pure_def, Option.some.injEq, Prod.mk.injEq, and_true] at stepped
  exact ⟨pool, returned, moves, stepped.symm⟩

theorem enqueued_history (entry : PoolEntry Operation) :
    enqueued (history [entry]) =
      match entry.event with
      | .queue (.enqueue operation _) => [operation]
      | _ => [] := by
  rcases entry with ⟨before, event, output, after⟩
  cases event with
  | queue event =>
      rw [history_of_queueEvent rfl]
      cases event with
      | enqueue operation notified => rfl
      | _ => rfl
  | execute worker operation returned => rfl
  | close =>
      cases closing : before.close with
      | stop =>
          have stops : before.queueEvent? .close = some .stop := by
            simp only [AsyncPool.queueEvent?, closing]
          rw [history_of_queueEvent stops]
          rfl
      | notifyAll =>
          have notifies : before.queueEvent? .close = some .notifyAll := by
            simp only [AsyncPool.queueEvent?, closing]
          rw [history_of_queueEvent notifies]
          rfl
      | delete connection =>
          rw [history_of_none (by simp only [AsyncPool.queueEvent?, closing])]
          rfl

/-- A step of the pool that takes what it enqueues for an upload from the outbox. -/
theorem Flow.poolStep {event : PoolEvent Operation} {query : List StdString}
    {outbox : List StdString} {entry : PipelineEntry}
    (flow : Flow config connections trace state batches rows poolTrace)
    (stepped : Pipeline.poolStep connections { state with outbox } event = some (next, ()))
    (split : state.outbox = query ++ outbox)
    (enqueues : (match event with
      | .queue (.enqueue operation _) => [operation]
      | _ => []).filterMap Operation.uploaded? = query)
    (silent : pushedIn [entry] = []) :
    ∃ batches rows poolTrace, Flow config connections (trace ++ [entry]) next batches rows
      poolTrace := by
  rcases poolStep_eq_some stepped with ⟨pool, returned, moves, rfl⟩
  refine ⟨batches, rows, _, flow.pooled.extend moves, ?_, flow.sized, flow.building,
    flow.nonempty, ?_⟩
  · rw [history_append, enqueued_append, enqueued_history, List.filterMap_append, enqueues,
      List.append_assoc, ← split]
    exact flow.batched
  · rw [pushedIn_concat, silent, List.append_nil]
    exact flow.conserved

theorem Flow.step (bulk : 1 ≤ config.bulkCount.toNat) {entry : PipelineEntry}
    (flow : Flow config connections trace entry.before batches rows poolTrace)
    (moves : Pipeline.step config connections entry.before entry.event =
      some (entry.after, entry.output)) :
    ∃ batches rows poolTrace, Flow config connections (trace ++ [entry]) entry.after batches rows
      poolTrace := by
  rcases entry with ⟨before, event, ⟨⟩, after⟩
  dsimp only at flow moves
  cases event with
  | push share =>
      simp only [Pipeline.step, Option.some.injEq, Prod.mk.injEq, and_true] at moves
      subst moves
      refine ⟨batches, rows, poolTrace, flow.pooled, flow.batched, flow.sized, flow.building,
        by simp, ?_⟩
      rw [pushedIn_concat, ← flow.conserved]
      simp [pushedIn]
  | expire =>
      simp only [Pipeline.step, Option.ite_none_right_eq_some, Option.some.injEq, Prod.mk.injEq,
        and_true] at moves
      rcases moves with ⟨⟨_, ended⟩, rfl⟩
      have building := flow.building
      have conserved := flow.conserved
      rw [ended] at building
      cases building
      refine ⟨batches, [], poolTrace, flow.pooled, flow.batched, flow.sized, .logSize,
        False.elim, ?_⟩
      rw [pushedIn_concat]
      simpa [pushedIn] using conserved
  | upload =>
      simp only [Pipeline.step, Option.ite_none_right_eq_some, Option.bind_eq_bind,
        Option.bind_eq_some_iff] at moves
      rcases moves with ⟨free, ⟨uploads, outbox⟩, uploaded, moves⟩
      simp only [Option.pure_def, Option.some.injEq, Prod.mk.injEq, and_true] at moves
      subst moves
      rcases accounts_of_uploadStep bulk flow.accounts uploaded with
        ⟨added, rest, rfl, sized, building, moved, nonempty⟩
      refine ⟨batches ++ added, rest, poolTrace, flow.pooled, ?_, ?_, building, nonempty, ?_⟩
      · have batched := flow.batched
        rw [free, List.append_nil] at batched
        rw [batched, List.map_append]
      · rw [List.forall_mem_append]
        exact ⟨flow.sized, sized⟩
      · have conserved := flow.conserved
        rw [List.append_assoc, ← moved] at conserved
        rw [pushedIn_concat, ← conserved]
        simp [pushedIn]
  | executeAsync notified =>
      simp only [Pipeline.step] at moves
      split at moves
      · cases moves
      · rename_i query outbox outboxEq
        exact flow.poolStep moves (outboxEq.trans rfl : _ = [query] ++ outbox) rfl rfl
  | enqueue query notified => exact flow.poolStep moves (List.nil_append _).symm rfl rfl
  | pool event =>
      simp only [Pipeline.step, Option.ite_none_left_eq_some] at moves
      refine flow.poolStep moves.2 (List.nil_append _).symm ?_ rfl
      split
      · exact absurd trivial moves.1
      · rfl

theorem exists_flow (bulk : 1 ≤ config.bulkCount.toNat)
    (run : PipelineRun config connections trace state) :
    ∃ batches rows poolTrace, Flow config connections trace state batches rows poolTrace := by
  refine run.invariant (fun trace state =>
    ∃ batches rows poolTrace, Flow config connections trace state batches rows poolTrace)
    (fun _ => True) (fun _ _ => trivial) ⟨[], [], [], .nil, rfl, ?_, .returned, ?_, rfl⟩ ?_
  · simp
  · exact False.elim
  · rintro trace entry ⟨batches, rows, poolTrace, flow⟩ _ moves
    exact flow.step bulk moves

/-- Nothing is on its way to the database. -/
structure Pipeline.Idle (state : Pipeline) : Prop where
  ended : state.uploads.point = .returned
  outbox : state.outbox = []
  queue : state.pool.queue.queue = []
  executing : state.pool.executing = []

/--
However uploads, pushes, other operations, the workers and `Close` interleave: the pushed shares
are those of the batches, of the query that is being built and of the deque, in their order; the
queries of the batches are those that were handed out, in the order of the queue, those in the
queue and the one about to enter it; and what was handed out is being executed or was executed,
once. When nothing is on its way, every share that is not in the deque is in one query that was
executed.
-/
theorem shares_accounted (bulk : 1 ≤ config.bulkCount.toNat)
    (run : PipelineRun config connections trace state) :
    ∃ (batches : List (List Share)) (rows : List Share) (given : List Operation),
      (∀ batch ∈ batches, 1 ≤ batch.length ∧ batch.length ≤ config.bulkCount.toNat) ∧
      Building config state.uploads.point rows ∧
      batches.flatten ++ rows ++ state.uploads.datastore = pushedIn trace ∧
      (given ++ state.pool.queue.queue).filterMap Operation.uploaded? ++ state.outbox =
        batches.map insertText ∧
      given.Perm (state.pool.executed.map Prod.fst ++ state.pool.executing.map Prod.snd) ∧
      (state.Idle → rows = [] ∧
        ((state.pool.executed.map Prod.fst).filterMap Operation.uploaded?).Perm
          (batches.map insertText)) := by
  rcases exists_flow bulk run with ⟨batches, rows, poolTrace, flow⟩
  have batched := flow.batched
  have given := handed_perm flow.pooled
  rw [← handed_append_queue (queueRun_history flow.pooled)] at batched
  refine ⟨batches, rows, handed (history poolTrace), flow.sized, flow.building, flow.conserved,
    batched, given, ?_⟩
  intro idle
  have building := flow.building
  rw [idle.ended] at building
  rw [idle.executing, List.map_nil, List.append_nil] at given
  rw [idle.queue, idle.outbox, List.append_nil, List.append_nil] at batched
  cases building
  rw [← batched]
  exact ⟨rfl, (given.filterMap _).symm⟩

/-! ## Draining -/

/-- Bounds the steps that are left while nothing comes in. -/
def remaining (state : Pipeline) : ℕ :=
  9 * work state.uploads + 8 * state.outbox.length + state.pool.remaining

/-- The steps that bring nothing new. -/
inductive PipelineEvent.Inward (outcome : Operation → Bool) : PipelineEvent → Prop where
  | upload : Inward outcome .upload
  | executeAsync (notified : ℕ) : Inward outcome (.executeAsync notified)
  | pool {event : PoolEvent Operation} (inward : event.Inward outcome) :
      Inward outcome (.pool event)

/-- An upload that has returned left few shares. -/
def Pipeline.Few (config : UploadConfig) (state : Pipeline) : Prop :=
  state.uploads.point = .returned → state.uploads.datastore.length ≤ config.minCount.toNat

/-- A step that leads closer to the end. -/
structure Nears (config : UploadConfig) (connections : ℕ) (outcome : Operation → Bool)
    (state : Pipeline) (event : PipelineEvent) (next : Pipeline) : Prop where
  inward : event.Inward outcome
  moves : Pipeline.step config connections state event = some (next, ())
  less : remaining next < remaining state
  few : state.Few config → next.Few config
  running : next.pool.queue.endQueue = state.pool.queue.endQueue

section Nearing

variable {outcome : Operation → Bool}

theorem nears_of_serves {event : PoolEvent Operation} {pool : AsyncPool Operation}
    (serves : Serves connections outcome state.pool event pool) :
    Nears config connections outcome state (.pool event) { state with pool } := by
  have inside : ¬Pipeline.Enqueues event := by
    cases serves.inward with
    | _ => exact id
  rcases serves.moves with ⟨returned, moves⟩
  refine ⟨.pool serves.inward, ?_, Nat.add_lt_add_left serves.less _, id, serves.running⟩
  rw [Pipeline.step, if_neg inside, Pipeline.poolStep, moves]
  rfl

theorem exists_executeAsync {query : StdString} {outbox : List StdString}
    (free : state.pool.queue.holder = none) (waits : state.outbox = query :: outbox) :
    ∃ event next, Nears config connections outcome state event next := by
  have someone : ∃ notified, state.pool.queue.waiting = [] ∨
      notified ∈ state.pool.queue.waiting := by
    cases state.pool.queue.waiting with
    | nil => exact ⟨0, .inl rfl⟩
    | cons worker waiting => exact ⟨worker, .inr List.mem_cons_self⟩
  rcases someone with ⟨notified, notifies⟩
  have enters : state.pool.queue.step (.enqueue (.upload query) notified) =
      some ({ state.pool.queue with
        queue := state.pool.queue.queue ++ [.upload query]
        waiting := state.pool.queue.waiting.erase notified }, none) := by
    rw [SynchronisedQueue.step, if_pos ⟨free, notifies⟩]
  have admitted : state.pool.Admits connections (.enqueue (.upload query) notified) := trivial
  have moves : Pipeline.step config connections state (.executeAsync notified) =
      some ({ state with
        outbox := outbox
        pool := { state.pool with
          queue := { state.pool.queue with
            queue := state.pool.queue.queue ++ [.upload query]
            waiting := state.pool.queue.waiting.erase notified }
          executing := state.pool.executing ++ AsyncPool.taken none } }, ()) := by
    simp only [Pipeline.step, waits, Pipeline.poolStep]
    rw [poolStep_eq admitted enters]
    rfl
  refine ⟨_, _, .executeAsync notified, moves, ?_, id, rfl⟩
  rw [remaining, AsyncPool.remaining, ← Nat.add_assoc]
  apply lt_of_le_of_lt (Nat.add_le_add_left (attention_le _) _)
  simp only [remaining, AsyncPool.remaining, AsyncPool.taken, waits, List.length_append,
    List.length_cons, List.length_nil]
  omega

theorem length_executed {uploads before : State} {executed : List StdString}
    (uploaded : uploadStep config before = some (uploads, executed)) : executed.length ≤ 1 := by
  have loop : ∀ query i, (forLoop config query i).2.length ≤ 1 := by
    intro query i
    unfold forLoop
    split <;> simp
  rcases before with ⟨datastore, point⟩
  cases point with
  | logSize =>
      simp only [uploadStep, Option.some.injEq, Prod.mk.injEq] at uploaded
      simp [← uploaded.2]
  | loopSize =>
      simp only [uploadStep] at uploaded
      split at uploaded
      · simp only [Option.some.injEq, Prod.mk.injEq] at uploaded
        exact uploaded.2 ▸ loop _ _
      · simp only [Option.some.injEq, Prod.mk.injEq] at uploaded
        simp [← uploaded.2]
  | pop query i =>
      cases datastore with
      | nil => cases uploaded
      | cons share datastore =>
          simp only [uploadStep, Option.some.injEq, Prod.mk.injEq] at uploaded
          simp [← uploaded.2]
  | leftSize query i =>
      simp only [uploadStep] at uploaded
      split at uploaded
      · simp only [Option.some.injEq, Prod.mk.injEq] at uploaded
        simp [← uploaded.2]
      · simp only [Option.some.injEq, Prod.mk.injEq] at uploaded
        exact uploaded.2 ▸ loop _ _
  | returned => cases uploaded

theorem exists_upload (bulk : 1 ≤ config.bulkCount.toNat)
    (flow : Flow config connections trace state batches rows poolTrace)
    (free : state.outbox = []) (running : state.uploads.point ≠ .returned) :
    ∃ event next, Nears config connections outcome state event next := by
  have goesOn : ∃ uploads executed, uploadStep config state.uploads = some (uploads, executed) :=
    exists_uploadStep running flow.nonempty
  rcases goesOn with ⟨uploads, executed, uploaded⟩
  have moves : Pipeline.step config connections state .upload =
      some ({ state with uploads := uploads, outbox := executed }, ()) := by
    rw [Pipeline.step, if_pos free, uploaded]
    rfl
  refine ⟨_, _, .upload, moves, ?_, fun _ ended => length_of_returned uploaded ended, rfl⟩
  have less := work_of_uploadStep bulk uploaded
  have few := length_executed uploaded
  simp only [remaining, free, List.length_nil]
  omega

/-- Where something is on its way, some step brings it closer. -/
theorem exists_nears (bulk : 1 ≤ config.bulkCount.toNat) (someWorker : 0 < connections)
    (flow : Flow config connections trace state batches rows poolTrace)
    (unstopped : state.pool.queue.endQueue = false)
    (busy : ¬(state.Idle ∧ state.pool.queue.holder = none)) :
    ∃ event next, Nears config connections outcome state event next := by
  by_cases quiet : state.pool.queue.queue = [] ∧ state.pool.executing = [] ∧
      state.pool.queue.holder = none
  · rcases quiet with ⟨empty, executes, free⟩
    cases outboxEq : state.outbox with
    | cons query outbox => exact exists_executeAsync free outboxEq
    | nil =>
        apply exists_upload bulk flow outboxEq
        intro ended
        exact busy ⟨⟨ended, outboxEq, empty, executes⟩, free⟩
  · rcases exists_serves someWorker flow.pooled unstopped quiet with ⟨event, pool, serves⟩
    exact ⟨_, _, nears_of_serves serves⟩

theorem exists_idle (bulk : 1 ≤ config.bulkCount.toNat) (someWorker : 0 < connections)
    (run : PipelineRun config connections trace state)
    (unstopped : state.pool.queue.endQueue = false) :
    ∃ events later final,
      (∀ event ∈ events, PipelineEvent.Inward outcome event) ∧
      replay (Pipeline.step config connections) state events = some (later, final) ∧
      final.Idle ∧ final.pool.queue.endQueue = false ∧
      (state.Few config → final.Few config) := by
  generalize boundEq : remaining state = bound
  induction bound using Nat.strong_induction_on generalizing trace state with
  | _ bound ih =>
      by_cases quiet : state.Idle ∧ state.pool.queue.holder = none
      · exact ⟨[], [], state, by simp, rfl, quiet.1, unstopped, id⟩
      · rcases exists_flow bulk run with ⟨batches, rows, poolTrace, flow⟩
        have goesOn : ∃ event next, Nears config connections outcome state event next :=
          exists_nears bulk someWorker flow unstopped quiet
        rcases goesOn with ⟨event, next, nears⟩
        rcases ih (remaining next) (boundEq ▸ nears.less) (run.extend nears.moves)
          (nears.running.trans unstopped) rfl with
          ⟨events, later, final, inward, replayed, idle, unstoppedLast, few⟩
        refine ⟨event :: events, ⟨state, event, (), next⟩ :: later, final,
          List.forall_mem_cons.mpr ⟨nears.inward, inward⟩, ?_, idle, unstoppedLast,
          fun fewNow => few (nears.few fewNow)⟩
        rw [replay, nears.moves]
        simp only [replayed, Option.map_some]

end Nearing

/--
Before `Stop`, nothing gets stuck: from every state that a run reaches, wherever the upload and
the workers are and whatever the queries return, the pool can go on without new shares, without
other operations and without a spurious wake-up until nothing is on its way, the timer expires
once, and what is left over of the shares are at most `ShareUploadMinCount`.
-/
theorem pipeline_drains (bulk : 1 ≤ config.bulkCount.toNat) (someWorker : 0 < connections)
    (run : PipelineRun config connections trace state)
    (unstopped : state.pool.queue.endQueue = false) (outcome : Operation → Bool) :
    ∃ events more later final,
      (∀ event ∈ events ++ more, PipelineEvent.Inward outcome event) ∧
      replay (Pipeline.step config connections) state (events ++ .expire :: more) =
        some (later, final) ∧
      final.Idle ∧ final.uploads.datastore.length ≤ config.minCount.toNat := by
  have flushes : ∃ events later middle, (∀ event ∈ events, PipelineEvent.Inward outcome event) ∧
      replay (Pipeline.step config connections) state events = some (later, middle) ∧
      middle.Idle ∧ middle.pool.queue.endQueue = false ∧
      (state.Few config → middle.Few config) :=
    exists_idle bulk someWorker run unstopped
  rcases flushes with ⟨events, earlier, middle, inward, replayed, idle, running, _⟩
  have expires : ∃ started, Pipeline.step config connections middle .expire =
      some (started, ()) ∧ started.pool = middle.pool ∧ started.uploads.point = .logSize := by
    have moves : Pipeline.step config connections middle .expire =
        some ({ middle with uploads := { middle.uploads with point := .logSize } }, ()) := by
      rw [Pipeline.step, if_pos ⟨idle.outbox, idle.ended⟩]
    exact ⟨_, moves, rfl, rfl⟩
  rcases expires with ⟨started, expires, poolEq, begins⟩
  have uploads : ∃ events later final, (∀ event ∈ events, PipelineEvent.Inward outcome event) ∧
      replay (Pipeline.step config connections) started events = some (later, final) ∧
      final.Idle ∧ final.pool.queue.endQueue = false ∧
      (started.Few config → final.Few config) :=
    exists_idle bulk someWorker ((run.append replayed).extend expires) (poolEq ▸ running)
  rcases uploads with ⟨more, later, final, inwardMore, replayedMore, idleLast, _, few⟩
  have whole : replay (Pipeline.step config connections) middle (.expire :: more) =
      some (⟨middle, .expire, (), started⟩ :: later, final) := by
    rw [replay, expires]
    simp only [replayedMore, Option.map_some]
  refine ⟨events, more, _, final, List.forall_mem_append.mpr ⟨inward, inwardMore⟩,
    replay_append replayed whole, idleLast, few (fun ended => ?_) idleLast.ended⟩
  rw [begins] at ended
  cases ended

/-! ## A sample run -/

namespace Sample

/-- Worker 0 waits; then three shares, an upload with queries of two rows, and the wait ends. -/
def pipelineEvents : List PipelineEvent :=
  [.pool (.queue (.dequeue 0)), .pool (.queue (.check 0)), .pool (.queue (.block 0)),
    .push share, .push share, .push share, .expire, .upload, .upload, .upload, .upload, .upload,
    .upload, .executeAsync 0, .enqueue [] 0, .pool (.queue (.wake 0)), .pool (.queue (.check 0)),
    .pool (.queue (.finish 0))]

theorem exists_pipelineRun :
    ∃ (trace : List PipelineEntry) (state : Pipeline),
      PipelineRun ⟨1, 2⟩ 1 trace state ∧ trace.map Entry.event = pipelineEvents ∧
      state.pool.executing.map Prod.fst = [0] ∧ state.pool.queue.endQueue = false := by
  have found : ∃ result ∈ replay (Pipeline.step ⟨1, 2⟩ 1) Pipeline.new pipelineEvents,
      result.2.pool.executing.map Prod.fst = [0] ∧ result.2.pool.queue.endQueue = false := by
    decide +kernel
  rcases found with ⟨⟨trace, state⟩, replayed, executing, unstopped⟩
  exact ⟨trace, state, .ofReplay replayed, map_event_replay replayed, executing, unstopped⟩

end Sample

theorem shares_accounted_sample :
    ∃ (trace : List PipelineEntry) (state : Pipeline),
      trace.map Entry.event = Sample.pipelineEvents ∧
      state.pool.executing.map Prod.fst = [0] ∧
      ∃ (batches : List (List Share)) (rows : List Share) (given : List Operation),
        Building ⟨1, 2⟩ state.uploads.point rows ∧
        batches.flatten ++ rows ++ state.uploads.datastore = pushedIn trace ∧
        given.Perm (state.pool.executed.map Prod.fst ++ state.pool.executing.map Prod.snd) := by
  rcases Sample.exists_pipelineRun with ⟨trace, state, run, events, executing, _⟩
  rcases shares_accounted (by decide) run with
    ⟨batches, rows, given, _, building, conserved, _, taken, _⟩
  exact ⟨trace, state, events, executing, batches, rows, given, building, conserved, taken⟩

theorem pipeline_drains_sample :
    ∃ (trace : List PipelineEntry) (state : Pipeline) (events more : List PipelineEvent)
      (later : List PipelineEntry) (final : Pipeline),
      trace.map Entry.event = Sample.pipelineEvents ∧
      replay (Pipeline.step ⟨1, 2⟩ 1) state (events ++ .expire :: more) = some (later, final) ∧
      final.Idle ∧ final.uploads.datastore.length ≤ 1 := by
  rcases Sample.exists_pipelineRun with ⟨trace, state, run, eventsEq, _, unstopped⟩
  rcases pipeline_drains (by decide) (by decide) run unstopped (fun _ => true) with
    ⟨events, more, later, final, _, replayed, idle, few⟩
  exact ⟨trace, state, events, more, later, final, eventsEq, replayed, idle, few⟩

end Poolserver.DataMgr
