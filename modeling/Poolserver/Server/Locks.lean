import Poolserver.Lib.Locking

/-!
# The mutexes of the server

What every function of the server does with mutexes: the regions in which it holds one, its
calls, its `try` blocks and the places where it may throw. Everything else is a branch that may
go either way and a loop that may go on for any number of rounds; work that is posted to the
`io_service` is done by the threads that run it, in any order.

Regions of a `lock_guard` or `unique_lock` end with their scope. Those between `lock()` and
`unlock()`, and between `GetSyncConnection` and `Unlock`, do not: an allocation that fails in one
leaves its mutex locked, and whether that may happen is a parameter. `boost::mutex` is not
recursive: a thread that asks for a mutex that it holds waits for itself.
-/

namespace Poolserver.Locks

open Locking

inductive Mutex where
  | blockCheck
  | blockTmpl
  | clients
  | bans
  | currentWork
  | extranonce
  | write (client : ℕ)
  | job (job : ℕ)
  | datastore
  | queue
  | connection (index : ℕ)
  | log
  deriving DecidableEq

/-- The options of `InitConfig`. -/
inductive Key where
  | version
  | help
  | config
  | serverThreads
  | miningAddress
  | bitcoinRPC
  | shareUploadMinCount
  | shareUploadBulkCount
  | shareUploadInterval
  | stratumHost
  | stratumRedirectHost
  | stratumPort
  | stratumBlockCheckTime
  | retargetInterval
  | retargetSharesThreshold
  | retargetTimeBuffer
  | retargetTimePerShare
  | retargetVariance
  | retargetStartingDiff
  | retargetMinDiff
  | retargetMaxDiff
  | logConsoleLevel
  | logConsoleDebugMask
  | logFilePath
  | logFileLevel
  | logFileDebugMask
  | databaseDriver
  | mySQLHost
  | mySQLPort
  | mySQLUser
  | mySQLPass
  | mySQLDatabase
  | mySQLSyncThreads
  | mySQLAsyncThreads
  deriving DecidableEq

/-- The options of the database, which are there if the server is built `WITH_MYSQL`. -/
def Key.ofDatabase : List Key :=
  [.databaseDriver, .mySQLHost, .mySQLPort, .mySQLUser, .mySQLPass, .mySQLDatabase,
    .mySQLSyncThreads, .mySQLAsyncThreads]

/-- The options that are declared with a `default_value`. -/
def Key.defaulted (withMySQL : Bool) (key : Key) : Bool :=
  key ∉ [.version, .help, .miningAddress, .bitcoinRPC] && (withMySQL || key ∉ Key.ofDatabase)

/-- The options that `Log::Write` reads while it holds its mutex. -/
def Key.ofLog : List Key :=
  [.logConsoleLevel, .logFileLevel, .logConsoleDebugMask, .logFileDebugMask]

/-- A configuration in which the options of the log have values; without one of them `Log::Write`
would report it to the log that it has locked. -/
structure VariablesMap where
  has : Key → Bool
  logs : ∀ key ∈ Key.ofLog, has key = true

/-- `InitConfig`, which stores what is given and the defaults of the rest. -/
def initConfig (withMySQL : Bool) (given : Key → Bool) : VariablesMap where
  has key := given key || key.defaulted withMySQL
  logs := by
    have defaults : ∀ key ∈ Key.ofLog, key.defaulted withMySQL = true := by
      cases withMySQL <;> decide
    intro key keyMem
    rw [defaults key keyMem, Bool.or_true]

inductive LogLevel where
  | error
  | warn
  | info
  | debug
  deriving DecidableEq

inductive Procedure where
  | get (key : Key)
  | logWrite (level : LogLevel)
  | rpcConnect
  | rpcQuery
  | connect
  | updateBlockTemplate
  | submitBlock
  | blockCheck
  | blockCheckTimerExpired
  | blockNotifyTimerExpired
  | blockNotifySend
  | createCoinbaseTX
  | buildMerkleTree
  | serverStart
  | startAccept
  | onAccept
  | blockNotify
  | sendBlockTmpl
  | disconnect
  | serverBan
  | isBanned
  | getExtranonce
  | getWork
  | clientStart
  | sendMessage (client : ℕ)
  | sendJob (client : ℕ)
  | getJob
  | setDifficulty (client : ℕ)
  | clientBan
  | redirectGetwork
  | onMiningSubmit (client job : ℕ)
  | onMiningSubscribe (client : ℕ)
  | onMiningAuthorize (client : ℕ)
  | onMessage (client : ℕ)
  | onReceive (client : ℕ)
  | onSend
  | limiterSubmit (client : ℕ)
  | submitShare (job : ℕ)
  | push
  | pop
  | size
  | upload
  | uploadTimerExpired
  | enqueue
  | dequeue
  | openConnection
  | handleMySQLErrno
  | connectionQuery
  | escape
  | poolQuery
  | executeAsync
  | poolOpen
  | work
  | initDatabase
  | ioService
  | workerThread
  | run
  | main

abbrev Program := Code Mutex Procedure

def error : Program := .call (.logWrite .error)

def warn : Program := .call (.logWrite .warn)

def info : Program := .call (.logWrite .info)

def debug : Program := .call (.logWrite .debug)

def get (key : Key) : Program := .call (.get key)

@[simp]
def mayFail : Program := .oneOf [.fails, .skip]

@[simp]
def maybe (program : Program) : Program := .oneOf [program, .skip]

/-- Between `lock()` and `unlock()`, what allocates memory. -/
@[simp]
def allocates (exhausted : Bool) : Program := if exhausted then mayFail else .skip

/-- `GetSyncConnection`, which tries the connections in turn until one can be locked, up to the
`Unlock` of its caller. -/
@[simp]
def synchronously (connections : ℕ) (program : Program) : Program :=
  .acquire false (fun i => .connection (i % connections)) program

/-- The functions of the server; with `exhausted`, allocations between `lock()` and `unlock()` may
fail. -/
def body (vm : VariablesMap) (exhausted : Bool) (connections : ℕ) : Procedure → Program
  -- `Config::Get`, which logs an error when the option has no value
  | .get key => if vm.has key then .skip else error
  -- `Log::Write`
  | .logWrite level => .locked .log <| .block [
      get .logConsoleLevel,
      if level = .debug then maybe (get .logConsoleDebugMask) else .skip,
      get .logFileLevel,
      if level = .debug then maybe (get .logFileDebugMask) else .skip]
  -- `JSONRPC`
  | .rpcConnect => .block [debug, mayFail]
  | .rpcQuery => .block [debug, mayFail, debug, mayFail]
  -- `NetworkMgr`
  | .connect => .block [.call .rpcConnect, .call .rpcQuery, mayFail, info, maybe (.call .blockCheck)]
  | .updateBlockTemplate => .locked .blockTmpl <| .repeats <| .guarded
      (.block [
        .call .rpcQuery, mayFail,
        maybe (.block [
          mayFail, get .miningAddress, mayFail, .call .createCoinbaseTX, mayFail,
          .call .buildMerkleTree, info])])
      error
  | .submitBlock => .repeats <| .guarded
      (.block [
        .call .rpcQuery,
        .oneOf [.block [info, .call .blockCheck], .block [mayFail, error]]])
      error
  | .blockCheck => .locked .blockCheck <| .repeats <| .guarded
      (.block [
        .call .rpcQuery, mayFail,
        maybe (.block [debug, .call .updateBlockTemplate, .call .blockNotifySend])])
      error
  | .blockCheckTimerExpired => .call .blockCheck
  | .blockNotifyTimerExpired =>
      .block [debug, .call .updateBlockTemplate, .call .blockNotifySend]
  -- posts to the `io_service`
  | .blockNotifySend => .skip
  | .createCoinbaseTX => mayFail
  | .buildMerkleTree => .skip
  -- `Stratum::Server`
  | .serverStart => .block [mayFail, .call .startAccept, info]
  | .startAccept => .block [get .retargetStartingDiff, get .retargetMinDiff]
  | .onAccept => .block [
      .oneOf [
        .block [.call .clientStart, maybe (.block [.between .clients (allocates exhausted), info])],
        debug],
      .call .startAccept]
  | .blockNotify => .block [debug, .between .currentWork .skip, .call .sendBlockTmpl]
  | .sendBlockTmpl => .locked .clients .skip
  | .disconnect => .block [.between .clients .skip, info]
  | .serverBan => .between .bans (allocates exhausted)
  | .isBanned => .locked .bans .skip
  | .getExtranonce => .locked .extranonce .skip
  | .getWork => .locked .currentWork .skip
  -- `Stratum::Client`
  | .clientStart => .guarded
      (.block [mayFail, .call .isBanned, maybe (.block [warn, .call .disconnect])])
      error
  | .sendMessage client => .locked (.write client) debug
  | .sendJob client => .block [.call .getJob, mayFail, .call (.sendMessage client)]
  | .getJob => .block [.call .getWork, mayFail]
  | .setDifficulty client =>
      maybe (.block [.call (.sendMessage client), maybe (.call (.sendJob client))])
  | .clientBan => .block [.call .serverBan, .call .disconnect]
  | .redirectGetwork => .block [info, get .stratumRedirectHost, get .stratumPort]
  | .onMiningSubmit client job => .block [
      mayFail,
      .oneOf [
        -- the worker is not authenticated
        .block [warn, .call (.sendMessage client)],
        -- there is no such job
        .block [.call .push, .call (.sendMessage client)],
        .block [
          .call (.limiterSubmit client),
          .oneOf [
            .call (.sendMessage client),
            .block [
              mayFail,
              .oneOf [
                -- a field has the wrong size
                .block [warn, .call (.sendMessage client)],
                .block [
                  debug, .call (.submitShare job),
                  .oneOf [
                    .block [warn, .call .push, .call (.sendMessage client)],
                    .block [
                      mayFail,
                      .oneOf [
                        .block [warn, .call .push, .call (.sendMessage client)],
                        .block [
                          info, .call .submitBlock,
                          maybe (.block [.call .executeAsync, .call (.sendMessage client)])],
                        .block [.call .push, .call (.sendMessage client)]]]]]]]]]]]
  | .onMiningSubscribe client =>
      .block [.call .getExtranonce, .call (.sendMessage client), .call (.sendJob client)]
  | .onMiningAuthorize client => .block [
      mayFail, .call .escape, .call .escape, .call .poolQuery,
      .oneOf [
        .block [
          mayFail, maybe (.call (.setDifficulty client)), .call (.sendMessage client)],
        .call (.sendMessage client)]]
  | .onMessage client => .block [
      mayFail, debug,
      .oneOf [
        .choose fun job => .call (.onMiningSubmit client job),
        .call (.onMiningSubscribe client),
        .call (.onMiningAuthorize client),
        debug]]
  | .onReceive client => .block [
      .repeats <| .block [
        debug,
        maybe (.call .redirectGetwork),
        .guarded (.block [mayFail, .call (.onMessage client)]) debug],
      maybe (.call .disconnect)]
  | .onSend => maybe (.call .disconnect)
  -- `ShareLimiter`
  | .limiterSubmit client => .block [
      get .retargetInterval, maybe (get .retargetSharesThreshold),
      maybe <| .oneOf [
        .call .clientBan,
        .block [
          .repeats (get .retargetTimeBuffer), get .retargetTimeBuffer, get .retargetTimePerShare,
          get .retargetMinDiff, maybe (get .retargetMinDiff),
          get .retargetMaxDiff, maybe (get .retargetMaxDiff),
          debug, get .retargetVariance,
          .oneOf [
            .skip,
            .block [.call (.setDifficulty client), .call (.sendJob client)],
            .call (.setDifficulty client)]]]]
  -- `Job`
  | .submitShare job => .locked (.job job) .skip
  -- `DataMgr`
  | .push => .locked .datastore .skip
  | .pop => .locked .datastore .skip
  | .size => .locked .datastore .skip
  | .upload => .block [
      .call .size, info, get .shareUploadBulkCount,
      .repeats <| .block [
        .call .size, get .shareUploadMinCount,
        .repeats (.block [.call .pop, .call .size]),
        debug, .call .executeAsync],
      .call .size, get .shareUploadMinCount]
  | .uploadTimerExpired => .block [.call .upload, get .shareUploadInterval]
  -- `SynchronisedQueue`; while `Dequeue` waits to be notified, the mutex is not held
  | .enqueue => .locked .queue .skip
  | .dequeue => .block [.locked .queue .skip, .repeats (.locked .queue .skip)]
  -- `DatabaseConnection`
  | .openConnection => .oneOf [.fails, info]
  | .handleMySQLErrno =>
      .oneOf [.guarded (.call .openConnection) (.block [error, .call .handleMySQLErrno]), error]
  | .connectionQuery =>
      .block [debug, maybe (.block [error, .call .handleMySQLErrno, maybe (.call .connectionQuery)])]
  -- `DatabaseWorkerPool`
  | .escape => synchronously connections (allocates exhausted)
  | .poolQuery =>
      synchronously connections (.block [.call .connectionQuery, allocates exhausted])
  | .executeAsync => .call .enqueue
  | .poolOpen => .block [
      info, .repeats (.call .openConnection), .oneOf [info, error],
      .repeats (.oneOf [debug, .block [error, error, error]])]
  -- `DatabaseWorker`
  | .work => .block [
      debug, .repeats (.block [.call .dequeue, debug, .call .connectionQuery, debug]),
      .call .dequeue, debug]
  -- `Server`
  | .initDatabase => .block [
      get .databaseDriver,
      .oneOf [
        .block [get .mySQLHost, get .mySQLPort, get .mySQLUser, get .mySQLPass, get .mySQLDatabase,
          get .mySQLSyncThreads, get .mySQLAsyncThreads, .call .poolOpen],
        .block [get .databaseDriver, error]]]
  | .ioService => .repeats <| .choose fun client => .oneOf [
      .call .blockCheckTimerExpired, .call .blockNotifyTimerExpired, .call .uploadTimerExpired,
      .call .blockNotify, .call .onAccept, .call (.onReceive client), .call .onSend,
      .call (.sendJob client),
      -- `~Client`, after the last handler that refers to the client
      info]
  | .workerThread => .block [
      info, .repeats (.guarded (.call .ioService) error), maybe error, info]
  | .run => .block [
      info, .call .initDatabase, get .shareUploadInterval, get .bitcoinRPC,
      .repeats (.block [mayFail, .call .connect]),
      .call .blockNotify, get .stratumPort, .call .serverStart, .repeats (get .serverThreads)]
  -- `InitConfig` and `main`
  | .main => .block [
      mayFail, get .config,
      .oneOf [.block [get .config, error], .block [get .config, info, mayFail]],
      get .logFilePath, info, .call .run]

/-- The threads of the server. -/
inductive Role where
  | main
  | server
  | database

def Role.entryPoint : Role → Procedure
  | .main => .main
  | .server => .workerThread
  | .database => .work

/-! ## The discipline -/

/-- The order in which mutexes are taken. -/
@[simp]
def rank : Mutex → ℕ
  | .blockCheck => 0
  | .blockTmpl => 1
  | .log => 3
  | _ => 2

/-- The least rank of the mutexes that a function takes; those with a zero are called while no
mutex is held. -/
@[simp]
def entry (vm : VariablesMap) : Procedure → ℕ
  | .get key => if vm.has key then 4 else 3
  | .logWrite _ => 3
  | .rpcQuery => 3
  | .openConnection => 3
  | .handleMySQLErrno => 3
  | .connectionQuery => 3
  | .updateBlockTemplate => 1
  | .blockNotifySend => 4
  | .createCoinbaseTX => 4
  | .buildMerkleTree => 4
  | _ => 0

/-- The functions that let no exception out although what they call may throw. -/
@[simp]
def quiet : Procedure → Prop
  | .get _ => True
  | .logWrite _ => True
  | .handleMySQLErrno => True
  | .connectionQuery => True
  | _ => False

/-- The mutexes that a failing allocation leaves locked. -/
@[simp]
def spills (exhausted : Bool) : Mutex → Prop
  | .clients => exhausted = true
  | .bans => exhausted = true
  | .connection _ => exhausted = true
  | _ => False

section Logging

variable {vm : VariablesMap} {floor : ℕ}

@[simp]
theorem above_error : error.Above rank (entry vm) floor ↔ floor ≤ 3 := Iff.rfl

@[simp]
theorem above_warn : warn.Above rank (entry vm) floor ↔ floor ≤ 3 := Iff.rfl

@[simp]
theorem above_info : info.Above rank (entry vm) floor ↔ floor ≤ 3 := Iff.rfl

@[simp]
theorem above_debug : debug.Above rank (entry vm) floor ↔ floor ≤ 3 := Iff.rfl

/-- An option without a value is logged. -/
theorem above_get {key : Key} (low : floor ≤ 3) : (get key).Above rank (entry vm) floor := by
  simp only [get, Code.Above, entry]
  split
  · exact Nat.le_succ_of_le low
  · exact low

/-- The options of the log have values, so reading them does not lead back to the log. -/
theorem above_get_ofLog {key : Key} (ofLog : key ∈ Key.ofLog) :
    (get key).Above rank (entry vm) 4 := by
  simp [get, vm.logs key ofLog]

end Logging

variable (vm : VariablesMap) (exhausted : Bool) (connections : ℕ)

theorem above_allocates {floor : ℕ} : (allocates exhausted).Above rank (entry vm) floor := by
  cases exhausted <;> simp

theorem above_body (procedure : Procedure) :
    (body vm exhausted connections procedure).Above rank (entry vm) (entry vm procedure) := by
  cases procedure with
  | get key =>
      cases has : vm.has key <;> simp [body, has]
  | logWrite level =>
      have console := @above_get_ofLog vm .logConsoleLevel (by decide)
      have consoleMask := @above_get_ofLog vm .logConsoleDebugMask (by decide)
      have file := @above_get_ofLog vm .logFileLevel (by decide)
      have fileMask := @above_get_ofLog vm .logFileDebugMask (by decide)
      cases level <;> simp [body, console, consoleMask, file, fileMask]
  | onAccept => simp [body, above_allocates, -allocates]
  | serverBan => simp [body, above_allocates, -allocates]
  | escape => simp [body, above_allocates, -allocates]
  | poolQuery => simp [body, above_allocates, -allocates]
  | _ => simp [body, above_get]

theorem keepsQuiet_body (procedure : Procedure) (isQuiet : quiet procedure) :
    (body vm exhausted connections procedure).Quiet quiet := by
  cases procedure with
  | get key =>
      cases has : vm.has key <;> simp [body, has, error]
  | logWrite level => cases level <;> simp [body, get]
  | handleMySQLErrno => simp [body, error]
  | connectionQuery => simp [body, error, debug]
  | _ => cases isQuiet

theorem closed_body (procedure : Procedure) :
    (body vm exhausted connections procedure).Closed quiet (spills exhausted) := by
  cases procedure with
  | get key => cases has : vm.has key <;> simp [body, has, error]
  | logWrite level => cases level <;> simp [body, get]
  | onAccept => cases exhausted <;> simp [body, info, debug]
  | serverBan => cases exhausted <;> simp [body]
  | escape => cases exhausted <;> simp [body]
  | poolQuery => cases exhausted <;> simp [body]
  | _ => simp [body, error, warn, info, debug, get]

def discipline : Discipline (body vm exhausted connections) where
  rank := rank
  entry := entry vm
  quiet := quiet
  spills := spills exhausted
  above := above_body vm exhausted connections
  keepsQuiet := keepsQuiet_body vm exhausted connections
  closed := closed_body vm exhausted connections

theorem rank_le (lock : Mutex) : rank lock ≤ 3 := by
  cases lock <;> simp

/-! ## Runs of the server -/

section Runs

variable {ι : Type} {vm : VariablesMap} {exhausted : Bool} {connections : ℕ} {roles : ι → Role}
  {state : ι → Thread Mutex Procedure}

/-- The threads, each about to call its function. -/
def started (roles : ι → Role) (thread : ι) : Thread Mutex Procedure :=
  .start (.call (roles thread).entryPoint)

theorem keeps_of_run
    (reachable : Reachable (body vm exhausted connections) (started roles) state) :
    ∀ thread, (discipline vm exhausted connections).Keeps (state thread) :=
  Discipline.keeps_of_reachable reachable fun _ => Discipline.keeps_start

/-- In a region of a mutex, whatever a function takes that is called has a higher rank. -/
theorem lt_entry_of_call
    (reachable : Reachable (body vm exhausted connections) (started roles) state) {thread : ι}
    {scope : Bool} {lock : Mutex} (inFrames : .release scope lock ∈ (state thread).frames)
    {procedure : Procedure} (calls : (state thread).Calls procedure) :
    rank lock < entry vm procedure := by
  have keeps := keeps_of_run reachable thread
  rcases calls with ⟨rest, leaked, stateEq⟩
  rw [stateEq] at keeps inFrames
  have below : Frame.release scope lock ∈ rest := by
    simpa using inFrames
  have higher : (discipline vm exhausted connections).rank lock <
      (discipline vm exhausted connections).floor (.code (.call procedure) :: rest) :=
    Discipline.lt_floor (List.mem_cons_of_mem _ below)
  exact lt_of_lt_of_le higher keeps.ordered.1.above

end Runs

/--
While no allocation fails between `lock()` and `unlock()`, the server does not deadlock on its
mutexes: no thread asks for one that it holds, and whichever thread waits for a mutex waits for
one that can move.
-/
theorem deadlock_free {ι : Type} {withMySQL : Bool} {given : Key → Bool} {connections : ℕ}
    {roles : ι → Role} {state : ι → Thread Mutex Procedure}
    (reachable : Reachable (body (initConfig withMySQL given) false connections) (started roles)
      state) (thread : ι) :
    (∀ candidate, (state thread).Wants candidate → ∀ index,
      ¬(state thread).Holds (candidate index)) ∧
    (¬(state thread).Finished → ∃ mover, Relation.ReflTransGen (WaitsFor state) thread mover ∧
      CanMove (body (initConfig withMySQL given) false connections) state mover) := by
  have keeps := keeps_of_run reachable
  have kept : ∀ lock, ¬(discipline (initConfig withMySQL given) false connections).spills lock := by
    intro lock
    cases lock <;> simp [discipline]
  constructor
  · intro candidate wants index holds
    rcases (keeps thread).inFrames holds (kept _) with ⟨scope, inFrames⟩
    exact lt_irrefl _ ((keeps thread).lt_wanted inFrames wants index)
  · intro unfinished
    exact exists_mover keeps rank_le kept unfinished

/--
Whether functions return or throw, mutexes are released. An exception leaves one locked only
where an allocation fails between `lock()` and `unlock()`, and then it is that of the clients, of
the bans or of a synchronous connection. Any other mutex that is held is held by a thread that
has not finished, and of the functions above, only the log, the configuration, the daemon, the
query of a connection, the template update and what it consists of, and the posting of a
notification are called meanwhile.
-/
theorem mutexes_released {ι : Type} {withMySQL : Bool} {given : Key → Bool} {exhausted : Bool}
    {connections : ℕ} {roles : ι → Role} {state : ι → Thread Mutex Procedure}
    (reachable : Reachable (body (initConfig withMySQL given) exhausted connections)
      (started roles) state)
    {thread : ι} {lock : Mutex} (holds : (state thread).Holds lock) :
    (lock ∈ (state thread).leaked →
      exhausted = true ∧ (lock = .clients ∨ lock = .bans ∨ ∃ index, lock = .connection index)) ∧
    (lock ∉ (state thread).leaked →
      ¬(state thread).Finished ∧
        ∀ procedure, (state thread).Calls procedure →
          (∃ key, procedure = .get key) ∨ (∃ level, procedure = .logWrite level) ∨
          procedure ∈ [.rpcQuery, .connectionQuery, .handleMySQLErrno, .openConnection,
            .updateBlockTemplate, .createCoinbaseTX, .buildMerkleTree, .blockNotifySend]) := by
  constructor
  · intro leaked
    have spills := (keeps_of_run reachable thread).leaked lock leaked
    cases lock with
    | clients => exact ⟨spills, .inl rfl⟩
    | bans => exact ⟨spills, .inr (.inl rfl)⟩
    | connection index => exact ⟨spills, .inr (.inr ⟨index, rfl⟩)⟩
    | _ => cases spills
  · intro kept
    rcases holds.resolve_right kept with ⟨scope, inFrames⟩
    refine ⟨Thread.unfinished_of_mem inFrames, fun procedure calls => ?_⟩
    have higher := lt_entry_of_call reachable inFrames calls
    cases procedure with
    | get key => exact .inl ⟨key, rfl⟩
    | logWrite level => exact .inr (.inl ⟨level, rfl⟩)
    | rpcQuery => exact .inr (.inr (by simp))
    | connectionQuery => exact .inr (.inr (by simp))
    | handleMySQLErrno => exact .inr (.inr (by simp))
    | openConnection => exact .inr (.inr (by simp))
    | updateBlockTemplate => exact .inr (.inr (by simp))
    | createCoinbaseTX => exact .inr (.inr (by simp))
    | buildMerkleTree => exact .inr (.inr (by simp))
    | blockNotifySend => exact .inr (.inr (by simp))
    | _ => exact absurd higher (Nat.not_lt_zero _)

/-! ## A sample run -/

namespace Sample

/-- A server thread and a database worker. -/
def roles : Bool → Role
  | false => .server
  | true => .database

/-- The options that the sample configuration file gives. -/
def given (_ : Key) : Bool :=
  true

/-- The server thread has taken the mutex of the log, and the worker asks for it. -/
theorem exists_waiting (exhausted : Bool) : ∃ state,
    Reachable (body (initConfig true given) exhausted 2) (started roles) state ∧
      (state false).Holds .log ∧ WaitsFor state true false := by
  have reachable : Reachable (body (initConfig true given) exhausted 2) (started roles) (started roles) :=
    .refl
  have reachable := reachable.move true rfl .call
  have reachable := reachable.move true rfl .seq
  have reachable := reachable.move true rfl .call
  have reachable := reachable.move false rfl .call
  have reachable := reachable.move false rfl .seq
  have reachable := reachable.move false rfl .call
  have reachable := reachable.move false rfl (.acquire 0 ?_)
  · refine ⟨_, reachable, ?_, fun _ => .log, ?_, ?_, 0, ?_⟩
    · exact .inl ⟨true, by simp⟩
    · exact ⟨_, _, _, _, rfl⟩
    · intro index
      exact ⟨false, .inl ⟨true, by simp⟩⟩
    · exact .inl ⟨true, by simp⟩
  · rintro ⟨thread, ⟨scope, inFrames⟩ | inLeaked⟩
    · cases thread <;> simp at inFrames
    · cases thread <;> simp at inLeaked

end Sample

theorem deadlock_free_sample :
    ∃ state, Reachable (body (initConfig true Sample.given) false 2) (started Sample.roles) state ∧
      WaitsFor state true false ∧
      ∃ mover, Relation.ReflTransGen (WaitsFor state) true mover ∧
        CanMove (body (initConfig true Sample.given) false 2) state mover := by
  rcases Sample.exists_waiting false with ⟨state, reachable, _, waitsFor⟩
  have unfinished : ¬(state true).Finished := by
    rcases waitsFor with ⟨_, ⟨scope, inside, rest, leaked, stateEq⟩, _⟩
    intro finished
    rw [stateEq] at finished
    cases finished
  exact ⟨state, reachable, waitsFor, (deadlock_free reachable true).2 unfinished⟩

theorem mutexes_released_sample :
    ∃ state, Reachable (body (initConfig true Sample.given) true 2) (started Sample.roles) state ∧
      (state false).Holds .log ∧ .log ∉ (state false).leaked ∧ ¬(state false).Finished := by
  rcases Sample.exists_waiting true with ⟨state, reachable, holds, _⟩
  have released := mutexes_released reachable holds
  have kept : .log ∉ (state false).leaked := by
    intro leaked
    simpa using (released.1 leaked).2
  exact ⟨state, reachable, holds, kept, (released.2 kept).1⟩

end Poolserver.Locks
