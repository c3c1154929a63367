import Poolserver.Server.WorkFeed
import Poolserver.Stratum.JobCalls
import Poolserver.Stratum.Server

/-!
# The pool from its start-up

The network manager, the stratum server and its clients together. `Run` connects to the
daemons, constructs the stratum server and only then starts the threads that accept clients
and execute handlers; what `Connect` does of interest is the check it makes with the first
daemon. The notifications of the network manager set the stratum server's work, to a null
pointer as long as no template has been stored.
-/

namespace Poolserver

open Poolserver.Bitcoin RunTrace

/-- `Server::BlockNotify`, which also posts a `SendJob` to every client. -/
def Stratum.Server.blockNotify (server : Stratum.Server) (notification : Notification) :
    Stratum.Server :=
  { server with
    currentWork := notification.tmpl.map Template.block
    posted := server.posted ++ server.connected.map fun id => (id, notification.newBlock) }

/-- With a template it is the step of the stratum server that takes a block. -/
theorem Stratum.Server.step_blockNotify {setting : Stratum.Setting} (server : Stratum.Server)
    (tmpl : Template) (newBlock : Bool) :
    server.step setting (.blockNotify tmpl.block newBlock) =
      some (server.blockNotify ⟨some tmpl, newBlock⟩, none) :=
  rfl

structure Pool where
  feed : WorkFeed
  stratum : Stratum.Server

namespace Pool

/-- What stays fixed while the pool runs. -/
structure Setting where
  network : NetworkMgr.Setting
  stratum : Stratum.Setting

def new : Pool where
  feed := .new
  stratum := .new

inductive Event where
  | feed (event : WorkFeed.Event)
  | accept (connection : Stratum.Connection)
  | receive (id : ℕ) (msg : JSON) (env : Stratum.Env)
  | runPosted (position : ℕ) (env : Stratum.Env)

variable (setting : Setting)

/-- The executed notification of a step reaches the stratum server. -/
def notified (server : Stratum.Server) : Option (ℕ × Notification) → Stratum.Server
  | none => server
  | some (_, notification) => server.blockNotify notification

/-- A step of the stratum server alone. -/
def serve (pool : Pool) (event : Stratum.Server.Event) : Option (Pool × Unit) := do
  let (stratum, _) ← pool.stratum.step setting.stratum event
  return ({ pool with stratum }, ())

def step (pool : Pool) : Event → Option (Pool × Unit)
  | .feed event => do
      let (feed, executed) ← pool.feed.step setting.network event
      return (⟨feed, notified pool.stratum executed⟩, ())
  | .accept connection =>
      if pool.feed.bound then pool.serve setting (.accept connection) else none
  | .receive id msg env => pool.serve setting (.receive id msg env)
  | .runPosted position env => pool.serve setting (.runPosted position env)

abbrev Entry := RunTrace.Entry Pool Event Unit

/-- The runs of the pool from its start-up. -/
abbrev Run : List Entry → Pool → Prop :=
  RunTrace.Run (step setting) new

/-- What a call of a client finds, as the stratum server is. -/
def surroundings (pool : Pool) (env : Stratum.Env) : Stratum.Env :=
  { env with work := pool.stratum.currentWork, extranonce := pool.stratum.extranonce }

/-- The event runs `GetJob`. -/
def GetsJob (pool : Pool) : Event → Prop
  | .feed _ => False
  | .accept _ => False
  | .receive id msg env => ∃ client, pool.stratum.clients[id]? = some client ∧
      client.GetsJob setting.stratum (pool.surroundings env) (.message msg)
  | .runPosted position env => ∃ id clean client,
      pool.stratum.posted[position]? = some (id, clean) ∧
      pool.stratum.clients[id]? = some client ∧
      client.GetsJob setting.stratum (pool.surroundings env) (.sendJob clean)

/-- Whatever runs `GetJob` now finds work. -/
def NeverNull (pool : Pool) : Prop :=
  ∀ event, pool.GetsJob setting event → pool.stratum.currentWork ≠ none

variable {setting} {pool next : Pool} {trace : List Entry} {last : Pool}

theorem call_of_null {server : Stratum.Server} {id : ℕ} {client : Stratum.Client}
    {action : Stratum.Action} {env : Stratum.Env} (isNull : server.currentWork = none)
    (clientAt : server.clients[id]? = some client)
    (gets : client.GetsJob setting.stratum
      { env with work := server.currentWork, extranonce := server.extranonce } action) :
    server.call setting.stratum id action env = none := by
  have undefined := Stratum.Client.step_of_null gets
  simp only [Stratum.Env.withWork] at undefined
  simp only [Stratum.Server.call, clientAt, isNull, undefined, Option.bind_eq_bind,
    Option.bind_some, Option.bind_none]

/-- `GetJob` without work is a null pointer dereferenced. -/
theorem step_of_null {event : Event} (gets : pool.GetsJob setting event)
    (isNull : pool.stratum.currentWork = none) : pool.step setting event = none := by
  cases event with
  | feed event => exact absurd gets id
  | accept connection => exact absurd gets id
  | receive id msg env =>
      rcases gets with ⟨client, clientAt, gets⟩
      simp only [step, serve, Stratum.Server.step, call_of_null isNull clientAt gets]
      rfl
  | runPosted position env =>
      rcases gets with ⟨id, clean, client, postedAt, clientAt, gets⟩
      let rest : Stratum.Server :=
        { pool.stratum with posted := pool.stratum.posted.eraseIdx position }
      have undefined : rest.call setting.stratum id (.sendJob clean) env = none :=
        call_of_null isNull clientAt gets
      simp only [step, serve, Stratum.Server.step, postedAt, Option.bind_eq_bind, Option.bind_some]
      simp only [rest] at undefined
      rw [undefined]
      rfl

/-! ## Work from the start-up on -/

/-- There is work, and all that may become the work is a template. -/
structure Fed (pool : Pool) : Prop where
  tmpl : pool.feed.tmpl ≠ none
  waiting : ∀ message ∈ pool.feed.box.waiting, message.2.tmpl ≠ none
  work : pool.stratum.currentWork ≠ none

theorem serve_eq_some {event : Stratum.Server.Event} {output : Unit}
    (notNotify : ∀ block newBlock, event ≠ .blockNotify block newBlock)
    (served : pool.serve setting event = some (next, output)) :
    next.feed = pool.feed ∧ next.stratum.currentWork = pool.stratum.currentWork := by
  simp only [serve, Option.bind_eq_bind, Option.bind_eq_some_iff] at served
  rcases served with ⟨⟨stratum, called⟩, stepped, served⟩
  simp only [Option.pure_def, Option.some.injEq, Prod.mk.injEq] at served
  rcases served with ⟨rfl, _⟩
  refine ⟨rfl, ?_⟩
  rcases Stratum.Server.step_cases stepped with ⟨_, _, _, _, _, _, work, _⟩ |
    ⟨_, _, _, _, work⟩ | ⟨_, block, newBlock, isNotify, _⟩
  · exact work
  · exact work
  · exact absurd isNotify (notNotify block newBlock)

theorem fed_of_serve {event : Stratum.Server.Event} {output : Unit} (fed : Fed pool)
    (notNotify : ∀ block newBlock, event ≠ .blockNotify block newBlock)
    (served : pool.serve setting event = some (next, output)) : Fed next := by
  rcases serve_eq_some notNotify served with ⟨feed, work⟩
  constructor
  · rw [feed]
    exact fed.tmpl
  · rw [feed]
    exact fed.waiting
  · rw [work]
    exact fed.work

theorem fed_of_turn {feed : WorkFeed} {executed : Option (ℕ × Notification)} (fed : Fed pool)
    (turn : WorkFeed.Turn pool.feed feed executed) : Fed ⟨feed, notified pool.stratum executed⟩ := by
  have posted : ∀ newBlock, ∀ message ∈ (pool.feed.box.post ⟨pool.feed.tmpl, newBlock⟩).waiting,
      message.2.tmpl ≠ none := by
    intro newBlock message messageMem
    simp only [Mailbox.post, List.mem_append, List.mem_singleton] at messageMem
    rcases messageMem with old | rfl
    · exact fed.waiting message old
    · exact fed.tmpl
  cases turn with
  | waits higher curBlockTmpl _ tmpl box work =>
      refine ⟨by rw [tmpl]; exact fed.tmpl, ?_, fed.work⟩
      rw [box]
      exact fed.waiting
  | stores daemon block mgr _ tmpl box work =>
      refine ⟨by simp [tmpl], ?_, fed.work⟩
      rw [box]
      exact fed.waiting
  | posts newBlock mgr _ tmpl box work =>
      refine ⟨by rw [tmpl]; exact fed.tmpl, ?_, fed.work⟩
      rw [box]
      exact posted newBlock
  | @executes message opened position mgr tmpl opens takes work =>
      have openedWaiting : ∀ message ∈ opened.waiting, message.2.tmpl ≠ none := by
        rcases opens with ⟨rfl, _⟩ | ⟨rfl, _⟩
        · exact fed.waiting
        · exact posted true
      rcases Mailbox.take_eq_some takes with ⟨messageAt, box⟩
      refine ⟨by rw [tmpl]; exact fed.tmpl, ?_, ?_⟩
      · intro other otherMem
        rw [box] at otherMem
        exact openedWaiting other (List.mem_of_mem_eraseIdx otherMem)
      · have isTemplate := openedWaiting message (List.mem_of_getElem? messageAt)
        simpa [notified, Stratum.Server.blockNotify] using isTemplate

theorem fed_of_step {event : Event} {output : Unit} (fed : Fed pool)
    (stepped : pool.step setting event = some (next, output)) : Fed next := by
  cases event with
  | feed event =>
      simp only [step, Option.bind_eq_bind, Option.bind_eq_some_iff] at stepped
      rcases stepped with ⟨⟨feed, executed⟩, fedStep, stepped⟩
      simp only [Option.pure_def, Option.some.injEq, Prod.mk.injEq] at stepped
      rcases stepped with ⟨rfl, _⟩
      exact fed_of_turn fed (WorkFeed.turn_of_step fedStep)
  | accept connection =>
      simp only [step] at stepped
      split at stepped
      · exact fed_of_serve fed (by simp) stepped
      · cases stepped
  | receive id msg env => exact fed_of_serve fed (by simp) stepped
  | runPosted position env => exact fed_of_serve fed (by simp) stepped

theorem neverNull_of_fed {start : Pool} (fed : Fed start)
    (run : RunTrace.Run (step setting) start trace last) : NeverNull setting last := by
  have stillFed : Fed last := by
    refine run.invariant (fun _ last => Fed last) (fun _ => True) (fun _ _ => trivial) fed ?_
    exact fun _ _ fed _ stepped => fed_of_step fed stepped
  exact fun _ _ => stillFed.work

/-- The network manager of a pool runs by itself. -/
theorem feedRun_of_run (run : Run setting trace last) :
    ∃ feedTrace, WorkFeed.Run setting.network feedTrace last.feed := by
  refine run.invariant (fun _ last => ∃ feedTrace, WorkFeed.Run setting.network feedTrace last.feed)
    (fun _ => True) (fun _ _ => trivial) ⟨[], .nil⟩ ?_
  intro trace entry held _ stepped
  rcases held with ⟨feedTrace, feedRun⟩
  cases eventEq : entry.event with
  | feed event =>
      simp only [step, eventEq, Option.bind_eq_bind, Option.bind_eq_some_iff] at stepped
      rcases stepped with ⟨⟨feed, executed⟩, fedStep, stepped⟩
      simp only [Option.pure_def, Option.some.injEq, Prod.mk.injEq] at stepped
      rw [← stepped.1]
      exact ⟨_, feedRun.extend fedStep⟩
  | accept connection =>
      simp only [step, eventEq] at stepped
      split at stepped
      · rw [(serve_eq_some (by simp) stepped).1]
        exact ⟨feedTrace, feedRun⟩
      · cases stepped
  | receive id msg env =>
      rw [eventEq] at stepped
      rw [(serve_eq_some (by simp) stepped).1]
      exact ⟨feedTrace, feedRun⟩
  | runPosted position env =>
      rw [eventEq] at stepped
      rw [(serve_eq_some (by simp) stepped).1]
      exact ⟨feedTrace, feedRun⟩

/-- The stratum server is constructed with the current template for its work. -/
theorem bind_eq_some {output : Unit}
    (constructed : pool.step setting (.feed .bind) = some (next, output)) :
    pool.feed.bound = false ∧ next.feed.bound = true ∧ next.feed.tmpl = pool.feed.tmpl ∧
      next.feed.box.waiting = pool.feed.box.waiting ∧
      next.stratum.currentWork = pool.feed.tmpl.map Template.block := by
  simp only [step, Option.bind_eq_bind, Option.bind_eq_some_iff] at constructed
  rcases constructed with ⟨⟨feed, executed⟩, binds, constructed⟩
  simp only [Option.pure_def, Option.some.injEq, Prod.mk.injEq] at constructed
  rcases constructed with ⟨rfl, _⟩
  rcases WorkFeed.bind_eq_some binds with ⟨unbound, rfl, bound, tmpl, _, waiting⟩
  exact ⟨unbound, bound, tmpl, waiting, rfl⟩

theorem getsJob_of_subscription (connection : Stratum.Connection) (env : Stratum.Env)
    (bound : pool.feed.bound = true) :
    ∃ next event, pool.step setting (.accept connection) = some (next, ()) ∧
      next.stratum.currentWork = pool.stratum.currentWork ∧ next.GetsJob setting event := by
  have accepts : pool.step setting (.accept connection) =
      some ({ pool with stratum := { pool.stratum with
        clients := pool.stratum.clients ++ [Stratum.Client.new setting.stratum.config connection]
        connected := pool.stratum.connected ++ [pool.stratum.clients.length] } }, ()) := by
    simp [step, bound, serve, Stratum.Server.step]
  refine ⟨_, .receive pool.stratum.clients.length
    (Stratum.Sample.request "mining.subscribe" []) env, accepts, rfl, ?_⟩
  exact ⟨_, List.getElem?_concat_length, .subscribes (by rfl)⟩

/--
After a start-up, `GetJob` finds work in every state of every run exactly if a template had
been stored before the stratum server was constructed.
-/
theorem work_exists_iff {startup : List Entry} {entry : Entry}
    (run : Run setting (startup ++ [entry]) last) (constructs : entry.event = .feed .bind) :
    (∀ trace last, RunTrace.Run (step setting) entry.after trace last → NeverNull setting last) ↔
      entry.before.feed.tmpl ≠ none := by
  rcases run.split with ⟨runBefore, stepped⟩
  rw [constructs] at stepped
  rcases bind_eq_some stepped with ⟨unbound, bound, tmpl, waiting, work⟩
  constructor
  · intro safe isNull
    rcases getsJob_of_subscription Stratum.Sample.connection (Stratum.Sample.easyEnv 2) bound with
      ⟨next, event, accepts, kept, gets⟩
    apply safe _ next (Run.nil.extend accepts) event gets
    rw [kept, work, isNull]
    rfl
  · intro stored trace last run
    refine neverNull_of_fed ⟨?_, ?_, ?_⟩ run
    · rwa [tmpl]
    · rcases feedRun_of_run runBefore with ⟨feedTrace, feedRun⟩
      rw [waiting, WorkFeed.box_of_run feedRun unbound]
      simp [Mailbox.new]
    · simpa [work] using stored

end Pool

/-! ## Sample start-ups -/

namespace Pool.Sample

def setting : Setting where
  network := NetworkMgr.Sample.setting
  stratum := Stratum.Sample.setting (Stratum.Sample.hash 2)

/-- The check that is made with the first daemon. -/
def firstCheck (daemon : NetworkMgr.Daemon) : List Event :=
  [.feed (.getinfo (NetworkMgr.Sample.getinfo 100)), .feed (.checkUpdates [daemon]),
    .feed .checkNotifies]

/-- A daemon that has no template to give. -/
def failing : NetworkMgr.Daemon :=
  ⟨100, .error (.jsonRPC (ascii "Malformed HTTP Response")), fun _ => Bitcoin.allocates⟩

/-- The stratum server is constructed without work, and a client connects. -/
def unfed : List Event :=
  firstCheck failing ++ [.feed .bind, .accept Stratum.Sample.connection]

end Pool.Sample

namespace Pool

/-- The first daemon has a template. -/
theorem work_exists_sample :
    ∃ startup entry, Run Sample.setting (startup ++ [entry]) entry.after ∧
      entry.event = .feed .bind ∧
      ∀ trace last, RunTrace.Run (step Sample.setting) entry.after trace last →
        NeverNull Sample.setting last := by
  have found : ∃ result ∈ replay (step Sample.setting) new
      (Sample.firstCheck (NetworkMgr.Sample.daemon 100)),
      result.2.feed.tmpl.isSome ∧ (result.2.step Sample.setting (.feed .bind)).isSome := by
    decide +kernel
  rcases found with ⟨⟨startup, before⟩, replayed, stored, constructs⟩
  rcases Option.isSome_iff_exists.mp constructs with ⟨⟨constructed, output⟩, binds⟩
  have run : Run Sample.setting _ _ := (Run.ofReplay replayed).extend binds
  refine ⟨startup, ⟨before, .feed .bind, output, constructed⟩, run, rfl, ?_⟩
  exact (work_exists_iff run rfl).mpr (Option.isSome_iff_ne_none.mp stored)

/-- The first daemon has no template, and the client subscribes. -/
theorem exists_null_work :
    ∃ trace last event, Run Sample.setting trace last ∧
      trace.map RunTrace.Entry.event = Sample.unfed ∧
      last.GetsJob Sample.setting event ∧ last.stratum.currentWork = none := by
  have found : ∃ result ∈ replay (step Sample.setting) new Sample.unfed,
      result.2.stratum.clients.length = 1 ∧ result.2.stratum.currentWork = none := by
    decide +kernel
  rcases found with ⟨⟨trace, last⟩, replayed, connected, isNull⟩
  rcases List.length_eq_one_iff.mp connected with ⟨client, clientsEq⟩
  refine ⟨trace, last, .receive 0 (Stratum.Sample.request "mining.subscribe" [])
    (Stratum.Sample.easyEnv 2), .ofReplay replayed, map_event_replay replayed, ?_, isNull⟩
  exact ⟨client, by rw [clientsEq]; rfl, .subscribes (by rfl)⟩

end Pool

end Poolserver
