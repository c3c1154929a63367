import Poolserver.Server.Listener
import Poolserver.Stratum.JobTable

/-!
# The pool at rest

What is left when the network manager has posted what it stored, every notification has been
executed and every posted `SendJob` has run: the newest job of each client is made from the current
template. A client that is served between its start and its insertion into the set of clients is
left out, if the work changes in between. A posted `SendJob` is one step: although it is not
posted through the strand of its client, it is taken not to overlap another handler of the client.
-/

namespace Poolserver

open Poolserver.Bitcoin RunTrace

namespace Stratum.Client

variable {env : Env} {client next : Client} {effects : List Effect}

/-- The newest job, which the job table has, is made from a block. -/
structure Latest (client : Client) (block : Block) : Prop where
  made : (client.heap.map Job.block).getLast? = some block
  known : client.jobs (client.jobid - 1).toUInt64 = some (client.heap.length - 1)

/-- The jobs, but for the shares submitted to them. -/
structure SameJobs (client next : Client) : Prop where
  blocks : next.heap.map Job.block = client.heap.map Job.block
  jobs : next.jobs = client.jobs
  jobid : next.jobid = client.jobid

theorem SameJobs.refl (client : Client) : client.SameJobs client :=
  ⟨rfl, rfl, rfl⟩

theorem SameJobs.trans {middle : Client} (first : client.SameJobs middle)
    (second : middle.SameJobs next) : client.SameJobs next :=
  ⟨second.blocks.trans first.blocks, second.jobs.trans first.jobs,
    second.jobid.trans first.jobid⟩

theorem SameJobs.length (same : client.SameJobs next) : next.heap.length = client.heap.length := by
  simpa using congrArg List.length same.blocks

theorem SameJobs.latest {block : Block} (same : client.SameJobs next)
    (latest : client.Latest block) : next.Latest block := by
  constructor
  · rw [same.blocks]
    exact latest.made
  · rw [same.jobs, same.jobid, same.length]
    exact latest.known

theorem Act.sameJobs (act : Act env client effects next) : client.SameJobs next := by
  refine ⟨?_, act.idle.jobs, act.idle.jobid⟩
  cases act with
  | turn turns => cases turns <;> rfl
  | reply replies => rfl
  | perform plain => rfl
  | refuse bad => rfl
  | enlist username password found => rfl
  | setMinDiff minDiff => rfl
  | submitShare share jobAt => exact Listener.map_set_of_same jobAt rfl

theorem latest_of_sendsJob (sends : SendsJob env client effects next) :
    ∃ block, env.work = some block ∧ next.Latest block := by
  cases sends with
  | @intro clean job branch issued branchEq =>
      refine ⟨job.block, issued.work, ?_⟩
      cases clean <;> constructor <;> simp [addJob, cleanJobs]

/-- The jobs are as before, or the newest is made from the current work. -/
def Settles (env : Env) (client : Client) (_ : List Effect) (next : Client) : Prop :=
  client.SameJobs next ∨ ∃ block, env.work = some block ∧ next.Latest block

theorem Settles.of_path (path : Path (Settles env) client effects next) :
    Settles env client effects next := by
  induction path with
  | refl => exact .inl (.refl _)
  | snoc path move ih =>
      rcases move with same | latest
      · rcases ih with before | ⟨block, work, latest⟩
        · exact .inl (before.trans same)
        · exact .inr ⟨block, work, same.latest latest⟩
      · exact .inr latest

theorem ChangesDiff.sameJobs (changes : ChangesDiff client effects next) :
    client.SameJobs next := by
  cases changes
  exact ⟨rfl, rfl, rfl⟩

theorem Acts.settle (acts : Acts env client effects next) : Settles env client effects next :=
  .of_path (acts.toPath (fun act => .inl act.sameJobs) (fun changes => .inl changes.sameJobs)
    (fun sends => .inr (latest_of_sendsJob sends)))

theorem Handles.settle {setting : Setting} {event : Event}
    (handles : Handles setting event client effects next) :
    Settles event.env client effects next := by
  cases handles with
  | submission actionEq methodEq does =>
      rcases does with path | ⟨addr, _, limited⟩
      · exact .of_path (path.mono fun act => .inl act.sameJobs)
      · exact limited.acts.settle
  | subscription actionEq methodEq sends => exact .inr (latest_of_sendsJob sends)
  | other actionEq notSubmit notSubscribe authorizes => exact authorizes.acts.settle
  | sendJob actionEq sends => exact .inr (latest_of_sendsJob sends)

/-- `SendJob` makes a job from the current work. -/
theorem Handles.latest {setting : Setting} {event : Event} {clean : Bool}
    (handles : Handles setting event client effects next) (sends : event.action = .sendJob clean) :
    ∃ block, event.env.work = some block ∧ next.Latest block := by
  cases handles with
  | submission actionEq methodEq does =>
      rw [sends] at actionEq
      cases actionEq
  | subscription actionEq methodEq subscribes =>
      rw [sends] at actionEq
      cases actionEq
  | other actionEq notSubmit notSubscribe authorizes =>
      rw [sends] at actionEq
      cases actionEq
  | sendJob actionEq sent => exact latest_of_sendsJob sent

end Stratum.Client

/-! ## The clients of a run -/

namespace Listener

open Stratum

variable {setting : Stratum.Setting} {listener next : Listener} {trace : List Entry}
  {last : Listener}

/-- The client has no job, or its newest one is made from the current work. -/
def UpToDate (listener : Listener) (client : Client) : Prop :=
  client.heap = [] ∨ ∃ block, listener.server.currentWork = some block ∧ client.Latest block

/-- The work changed while the client was being accepted, and it was sent no job since. -/
def Overlooked (trace : List Entry) (id : ℕ) (client : Client) : Prop :=
  ∃ earlier entry later notification, trace = earlier ++ entry :: later ∧
    entry.event = .blockNotify notification ∧ entry.before.accepting = some id ∧
    ∃ old, entry.before.server.clients[id]? = some old ∧ old.SameJobs client

theorem UpToDate.kept {client changed : Client} (upToDate : listener.UpToDate client)
    (work : next.server.currentWork = listener.server.currentWork)
    (same : client.SameJobs changed) : next.UpToDate changed := by
  rcases upToDate with noJob | ⟨block, workEq, latest⟩
  · left
    apply List.eq_nil_of_length_eq_zero
    rw [same.length, noJob]
    rfl
  · exact .inr ⟨block, work.trans workEq, same.latest latest⟩

theorem Overlooked.later {id : ℕ} {client changed : Client} {entry : Entry}
    (overlooked : Overlooked trace id client) (same : client.SameJobs changed) :
    Overlooked (trace ++ [entry]) id changed := by
  rcases overlooked with
    ⟨earlier, notified, later, notification, rfl, isNotify, accepting, old, oldAt, before⟩
  exact ⟨earlier, notified, later ++ [entry], notification, by simp, isNotify, accepting, old, oldAt,
    before.trans same⟩

/-- A client that is started is up to date, waits for a job, or was overlooked. -/
def Tended (trace : List Entry) (listener : Listener) : Prop :=
  ∀ id client, (id ∈ listener.server.connected ∨ listener.accepting = some id) →
    listener.server.clients[id]? = some client →
    listener.UpToDate client ∨ (∃ clean, (id, clean) ∈ listener.server.posted) ∨
      Overlooked trace id client

/-- The objects, the work and the posted calls stay. -/
theorem Tended.kept (tended : Tended trace listener) (entry : Entry)
    (clients : next.server.clients = listener.server.clients)
    (work : next.server.currentWork = listener.server.currentWork)
    (posted : next.server.posted = listener.server.posted)
    (fewer : ∀ id, id ∈ next.server.connected ∨ next.accepting = some id →
      id ∈ listener.server.connected ∨ listener.accepting = some id) :
    Tended (trace ++ [entry]) next := by
  intro id client known clientAt
  rw [clients] at clientAt
  rcases tended id client (fewer id known) clientAt with upToDate | waits | overlooked
  · exact .inl (upToDate.kept work (.refl client))
  · right; left
    rwa [posted]
  · exact .inr (.inr (overlooked.later (.refl client)))

theorem mem_eraseIdx_of_ne {α : Type} {items : List α} {position : ℕ} {item other : α}
    (itemMem : item ∈ items) (otherAt : items[position]? = some other) (differs : item ≠ other) :
    item ∈ items.eraseIdx position := by
  rw [List.mem_eraseIdx_iff_getElem?]
  rcases List.getElem?_of_mem itemMem with ⟨place, placeAt⟩
  refine ⟨place, ?_, placeAt⟩
  rintro rfl
  rw [placeAt, Option.some.injEq] at otherAt
  exact differs otherAt

theorem tended_of_call {event : Event} {id : ℕ} {asked : Stratum.Event} {date : UInt32}
    {opened server : Server} {clientEntry : ClientEntry}
    (tended : Tended trace listener) (asks : Asks listener event id asked date opened)
    (called : opened.call setting id asked.action asked.env =
      some (server, some (id, clientEntry))) (bans : List BanInfo) (entry : Entry) :
    Tended (trace ++ [entry]) { listener with server, bans } := by
  have calls := called_of_call called
  have handles := Client.step_handles calls.stepped
  rcases asks.clients with ⟨clients, connected, currentWork, _⟩
  have clientAt := calls.clientAt
  rw [clients] at clientAt
  have work : server.currentWork = listener.server.currentWork :=
    calls.currentWork.trans currentWork
  have lent : clientEntry.event.env.work = listener.server.currentWork := by
    rw [calls.eventEq]
    exact currentWork
  intro other client known otherAt
  have wasKnown : other ∈ listener.server.connected ∨ listener.accepting = some other := by
    refine known.imp_left fun connectedNow => ?_
    change other ∈ server.connected at connectedNow
    rw [calls.connected, connected] at connectedNow
    split at connectedNow
    · exact List.mem_of_mem_erase connectedNow
    · exact connectedNow
  change server.clients[other]? = some client at otherAt
  rw [calls.clients, clients] at otherAt
  by_cases same : id = other
  · subst same
    rw [List.getElem?_set_self (List.getElem?_eq_some_iff.mp clientAt).1, Option.some.injEq]
      at otherAt
    subst otherAt
    have settled : clientEntry.before.SameJobs clientEntry.after ∨
        ∃ block, listener.server.currentWork = some block ∧ clientEntry.after.Latest block :=
      lent ▸ handles.settle
    have fresh : (∃ block, listener.server.currentWork = some block ∧
        clientEntry.after.Latest block) → UpToDate { listener with server, bans }
          clientEntry.after := by
      rintro ⟨block, workEq, latest⟩
      exact .inr ⟨block, work.trans workEq, latest⟩
    rcases settled with sameJobs | latest
    · cases asks with
      | posted env date postedAt =>
          exact .inl (fresh (lent ▸ handles.latest (by rw [calls.eventEq])))
      | receive id msg env date =>
          rcases tended id clientEntry.before wasKnown clientAt with upToDate | waits | overlooked
          · exact .inl (upToDate.kept work sameJobs)
          · right; left
            change ∃ clean, (id, clean) ∈ server.posted
            rw [calls.posted]
            exact waits
          · exact .inr (.inr (overlooked.later sameJobs))
    · exact .inl (fresh latest)
  · rw [List.getElem?_set_ne same] at otherAt
    rcases tended other client wasKnown otherAt with upToDate | ⟨clean, waits⟩ | overlooked
    · exact .inl (upToDate.kept work (.refl client))
    · right; left
      refine ⟨clean, ?_⟩
      change (other, clean) ∈ server.posted
      rw [calls.posted]
      cases asks with
      | receive id msg env date => exact waits
      | posted env date postedAt =>
          refine mem_eraseIdx_of_ne waits postedAt ?_
          rw [Ne, Prod.mk.injEq]
          exact fun both => same both.1.symm
    · exact .inr (.inr (overlooked.later (.refl client)))

theorem tended_of_turn {entry : Entry} (tended : Tended trace entry.before)
    (turn : Turn setting entry.before entry.event entry.after entry.output) :
    Tended (trace ++ [entry]) entry.after := by
  generalize beforeEq : entry.before = before, eventEq : entry.event = event,
    entry.after = after, entry.output = output at turn
  rw [beforeEq] at tended
  cases turn with
  | fails free => exact tended.kept entry rfl rfl rfl fun _ known => known
  | refuses free banned => exact tended.kept entry rfl rfl rfl fun _ known => known
  | @starts connection date server free welcome serverEq =>
      subst serverEq
      intro id client known clientAt
      rcases Nat.lt_or_ge id before.server.clients.length with old | fresh
      · change (before.server.clients ++ [Client.new setting.config connection])[id]? =
          some client at clientAt
        rw [List.getElem?_append_left old] at clientAt
        have wasKnown : id ∈ before.server.connected ∨ before.accepting = some id := by
          refine known.imp_right fun isNewest => ?_
          injection isNewest with isNewest
          omega
        rcases tended id client wasKnown clientAt with upToDate | waits | overlooked
        · exact .inl upToDate
        · exact .inr (.inl waits)
        · exact .inr (.inr (overlooked.later (.refl client)))
      · left; left
        change (before.server.clients ++ [Client.new setting.config connection])[id]? =
          some client at clientAt
        rw [List.getElem?_append_right fresh] at clientAt
        have isNew := List.mem_of_getElem? clientAt
        rw [List.mem_singleton.mp isNew]
        rfl
  | @inserts id server accepting serverEq =>
      subst serverEq
      refine tended.kept entry rfl rfl rfl ?_
      rintro other (known | none)
      · change other ∈ before.server.connected ++ [id] at known
        rw [List.mem_append, List.mem_singleton] at known
        rcases known with old | rfl
        · exact .inl old
        · exact .inr accepting
      · cases none
  | leaves serverEq =>
      subst serverEq
      refine tended.kept entry rfl rfl rfl fun id known => ?_
      exact known.imp_left List.mem_of_mem_erase
  | notified notification =>
      intro id client known clientAt
      rcases known with connected | accepting
      · right; left
        refine ⟨notification.newBlock, List.mem_append_right _ ?_⟩
        exact List.mem_map_of_mem connected
      · right; right
        refine ⟨trace, entry, [], notification, rfl, eventEq, ?_, client, ?_, .refl client⟩
        · rw [beforeEq]
          exact accepting
        · rw [beforeEq]
          exact clientAt
  | calls asks called => exact tended_of_call tended asks called _ entry

theorem tended_of_run (run : Run setting trace last) : Tended trace last := by
  refine run.invariant (fun trace last => Tended trace last) (fun _ => True) (fun _ _ => trivial)
    ?_ ?_
  · intro id client _ clientAt
    cases clientAt
  · intro trace entry tended _ stepped
    exact tended_of_turn tended (turn_of_step stepped)

/-- Only a notification changes the work. -/
theorem work_of_step {event : Event} {outcome : Outcome}
    (stepped : listener.step setting event = some (next, outcome))
    (notNotify : ∀ notification, event ≠ .blockNotify notification) :
    next.server.currentWork = listener.server.currentWork := by
  cases turn_of_step stepped with
  | fails free => rfl
  | refuses free banned => rfl
  | starts free welcome serverEq => rw [serverEq]
  | inserts accepting serverEq => rw [serverEq]
  | leaves serverEq => rw [serverEq]
  | notified notification => exact absurd rfl (notNotify notification)
  | calls asks called =>
      exact (called_of_call called).currentWork.trans asks.clients.2.2.1

end Listener

/-! ## The network manager of a run -/

namespace WorkFeed

variable {setting : NetworkMgr.Setting} {feed next : WorkFeed} {trace : List Entry}
  {last : WorkFeed}

/-- The template has been posted, or a thread that stored it is about to post it. -/
structure Owes (feed : WorkFeed) : Prop where
  newest : feed.bound = true → ∃ notification, feed.box.posted.getLast? = some notification ∧
    (notification.tmpl = feed.tmpl ∨ feed.check = .updated ∨ feed.timer = true)
  timer : feed.timer = true → feed.bound = true

theorem owes_of_blockNotifySend (newBlock : Bool) (check : Check) (timer : Bool)
    (runs : timer = true → feed.bound = true) :
    Owes { feed.blockNotifySend newBlock with check, timer } := by
  cases boundEq : feed.bound with
  | true =>
      refine ⟨fun _ => ⟨⟨feed.tmpl, newBlock⟩, ?_, .inl ?_⟩, fun _ => ?_⟩
      · simp [blockNotifySend, boundEq, Mailbox.post]
      · simp [blockNotifySend, boundEq]
      · simp [blockNotifySend, boundEq]
  | false =>
      refine ⟨fun bound => ?_, fun running => ?_⟩
      · simp [blockNotifySend, boundEq] at bound
      · rw [boundEq] at runs
        cases runs running

theorem owes_of_update (daemons : List NetworkMgr.Daemon) (owes : Owes feed) (check : Check)
    (timer : Bool) (posts : check = .updated ∨ timer = true)
    (runs : timer = true → feed.bound = true) :
    Owes { feed.update setting daemons with check, timer } := by
  have frame : (feed.update setting daemons).bound = feed.bound ∧
      (feed.update setting daemons).box = feed.box := by
    rcases @update_eq setting feed daemons with same | ⟨_, _, stores⟩
    · rw [same]
      exact ⟨rfl, rfl⟩
    · rw [stores]
      exact ⟨rfl, rfl⟩
  refine ⟨fun bound => ?_, fun running => frame.1.trans (runs running)⟩
  rcases owes.newest (frame.1.symm.trans bound) with ⟨notification, newest, _⟩
  exact ⟨notification, by rw [frame.2]; exact newest, .inr posts⟩

theorem owes_of_deliver {position : ℕ} {output : Option (ℕ × Notification)} (owes : Owes feed)
    (delivered : feed.deliver position = some (next, output)) : Owes next := by
  rcases deliver_eq_some delivered with ⟨message, box, takes, _, rfl⟩
  rcases Mailbox.take_eq_some takes with ⟨_, rfl⟩
  exact ⟨owes.newest, owes.timer⟩

theorem owes_of_step {event : Event} {output : Option (ℕ × Notification)} (owes : Owes feed)
    (stepped : step setting feed event = some (next, output)) : Owes next := by
  cases event with
  | getinfo reply =>
      simp only [step] at stepped
      split at stepped
      · rename_i idle
        split at stepped
        · cases stepped
          exact owes
        · split at stepped
          · cases stepped
            refine ⟨fun bound => ?_, owes.timer⟩
            rcases owes.newest bound with ⟨notification, newest, posted | updated | timer⟩
            · exact ⟨notification, newest, .inl posted⟩
            · rw [idle] at updated
              cases updated
            · exact ⟨notification, newest, .inr (.inr timer)⟩
          · cases stepped
            exact owes
      · cases stepped
  | checkUpdates daemons =>
      simp only [step] at stepped
      split at stepped
      · cases stepped
        refine owes_of_update daemons owes .updated _ (.inl rfl) fun running => ?_
        rcases @update_eq setting feed daemons with same | ⟨_, _, stores⟩
        · rw [same] at running
          exact owes.timer running
        · rw [stores] at running
          exact owes.timer running
      · cases stepped
  | checkNotifies =>
      simp only [step] at stepped
      split at stepped
      · cases stepped
        refine owes_of_blockNotifySend true .idle _ fun running => ?_
        cases boundEq : feed.bound with
        | true => rfl
        | false =>
            rw [blockNotifySend, boundEq] at running
            exact boundEq.symm.trans (owes.timer running)
      · cases stepped
  | timerUpdates daemons =>
      simp only [step] at stepped
      split at stepped
      · rename_i free
        cases stepped
        exact owes_of_update daemons owes _ true (.inr rfl) fun _ => free.1
      · cases stepped
  | timerNotifies =>
      simp only [step] at stepped
      split at stepped
      · cases stepped
        refine owes_of_blockNotifySend false _ false fun running => ?_
        cases running
      · cases stepped
  | bind =>
      simp only [step] at stepped
      split at stepped
      · refine owes_of_deliver ?_ stepped
        exact ⟨fun _ => ⟨⟨feed.tmpl, true⟩, by simp [Mailbox.post], .inl rfl⟩, fun _ => rfl⟩
      · cases stepped
  | deliver position => exact owes_of_deliver owes stepped

theorem owes_of_run (run : Run setting trace last) : Owes last := by
  refine run.invariant (fun _ last => Owes last) (fun _ => True) (fun _ _ => trivial) ?_ ?_
  · exact ⟨nofun, nofun⟩
  · intro trace entry owes _ stepped
    exact owes_of_step owes stepped

theorem work_of_turn {output : Option (ℕ × Notification)} (turn : Turn feed next output) :
    next.currentWork =
      match output with
      | none => feed.currentWork
      | some message => message.2.tmpl := by
  cases turn with
  | waits higher curBlockTmpl bound tmpl box work => exact work
  | stores daemon block mgr bound tmpl box work => exact work
  | posts newBlock mgr bound tmpl box work => exact work
  | executes mgr tmpl opens takes work => exact work

/-- Nobody is about to post, and every notification has been executed. -/
structure AtRest (feed : WorkFeed) : Prop where
  bound : feed.bound = true
  check : feed.check ≠ .updated
  timer : feed.timer = false
  waiting : feed.box.waiting = []

/-- At rest the work is the template that was stored last. -/
theorem work_of_rest (run : Run setting trace last) (rests : last.AtRest)
    (inOrder : Mailbox.InOrder Notification.tmpl (executed trace)) : last.currentWork = last.tmpl := by
  have feeds := feeds_of_run run
  rcases (owes_of_run run).newest rests.bound with ⟨notification, newest, posted | updated | timer⟩
  · have same := feeds.history.last inOrder rests.waiting
    rw [newest, Option.map_some] at same
    rw [feeds.work, same, Option.join_some, posted]
  · exact absurd updated rests.check
  · rw [rests.timer] at timer
    cases timer

end WorkFeed

/-! ## The network manager and the listener -/

/-- The pool, in which accepting a client takes two steps. -/
structure PoolServer where
  feed : WorkFeed
  listener : Listener

namespace PoolServer

def new : PoolServer where
  feed := .new
  listener := .new

inductive Event where
  | feed (event : WorkFeed.Event)
  | listener (event : Listener.Event)

variable (setting : Pool.Setting)

/-- An executed notification reaches the listener, and nothing else notifies it. -/
def step (pool : PoolServer) :
    Event → Option (PoolServer × Option (ℕ × Notification) × Listener.Outcome)
  | .feed event => do
      let (feed, executed) ← pool.feed.step setting.network event
      match executed with
      | none => return ({ pool with feed }, none, .quiet)
      | some message => do
          let (listener, outcome) ← pool.listener.step setting.stratum (.blockNotify message.2)
          return (⟨feed, listener⟩, some message, outcome)
  | .listener (.blockNotify _) => none
  | .listener event =>
      if pool.feed.bound then do
        let (listener, outcome) ← pool.listener.step setting.stratum event
        return ({ pool with listener }, none, outcome)
      else none

abbrev Entry := RunTrace.Entry PoolServer Event (Option (ℕ × Notification) × Listener.Outcome)

abbrev Run : List Entry → PoolServer → Prop :=
  RunTrace.Run (step setting) new

/-- What a run is for the network manager. -/
def feedTrace (trace : List Entry) : List WorkFeed.Entry :=
  trace.filterMap fun entry =>
    match entry.event with
    | .feed event => some ⟨entry.before.feed, event, entry.output.1, entry.after.feed⟩
    | .listener _ => none

/-- What a run is for the listener. -/
def listenerTrace (trace : List Entry) : List Listener.Entry :=
  trace.filterMap fun entry =>
    match entry.event with
    | .feed _ => entry.output.1.map fun message =>
        ⟨entry.before.listener, .blockNotify message.2, entry.output.2, entry.after.listener⟩
    | .listener event =>
        some ⟨entry.before.listener, event, entry.output.2, entry.after.listener⟩

variable {setting} {pool next : PoolServer} {trace : List Entry} {last : PoolServer}

/-- What a step is for the two of them. -/
inductive Turn (setting : Pool.Setting) (pool : PoolServer) : Event → PoolServer →
    Option (ℕ × Notification) × Listener.Outcome → Prop where
  | feeds {event : WorkFeed.Event} {feed : WorkFeed}
      (fed : pool.feed.step setting.network event = some (feed, none)) :
      Turn setting pool (.feed event) { pool with feed } (none, .quiet)
  | notifies {event : WorkFeed.Event} {feed : WorkFeed} {listener : Listener}
      {message : ℕ × Notification} {outcome : Listener.Outcome}
      (fed : pool.feed.step setting.network event = some (feed, some message))
      (notified : pool.listener.step setting.stratum (.blockNotify message.2) =
        some (listener, outcome)) :
      Turn setting pool (.feed event) ⟨feed, listener⟩ (some message, outcome)
  | listens {event : Listener.Event} {listener : Listener} {outcome : Listener.Outcome}
      (notNotify : ∀ notification, event ≠ .blockNotify notification)
      (listened : pool.listener.step setting.stratum event = some (listener, outcome)) :
      Turn setting pool (.listener event) { pool with listener } (none, outcome)

theorem turn_of_step {event : Event} {output : Option (ℕ × Notification) × Listener.Outcome}
    (stepped : pool.step setting event = some (next, output)) :
    Turn setting pool event next output := by
  unfold step at stepped
  split at stepped
  · simp only [Option.bind_eq_bind, Option.bind_eq_some_iff] at stepped
    rcases stepped with ⟨⟨feed, executed⟩, fed, stepped⟩
    cases executed with
    | none =>
        cases stepped
        exact .feeds fed
    | some message =>
        rcases Option.bind_eq_some_iff.mp stepped with ⟨⟨listener, outcome⟩, notified, stepped⟩
        cases stepped
        exact .notifies fed notified
  · cases stepped
  · rename_i event notNotify
    split at stepped
    · rcases Option.bind_eq_some_iff.mp stepped with ⟨⟨listener, outcome⟩, listened, stepped⟩
      cases stepped
      exact .listens (fun notification same => notNotify notification same) listened
    · cases stepped

/-- A run of the pool is one of the network manager and one of the listener, on the same work. -/
structure Splits (setting : Pool.Setting) (trace : List Entry) (pool : PoolServer) : Prop where
  feed : WorkFeed.Run setting.network (feedTrace trace) pool.feed
  listener : Listener.Run setting.stratum (listenerTrace trace) pool.listener
  work : pool.listener.server.currentWork = pool.feed.currentWork.map Template.block

theorem splits_of_turn {event : Event} {output : Option (ℕ × Notification) × Listener.Outcome}
    (splits : Splits setting trace pool) (turn : Turn setting pool event next output) :
    Splits setting (trace ++ [⟨pool, event, output, next⟩]) next := by
  have feedEq : ∀ entry, feedTrace (trace ++ [entry]) = feedTrace trace ++ feedTrace [entry] :=
    fun _ => List.filterMap_append
  have listenerEq : ∀ entry,
      listenerTrace (trace ++ [entry]) = listenerTrace trace ++ listenerTrace [entry] :=
    fun _ => List.filterMap_append
  constructor
  · rw [feedEq]
    cases turn with
    | feeds fed => exact splits.feed.extend fed
    | notifies fed notified => exact splits.feed.extend fed
    | listens notNotify listened =>
        rw [show feedTrace [_] = [] from rfl, List.append_nil]
        exact splits.feed
  · rw [listenerEq]
    cases turn with
    | feeds fed =>
        rw [show listenerTrace [_] = [] from rfl, List.append_nil]
        exact splits.listener
    | notifies fed notified => exact splits.listener.extend notified
    | listens notNotify listened => exact splits.listener.extend listened
  · cases turn with
    | feeds fed =>
        rw [WorkFeed.work_of_turn (WorkFeed.turn_of_step fed)]
        exact splits.work
    | notifies fed notified =>
        rw [WorkFeed.work_of_turn (WorkFeed.turn_of_step fed)]
        cases notified
        rfl
    | listens notNotify listened =>
        exact (Listener.work_of_step listened notNotify).trans splits.work

theorem splits_of_run (run : Run setting trace last) : Splits setting trace last := by
  refine run.invariant (fun trace last => Splits setting trace last) (fun _ => True)
    (fun _ _ => trivial) ⟨.nil, .nil, rfl⟩ ?_
  intro trace entry splits _ stepped
  exact splits_of_turn splits (turn_of_step stepped)

/--
When nobody is about to post a template, every notification has been executed in the order in which
they were posted, or a later one had the same template, and every posted call has run, then the
newest job of every client in the set that was ever sent one is made from the template stored last,
unless the client was overlooked. No posted `SendJob` overlaps another handler of its client here.
-/
theorem work_at_rest (run : Run setting trace last) (rests : last.feed.AtRest)
    (inOrder : Mailbox.InOrder Notification.tmpl (WorkFeed.executed (feedTrace trace)))
    (posted : last.listener.server.posted = []) {id : ℕ} {client : Stratum.Client}
    (connected : id ∈ last.listener.server.connected)
    (clientAt : last.listener.server.clients[id]? = some client) :
    client.heap = [] ∨ (∃ tmpl, last.feed.tmpl = some tmpl ∧ client.Latest tmpl.block) ∨
      Listener.Overlooked (listenerTrace trace) id client := by
  have splits := splits_of_run run
  rcases Listener.tended_of_run splits.listener id client (.inl connected) clientAt with
    (noJob | ⟨block, work, latest⟩) | ⟨clean, waits⟩ | overlooked
  · exact .inl noJob
  · right; left
    rw [splits.work, WorkFeed.work_of_rest splits.feed rests inOrder,
      Option.map_eq_some_iff] at work
    rcases work with ⟨tmpl, stored, rfl⟩
    exact ⟨tmpl, stored, latest⟩
  · rw [posted] at waits
    cases waits
  · exact .inr (.inr overlooked)

/-! ## A sample run to rest -/

namespace Sample

open Stratum.Sample (request easyEnv connection)

/-- A check with a daemon that has a template, up to the notification. -/
def check (blocks : ℤ) : List Event :=
  [.feed (.getinfo (NetworkMgr.Sample.getinfo blocks)),
    .feed (.checkUpdates [NetworkMgr.Sample.daemon blocks]), .feed .checkNotifies]

def accept : Event :=
  .listener (.accept (some (connection, 1388534410)))

def subscribe (id : ℕ) : Event :=
  .listener (.receive id (request "mining.subscribe" []) (easyEnv 2) 1388534420)

/-- A new block is found while the second client is served and not inserted yet. -/
def events : List Event :=
  check 100 ++ [.feed .bind, accept, .listener .insert, subscribe 0, accept, subscribe 1] ++
    check 101 ++ [.feed (.deliver 0), .listener .insert,
      .listener (.runPosted 0 (easyEnv 2) 1388534430)]

def newest (pool : PoolServer) (id : ℕ) : Option Block :=
  pool.listener.server.clients[id]?.bind fun client => (client.heap.map Stratum.Job.block).getLast?

instance (feed : WorkFeed) : Decidable feed.AtRest :=
  decidable_of_iff (feed.bound = true ∧ feed.check ≠ .updated ∧ feed.timer = false ∧
    feed.box.waiting.isEmpty = true) (by
      rw [List.isEmpty_iff]
      exact ⟨fun ⟨bound, check, timer, waiting⟩ => ⟨bound, check, timer, waiting⟩,
        fun rests => ⟨rests.bound, rests.check, rests.timer, rests.waiting⟩⟩)

end Sample

/-- The first client has a job of the new template at rest; the second one is overlooked. -/
theorem work_at_rest_sample :
    ∃ trace last, Run Pool.Sample.setting trace last ∧
      last.listener.server.connected = [0, 1] ∧
      (∀ id ∈ last.listener.server.connected, ∀ client,
        last.listener.server.clients[id]? = some client →
          client.heap = [] ∨ (∃ tmpl, last.feed.tmpl = some tmpl ∧ client.Latest tmpl.block) ∨
            Listener.Overlooked (listenerTrace trace) id client) ∧
      Sample.newest last 0 = last.feed.tmpl.map Template.block ∧
      Sample.newest last 1 ≠ last.feed.tmpl.map Template.block := by
  have found : ∃ result ∈ replay (step Pool.Sample.setting) new Sample.events,
      result.2.feed.AtRest ∧ result.2.listener.server.posted = [] ∧
        result.2.listener.server.connected = [0, 1] ∧
        (WorkFeed.executed (feedTrace result.1)).map Prod.fst = [0, 1] ∧
        Sample.newest result.2 0 = result.2.feed.tmpl.map Template.block ∧
        Sample.newest result.2 1 ≠ result.2.feed.tmpl.map Template.block := by
    decide +kernel
  rcases found with ⟨⟨trace, last⟩, replayed, rests, posted, connected, places, fresh, stale⟩
  have inOrder : Mailbox.InOrder Notification.tmpl (WorkFeed.executed (feedTrace trace)) :=
    Mailbox.inOrder_of_places _ (by rw [places]; decide)
  refine ⟨trace, last, .ofReplay replayed, connected, ?_, fresh, stale⟩
  intro id idMem client clientAt
  exact work_at_rest (.ofReplay replayed) rests inOrder posted idMem clientAt

end PoolServer

end Poolserver
