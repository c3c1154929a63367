import Mathlib.Order.WithBot
import Poolserver.Lib.Mailbox
import Poolserver.NetworkMgr.Templates

/-!
# How templates become work

The network manager and the part of the stratum server that its notifications reach, as the
threads of the io_service run them. `BlockCheck` and the notification timer are two threads,
each of which updates the template and posts it in separate steps; the mutexes allow one
`BlockCheck` at a time and one `UpdateBlockTemplate`. A posted notification is executed at
any later time, in any order.
-/

namespace Poolserver

open Poolserver.Bitcoin RunTrace

/-- A template object: how many were stored before it, and what it was stored with. -/
structure Template where
  number : ℕ
  /-- `_blockHeight`, which the coinbase of the template names. -/
  blockHeight : UInt32
  daemon : NetworkMgr.Daemon
  block : Block

/-- The height of the block under construction, as the daemon's reply has it. -/
def Template.height (tmpl : Template) : ℤ :=
  match tmpl.daemon.reply with
  | .error _ => 0
  | .ok response =>
      match response.intMember "height" with
      | .error _ => 0
      | .ok height => height.toInt

/-- A call of `Server::BlockNotify` with its arguments. -/
structure Notification where
  tmpl : Option Template
  newBlock : Bool

/-- Where the thread in `BlockCheck` is. -/
inductive Check where
  /-- In front of a query, or outside. -/
  | idle
  /-- `_blockHeight` has been advanced. -/
  | raised
  /-- `UpdateBlockTemplate` has returned. -/
  | updated
  deriving DecidableEq, Repr

structure WorkFeed where
  mgr : NetworkMgr
  check : Check
  /-- `BlockNotifyTimerExpired` has updated the template and not posted it yet. -/
  timer : Bool
  /-- The stratum server has been constructed. -/
  bound : Bool
  /-- `_curBlockTmpl`, with what it was stored with. -/
  tmpl : Option Template
  stored : ℕ
  box : Mailbox Notification
  /-- `Server::_currentWork`. -/
  currentWork : Option Template

namespace WorkFeed

open NetworkMgr (Daemon Poll readBlocks)

/-- The state after the construction of the network manager. -/
def new : WorkFeed where
  mgr := .new
  check := .idle
  timer := false
  bound := false
  tmpl := none
  stored := 0
  box := .new
  currentWork := none

inductive Event where
  /-- `BlockCheck` receives the reply to `getinfo`. -/
  | getinfo (reply : Reply)
  | checkUpdates (daemons : List Daemon)
  | checkNotifies
  | timerUpdates (daemons : List Daemon)
  | timerNotifies
  /-- The stratum server is constructed. -/
  | bind
  /-- A posted notification is executed. -/
  | deliver (position : ℕ)

/-- Notes the template that `UpdateBlockTemplate` stores. -/
def note (feed : WorkFeed) : NetworkMgr.Effect → WorkFeed
  | .store height daemon block =>
      { feed with
        tmpl := some ⟨feed.stored, height, daemon, block⟩
        stored := feed.stored + 1 }
  | _ => feed

variable (setting : NetworkMgr.Setting)

/-- A call of `NetworkMgr::UpdateBlockTemplate`. -/
def update (feed : WorkFeed) (daemons : List Daemon) : WorkFeed :=
  let (mgr, effects) := NetworkMgr.updateBlockTemplate setting feed.mgr daemons
  effects.foldl note { feed with mgr }

/-- `NetworkMgr::BlockNotifySend`; before the stratum server is bound it has nobody to post to. -/
def blockNotifySend (feed : WorkFeed) (newBlock : Bool) : WorkFeed :=
  if feed.bound then { feed with box := feed.box.post ⟨feed.tmpl, newBlock⟩ } else feed

/-- The message at a position is executed by `Server::BlockNotify`. -/
def deliver (feed : WorkFeed) (position : ℕ) : Option (WorkFeed × Option (ℕ × Notification)) := do
  let (message, box) ← feed.box.take position
  return ({ feed with box, currentWork := message.2.tmpl }, some message)

/-- A step and the notification that it executes, with its place among the posted ones. -/
def step (feed : WorkFeed) : Event → Option (WorkFeed × Option (ℕ × Notification))
  | .getinfo reply =>
      if feed.check = .idle then
        match readBlocks reply with
        | .error _ => some (feed, none)
        | .ok curBlock =>
            if feed.mgr.blockHeight < curBlock then
              let mgr := { feed.mgr with blockHeight := curBlock }
              some ({ feed with mgr, check := .raised }, none)
            else some (feed, none)
      else none
  | .checkUpdates daemons =>
      if feed.check = .raised then
        some ({ feed.update setting daemons with check := .updated }, none)
      else none
  | .checkNotifies =>
      if feed.check = .updated then
        some ({ feed.blockNotifySend true with check := .idle }, none)
      else none
  | .timerUpdates daemons =>
      -- the timers run with the threads of the io_service
      if feed.bound ∧ feed.timer = false then
        some ({ feed.update setting daemons with timer := true }, none)
      else none
  | .timerNotifies =>
      if feed.timer then some ({ feed.blockNotifySend false with timer := false }, none)
      else none
  | .bind =>
      if feed.bound = false ∧ feed.check = .idle then
        -- `BlockNotifyBind` calls the subscriber at once
        deliver { feed with bound := true, box := feed.box.post ⟨feed.tmpl, true⟩ }
          feed.box.waiting.length
      else none
  | .deliver position => feed.deliver position

abbrev Entry := RunTrace.Entry WorkFeed Event (Option (ℕ × Notification))

abbrev Run : List Entry → WorkFeed → Prop :=
  RunTrace.Run (step setting) new

/-- The notifications that have been executed, in that order. -/
def executed (trace : List Entry) : List (ℕ × Notification) :=
  trace.filterMap Entry.output

/-! ## The calls of the network manager -/

variable {setting} {feed next : WorkFeed} {mgr : NetworkMgr} {effects : List NetworkMgr.Effect}
  {trace : List Entry} {last : WorkFeed}

theorem update_eq (daemons : List Daemon) :
    feed.update setting daemons = feed ∨ ∃ daemon block,
      feed.update setting daemons = { feed with
        mgr := { feed.mgr with curBlockTmpl := some block }
        tmpl := some ⟨feed.stored, feed.mgr.blockHeight, daemon, block⟩
        stored := feed.stored + 1 } := by
  unfold update
  generalize updates : NetworkMgr.updateBlockTemplate setting feed.mgr daemons = updated
  rcases updated with ⟨mgr, effects⟩
  rcases NetworkMgr.updateBlockTemplate_eq updates with
    ⟨_, rfl, rfl⟩ | ⟨daemon, block, _, rfl, rfl⟩
  · exact Or.inl rfl
  · exact Or.inr ⟨daemon, block, rfl⟩

theorem update_of_updateBlockTemplate {daemons : List Daemon}
    (updated : NetworkMgr.updateBlockTemplate setting feed.mgr daemons = (mgr, effects)) :
    (feed.update setting daemons).mgr = mgr ∧
      (feed.update setting daemons).check = feed.check ∧
      (feed.update setting daemons).timer = feed.timer ∧
      (feed.update setting daemons).bound = feed.bound := by
  simp only [update, updated]
  rcases NetworkMgr.updateBlockTemplate_eq updated with
    ⟨_, _, rfl⟩ | ⟨daemon, block, _, _, rfl⟩
  · exact ⟨rfl, rfl, rfl, rfl⟩
  · exact ⟨rfl, rfl, rfl, rfl⟩

@[simp]
theorem blockNotifySend_mgr (newBlock : Bool) : (feed.blockNotifySend newBlock).mgr = feed.mgr := by
  unfold blockNotifySend
  split <;> rfl

/-- Undisturbed, the steps of the check are one turn of the loop of `BlockCheck`. -/
theorem run_of_checkDaemon {poll : Poll} (idle : feed.check = .idle)
    (checked : NetworkMgr.checkDaemon setting feed.mgr poll = (mgr, effects)) :
    ∃ trace last, RunTrace.Run (step setting) feed trace last ∧
      (trace.map RunTrace.Entry.event = [.getinfo poll.getinfo] ∨
        trace.map RunTrace.Entry.event =
          [.getinfo poll.getinfo, .checkUpdates poll.daemons, .checkNotifies]) ∧
      last.mgr = mgr ∧ last.check = .idle := by
  rcases NetworkMgr.checkDaemon_eq checked with
    ⟨rfl, rfl, notHigher⟩ | ⟨height, updated, heightEq, higher, updates, rfl⟩
  · have asks : step setting feed (.getinfo poll.getinfo) = some (feed, none) := by
      cases heightEq : readBlocks poll.getinfo with
      | error exception => simp [step, idle, heightEq]
      | ok height => simp [step, idle, heightEq, notHigher height heightEq]
    exact ⟨_, _, Run.nil.extend asks, Or.inl rfl, rfl, idle⟩
  · let raised : WorkFeed :=
      { feed with mgr := { feed.mgr with blockHeight := height }, check := .raised }
    have asks : step setting feed (.getinfo poll.getinfo) = some (raised, none) := by
      simp [step, idle, heightEq, higher, raised]
    have mgrEq : (raised.update setting poll.daemons).mgr = mgr :=
      (update_of_updateBlockTemplate updates).1
    let fetched : WorkFeed := { raised.update setting poll.daemons with check := .updated }
    have fetches : step setting raised (.checkUpdates poll.daemons) = some (fetched, none) := by
      simp [step, raised, fetched]
    have posts : step setting fetched .checkNotifies =
        some ({ fetched.blockNotifySend true with check := .idle }, none) := by
      simp [step, fetched]
    refine ⟨_, _, ((Run.nil.extend asks).extend fetches).extend posts, Or.inr rfl, ?_, rfl⟩
    simpa [fetched] using mgrEq

/-! ## What a step can do -/

/-- A step, but for the program counters of the two threads. -/
inductive Turn (feed next : WorkFeed) : Option (ℕ × Notification) → Prop where
  | waits (higher : feed.mgr.blockHeight ≤ next.mgr.blockHeight)
      (curBlockTmpl : next.mgr.curBlockTmpl = feed.mgr.curBlockTmpl)
      (bound : next.bound = feed.bound) (tmpl : next.tmpl = feed.tmpl) (box : next.box = feed.box)
      (work : next.currentWork = feed.currentWork) : Turn feed next none
  | stores (daemon : Daemon) (block : Block)
      (mgr : next.mgr = { feed.mgr with curBlockTmpl := some block })
      (bound : next.bound = feed.bound)
      (tmpl : next.tmpl = some ⟨feed.stored, feed.mgr.blockHeight, daemon, block⟩)
      (box : next.box = feed.box) (work : next.currentWork = feed.currentWork) :
      Turn feed next none
  | posts (newBlock : Bool) (mgr : next.mgr = feed.mgr) (bound : next.bound = true)
      (tmpl : next.tmpl = feed.tmpl) (box : next.box = feed.box.post ⟨feed.tmpl, newBlock⟩)
      (work : next.currentWork = feed.currentWork) : Turn feed next none
  | executes {message : ℕ × Notification} {opened : Mailbox Notification} {position : ℕ}
      (mgr : next.mgr = feed.mgr) (tmpl : next.tmpl = feed.tmpl)
      (opens : (opened = feed.box ∧ next.bound = feed.bound) ∨
        (opened = feed.box.post ⟨feed.tmpl, true⟩ ∧ next.bound = true))
      (takes : opened.take position = some (message, next.box))
      (work : next.currentWork = message.2.tmpl) : Turn feed next (some message)

theorem turn_of_update (daemons : List Daemon) (check : Check) (timer : Bool) :
    Turn feed { feed.update setting daemons with check, timer } none := by
  rcases @update_eq setting feed daemons with same | ⟨daemon, block, stores⟩
  · rw [same]
    exact .waits (UInt32.le_refl _) rfl rfl rfl rfl rfl
  · rw [stores]
    exact .stores daemon block rfl rfl rfl rfl rfl

theorem turn_of_blockNotifySend (newBlock : Bool) (check : Check) (timer : Bool) :
    Turn feed { feed.blockNotifySend newBlock with check, timer } none := by
  cases boundEq : feed.bound with
  | true =>
      refine .posts newBlock ?_ ?_ ?_ ?_ ?_ <;> simp [blockNotifySend, boundEq]
  | false =>
      refine .waits ?_ ?_ ?_ ?_ ?_ ?_ <;> simp [blockNotifySend, boundEq]

theorem deliver_eq_some {position : ℕ} {output : Option (ℕ × Notification)}
    (delivered : feed.deliver position = some (next, output)) :
    ∃ message box, feed.box.take position = some (message, box) ∧ output = some message ∧
      next = { feed with box, currentWork := message.2.tmpl } := by
  simp only [deliver, Option.bind_eq_bind, Option.bind_eq_some_iff] at delivered
  rcases delivered with ⟨⟨message, box⟩, takes, delivered⟩
  simp only [Option.pure_def, Option.some.injEq, Prod.mk.injEq] at delivered
  exact ⟨message, box, takes, delivered.2.symm, delivered.1.symm⟩

theorem turn_of_step {event : Event} {output : Option (ℕ × Notification)}
    (stepped : step setting feed event = some (next, output)) : Turn feed next output := by
  cases event with
  | getinfo reply =>
      simp only [step] at stepped
      split at stepped
      · split at stepped
        · cases stepped
          exact .waits (UInt32.le_refl _) rfl rfl rfl rfl rfl
        · split at stepped
          · rename_i higher
            cases stepped
            exact .waits (UInt32.le_of_lt higher) rfl rfl rfl rfl rfl
          · cases stepped
            exact .waits (UInt32.le_refl _) rfl rfl rfl rfl rfl
      · cases stepped
  | checkUpdates daemons =>
      simp only [step] at stepped
      split at stepped
      · cases stepped
        exact turn_of_update daemons .updated _
      · cases stepped
  | checkNotifies =>
      simp only [step] at stepped
      split at stepped
      · cases stepped
        exact turn_of_blockNotifySend true .idle _
      · cases stepped
  | timerUpdates daemons =>
      simp only [step] at stepped
      split at stepped
      · cases stepped
        exact turn_of_update daemons _ true
      · cases stepped
  | timerNotifies =>
      simp only [step] at stepped
      split at stepped
      · cases stepped
        exact turn_of_blockNotifySend false _ false
      · cases stepped
  | bind =>
      simp only [step] at stepped
      split at stepped
      · rcases deliver_eq_some stepped with ⟨message, box, takes, rfl, rfl⟩
        exact .executes rfl rfl (Or.inr ⟨rfl, rfl⟩) takes rfl
      · cases stepped
  | deliver position =>
      rcases deliver_eq_some stepped with ⟨message, box, takes, rfl, rfl⟩
      exact .executes rfl rfl (Or.inl ⟨rfl, rfl⟩) takes rfl

/-- The construction of the stratum server sets its work to the current template. -/
theorem bind_eq_some {output : Option (ℕ × Notification)}
    (bound : step setting feed .bind = some (next, output)) :
    feed.bound = false ∧ output = some (feed.box.posted.length, ⟨feed.tmpl, true⟩) ∧
      next.bound = true ∧ next.tmpl = feed.tmpl ∧ next.currentWork = feed.tmpl ∧
      next.box.waiting = feed.box.waiting := by
  simp only [step] at bound
  split at bound
  · rename_i unbound
    rcases deliver_eq_some bound with ⟨message, box, takes, rfl, rfl⟩
    rcases Mailbox.take_eq_some takes with ⟨messageEq, rfl⟩
    simp only [Mailbox.post, List.getElem?_concat_length, Option.some.injEq] at messageEq
    subst messageEq
    refine ⟨unbound.1, rfl, rfl, rfl, rfl, ?_⟩
    simp [Mailbox.post, List.eraseIdx_append_of_length_le]
  · cases bound

/-- A step that leaves the stratum server unbound posts nothing. -/
theorem unbound_of_turn {output : Option (ℕ × Notification)} (turn : Turn feed next output)
    (unbound : next.bound = false) :
    feed.bound = false ∧ (feed.box = .new → next.box = .new) := by
  cases turn with
  | waits higher curBlockTmpl bound tmpl box work =>
      exact ⟨bound.symm.trans unbound, fun isNew => box.trans isNew⟩
  | stores daemon block mgr bound tmpl box work =>
      exact ⟨bound.symm.trans unbound, fun isNew => box.trans isNew⟩
  | posts newBlock mgr bound tmpl box work =>
      rw [bound] at unbound
      cases unbound
  | executes mgr tmpl opens takes work =>
      rcases opens with ⟨rfl, bound⟩ | ⟨_, bound⟩
      · refine ⟨bound.symm.trans unbound, fun isNew => ?_⟩
        rw [isNew] at takes
        cases takes
      · rw [bound] at unbound
        cases unbound

/-- Before the stratum server is bound nothing is posted. -/
theorem box_of_run (run : Run setting trace last) (unbound : last.bound = false) :
    last.box = .new := by
  refine run.invariant (fun _ last => last.bound = false → last.box = .new) (fun _ => True)
    (fun _ _ => trivial) (fun _ => rfl) ?_ unbound
  intro trace entry held _ stepped unbound
  rcases unbound_of_turn (turn_of_step stepped) unbound with ⟨boundEq, keeps⟩
  exact keeps (held boundEq)

/-! ## Work in the order of its templates -/

/-- The work is never set to a template for a lower height than that of earlier work. -/
def NeverBack (height : Template → ℤ) (trace : List Entry) : Prop :=
  trace.Pairwise fun first second =>
    ∀ old ∈ first.after.currentWork, ∀ new ∈ second.after.currentWork, height old ≤ height new

instance (height : Template → ℤ) : DecidablePred (NeverBack height) :=
  fun trace => inferInstanceAs (Decidable (trace.Pairwise _))

/-- Work never goes back, and ends at the template posted last. -/
structure Advances (height : Template → ℤ) (trace : List Entry) (feed : WorkFeed) : Prop where
  neverBack : NeverBack height trace
  delivered : feed.box.waiting = [] →
    feed.currentWork = feed.box.posted.getLast?.bind Notification.tmpl

/-- The height of a template, below all heights when there is none. -/
def reach (height : Template → ℤ) : Option Template → WithBot ℤ
  | none => ⊥
  | some tmpl => height tmpl

/-- A step does not replace the template by one for a lower height. -/
def Rises (height : Template → ℤ) (entry : Entry) : Prop :=
  ∀ old ∈ entry.before.tmpl, ∀ new ∈ entry.after.tmpl, height old ≤ height new

instance (height : Template → ℤ) : DecidablePred (Rises height) :=
  fun entry => inferInstanceAs
    (Decidable (∀ old ∈ entry.before.tmpl, ∀ new ∈ entry.after.tmpl, height old ≤ height new))

/-- What holds of every reachable state. -/
structure Feeds (executed : List (ℕ × Notification)) (feed : WorkFeed) : Prop where
  curBlockTmpl : feed.tmpl.map Template.block = feed.mgr.curBlockTmpl
  newest : ∀ tmpl ∈ feed.tmpl, tmpl.blockHeight ≤ feed.mgr.blockHeight
  history : Mailbox.History executed feed.box
  work : feed.currentWork = (executed.getLast?.map fun message => message.2.tmpl).join

theorem feeds_of_turn {executed : List (ℕ × Notification)} {output : Option (ℕ × Notification)}
    (feeds : Feeds executed feed) (turn : Turn feed next output) :
    Feeds (executed ++ output.toList) next := by
  cases turn with
  | waits higher curBlockTmpl _ tmpl box work =>
      simp only [Option.toList_none, List.append_nil]
      constructor
      · rw [tmpl, curBlockTmpl, feeds.curBlockTmpl]
      · intro newest newestMem
        rw [tmpl] at newestMem
        exact UInt32.le_trans (feeds.newest newest newestMem) higher
      · rw [box]
        exact feeds.history
      · rw [work, feeds.work]
  | stores daemon block mgr _ tmpl box work =>
      simp only [Option.toList_none, List.append_nil]
      constructor
      · rw [tmpl, mgr, Option.map_some]
      · intro newest newestMem
        rw [tmpl, Option.mem_some_iff] at newestMem
        rw [mgr, ← newestMem]
        exact UInt32.le_refl _
      · rw [box]
        exact feeds.history
      · rw [work, feeds.work]
  | posts newBlock mgr _ tmpl box work =>
      simp only [Option.toList_none, List.append_nil]
      constructor
      · rw [tmpl, mgr, feeds.curBlockTmpl]
      · rw [tmpl, mgr]
        exact feeds.newest
      · rw [box]
        exact feeds.history.post _
      · rw [work, feeds.work]
  | @executes message opened position mgr tmpl opens takes work =>
      have openedHistory : Mailbox.History executed opened := by
        rcases opens with ⟨rfl, _⟩ | ⟨rfl, _⟩
        · exact feeds.history
        · exact feeds.history.post _
      constructor
      · rw [tmpl, mgr, feeds.curBlockTmpl]
      · rw [tmpl, mgr]
        exact feeds.newest
      · exact openedHistory.take takes
      · rw [work, Option.toList_some, List.getLast?_concat]
        rfl

theorem executed_concat (entry : Entry) :
    executed (trace ++ [entry]) = executed trace ++ entry.output.toList := by
  rw [executed, List.filterMap_append, ← executed]
  cases outputEq : entry.output <;> simp [outputEq]

theorem feeds_new : Feeds [] new :=
  ⟨rfl, by simp [new], .new, rfl⟩

theorem feeds_of_run (run : Run setting trace last) : Feeds (executed trace) last := by
  refine run.invariant (fun trace last => Feeds (executed trace) last) (fun _ => True)
    (fun _ _ => trivial) feeds_new ?_
  intro trace entry feeds _ stepped
  rw [executed_concat]
  exact feeds_of_turn feeds (turn_of_step stepped)

/-- Templates are posted in the order of their heights. -/
structure Climbs (height : Template → ℤ) (feed : WorkFeed) : Prop where
  posted : (feed.box.posted.map Notification.tmpl).Pairwise fun first second =>
    reach height first ≤ reach height second
  newest : ∀ notification ∈ feed.box.posted,
    reach height notification.tmpl ≤ reach height feed.tmpl

theorem climbs_of_post {height : Template → ℤ} {newBlock : Bool} (climbs : Climbs height feed)
    (tmpl : next.tmpl = feed.tmpl)
    (posted : next.box.posted = feed.box.posted ++ [⟨feed.tmpl, newBlock⟩]) :
    Climbs height next := by
  constructor
  · rw [posted, List.map_append, List.pairwise_append]
    refine ⟨climbs.posted, by simp, ?_⟩
    intro first firstMem second secondMem
    rcases List.mem_map.mp firstMem with ⟨notification, notificationMem, rfl⟩
    simp only [List.map_cons, List.map_nil, List.mem_singleton] at secondMem
    rw [secondMem]
    exact climbs.newest notification notificationMem
  · intro notification notificationMem
    rw [posted, List.mem_append, List.mem_singleton] at notificationMem
    rw [tmpl]
    rcases notificationMem with old | rfl
    · exact climbs.newest notification old
    · exact le_rfl

theorem climbs_of_turn {height : Template → ℤ} {output : Option (ℕ × Notification)}
    (rises : reach height feed.tmpl ≤ reach height next.tmpl) (climbs : Climbs height feed)
    (turn : Turn feed next output) : Climbs height next := by
  have unposted : next.box.posted = feed.box.posted → Climbs height next := by
    intro posted
    constructor
    · rw [posted]
      exact climbs.posted
    · rw [posted]
      exact fun notification notificationMem =>
        (climbs.newest notification notificationMem).trans rises
  cases turn with
  | waits higher curBlockTmpl _ tmpl box work => exact unposted (by rw [box])
  | stores daemon block mgr _ tmpl box work => exact unposted (by rw [box])
  | posts newBlock mgr _ tmpl box work =>
      exact climbs_of_post climbs tmpl (by rw [box, Mailbox.post])
  | executes mgr tmpl opens takes work =>
      rcases Mailbox.take_eq_some takes with ⟨_, box⟩
      rcases opens with ⟨rfl, _⟩ | ⟨rfl, _⟩
      · exact unposted (by rw [box])
      · exact climbs_of_post climbs tmpl (by rw [box, Mailbox.post])

theorem reach_le_reach {height : Template → ℤ} {output : Option (ℕ × Notification)}
    (turn : Turn feed next output)
    (rises : ∀ old ∈ feed.tmpl, ∀ new ∈ next.tmpl, height old ≤ height new) :
    reach height feed.tmpl ≤ reach height next.tmpl := by
  have kept : next.tmpl = feed.tmpl → reach height feed.tmpl ≤ reach height next.tmpl :=
    fun same => by rw [same]
  cases turn with
  | waits higher curBlockTmpl _ tmpl box work => exact kept tmpl
  | stores daemon block mgr _ tmpl box work =>
      cases oldEq : feed.tmpl with
      | none => exact bot_le
      | some old =>
          rw [tmpl]
          exact WithBot.coe_le_coe.mpr (rises old oldEq _ tmpl)
  | posts newBlock mgr _ tmpl box work => exact kept tmpl
  | executes mgr tmpl opens takes work => exact kept tmpl

theorem rises_of_turn {executed : List (ℕ × Notification)} {output : Option (ℕ × Notification)}
    (feeds : Feeds executed feed) (turn : Turn feed next output) :
    ∀ old ∈ feed.tmpl, ∀ new ∈ next.tmpl,
      (old.blockHeight.toNat : ℤ) ≤ new.blockHeight.toNat := by
  intro old oldMem new newMem
  have kept : next.tmpl = feed.tmpl → (old.blockHeight.toNat : ℤ) ≤ new.blockHeight.toNat := by
    intro same
    rw [same, Option.mem_def.mp oldMem, Option.mem_some_iff] at newMem
    rw [newMem]
  cases turn with
  | waits higher curBlockTmpl _ tmpl box work => exact kept tmpl
  | stores daemon block mgr _ tmpl box work =>
      rw [tmpl, Option.mem_some_iff] at newMem
      rw [← newMem]
      exact Int.ofNat_le.mpr (UInt32.le_iff_toNat_le.mp (feeds.newest old oldMem))
  | posts newBlock mgr _ tmpl box work => exact kept tmpl
  | executes mgr tmpl opens takes work => exact kept tmpl

theorem rises_of_run (run : Run setting trace last) :
    ∀ entry ∈ trace, Rises (fun tmpl => tmpl.blockHeight.toNat) entry := by
  intro entry entryMem
  rcases run.before_of_mem entryMem with ⟨earlier, _, _, runBefore, stepped⟩
  exact rises_of_turn (feeds_of_run runBefore) (turn_of_step stepped)

theorem climbs_of_run {height : Template → ℤ} (run : Run setting trace last)
    (rises : ∀ entry ∈ trace, Rises height entry) : Climbs height last := by
  refine run.invariant (fun _ last => Climbs height last) (Rises height) rises ?_ ?_
  · exact ⟨by simp [new, Mailbox.new], by simp [new, Mailbox.new]⟩
  · intro trace entry climbs entryRises stepped
    have turn := turn_of_step stepped
    exact climbs_of_turn (reach_le_reach turn entryRises) climbs turn

/-- The heights of the executed notifications do not fall. -/
def Ascends (height : Template → ℤ) (executed : List (ℕ × Notification)) : Prop :=
  (executed.map fun message => message.2.tmpl).Pairwise fun first second =>
    reach height first ≤ reach height second

theorem work_le_of_turn {height : Template → ℤ} {executed : List (ℕ × Notification)}
    {output : Option (ℕ × Notification)} (feeds : Feeds executed feed)
    (ascends : Ascends height (executed ++ output.toList)) (turn : Turn feed next output) :
    reach height feed.currentWork ≤ reach height next.currentWork := by
  cases turn with
  | waits higher curBlockTmpl _ tmpl box work => rw [work]
  | stores daemon block mgr _ tmpl box work => rw [work]
  | posts newBlock mgr _ tmpl box work => rw [work]
  | @executes message opened position mgr tmpl opens takes work =>
      rw [feeds.work, work]
      cases executed.eq_nil_or_concat' with
      | inl nothing =>
          rw [nothing]
          exact bot_le
      | inr concat =>
          rcases concat with ⟨earlier, latest, executedEq⟩
          rw [executedEq, List.getLast?_concat]
          rw [Ascends, executedEq, List.map_append, List.pairwise_append] at ascends
          exact ascends.2.2 latest.2.tmpl (by simp) message.2.tmpl (by simp)

theorem neverBack_of_ascends {height : Template → ℤ} (run : Run setting trace last)
    (ascends : Ascends height (executed trace)) : NeverBack height trace := by
  refine (run.invariant (fun trace last => Ascends height (executed trace) →
    (∀ entry ∈ trace, reach height entry.after.currentWork ≤ reach height last.currentWork) ∧
      NeverBack height trace ∧ Feeds (executed trace) last)
    (fun _ => True) (fun _ _ => trivial) ?_ ?_ ascends).2.1
  · exact fun _ => ⟨by simp, .nil, feeds_new⟩
  intro trace entry held _ stepped ascends
  rw [executed_concat] at ascends ⊢
  have before : Ascends height (executed trace) := by
    rw [Ascends, List.map_append] at ascends
    exact (List.pairwise_append.mp ascends).1
  rcases held before with ⟨below, neverBack, feeds⟩
  have turn := turn_of_step stepped
  have climbs := work_le_of_turn feeds ascends turn
  refine ⟨?_, ?_, feeds_of_turn feeds turn⟩
  · intro other otherMem
    rw [List.mem_append, List.mem_singleton] at otherMem
    rcases otherMem with old | rfl
    · exact (below other old).trans climbs
    · exact le_rfl
  · rw [NeverBack, List.pairwise_append]
    refine ⟨neverBack, by simp, ?_⟩
    intro first firstMem second secondMem old oldWork new newWork
    rw [List.mem_singleton] at secondMem
    have ordered := (below first firstMem).trans climbs
    rw [secondMem] at newWork
    rw [Option.mem_def.mp oldWork, Option.mem_def.mp newWork] at ordered
    exact WithBot.coe_le_coe.mp ordered

theorem advances_of_rises {height : Template → ℤ} (run : Run setting trace last)
    (inOrder : Mailbox.InOrder Notification.tmpl (executed trace))
    (rises : ∀ entry ∈ trace, Rises height entry) : Advances height trace last := by
  have feeds := feeds_of_run run
  constructor
  · apply neverBack_of_ascends run
    exact feeds.history.related (fun _ => le_rfl) inOrder (climbs_of_run run rises).posted
  · intro nothingWaits
    rw [feeds.work, feeds.history.last inOrder nothingWaits]
    cases last.box.posted.getLast? <;> rfl

/--
Where no notification is executed behind one that was posted later and carries another
template, the work advances by the heights that the coinbases name, and by those of the
daemons' replies unless a template for a lower height is stored.
-/
theorem work_advances (run : Run setting trace last)
    (inOrder : Mailbox.InOrder Notification.tmpl (executed trace)) :
    Advances (fun tmpl => tmpl.blockHeight.toNat) trace last ∧
      ((∀ entry ∈ trace, Rises Template.height entry) → Advances Template.height trace last) :=
  ⟨advances_of_rises run inOrder (rises_of_run run), advances_of_rises run inOrder⟩

/-! ## A sample feed -/

namespace Sample

open NetworkMgr.Sample (setting daemon getinfo)

/-- The template of height 100 is on its way when the daemon reports a new block. -/
def opening : List Event :=
  [.getinfo (getinfo 100), .checkUpdates [daemon 100], .checkNotifies, .bind,
    .timerUpdates [daemon 100], .timerNotifies,
    .getinfo (getinfo 101), .checkUpdates [daemon 101], .checkNotifies]

end Sample

/-- The notifications are executed in the order in which they were posted. -/
theorem work_advances_sample :
    ∃ trace last, Run NetworkMgr.Sample.setting trace last ∧
      trace.map RunTrace.Entry.event = Sample.opening ++ [.deliver 0, .deliver 0] ∧
      Advances (fun tmpl => tmpl.blockHeight.toNat) trace last ∧
      Advances Template.height trace last := by
  have found : ∃ result ∈ replay (step NetworkMgr.Sample.setting) new
      (Sample.opening ++ [.deliver 0, .deliver 0]),
      ((executed result.1).map Prod.fst).Pairwise (· ≤ ·) ∧
      ∀ entry ∈ result.1, Rises Template.height entry := by
    decide +kernel
  rcases found with ⟨⟨trace, last⟩, replayed, places, rises⟩
  have run : Run NetworkMgr.Sample.setting trace last := .ofReplay replayed
  have inOrder := Mailbox.inOrder_of_places Notification.tmpl places
  have advances := work_advances run inOrder
  exact ⟨trace, last, run, map_event_replay replayed, advances.1, advances.2 rises⟩

/-- The notification of the new block is executed first. -/
theorem exists_work_back :
    ∃ trace last, Run NetworkMgr.Sample.setting trace last ∧
      trace.map RunTrace.Entry.event = Sample.opening ++ [.deliver 1, .deliver 0] ∧
      ¬NeverBack (fun tmpl => tmpl.blockHeight.toNat) trace ∧ ¬NeverBack Template.height trace ∧
      last.box.waiting = [] ∧
      last.currentWork ≠ last.box.posted.getLast?.bind Notification.tmpl := by
  have found : ∃ result ∈ replay (step NetworkMgr.Sample.setting) new
      (Sample.opening ++ [.deliver 1, .deliver 0]),
      ¬NeverBack (fun tmpl => tmpl.blockHeight.toNat) result.1 ∧
      ¬NeverBack Template.height result.1 ∧ result.2.box.waiting.length = 0 ∧
      result.2.currentWork.map Template.number ≠
        (result.2.box.posted.getLast?.bind Notification.tmpl).map Template.number := by
    decide +kernel
  rcases found with ⟨⟨trace, last⟩, replayed, back, backByReply, nothingWaits, stale⟩
  refine ⟨trace, last, .ofReplay replayed, map_event_replay replayed, back, backByReply,
    List.length_eq_zero_iff.mp nothingWaits, ?_⟩
  exact fun same => stale (by rw [same])

end WorkFeed

end Poolserver
