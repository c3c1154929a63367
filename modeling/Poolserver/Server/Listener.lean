import Poolserver.Server.Pool
import Poolserver.Stratum.Session

/-!
# Accepting connections

The stratum server with the list of bans and the accept handler, which starts a client, that is
looked up in the list first, and inserts it into the set of clients in a step of its own: between
the two the client can be served and misses what is sent to all. A ban is an entry for the address
of a client, noted by the share limiter; entries are never removed.
-/

namespace Poolserver

open RunTrace

namespace Stratum

structure BanInfo where
  ip : UInt32
  timestamp : UInt64
  deriving DecidableEq, Repr

/-- `Server::IsBanned` at a date. -/
def isBanned (bans : List BanInfo) (ip date : UInt32) : Bool :=
  bans.any fun ban => ban.ip = ip && decide (date.toUInt64 < ban.timestamp)

/-- What `Server::Ban` notes in a call whose effects these are. -/
def bansOf (date : UInt32) (effects : List Effect) : List BanInfo :=
  effects.filterMap fun
    | .ban ip time => some ⟨ip, date.toUInt64 + time.toUInt64⟩
    | _ => none

end Stratum

structure Listener where
  server : Stratum.Server
  bans : List Stratum.BanInfo
  /-- The client that is started and not inserted yet. -/
  accepting : Option ℕ

namespace Listener

open Stratum

def new : Listener where
  server := .new
  bans := []
  accepting := none

/-- A handler with what it finds; dates are those that the list of bans is used at. -/
inductive Event where
  /-- `_OnAccept`, with an error or an exception in `Start` if there is no connection. -/
  | accept (arrival : Option (Connection × UInt32))
  /-- `_clients.insert`, at the end of `_OnAccept`. -/
  | insert
  | receive (id : ℕ) (msg : JSON) (env : Env) (date : UInt32)
  /-- A read or a send fails, or a message is too long. -/
  | disconnect (id : ℕ)
  | blockNotify (notification : Notification)
  /-- A posted `SendJob`, as if it ran in the strand of its client. -/
  | runPosted (position : ℕ) (env : Env) (date : UInt32)

inductive Outcome where
  | quiet
  | refused
  | started
  | called (call : Server.Call)

variable (setting : Setting)

/-- A call of a client, which may note bans. -/
def call (listener : Listener) (server : Server) (id : ℕ) (action : Action) (env : Env)
    (date : UInt32) : Option (Listener × Outcome) := do
  let (server, called) ← server.call setting id action env
  match called with
  | none => return ({ listener with server }, .quiet)
  | some (id, clientEntry) =>
      let bans := listener.bans ++ bansOf date clientEntry.output.effects
      return ({ listener with server, bans }, .called (id, clientEntry))

def step (listener : Listener) : Event → Option (Listener × Outcome)
  | .accept arrival =>
      if listener.accepting = none then
        match arrival with
        | none => some (listener, .quiet)
        | some (connection, date) =>
            if isBanned listener.bans connection.ip date then some (listener, .refused)
            else
              let client := Client.new setting.config connection
              let server := { listener.server with clients := listener.server.clients ++ [client] }
              some ({ listener with
                server, accepting := some listener.server.clients.length }, .started)
      else none
  | .insert => do
      let id ← listener.accepting
      let server := { listener.server with connected := listener.server.connected ++ [id] }
      return ({ listener with server, accepting := none }, .quiet)
  | .receive id msg env date => listener.call setting listener.server id (.message msg) env date
  | .disconnect id =>
      let server := { listener.server with connected := listener.server.connected.erase id }
      some ({ listener with server }, .quiet)
  | .blockNotify notification =>
      some ({ listener with server := listener.server.blockNotify notification }, .quiet)
  | .runPosted position env date => do
      let (id, clean) ← listener.server.posted[position]?
      let server := { listener.server with posted := listener.server.posted.eraseIdx position }
      listener.call setting server id (.sendJob clean) env date

abbrev Entry := RunTrace.Entry Listener Event Outcome

abbrev Run : List Entry → Listener → Prop :=
  RunTrace.Run (step setting) new

variable {setting} {listener next : Listener} {trace : List Entry} {last : Listener}

/-! ## What a step does -/

/-- The call that an event makes, on the server without the posted call. -/
inductive Asks (listener : Listener) :
    Event → ℕ → Stratum.Event → UInt32 → Server → Prop where
  | receive (id : ℕ) (msg : JSON) (env : Env) (date : UInt32) :
      Asks listener (.receive id msg env date) id ⟨.message msg, env⟩ date listener.server
  | posted {position id : ℕ} {clean : Bool} (env : Env) (date : UInt32)
      (postedAt : listener.server.posted[position]? = some (id, clean)) :
      Asks listener (.runPosted position env date) id ⟨.sendJob clean, env⟩ date
        { listener.server with posted := listener.server.posted.eraseIdx position }

inductive Turn (setting : Setting) (listener : Listener) : Event → Listener → Outcome → Prop where
  | fails (free : listener.accepting = none) : Turn setting listener (.accept none) listener .quiet
  | refuses {connection : Connection} {date : UInt32} (free : listener.accepting = none)
      (banned : isBanned listener.bans connection.ip date = true) :
      Turn setting listener (.accept (some (connection, date))) listener .refused
  | starts {connection : Connection} {date : UInt32} {server : Server}
      (free : listener.accepting = none)
      (welcome : isBanned listener.bans connection.ip date = false)
      (serverEq : server = { listener.server with
        clients := listener.server.clients ++ [Client.new setting.config connection] }) :
      Turn setting listener (.accept (some (connection, date)))
        { listener with server, accepting := some listener.server.clients.length } .started
  | inserts {id : ℕ} {server : Server} (accepting : listener.accepting = some id)
      (serverEq : server = { listener.server with
        connected := listener.server.connected ++ [id] }) :
      Turn setting listener .insert { listener with server, accepting := none } .quiet
  | leaves {id : ℕ} {server : Server}
      (serverEq : server = { listener.server with
        connected := listener.server.connected.erase id }) :
      Turn setting listener (.disconnect id) { listener with server } .quiet
  | notified (notification : Notification) :
      Turn setting listener (.blockNotify notification)
        { listener with server := listener.server.blockNotify notification } .quiet
  | calls {event : Event} {id : ℕ} {asked : Stratum.Event} {date : UInt32} {opened server : Server}
      {clientEntry : ClientEntry} (asks : Asks listener event id asked date opened)
      (called : opened.call setting id asked.action asked.env =
        some (server, some (id, clientEntry))) :
      Turn setting listener event
        { listener with
          server, bans := listener.bans ++ bansOf date clientEntry.output.effects }
        (.called (id, clientEntry))

theorem turn_of_call {event : Event} {id : ℕ} {asked : Stratum.Event} {date : UInt32}
    {opened : Server} {outcome : Outcome} (asks : Asks listener event id asked date opened)
    (called : listener.call setting opened id asked.action asked.env date =
      some (next, outcome)) : Turn setting listener event next outcome := by
  simp only [call, Option.bind_eq_bind, Option.bind_eq_some_iff] at called
  rcases called with ⟨⟨server, result⟩, calls, called⟩
  rcases Server.call_eq_some calls with ⟨clientEntry, rfl, _⟩
  simp only [Option.pure_def, Option.some.injEq, Prod.mk.injEq] at called
  rcases called with ⟨rfl, rfl⟩
  exact .calls asks calls

theorem turn_of_step {event : Event} {outcome : Outcome}
    (stepped : listener.step setting event = some (next, outcome)) :
    Turn setting listener event next outcome := by
  cases event with
  | accept arrival =>
      simp only [step] at stepped
      split at stepped
      · rename_i free
        split at stepped
        · rw [Option.some.injEq, Prod.mk.injEq] at stepped
          rcases stepped with ⟨rfl, rfl⟩
          exact .fails free
        · split at stepped
          · rename_i banned
            rw [Option.some.injEq, Prod.mk.injEq] at stepped
            rcases stepped with ⟨rfl, rfl⟩
            exact .refuses free banned
          · rename_i welcome
            rw [Option.some.injEq, Prod.mk.injEq] at stepped
            rcases stepped with ⟨rfl, rfl⟩
            exact .starts free (Bool.eq_false_iff.mpr welcome) rfl
      · cases stepped
  | insert =>
      simp only [step, Option.bind_eq_bind, Option.bind_eq_some_iff] at stepped
      rcases stepped with ⟨id, accepting, stepped⟩
      simp only [Option.pure_def, Option.some.injEq, Prod.mk.injEq] at stepped
      rcases stepped with ⟨rfl, rfl⟩
      exact .inserts accepting rfl
  | receive id msg env date => exact turn_of_call (.receive id msg env date) stepped
  | disconnect id =>
      rw [step, Option.some.injEq, Prod.mk.injEq] at stepped
      rcases stepped with ⟨rfl, rfl⟩
      exact .leaves rfl
  | blockNotify notification =>
      rw [step, Option.some.injEq, Prod.mk.injEq] at stepped
      rcases stepped with ⟨rfl, rfl⟩
      exact .notified notification
  | runPosted position env date =>
      simp only [step, Option.bind_eq_bind, Option.bind_eq_some_iff] at stepped
      rcases stepped with ⟨⟨id, clean⟩, postedAt, stepped⟩
      exact turn_of_call (.posted env date postedAt) stepped

/-- A replaced item that looks like the old one. -/
theorem map_set_of_same {α β : Type} {look : α → β} {items : List α} {position : ℕ} {old item : α}
    (oldAt : items[position]? = some old) (same : look item = look old) :
    (items.set position item).map look = items.map look := by
  rcases List.getElem?_eq_some_iff.mp oldAt with ⟨inside, rfl⟩
  have inMap : position < (items.map look).length := by simpa using inside
  have seen : (items.map look)[position] = look items[position] := List.getElem_map look
  rw [List.map_set, same, ← seen, List.set_getElem_self]

/-! ## What a call bans -/

/-- The address stays as it is, and only clients that are disconnected are banned. -/
structure Bears (client : Client) (effects : List Effect) (next : Client) : Prop where
  ip : next.ip = client.ip
  bans : ∀ ip time, Effect.ban ip time ∈ effects → .disconnect ∈ effects

section Calls

variable {env : Env} {client changed : Client} {effects : List Effect} {output : Output}

/-- Effects that are no bans. -/
theorem Bears.of_harmless (ip : changed.ip = client.ip)
    (harmless : ∀ ip time, Effect.ban ip time ∉ effects) : Bears client effects changed :=
  ⟨ip, fun ip time banned => absurd banned (harmless ip time)⟩

theorem Bears.of_path (path : Path Bears client effects changed) : Bears client effects changed := by
  have held := path.invariant
    (fun log state => state.ip = client.ip ∧
      ∀ ip time, Effect.ban ip time ∈ log → .disconnect ∈ log)
    (by
      intro log labels state after held moved
      refine ⟨moved.ip.trans held.1, ?_⟩
      intro ip time banned
      rw [List.mem_append] at banned ⊢
      exact banned.imp (held.2 ip time) (moved.bans ip time))
    ⟨rfl, fun _ _ banned => absurd banned List.not_mem_nil⟩
  exact ⟨held.1, held.2⟩

theorem act_bears (act : Client.Act env client effects changed) : Bears client effects changed := by
  cases act with
  | turn turns =>
      cases turns with
      | count limiter total bad => exact .of_harmless rfl (by simp)
      | ban time => exact ⟨rfl, fun _ _ _ => by simp [Client.ban]⟩
  | reply replies => exact .of_harmless rfl (by simp)
  | @perform effect plain =>
      refine .of_harmless rfl ?_
      intro ip time banned
      rw [← List.mem_singleton.mp banned] at plain
      exact plain
  | refuse bad => exact .of_harmless rfl (by simp)
  | enlist username password found => exact .of_harmless rfl (by simp)
  | setMinDiff minDiff => exact .of_harmless rfl (by simp)
  | submitShare share jobAt => exact .of_harmless rfl (by simp)

theorem changesDiff_bears (changes : Client.ChangesDiff client effects changed) :
    Bears client effects changed := by
  cases changes
  exact .of_harmless rfl (by simp)

theorem sendsJob_bears (sends : Client.SendsJob env client effects changed) :
    Bears client effects changed := by
  cases sends with
  | intro clean issued branchEq => exact .of_harmless (by cases clean <;> rfl) (by simp)

theorem acts_bear (acts : Client.Acts env client effects changed) : Bears client effects changed :=
  .of_path (acts.toPath act_bears changesDiff_bears sendsJob_bears)

theorem handles_bear {event : Stratum.Event}
    (handles : Client.Handles setting event client effects changed) :
    Bears client effects changed := by
  cases handles with
  | submission actionEq methodEq does =>
      rcases does with path | ⟨addr, _, limited⟩
      · exact .of_path (path.mono act_bears)
      · exact acts_bear limited.acts
  | @subscription msg sent _ actionEq methodEq sends =>
      have bears := sendsJob_bears sends
      refine ⟨bears.ip, fun ip time banned => List.mem_cons_of_mem _ (bears.bans ip time ?_)⟩
      rcases List.mem_cons.mp banned with message | later
      · cases message
      · exact later
  | other actionEq notSubmit notSubscribe authorizes => exact acts_bear authorizes.acts
  | sendJob actionEq sends => exact sendsJob_bears sends

/-- The handled message makes the share limiter ban the client. -/
def Bars (setting : Setting) (env : Env) (action : Action) (client : Client) : Prop :=
  ∃ msg, action = .message msg ∧ Client.AsksLimiter env msg client ∧ Client.BansMiner setting env client

theorem bansOf_eq_nil (date : UInt32) (harmless : ∀ ip time, Effect.ban ip time ∉ effects) :
    bansOf date effects = [] := by
  rw [bansOf, List.filterMap_eq_nil_iff]
  intro effect effectMem
  cases effect with
  | ban ip time => exact absurd effectMem (harmless ip time)
  | _ => rfl

/-- A call notes a ban of ten minutes, or none. -/
theorem bansOf_step {event : Stratum.Event} (date : UInt32)
    (stepped : client.step setting event = some (changed, output)) :
    (Bars setting event.env event.action client ∧ .disconnect ∈ output.effects ∧
        bansOf date output.effects = [⟨client.ip, date.toUInt64 + 600⟩]) ∨
      (¬Bars setting event.env event.action client ∧ bansOf date output.effects = []) := by
  have bears := handles_bear (Client.step_handles stepped)
  have harmless : .disconnect ∉ output.effects → bansOf date output.effects = [] := by
    intro stays
    exact bansOf_eq_nil date fun ip time banned => stays (bears.bans ip time banned)
  cases Client.step_ends stepped with
  | @sendJob clean sent next actionEq sends =>
      refine .inr ⟨?_, ?_⟩
      · rintro ⟨msg, isMessage, _⟩
        rw [actionEq] at isMessage
        cases isMessage
      · apply bansOf_eq_nil
        intro ip time banned
        cases Client.sendJob_announces sends _ banned
  | @message msg outcome actionEq done =>
      rcases Session.onMessage_disconnects done with ⟨⟨asks, bans⟩, reply, effectsEq⟩ | ⟨spares, stays⟩
      · refine .inl ⟨⟨msg, actionEq, asks, bans⟩, ?_, ?_⟩
        · rw [effectsEq]
          simp [Client.ban]
        · rw [effectsEq]
          rfl
      · refine .inr ⟨?_, harmless stays⟩
        rintro ⟨other, isMessage, both⟩
        rw [actionEq, Action.message.injEq] at isMessage
        subst isMessage
        exact spares both

end Calls

/-! ## The calls of a step -/

/-- What a call finds, with what the server has for it. -/
def lends (server : Server) (env : Env) : Env :=
  { env with work := server.currentWork, extranonce := server.extranonce }

/-- What a call of a client finds and changes. -/
structure Called (setting : Setting) (opened : Server) (id : ℕ) (asked : Stratum.Event)
    (server : Server) (clientEntry : ClientEntry) : Prop where
  eventEq : clientEntry.event = ⟨asked.action, lends opened asked.env⟩
  clientAt : opened.clients[id]? = some clientEntry.before
  stepped : clientEntry.before.step setting clientEntry.event =
    some (clientEntry.after, clientEntry.output)
  clients : server.clients = opened.clients.set id clientEntry.after
  connected : server.connected =
    if Server.disconnects clientEntry.output then opened.connected.erase id else opened.connected
  posted : server.posted = opened.posted
  currentWork : server.currentWork = opened.currentWork

theorem called_of_call {opened server : Server} {id caller : ℕ} {asked : Stratum.Event}
    {clientEntry : ClientEntry}
    (called : opened.call setting id asked.action asked.env =
      some (server, some (caller, clientEntry))) :
    Called setting opened id asked server clientEntry := by
  simp only [Server.call, Option.bind_eq_bind, Option.bind_eq_some_iff] at called
  rcases called with ⟨client, clientAt, ⟨after, output⟩, stepped, called⟩
  simp only [Option.pure_def, Option.some.injEq, Prod.mk.injEq] at called
  rcases called with ⟨rfl, rfl, rfl⟩
  exact ⟨rfl, clientAt, stepped, rfl, rfl, rfl, rfl⟩

theorem Asks.clients {event : Event} {id : ℕ} {asked : Stratum.Event} {date : UInt32}
    {opened : Server} (asks : Asks listener event id asked date opened) :
    opened.clients = listener.server.clients ∧ opened.connected = listener.server.connected ∧
      opened.currentWork = listener.server.currentWork ∧
      opened.extranonce = listener.server.extranonce := by
  cases asks with
  | receive id msg env date => exact ⟨rfl, rfl, rfl, rfl⟩
  | posted env date postedAt => exact ⟨rfl, rfl, rfl, rfl⟩

/-! ## Bans -/

/-- A client with the address is banned in a step, by a share that it submits. -/
structure BarsAt (setting : Setting) (listener : Listener) (event : Event) (id : ℕ)
    (ip date : UInt32) : Prop where
  caused : ∃ msg env client, event = .receive id msg env date ∧
    listener.server.clients[id]? = some client ∧ client.ip = ip ∧
    Client.AsksLimiter (lends listener.server env) msg client ∧
    Client.BansMiner setting (lends listener.server env) client

theorem BarsAt.unique {event : Event} {id other : ℕ} {ip otherIp date otherDate : UInt32}
    (bars : BarsAt setting listener event id ip date)
    (again : BarsAt setting listener event other otherIp otherDate) :
    other = id ∧ otherIp = ip ∧ otherDate = date := by
  rcases bars.caused with ⟨_, _, client, eventEq, clientAt, ipEq, _⟩
  rcases again.caused with ⟨_, _, otherClient, otherEq, otherAt, otherIpEq, _⟩
  rw [eventEq, Event.receive.injEq] at otherEq
  rcases otherEq with ⟨rfl, _, _, rfl⟩
  rw [clientAt, Option.some.injEq] at otherAt
  subst otherAt
  exact ⟨rfl, otherIpEq.symm.trans ipEq, rfl⟩

theorem bans_of_turn {event : Event} {outcome : Outcome}
    (turn : Turn setting listener event next outcome) :
    (∃ id ip date, BarsAt setting listener event id ip date ∧
        next.bans = listener.bans ++ [⟨ip, date.toUInt64 + 600⟩] ∧
        next.server.connected = listener.server.connected.erase id ∧
        next.accepting = listener.accepting) ∨
      ((∀ id ip date, ¬BarsAt setting listener event id ip date) ∧
        next.bans = listener.bans) := by
  have noCall : (∀ id msg env date, event ≠ .receive id msg env date) →
      ∀ id ip date, ¬BarsAt setting listener event id ip date := by
    intro other id ip date bars
    rcases bars.caused with ⟨msg, env, _, eventEq, _⟩
    exact other id msg env date eventEq
  cases turn with
  | fails free => exact .inr ⟨noCall (by simp), rfl⟩
  | refuses free banned => exact .inr ⟨noCall (by simp), rfl⟩
  | starts free welcome serverEq => exact .inr ⟨noCall (by simp), rfl⟩
  | inserts accepting serverEq => exact .inr ⟨noCall (by simp), rfl⟩
  | leaves serverEq => exact .inr ⟨noCall (by simp), rfl⟩
  | notified notification => exact .inr ⟨noCall (by simp), rfl⟩
  | @calls event id asked date opened server clientEntry asks called =>
      have calls := called_of_call called
      have clientAt := calls.clientAt
      rw [asks.clients.1] at clientAt
      rcases bansOf_step date calls.stepped with ⟨bars, disconnects, noted⟩ | ⟨spares, noted⟩
      · rcases bars with ⟨msg, actionEq, asksLimiter, bans⟩
        have erased : Server.disconnects clientEntry.output = true :=
          List.any_eq_true.mpr ⟨_, disconnects, rfl⟩
        rw [calls.eventEq] at actionEq asksLimiter bans
        cases asks with
        | receive id msg env date =>
            rw [Action.message.injEq] at actionEq
            subst actionEq
            refine .inl ⟨id, _, date, ⟨_, env, _, rfl, clientAt, rfl, asksLimiter, bans⟩, ?_, ?_, rfl⟩
            · rw [noted]
            · rw [calls.connected, if_pos erased]
        | posted env date postedAt => cases actionEq
      · refine .inr ⟨?_, by rw [noted, List.append_nil]⟩
        intro other ip barDate bars
        rcases bars.caused with ⟨msg, env, client, eventEq, clientEq, _, asksLimiter, bans⟩
        apply spares
        rw [calls.eventEq]
        cases asks with
        | receive id message found date =>
            rw [Event.receive.injEq] at eventEq
            rcases eventEq with ⟨rfl, rfl, rfl, rfl⟩
            rw [clientAt, Option.some.injEq] at clientEq
            rw [← clientEq] at asksLimiter bans
            exact ⟨message, rfl, asksLimiter, bans⟩
        | posted env date postedAt => cases eventEq

/-- The list has the bans of the calls so far, and no others. -/
theorem mem_bans_iff (run : Run setting trace last) (ban : BanInfo) :
    ban ∈ last.bans ↔ ∃ entry ∈ trace, ∃ id date,
      BarsAt setting entry.before entry.event id ban.ip date ∧
        ban.timestamp = date.toUInt64 + 600 := by
  refine run.invariant (fun trace last => ban ∈ last.bans ↔ ∃ entry ∈ trace, ∃ id date,
    BarsAt setting entry.before entry.event id ban.ip date ∧
      ban.timestamp = date.toUInt64 + 600) (fun _ => True) (fun _ _ => trivial)
    (by simp [new]) ?_
  intro trace entry held _ stepped
  have wider : ∀ {Noted : Entry → Prop}, (∃ other ∈ trace ++ [entry], Noted other) ↔
      (∃ other ∈ trace, Noted other) ∨ Noted entry := by
    simp [or_and_right, exists_or]
  rw [wider, ← held]
  rcases bans_of_turn (turn_of_step stepped) with ⟨id, ip, date, bars, bans, _⟩ | ⟨spares, bans⟩
  · rw [bans, List.mem_append, List.mem_singleton]
    apply or_congr_right
    constructor
    · rintro rfl
      exact ⟨id, date, bars, rfl⟩
    · rintro ⟨other, barDate, otherBars, timestamp⟩
      rcases bars.unique otherBars with ⟨_, ipEq, dateEq⟩
      rw [← ipEq, ← dateEq, ← timestamp]
  · rw [bans]
    refine (or_iff_left ?_).symm
    rintro ⟨id, date, bars, _⟩
    exact spares id _ date bars

theorem isBanned_iff {bans : List BanInfo} {ip date : UInt32} :
    isBanned bans ip date = true ↔ ∃ ban ∈ bans, ban.ip = ip ∧ date.toUInt64 < ban.timestamp := by
  simp [isBanned]

/-- The sum of a date and ten minutes has 64 bits. -/
theorem before_timestamp_iff {date barred : UInt32} :
    date.toUInt64 < barred.toUInt64 + 600 ↔ date.toNat < barred.toNat + 600 := by
  have := date.toNat_lt
  have := barred.toNat_lt
  have sum : (barred.toUInt64 + 600).toNat = barred.toNat + 600 := by
    rw [UInt64.toNat_add, UInt32.toNat_toUInt64]
    simp only [UInt64.reduceToNat]
    omega
  rw [UInt64.lt_iff_toNat_lt, sum, UInt32.toNat_toUInt64]

theorem isBanned_iff_of_run (run : Run setting trace last) (ip date : UInt32) :
    isBanned last.bans ip date = true ↔ ∃ entry ∈ trace, ∃ id barred,
      BarsAt setting entry.before entry.event id ip barred ∧ date.toNat < barred.toNat + 600 := by
  rw [isBanned_iff]
  constructor
  · rintro ⟨ban, banMem, rfl, live⟩
    rcases (mem_bans_iff run ban).mp banMem with ⟨entry, entryMem, id, barred, bars, timestamp⟩
    rw [timestamp, before_timestamp_iff] at live
    exact ⟨entry, entryMem, id, barred, bars, live⟩
  · rintro ⟨entry, entryMem, id, barred, bars, live⟩
    refine ⟨⟨ip, barred.toUInt64 + 600⟩, (mem_bans_iff run _).mpr ?_, rfl, ?_⟩
    · exact ⟨entry, entryMem, id, barred, bars, rfl⟩
    · exact before_timestamp_iff.mpr live

/--
In every run a connection is refused exactly if less than ten minutes ago, by the dates that the
handlers read, the share limiter found more than nine in ten of more than 200 shares bad in a share
of a client with the same address; every other connection is started.
-/
theorem admission_exact {earlier later : List Entry} {entry : Entry} {connection : Connection}
    {date : UInt32} (run : Run setting (earlier ++ entry :: later) last)
    (arrives : entry.event = .accept (some (connection, date))) :
    (entry.output = .refused ↔ ∃ other ∈ earlier, ∃ id barred,
      BarsAt setting other.before other.event id connection.ip barred ∧
        date.toNat < barred.toNat + 600) ∧
    (entry.output = .started ↔ entry.output ≠ .refused) := by
  rcases run.split with ⟨runBefore, stepped⟩
  rw [← isBanned_iff_of_run runBefore]
  have turn := turn_of_step stepped
  generalize entry.output = output, entry.after = after at turn
  rw [arrives] at turn
  cases turn with
  | refuses free banned => simp [banned]
  | starts free welcome serverEq => simp [welcome]
  | calls asks called => cases asks

/-! ## While a ban lasts -/

/-- The set has each client once, and not the one that is being accepted. -/
structure Distinct (listener : Listener) : Prop where
  nodup : listener.server.connected.Nodup
  inside : ∀ id ∈ listener.server.connected, id < listener.server.clients.length
  accepting : ∀ id, listener.accepting = some id →
    id ∉ listener.server.connected ∧ id < listener.server.clients.length

/-- A set with fewer clients, of no fewer objects. -/
theorem Distinct.of_sublist (distinct : Distinct listener)
    (sublist : next.server.connected.Sublist listener.server.connected)
    (objects : listener.server.clients.length = next.server.clients.length)
    (accepting : next.accepting = listener.accepting) : Distinct next := by
  refine ⟨sublist.nodup distinct.nodup, ?_, ?_⟩
  · intro id connected
    exact objects ▸ distinct.inside id (sublist.subset connected)
  · intro id isAccepting
    rw [accepting] at isAccepting
    rcases distinct.accepting id isAccepting with ⟨apart, inside⟩
    exact ⟨fun connected => apart (sublist.subset connected), objects ▸ inside⟩

/-- A step starts a client, inserts the one that was started, or only erases clients. -/
theorem set_of_turn {event : Event} {outcome : Outcome}
    (turn : Turn setting listener event next outcome) :
    (∃ connection date, event = .accept (some (connection, date)) ∧
        isBanned listener.bans connection.ip date = false ∧ listener.accepting = none ∧
        next.server.connected = listener.server.connected ∧
        next.server.clients = listener.server.clients ++ [Client.new setting.config connection] ∧
        next.accepting = some listener.server.clients.length) ∨
      (∃ id, listener.accepting = some id ∧ next.accepting = none ∧
        next.server.connected = listener.server.connected ++ [id] ∧
        next.server.clients = listener.server.clients) ∨
      (next.server.connected.Sublist listener.server.connected ∧
        next.accepting = listener.accepting ∧
        next.server.clients.map Client.ip = listener.server.clients.map Client.ip) := by
  cases turn with
  | fails free => exact .inr (.inr ⟨.refl _, rfl, rfl⟩)
  | refuses free banned => exact .inr (.inr ⟨.refl _, rfl, rfl⟩)
  | @starts connection date server free welcome serverEq =>
      subst serverEq
      exact .inl ⟨connection, date, rfl, welcome, free, rfl, rfl, rfl⟩
  | @inserts id server accepting serverEq =>
      subst serverEq
      exact .inr (.inl ⟨id, accepting, rfl, rfl, rfl⟩)
  | leaves serverEq =>
      subst serverEq
      exact .inr (.inr ⟨List.erase_sublist, rfl, rfl⟩)
  | notified notification => exact .inr (.inr ⟨.refl _, rfl, rfl⟩)
  | @calls event id asked date opened server clientEntry asks called =>
      have calls := called_of_call called
      have clientAt := calls.clientAt
      rw [asks.clients.1] at clientAt
      refine .inr (.inr ⟨?_, rfl, ?_⟩)
      · change server.connected.Sublist _
        rw [calls.connected, asks.clients.2.1]
        split
        · exact List.erase_sublist
        · exact .refl _
      · have bears := handles_bear (Client.step_handles calls.stepped)
        change server.clients.map Client.ip = _
        rw [calls.clients, asks.clients.1]
        exact map_set_of_same clientAt bears.ip

theorem distinct_of_turn {event : Event} {outcome : Outcome} (distinct : Distinct listener)
    (turn : Turn setting listener event next outcome) : Distinct next := by
  rcases set_of_turn turn with ⟨connection, date, _, _, free, connected, clients, accepting⟩ |
    ⟨id, isAccepting, accepting, connected, clients⟩ | ⟨sublist, accepting, ips⟩
  · refine ⟨connected ▸ distinct.nodup, ?_, ?_⟩
    · intro id idMem
      rw [connected] at idMem
      rw [clients, List.length_append]
      exact Nat.lt_add_right _ (distinct.inside id idMem)
    · intro id isAccepting
      rw [accepting, Option.some.injEq] at isAccepting
      subst isAccepting
      rw [connected, clients, List.length_append, List.length_singleton]
      exact ⟨fun idMem => Nat.lt_irrefl _ (distinct.inside _ idMem), Nat.lt_succ_self _⟩
  · rcases distinct.accepting id isAccepting with ⟨apart, inside⟩
    refine ⟨?_, ?_, by simp [accepting]⟩
    · rw [connected]
      exact List.nodup_append.mpr ⟨distinct.nodup, List.nodup_singleton id, by
        rintro other otherMem same sameMem rfl
        rw [List.mem_singleton] at sameMem
        exact apart (sameMem ▸ otherMem)⟩
    · intro other otherMem
      rw [connected, List.mem_append, List.mem_singleton] at otherMem
      rw [clients]
      rcases otherMem with old | rfl
      · exact distinct.inside other old
      · exact inside
  · have objects := congrArg List.length ips
    rw [List.length_map, List.length_map] at objects
    exact distinct.of_sublist sublist objects.symm accepting

theorem distinct_of_run (run : Run setting trace last) : Distinct last := by
  refine run.invariant (fun _ last => Distinct last) (fun _ => True) (fun _ _ => trivial) ?_ ?_
  · exact ⟨List.nodup_nil, by simp [new, Server.new], by simp [new]⟩
  · intro trace entry distinct _ stepped
    exact distinct_of_turn distinct (turn_of_step stepped)

/-- What a step keeps of a client that is out of the set. -/
theorem out_of_turn {event : Event} {outcome : Outcome} {id : ℕ}
    (turn : Turn setting listener event next outcome)
    (out : id ∉ listener.server.connected ∧ listener.accepting ≠ some id ∧
      id < listener.server.clients.length) :
    id ∉ next.server.connected ∧ next.accepting ≠ some id ∧ id < next.server.clients.length := by
  rcases out with ⟨apart, notAccepted, inside⟩
  rcases set_of_turn turn with ⟨connection, date, _, _, _, connected, clients, accepting⟩ |
    ⟨other, isAccepting, accepting, connected, clients⟩ | ⟨sublist, accepting, ips⟩
  · rw [connected, accepting, clients, List.length_append]
    refine ⟨apart, ?_, Nat.lt_add_right _ inside⟩
    rw [Ne, Option.some.injEq]
    omega
  · rw [connected, accepting, clients, List.mem_append, List.mem_singleton, not_or]
    refine ⟨⟨apart, ?_⟩, by simp, inside⟩
    rintro rfl
    exact notAccepted isAccepting
  · have objects := congrArg List.length ips
    rw [List.length_map, List.length_map] at objects
    exact ⟨fun connected => apart (sublist.subset connected), accepting ▸ notAccepted,
      objects ▸ inside⟩

/-- The address is in the list, and none of the clients from some object on has it. -/
structure Shut (ip barred : UInt32) (count : ℕ) (listener : Listener) : Prop where
  noted : ⟨ip, barred.toUInt64 + 600⟩ ∈ listener.bans
  objects : count ≤ listener.server.clients.length
  others : ip ∉ (listener.server.clients.map Client.ip).drop count

theorem shut_of_turn {event : Event} {outcome : Outcome} {ip barred : UInt32} {count : ℕ}
    (shut : Shut ip barred count listener) (turn : Turn setting listener event next outcome)
    (lasts : ∀ connection date, event = .accept (some (connection, date)) →
      date.toNat < barred.toNat + 600) : Shut ip barred count next := by
  have noted : ⟨ip, barred.toUInt64 + 600⟩ ∈ next.bans := by
    rcases bans_of_turn turn with ⟨_, _, _, _, bans, _⟩ | ⟨_, bans⟩
    · rw [bans]
      exact List.mem_append_left _ shut.noted
    · rw [bans]
      exact shut.noted
  rcases set_of_turn turn with ⟨connection, date, eventEq, welcome, _, _, clients, _⟩ |
    ⟨_, _, _, _, clients⟩ | ⟨_, _, ips⟩
  · have live := lasts connection date eventEq
    have differs : ip ≠ connection.ip := by
      rintro rfl
      have banned : isBanned listener.bans connection.ip date = true :=
        isBanned_iff.mpr ⟨_, shut.noted, rfl, before_timestamp_iff.mpr live⟩
      rw [welcome] at banned
      cases banned
    refine ⟨noted, ?_, ?_⟩
    · rw [clients, List.length_append]
      exact Nat.le_add_right_of_le shut.objects
    · rw [clients, List.map_append, List.drop_append_of_le_length (by simpa using shut.objects),
        List.mem_append, not_or]
      exact ⟨shut.others, by simpa [Client.new] using differs⟩
  · exact ⟨noted, clients ▸ shut.objects, clients ▸ shut.others⟩
  · have objects := congrArg List.length ips
    rw [List.length_map, List.length_map] at objects
    exact ⟨noted, objects ▸ shut.objects, ips ▸ shut.others⟩

/--
From a ban on, and as long as the dates at which connections are accepted are within its ten
minutes, no client is started for the address. The banned client itself is out of the set for good,
unless it was being accepted when it was banned.
-/
theorem banned_stays_out {earlier later : List Entry} {bar : Entry} {id : ℕ} {ip barred : UInt32}
    (run : Run setting (earlier ++ bar :: later) last)
    (bars : BarsAt setting bar.before bar.event id ip barred)
    (lasts : ∀ entry ∈ later, ∀ connection date, entry.event = .accept (some (connection, date)) →
      date.toNat < barred.toNat + 600) :
    (∀ client ∈ last.server.clients.drop bar.after.server.clients.length, client.ip ≠ ip) ∧
      (bar.before.accepting ≠ some id → id ∉ last.server.connected) := by
  rcases run.split with ⟨runBefore, stepped⟩
  have turn := turn_of_step stepped
  have back : RunTrace.Run (step setting) bar.after later last := by
    have cut : Run setting ((earlier ++ [bar]) ++ later) last := by
      rwa [List.append_assoc, List.singleton_append]
    rcases RunTrace.Run.cut cut with ⟨middle, front, back⟩
    rwa [front.after_concat] at back
  -- what the ban leaves behind
  rcases bans_of_turn turn with ⟨_, _, _, again, bans, connected, accepting⟩ | ⟨spares, _⟩
  swap
  · exact absurd bars (spares _ _ _)
  rcases bars.unique again with ⟨idEq, ipEq, dateEq⟩
  rw [ipEq, dateEq] at bans
  rw [idEq] at connected
  constructor
  · have shut : Shut ip barred bar.after.server.clients.length last := by
      refine back.invariant (fun _ last => Shut ip barred _ last)
        (fun entry => ∀ connection date, entry.event = .accept (some (connection, date)) →
          date.toNat < barred.toNat + 600) lasts ?_ ?_
      · refine ⟨by rw [bans]; simp, Nat.le_refl _, ?_⟩
        rw [← List.map_drop, List.drop_length]
        exact List.not_mem_nil
      · intro trace entry shut live stepped
        exact shut_of_turn shut (turn_of_step stepped) live
    intro client clientMem same
    apply shut.others
    rw [← List.map_drop]
    exact same ▸ List.mem_map_of_mem clientMem
  · intro notAccepted
    have out : id ∉ last.server.connected ∧ last.accepting ≠ some id ∧
        id < last.server.clients.length := by
      refine back.invariant (fun _ last => id ∉ last.server.connected ∧
        last.accepting ≠ some id ∧ id < last.server.clients.length) (fun _ => True)
        (fun _ _ => trivial) ?_ ?_
      · refine ⟨?_, accepting ▸ notAccepted, ?_⟩
        · rw [connected]
          exact (distinct_of_run runBefore).nodup.not_mem_erase
        · rcases bars.caused with ⟨_, _, client, _, clientAt, _⟩
          have inside := (List.getElem?_eq_some_iff.mp clientAt).1
          rcases set_of_turn turn with ⟨_, _, _, _, _, _, clients, _⟩ | ⟨_, _, _, _, clients⟩ |
            ⟨_, _, ips⟩
          · rw [clients, List.length_append]
            exact Nat.lt_add_right _ inside
          · rwa [clients]
          · have objects := congrArg List.length ips
            rw [List.length_map, List.length_map] at objects
            rwa [objects]
      · intro trace entry out _ stepped
        exact out_of_turn (turn_of_step stepped) out
    exact out.1

/-! ## A sample ban -/

namespace Sample

/-- A pool where no hash is below a target. -/
def unlucky : Setting :=
  Stratum.Sample.setting (Stratum.Sample.hash 31)

def template : Template :=
  ⟨0, 1, ⟨100, .error .systemError, fun _ => Bitcoin.allocates⟩,
    Stratum.Sample.template (Stratum.Sample.hash 31) 0x207fffff⟩

def date : UInt32 := 1388534420

def request (method : String) (params : List String) : Event :=
  .receive 0 (Stratum.Sample.request method params) (Stratum.Sample.easyEnv 31) date

/-- A share above the target, and a duplicate of it from the second time on. -/
def share : Event :=
  request "mining.submit" ["alice", "0", "00000001", "52c35a80", "deadbeef"]

/-- A connection from the address of the first one. -/
def knock : Event :=
  .accept (some (Stratum.Sample.connection, date + 80))

/-- The miner has the share before the one that it is banned for behind it. -/
def session : List Event :=
  [.blockNotify ⟨some template, true⟩, .accept (some (Stratum.Sample.connection, date - 10)), .insert,
    request "mining.subscribe" [], request "mining.authorize" ["alice", "secret"]] ++
    List.replicate 209 share

def refuses : Outcome → Bool
  | .refused => true
  | _ => false

def bansAround (entry : Entry) : List BanInfo × List BanInfo × Bool :=
  (entry.before.bans, entry.after.bans, refuses entry.output)

set_option maxRecDepth 100000 in
theorem exists_replay : ∃ result ∈ replay (step unlucky) new (session ++ [share, knock]),
    (result.1.drop 214).map bansAround =
      [([], [⟨0x7F000001, 1388535020⟩], false),
        ([⟨0x7F000001, 1388535020⟩], [⟨0x7F000001, 1388535020⟩], true)] := by
  decide +kernel

theorem exists_ban : ∃ earlier bar entry last,
    Run unlucky (earlier ++ bar :: [entry]) last ∧ bar.event = share ∧ entry.event = knock ∧
      entry.output = .refused ∧ bar.before.bans = [] ∧ bar.after.bans ≠ [] := by
  rcases exists_replay with ⟨⟨trace, last⟩, replayed, around⟩
  have events := congrArg (List.drop 214) (map_event_replay replayed)
  have drops : (session ++ [share, knock]).drop 214 = [share, knock] := by
    apply List.drop_left'
    rw [session, List.length_append, List.length_replicate]
    rfl
  rw [drops, ← List.map_drop] at events
  have run := RunTrace.Run.ofReplay replayed
  rw [← List.take_append_drop 214 trace] at run
  generalize trace.drop 214 = ending at around events run
  rcases List.map_eq_cons_iff.mp events with ⟨bar, rest, rfl, barEq, restEq⟩
  rcases List.map_eq_singleton_iff.mp restEq with ⟨entry, rfl, entryEq⟩
  simp only [List.map_cons, List.map_nil, bansAround, List.cons.injEq, Prod.mk.injEq,
    and_true] at around
  rcases around with ⟨⟨before, after, _⟩, _, _, refused⟩
  refine ⟨_, bar, entry, last, run, barEq, entryEq, ?_, before, by simp [after]⟩
  unfold refuses at refused
  split at refused
  · assumption
  · cases refused

end Sample

theorem admission_exact_sample : ∃ earlier entry last,
    Run Sample.unlucky (earlier ++ entry :: []) last ∧ entry.event = Sample.knock ∧
      ∃ other ∈ earlier, ∃ id barred,
        BarsAt Sample.unlucky other.before other.event id Stratum.Sample.connection.ip barred ∧
          (Sample.date + 80).toNat < barred.toNat + 600 := by
  rcases Sample.exists_ban with ⟨earlier, bar, entry, last, run, _, knocks, refused, _⟩
  have shape : Run Sample.unlucky ((earlier ++ [bar]) ++ entry :: []) last := by simpa using run
  exact ⟨earlier ++ [bar], entry, last, shape, knocks,
    (admission_exact shape knocks).1.mp refused⟩

theorem banned_stays_out_sample : ∃ earlier bar later last id ip barred,
    Run Sample.unlucky (earlier ++ bar :: later) last ∧
      BarsAt Sample.unlucky bar.before bar.event id ip barred ∧
      (∀ client ∈ last.server.clients.drop bar.after.server.clients.length, client.ip ≠ ip) ∧
      (bar.before.accepting ≠ some id → id ∉ last.server.connected) := by
  rcases Sample.exists_ban with ⟨earlier, bar, entry, last, run, shares, knocks, _, before, after⟩
  rcases bans_of_turn (turn_of_step run.split.2) with ⟨id, ip, barred, bars, _⟩ | ⟨_, bans⟩
  swap
  · exact absurd (bans.trans before) after
  have dateEq : barred = Sample.date := by
    rcases bars.caused with ⟨_, _, _, eventEq, _⟩
    rw [shares, Sample.share, Sample.request, Event.receive.injEq] at eventEq
    exact eventEq.2.2.2.symm
  refine ⟨earlier, bar, [entry], last, id, ip, barred, run, bars, banned_stays_out run bars ?_⟩
  intro other otherMem connection date arrives
  rw [List.mem_singleton.mp otherMem, knocks, Sample.knock, Event.accept.injEq, Option.some.injEq,
    Prod.mk.injEq] at arrives
  rw [← arrives.2, dateEq]
  decide

end Listener

end Poolserver
