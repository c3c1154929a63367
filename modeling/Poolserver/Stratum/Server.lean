import Poolserver.Stratum.Invariants

/-!
# The server and its connections

The server gives out extranonces, keeps the current work and posts `SendJob` calls to
its clients when the work changes. Its events are handlers, each taken whole, in any
order; a posted call runs at any later time. Seen from one connection, a run of the
server is a run of that connection.
-/

namespace Poolserver.Stratum

open Poolserver.Bitcoin RunTrace

structure Server where
  extranonce : UInt32
  currentWork : Option Block
  /-- All client objects; the id of a client is its position. -/
  clients : List Client
  /-- The ids of the clients in `_clients`. -/
  connected : List ℕ
  /-- The `SendJob` calls that are posted and have not run, with their clean flags. -/
  posted : List (ℕ × Bool)

namespace Server

/-- The server after its construction. -/
def new : Server where
  extranonce := 0
  currentWork := none
  clients := []
  connected := []
  posted := []

inductive Event where
  | accept (connection : Connection)
  | receive (id : ℕ) (msg : JSON) (env : Env)
  | blockNotify (block : Block) (newBlock : Bool)
  | runPosted (position : ℕ) (env : Env)

/-- The call of a client in a step of the server. -/
abbrev Call := ℕ × ClientEntry

variable (setting : Setting)

/-- Whether a message is handled by `Client::OnMiningSubscribe`, which takes an extranonce. -/
def subscribes : Action → Bool
  | .message msg =>
      match msg.stringMember "method" with
      | .ok method => method = ascii "mining.subscribe"
      | .error _ => false
  | .sendJob _ => false

/-- Whether a call disconnects the client. -/
def disconnects (output : Output) : Bool :=
  output.effects.any fun
    | .disconnect => true
    | _ => false

/-- A call of a client, which finds the work and the extranonce of the server. -/
def call (server : Server) (id : ℕ) (action : Action) (env : Env) :
    Option (Server × Option Call) := do
  let client ← server.clients[id]?
  let event : Stratum.Event :=
    ⟨action, { env with work := server.currentWork, extranonce := server.extranonce }⟩
  let (next, output) ← client.step setting event
  let server := { server with
    extranonce := if subscribes action then server.extranonce + 1 else server.extranonce
    clients := server.clients.set id next
    connected := if disconnects output then server.connected.erase id else server.connected }
  return (server, some (id, ⟨client, event, output, next⟩))

def step (server : Server) : Event → Option (Server × Option Call)
  | .accept connection =>
      let server := { server with
        clients := server.clients ++ [Client.new setting.config connection]
        connected := server.connected ++ [server.clients.length] }
      some (server, none)
  | .receive id msg env => server.call setting id (.message msg) env
  | .blockNotify block newBlock =>
      let server := { server with
        currentWork := some block
        posted := server.posted ++ server.connected.map fun id => (id, newBlock) }
      some (server, none)
  | .runPosted position env => do
      let (id, clean) ← server.posted[position]?
      call setting { server with posted := server.posted.eraseIdx position } id (.sendJob clean) env

abbrev Entry := RunTrace.Entry Server Event (Option Call)

/-- The runs of the server. -/
abbrev Run : List Entry → Server → Prop :=
  RunTrace.Run (step setting) new

/-! ## One connection of a run -/

/-- The entry of a client in a step of the server. -/
def ofClient? (id : ℕ) (entry : Entry) : Option ClientEntry :=
  match entry.output with
  | some (caller, clientEntry) => if caller = id then some clientEntry else none
  | none => none

/-- What a run of the server is for one of its clients. -/
def connectionTrace (id : ℕ) (trace : List Entry) : List ClientEntry :=
  trace.filterMap (ofClient? id)

variable {setting} {trace : List Entry} {server : Server}

@[simp]
theorem connectionTrace_append (id : ℕ) (earlier later : List Entry) :
    connectionTrace id (earlier ++ later) =
      connectionTrace id earlier ++ connectionTrace id later :=
  List.filterMap_append

/-- What a call changes, and the step of the client behind it. -/
theorem call_eq_some {id : ℕ} {action : Action} {env : Env} {next : Server}
    {output : Option Call} (called : server.call setting id action env = some (next, output)) :
    ∃ clientEntry : ClientEntry,
      output = some (id, clientEntry) ∧
      server.clients[id]? = some clientEntry.before ∧
      clientEntry.before.step setting clientEntry.event =
        some (clientEntry.after, clientEntry.output) ∧
      next.clients = server.clients.set id clientEntry.after ∧
      next.currentWork = server.currentWork ∧
      clientEntry.event.env.work = server.currentWork := by
  simp only [call, Option.bind_eq_bind, Option.bind_eq_some_iff] at called
  rcases called with ⟨client, clientAt, ⟨after, clientOutput⟩, stepped, called⟩
  simp only [Option.pure_def, Option.some.injEq, Prod.mk.injEq] at called
  rcases called with ⟨rfl, rfl⟩
  exact ⟨_, rfl, clientAt, stepped, rfl, rfl, rfl⟩

/-- A step calls one client or none. -/
theorem step_cases {event : Event} {next : Server} {output : Option Call}
    (stepped : server.step setting event = some (next, output)) :
    (∃ id clientEntry,
      output = some (id, clientEntry) ∧
      server.clients[id]? = some clientEntry.before ∧
      clientEntry.before.step setting clientEntry.event =
        some (clientEntry.after, clientEntry.output) ∧
      next.clients = server.clients.set id clientEntry.after ∧
      next.currentWork = server.currentWork ∧
      clientEntry.event.env.work = server.currentWork) ∨
    (output = none ∧ ∃ connection, event = .accept connection ∧
      next.clients = server.clients ++ [Client.new setting.config connection] ∧
      next.currentWork = server.currentWork) ∨
    (output = none ∧ ∃ block newBlock, event = .blockNotify block newBlock ∧
      next.clients = server.clients ∧ next.currentWork = some block) := by
  cases event with
  | accept connection =>
      simp only [step, Option.some.injEq, Prod.mk.injEq] at stepped
      rcases stepped with ⟨rfl, rfl⟩
      exact Or.inr (Or.inl ⟨rfl, connection, rfl, rfl, rfl⟩)
  | receive id msg env =>
      rcases call_eq_some stepped with ⟨clientEntry, called⟩
      exact Or.inl ⟨id, clientEntry, called⟩
  | blockNotify block newBlock =>
      simp only [step, Option.some.injEq, Prod.mk.injEq] at stepped
      rcases stepped with ⟨rfl, rfl⟩
      exact Or.inr (Or.inr ⟨rfl, block, newBlock, rfl, rfl, rfl⟩)
  | runPosted position env =>
      simp only [step, Option.bind_eq_bind, Option.bind_eq_some_iff] at stepped
      rcases stepped with ⟨⟨id, clean⟩, _, stepped⟩
      rcases call_eq_some stepped with ⟨clientEntry, called⟩
      exact Or.inl ⟨id, clientEntry, called⟩

/-- Seen from one client, a run of the server is a run of its connection. -/
theorem clientRun_of_run (run : Run setting trace server) {id : ℕ} {client : Client}
    (clientAt : server.clients[id]? = some client) :
    ∃ connection, ClientRun setting connection (connectionTrace id trace) client := by
  refine (run.invariant (fun trace server =>
    (∀ id client, server.clients[id]? = some client →
      ∃ connection, ClientRun setting connection (connectionTrace id trace) client) ∧
    ∀ id, server.clients.length ≤ id → connectionTrace id trace = [])
    (fun _ => True) (fun _ _ => trivial) ?_ ?_).1 id client clientAt
  · exact ⟨by simp [new], fun _ _ => rfl⟩
  intro trace entry held _ stepped
  rcases held with ⟨runs, unborn⟩
  rcases step_cases stepped with ⟨caller, clientEntry, outputEq, callerAt, moves, clients, _⟩ |
    ⟨outputEq, connection, _, clients, _⟩ | ⟨outputEq, block, newBlock, _, clients, _⟩
  · have inside := (List.getElem?_eq_some_iff.mp callerAt).1
    rw [clients]
    constructor
    · intro id client clientAt
      by_cases same : caller = id
      · subst same
        rw [List.getElem?_set_self inside, Option.some.injEq] at clientAt
        subst clientAt
        rcases runs caller _ callerAt with ⟨connection, run⟩
        refine ⟨connection, ?_⟩
        have shown : connectionTrace caller [entry] = [clientEntry] := by
          simp [connectionTrace, ofClient?, outputEq]
        rw [connectionTrace_append, shown]
        exact run.snoc moves
      · rw [List.getElem?_set_ne same] at clientAt
        have hidden : connectionTrace id [entry] = [] := by
          simp [connectionTrace, ofClient?, outputEq, same]
        rw [connectionTrace_append, hidden, List.append_nil]
        exact runs id client clientAt
    · intro id outside
      rw [List.length_set] at outside
      have same : caller ≠ id := by omega
      have hidden : connectionTrace id [entry] = [] := by
        simp [connectionTrace, ofClient?, outputEq, same]
      rw [connectionTrace_append, hidden, List.append_nil, unborn id outside]
  · have hidden : ∀ id, connectionTrace id [entry] = [] := fun id => by
      simp [connectionTrace, ofClient?, outputEq]
    simp only [connectionTrace_append, hidden, List.append_nil]
    rw [clients]
    constructor
    · intro id client clientAt
      rcases lt_trichotomy id entry.before.clients.length with old | fresh | outside
      · rw [List.getElem?_append_left old] at clientAt
        exact runs id client clientAt
      · subst fresh
        simp only [List.getElem?_concat_length, Option.some.injEq] at clientAt
        subst clientAt
        rw [unborn _ le_rfl]
        exact ⟨connection, .nil⟩
      · rw [List.getElem?_eq_none (by simpa using outside)] at clientAt
        simp at clientAt
    · intro id outside
      exact unborn id (by simp only [List.length_append] at outside; omega)
  · have hidden : ∀ id, connectionTrace id [entry] = [] := fun id => by
      simp [connectionTrace, ofClient?, outputEq]
    simp only [connectionTrace_append, hidden, List.append_nil]
    rw [clients]
    exact ⟨runs, unborn⟩

end Server

/-- A client connects, the network has work, and the client submits a share. -/
def Sample.serverEvents : List Server.Event :=
  [.accept connection, .blockNotify (template (hash 2) 0x207fffff) true,
    .receive 0 (request "mining.subscribe" []) (easyEnv 2),
    .receive 0 (request "mining.authorize" ["alice", "secret"]) (easyEnv 2),
    .receive 0 (submission "0") (easyEnv 2)]

end Poolserver.Stratum
