import Poolserver.JSON.Grammar
import Poolserver.Stratum.Receive
import Poolserver.Stratum.Replies

/-!
# Connections and disconnects

A connection hands the lines it reads to `OnMessage` in one loop for all the bytes of a read.
`Disconnect` closes the socket, which ends the reads; it does not end the loop.
-/

namespace Poolserver.Stratum

open RunTrace Framing Client

/-- What happens to a connection. -/
inductive Happening where
  | onMessage (msg : JSON)
  | effect (effect : Effect)

/-- A client with the number of its calls of `OnMessage` and all that has happened to it. -/
structure Session where
  client : Client
  calls : ℕ
  log : List Happening

/-- What stays fixed while a connection is served, and what its calls find outside the client. -/
structure Service where
  setting : Setting
  library : Library
  /-- What each call of `OnMessage` finds. -/
  supply : ℕ → Env

namespace Session

def new (client : Client) : Session :=
  ⟨client, 0, []⟩

variable (service : Service)

/-- `OnMessage` for the next message. -/
def call (session : Session) (msg : JSON) : Option (Session × Option StdException) := do
  let outcome ← session.client.onMessage (service.supply session.calls) service.setting msg
  return (⟨outcome.client, session.calls + 1,
    session.log ++ .onMessage msg :: outcome.effects.map .effect⟩, outcome.thrown)

/-- `OnMessage(JSON::FromString(line))`. -/
def receiveLine (session : Session) (line : StdString) :
    Option (Session × Option StdException) := do
  match ← Node.fromString service.library line with
  | .error exception => return (session, some exception)
  | .ok node => session.call service node.json

def handler : Handler Session where
  subscribed session := session.client.subscribed
  onMessage := receiveLine service

end Session

/-- A connection: its client and the message it is reading. -/
abbrev Endpoint := Receiver Session

/-- What a connection meets: bytes that are read, or a posted `SendJob`. -/
inductive Arrival where
  | bytes (bytes : List UInt8)
  | sendJob (clean : Bool) (env : Env)

namespace Endpoint

/-- `Disconnect` has been executed, which has closed the socket. -/
def closed (endpoint : Endpoint) : Bool :=
  endpoint.client.log.any fun
    | .effect .disconnect => true
    | _ => false

def record (endpoint : Endpoint) (effects : List Effect) : Endpoint :=
  { endpoint with
    client := { endpoint.client with log := endpoint.client.log ++ effects.map .effect } }

variable (service : Service)

/-- A read on a closed socket delivers nothing; a posted `SendJob` does not look at the socket. -/
def step (endpoint : Endpoint) : Arrival → Option (Endpoint × List Received)
  | .bytes bytes =>
      if endpoint.closed then none
      else do
        let (next, received) ← onReceive (Session.handler service) endpoint ⟨id, bytes⟩
        return (if .disconnect ∈ received then record next [.disconnect] else next, received)
  | .sendJob clean env => do
      let (client, effects) ← endpoint.client.client.sendJob env clean
      return (record { endpoint with client := { endpoint.client with client } } effects, [])

end Endpoint

/-! ## What follows a disconnect -/

namespace Session

/-- A line reaches `OnMessage`, or a share is recorded. -/
def Earns : Happening → Prop
  | .onMessage _ => True
  | .effect (.push _) => True
  | .effect (.executeAsync _) => True
  | .effect _ => False

/-- Nothing is earned behind a disconnect. -/
def Hushed (log : List Happening) : Prop :=
  log.Pairwise fun first second => first = .effect .disconnect → ¬Earns second

variable (service : Service)

/-- `JSON::FromString` accepts the line. -/
def Accepts (line : StdString) : Prop :=
  ∃ node, Node.fromString service.library line = some (.ok node)

/-- The line in front of the connection is a submission for which its client is banned. -/
def BansLine (endpoint : Endpoint) : Prop :=
  ∃ node, Node.fromString service.library endpoint.recvMessage = some (.ok node) ∧
    AsksLimiter (service.supply endpoint.client.calls) node.json endpoint.client.client ∧
    BansMiner service.setting (service.supply endpoint.client.calls) endpoint.client.client

/--
Behind the end of a line that bans the client, the same read delivers another whole line that
is accepted.
-/
def Pipelines (endpoint : Endpoint) (bytes : List UInt8) : Prop :=
  ∃ first more middle received, bytes = first ++ newline :: more ∧
    receiveChars (Session.handler service) endpoint first = some (middle, received) ∧
    BansLine service middle ∧
    ∃ lines rest, Framed newline more lines rest ∧ ∃ line ∈ lines, Accepts service line

variable {service} {setting : Setting} {env : Env} {msg : JSON} {client : Client}
  {outcome : Outcome}

theorem disconnect_not_mem_of_announces {effects : List Effect}
    (announces : ∀ effect ∈ effects, Announces effect) : Effect.disconnect ∉ effects := by
  intro disconnects
  cases announces _ disconnects

theorem disconnect_not_mem_of_verifies {effects : List Effect}
    (verifies : ∀ effect ∈ effects, Verifies msg effect) : Effect.disconnect ∉ effects := by
  intro disconnects
  cases verifies _ disconnects

theorem submitToJob_disconnects {params : JSON} {username : StdString} {addr : ℕ}
    (done : submitToJob setting env msg params username addr client = some outcome) :
    (BansMiner setting env client ∧
        ∃ reply, outcome.effects = client.ban 600 ++ [.sendMessage reply]) ∨
      (¬BansMiner setting env client ∧ .disconnect ∉ outcome.effects) := by
  rcases submitToJob_limits done with ⟨job, passed, limited, sent, _, limiter, limits⟩
  rcases limitShare_cases limiter with ⟨bans, rfl, rfl⟩ | ⟨spares, announces⟩
  · cases limits with
    | blocked => exact Or.inl ⟨bans, _, rfl⟩
  · have quiet := disconnect_not_mem_of_announces announces
    refine Or.inr ⟨spares, ?_⟩
    cases limits with
    | blocked => simpa [respond] using quiet
    | unreadable read => exact quiet
    | wrongSize read => simpa [respond] using quiet
    | verified read worked =>
        rw [Outcome.after, List.mem_append, not_or]
        exact ⟨quiet, disconnect_not_mem_of_verifies (submitWork_verifies worked)⟩

/-- A message disconnects the client only by a ban. -/
theorem onMessage_disconnects (done : client.onMessage env setting msg = some outcome) :
    ((AsksLimiter env msg client ∧ BansMiner setting env client) ∧
        ∃ reply, outcome.effects = client.ban 600 ++ [.sendMessage reply]) ∨
      (¬(AsksLimiter env msg client ∧ BansMiner setting env client) ∧
        .disconnect ∉ outcome.effects) := by
  have others : ¬AsksLimiter env msg client →
      ¬(AsksLimiter env msg client ∧ BansMiner setting env client) := by
    intro other both
    exact other both.1
  cases onMessage_handled done with
  | unreadable exception other => exact Or.inr ⟨others other, by simp [throws]⟩
  | ignored other => exact Or.inr ⟨others other, by simp⟩
  | unauthorized methodEq paramsEq usernameEq unknown other =>
      exact Or.inr ⟨others other, by simp [respond]⟩
  | jobNotFound methodEq paramsEq usernameEq authorized textEq unknown other =>
      exact Or.inr ⟨others other, by simp [respond]⟩
  | limited reaches submits =>
      rcases submitToJob_disconnects submits with ⟨bans, banned⟩ | ⟨spares, quiet⟩
      · exact Or.inl ⟨⟨⟨_, _, _, reaches⟩, bans⟩, banned⟩
      · exact Or.inr ⟨fun both => spares both.2, quiet⟩
  | subscribes methodEq sends =>
      refine Or.inr ⟨others (not_asks_of_method methodEq (by decide)), ?_⟩
      simpa using disconnect_not_mem_of_announces (sendJob_announces sends)
  | authorizes methodEq credentials authorizes =>
      refine Or.inr ⟨others (not_asks_of_method methodEq (by decide)), ?_⟩
      cases authorize_cases authorizes with
      | noRow absent => simp [respond]
      | unreadable row => simp [throws]
      | authorized row workers announces =>
          simpa [respond] using disconnect_not_mem_of_announces announces

/-! ## One read -/

theorem hushed_append {earlier later : List Happening} :
    Hushed (earlier ++ later) ↔ Hushed earlier ∧ Hushed later ∧
      ∀ first ∈ earlier, ∀ second ∈ later, first = .effect .disconnect → ¬Earns second :=
  List.pairwise_append

/-- What a message appends to the log. -/
def messageLog (msg : JSON) (effects : List Effect) : List Happening :=
  .onMessage msg :: effects.map .effect

theorem hushed_of_not_mem {log : List Happening} (quiet : .effect .disconnect ∉ log) :
    Hushed log := by
  apply List.pairwise_of_forall_mem_list
  intro first firstMem second _ disconnects
  subst disconnects
  exact absurd firstMem quiet

theorem mem_messageLog {effects : List Effect} :
    .effect .disconnect ∈ messageLog msg effects ↔ .disconnect ∈ effects := by
  simp [messageLog]

/-- The message that bans a client earns nothing behind the ban. -/
theorem hushed_messageLog (done : client.onMessage env setting msg = some outcome) :
    Hushed (messageLog msg outcome.effects) := by
  rcases onMessage_disconnects done with ⟨_, reply, effectsEq⟩ | ⟨_, quiet⟩
  · rw [effectsEq]
    simp [messageLog, ban, Hushed, Earns]
  · exact hushed_of_not_mem (fun disconnects => quiet (mem_messageLog.mp disconnects))

/-- What a line does, and what it appends to the log. -/
theorem receiveLine_eq_some {session next : Session} {line : StdString}
    {thrown : Option StdException}
    (received : session.receiveLine service line = some (next, thrown)) :
    (¬Accepts service line ∧ next = session) ∨
      ∃ node outcome, Node.fromString service.library line = some (.ok node) ∧
        session.client.onMessage (service.supply session.calls) service.setting node.json =
          some outcome ∧
        next = ⟨outcome.client, session.calls + 1,
          session.log ++ messageLog node.json outcome.effects⟩ := by
  simp only [Session.receiveLine, Option.bind_eq_bind, Option.bind_eq_some_iff] at received
  rcases received with ⟨parsed, parses, received⟩
  cases parsed with
  | error exception =>
      simp only [Option.pure_def, Option.some.injEq, Prod.mk.injEq] at received
      refine Or.inl ⟨?_, received.1.symm⟩
      rintro ⟨node, accepts⟩
      rw [parses] at accepts
      cases accepts
  | ok node =>
      simp only [Session.call, Option.bind_eq_bind, Option.bind_eq_some_iff] at received
      rcases received with ⟨outcome, done, received⟩
      simp only [Option.pure_def, Option.some.injEq, Prod.mk.injEq] at received
      exact Or.inr ⟨node, outcome, parses, done, received.1.symm⟩

/-- What a read appends to the log. -/
structure Appends (service : Service) (endpoint next : Endpoint) (bytes : List UInt8)
    (received : List Received) (added : List Happening) : Prop where
  log : next.client.log = endpoint.client.log ++ added
  quiet : Hushed added ↔ ¬Pipelines service endpoint bytes
  earns : (∃ happening ∈ added, Earns happening) ↔ ∃ line ∈ handed received, Accepts service line

theorem pipelines_cons_of_ne {endpoint : Endpoint} {c : UInt8} {bytes : List UInt8}
    (other : c ≠ newline) :
    Pipelines service endpoint (c :: bytes) ↔
      Pipelines service { endpoint with recvMessage := endpoint.recvMessage ++ [c] } bytes := by
  constructor
  · rintro ⟨first, more, middle, received, bytesEq, reads, bans, behind⟩
    cases first with
    | nil =>
        injection bytesEq with head _
        exact absurd head other
    | cons head first =>
        injection bytesEq with headEq bytesEq
        subst headEq
        simp only [receiveChars, receiveChar, if_neg other, Option.bind_eq_bind,
          Option.bind_some, Option.bind_eq_some_iff] at reads
        rcases reads with ⟨⟨last, others⟩, reads, readEq⟩
        simp only [Option.pure_def, Option.some.injEq, Prod.mk.injEq] at readEq
        rcases readEq with ⟨rfl, rfl⟩
        exact ⟨first, more, _, others, bytesEq, reads, bans, behind⟩
  · rintro ⟨first, more, middle, received, bytesEq, reads, bans, behind⟩
    refine ⟨c :: first, more, middle, received, by rw [bytesEq, List.cons_append], ?_, bans, behind⟩
    simp only [receiveChars, receiveChar, if_neg other, Option.bind_eq_bind, Option.bind_some]
    rw [reads]
    rfl

theorem pipelines_newline {endpoint middle : Endpoint} {first : List Received}
    {bytes : List UInt8}
    (turn : receiveChar (Session.handler service) endpoint newline = some (middle, first)) :
    Pipelines service endpoint (newline :: bytes) ↔
      (BansLine service endpoint ∧
        ∃ lines rest, Framed newline bytes lines rest ∧ ∃ line ∈ lines, Accepts service line) ∨
      Pipelines service middle bytes := by
  constructor
  · rintro ⟨before, more, last, received, bytesEq, reads, bans, behind⟩
    cases before with
    | nil =>
        injection bytesEq with _ bytesEq
        subst bytesEq
        simp only [receiveChars, Option.some.injEq, Prod.mk.injEq] at reads
        rw [← reads.1] at bans
        exact Or.inl ⟨bans, behind⟩
    | cons head before =>
        injection bytesEq with headEq bytesEq
        subst headEq
        simp only [receiveChars, turn, Option.bind_eq_bind, Option.bind_some,
          Option.bind_eq_some_iff] at reads
        rcases reads with ⟨⟨last, others⟩, reads, readEq⟩
        simp only [Option.pure_def, Option.some.injEq, Prod.mk.injEq] at readEq
        rcases readEq with ⟨rfl, rfl⟩
        exact Or.inr ⟨before, more, _, others, bytesEq, reads, bans, behind⟩
  · rintro (⟨bans, behind⟩ | ⟨before, more, last, received, bytesEq, reads, bans, behind⟩)
    · exact ⟨[], bytes, endpoint, [], rfl, rfl, bans, behind⟩
    · refine ⟨newline :: before, more, last, first ++ received,
        by rw [bytesEq, List.cons_append], ?_, bans, behind⟩
      simp only [receiveChars, turn, Option.bind_eq_bind, Option.bind_some]
      rw [reads]
      rfl

/-- The whole lines of a text are those that the loop hands over. -/
theorem accepts_whole_line {endpoint next : Endpoint} {bytes : List UInt8}
    {received : List Received} (fresh : endpoint.recvMessage = [])
    (reads : receiveChars (Session.handler service) endpoint bytes = some (next, received)) :
    (∃ lines rest, Framed newline bytes lines rest ∧ ∃ line ∈ lines, Accepts service line) ↔
      ∃ line ∈ handed received, Accepts service line := by
  have nothing : Framed newline [] [] endpoint.recvMessage := by
    rw [fresh]
    exact .nil
  have framed := (receiveChars_framed nothing reads).1
  rw [List.nil_append, List.nil_append] at framed
  constructor
  · rintro ⟨lines, rest, cut, accepted⟩
    rwa [← (cut.unique framed).1]
  · intro accepted
    exact ⟨_, _, framed, accepted⟩

theorem receiveChar_newline {endpoint middle : Endpoint} {first : List Received}
    (turn : receiveChar (Session.handler service) endpoint newline = some (middle, first)) :
    handed first = [endpoint.recvMessage] ∧ middle.recvMessage = [] ∧
      ∃ thrown, endpoint.client.receiveLine service endpoint.recvMessage =
        some (middle.client, thrown) := by
  simp only [receiveChar, if_true, Option.bind_eq_bind, Option.bind_eq_some_iff] at turn
  rcases turn with ⟨⟨session, thrown⟩, line, turn⟩
  simp only [Option.pure_def, Option.some.injEq, Prod.mk.injEq] at turn
  rcases turn with ⟨rfl, rfl⟩
  refine ⟨?_, rfl, thrown, line⟩
  split
  · rfl
  · rfl

/-- One line: what it appends is quiet, and a disconnect in it is a ban. -/
theorem receiveLine_appends {endpoint : Endpoint} {next : Session} {thrown : Option StdException}
    (line : endpoint.client.receiveLine service endpoint.recvMessage = some (next, thrown)) :
    ∃ added, next.log = endpoint.client.log ++ added ∧ Hushed added ∧
      (.effect .disconnect ∈ added ↔ BansLine service endpoint) ∧
      ((∃ happening ∈ added, Earns happening) ↔ Accepts service endpoint.recvMessage) := by
  rcases receiveLine_eq_some line with ⟨refused, rfl⟩ | ⟨node, outcome, parses, done, rfl⟩
  · refine ⟨[], (List.append_nil _).symm, .nil, ?_, ?_⟩
    · apply iff_of_false List.not_mem_nil
      rintro ⟨node, parses, _⟩
      exact refused ⟨node, parses⟩
    · refine iff_of_false ?_ refused
      rintro ⟨happening, happeningMem, _⟩
      cases happeningMem
  · refine ⟨_, rfl, hushed_messageLog done, ?_, ?_⟩
    · rw [mem_messageLog]
      have sameNode : BansLine service endpoint ↔
          AsksLimiter (service.supply endpoint.client.calls) node.json endpoint.client.client ∧
            BansMiner service.setting (service.supply endpoint.client.calls)
              endpoint.client.client := by
        constructor
        · rintro ⟨other, otherParses, bans⟩
          rw [parses, Option.some.injEq, Except.ok.injEq] at otherParses
          rw [otherParses]
          exact bans
        · exact fun bans => ⟨node, parses, bans⟩
      rw [sameNode]
      rcases onMessage_disconnects done with ⟨bans, reply, effectsEq⟩ | ⟨spares, quiet⟩
      · refine iff_of_true ?_ bans
        rw [effectsEq]
        simp [ban]
      · exact iff_of_false quiet spares
    · exact iff_of_true ⟨.onMessage node.json, List.mem_cons_self, trivial⟩ ⟨node, parses⟩

theorem receiveChars_appends {endpoint next : Endpoint} {bytes : List UInt8}
    {received : List Received}
    (reads : receiveChars (Session.handler service) endpoint bytes = some (next, received)) :
    ∃ added, Appends service endpoint next bytes received added := by
  induction bytes generalizing endpoint received with
  | nil =>
      simp only [receiveChars, Option.some.injEq, Prod.mk.injEq] at reads
      rcases reads with ⟨rfl, rfl⟩
      refine ⟨[], (List.append_nil _).symm, iff_of_true .nil ?_, by simp [handed]⟩
      rintro ⟨first, more, _, _, bytesEq, _⟩
      simp at bytesEq
  | cons c bytes ih =>
      simp only [receiveChars, Option.bind_eq_bind, Option.bind_eq_some_iff] at reads
      rcases reads with ⟨⟨middle, first⟩, turn, ⟨last, others⟩, rest, reads⟩
      simp only [Option.pure_def, Option.some.injEq, Prod.mk.injEq] at reads
      rcases reads with ⟨rfl, rfl⟩
      rcases ih rest with ⟨later, appends⟩
      by_cases ends : c = newline
      · subst ends
        rcases receiveChar_newline turn with ⟨handedEq, fresh, thrown, line⟩
        rcases receiveLine_appends line with ⟨now, logEq, quiet, bans, earns⟩
        refine ⟨now ++ later, ?_, ?_, ?_⟩
        · rw [appends.log, logEq, List.append_assoc]
        · rw [hushed_append, pipelines_newline turn, accepts_whole_line fresh rest, not_or,
            ← appends.quiet, ← bans, ← appends.earns]
          constructor
          · rintro ⟨_, quietLater, apart⟩
            refine ⟨?_, quietLater⟩
            rintro ⟨disconnects, happening, happeningMem, earnsLater⟩
            exact apart _ disconnects happening happeningMem rfl earnsLater
          · rintro ⟨apart, quietLater⟩
            refine ⟨quiet, quietLater, ?_⟩
            rintro happening happeningMem second secondMem rfl earnsLater
            exact apart ⟨happeningMem, second, secondMem, earnsLater⟩
        · rw [handed_append, handedEq]
          simp only [List.mem_append, or_and_right, exists_or, earns, appends.earns,
            List.mem_singleton, exists_eq_left]
      · have middleEq : some (middle, first) =
            some ({ endpoint with recvMessage := endpoint.recvMessage ++ [c] }, []) := by
          rw [← turn, receiveChar, if_neg ends]
        simp only [Option.some.injEq, Prod.mk.injEq] at middleEq
        rcases middleEq with ⟨rfl, rfl⟩
        exact ⟨later, appends.log, by rw [appends.quiet, pipelines_cons_of_ne ends], appends.earns⟩

/-! ## Runs of a connection -/

theorem hushed_concat_disconnect {added : List Happening} :
    Hushed (added ++ [.effect .disconnect]) ↔ Hushed added := by
  rw [hushed_append]
  constructor
  · exact fun quiet => quiet.1
  · intro quiet
    refine ⟨quiet, List.pairwise_singleton _ _, ?_⟩
    intro first _ second secondMem _
    rw [List.mem_singleton] at secondMem
    subst secondMem
    exact id

/-- A read is quiet unless it pipelines a message behind a ban. -/
theorem step_bytes {endpoint next : Endpoint} {bytes : List UInt8} {received : List Received}
    (stepped : Endpoint.step service endpoint (.bytes bytes) = some (next, received)) :
    .effect .disconnect ∉ endpoint.client.log ∧
      ∃ added, next.client.log = endpoint.client.log ++ added ∧
        (Hushed added ↔ ¬Pipelines service endpoint bytes) := by
  simp only [Endpoint.step] at stepped
  split at stepped
  · cases stepped
  rename_i isOpen
  constructor
  · intro disconnects
    exact isOpen (List.any_eq_true.mpr ⟨_, disconnects, rfl⟩)
  simp only [Option.bind_eq_bind, Option.bind_eq_some_iff] at stepped
  rcases stepped with ⟨⟨last, all⟩, reads, stepped⟩
  simp only [onReceive, id_eq, Option.bind_eq_bind, Option.bind_eq_some_iff] at reads
  rcases reads with ⟨⟨read, inLoop⟩, loop, reads⟩
  simp only [Option.pure_def, Option.some.injEq, Prod.mk.injEq] at reads stepped
  rcases reads with ⟨rfl, _⟩
  rcases stepped with ⟨rfl, _⟩
  rcases receiveChars_appends loop with ⟨added, appends⟩
  split
  · refine ⟨added ++ [.effect .disconnect], ?_, ?_⟩
    · rw [← List.append_assoc, ← appends.log]
      rfl
    · rw [hushed_concat_disconnect, appends.quiet]
  · exact ⟨added, appends.log, appends.quiet⟩

theorem step_sendJob {endpoint next : Endpoint} {clean : Bool} {env : Env}
    {received : List Received}
    (stepped : Endpoint.step service endpoint (.sendJob clean env) = some (next, received)) :
    ∃ added, next.client.log = endpoint.client.log ++ added ∧
      ∀ happening ∈ added, ¬Earns happening ∧ happening ≠ .effect .disconnect := by
  simp only [Endpoint.step, Option.bind_eq_bind, Option.bind_eq_some_iff] at stepped
  rcases stepped with ⟨⟨sentClient, effects⟩, sends, stepped⟩
  simp only [Option.pure_def, Option.some.injEq, Prod.mk.injEq] at stepped
  rcases stepped with ⟨rfl, _⟩
  refine ⟨effects.map .effect, rfl, ?_⟩
  intro happening happeningMem
  rcases List.mem_map.mp happeningMem with ⟨effect, effectMem, rfl⟩
  cases sendJob_announces sends effect effectMem with
  | difficulty diff => exact ⟨id, by simp⟩
  | job jobid job branch clean => exact ⟨id, by simp⟩

theorem not_pipelines_of_single_line {endpoint : Endpoint} {line : List UInt8}
    (single : newline ∉ line) : ¬Pipelines service endpoint (line ++ [newline]) := by
  rintro ⟨first, more, _, _, bytesEq, _, _, lines, rest, cut, accepted, acceptedMem, _⟩
  rcases List.eq_nil_or_concat more with rfl | ⟨others, byte, rfl⟩
  · have nothing : Framed newline ([] : List UInt8) [] [] := .nil
    rw [(cut.unique nothing).1] at acceptedMem
    cases acceptedMem
  · rw [List.concat_eq_append, ← List.cons_append, ← List.append_assoc] at bytesEq
    have lineEq := (List.append_inj' bytesEq rfl).1
    rw [lineEq] at single
    simp at single

end Session

/-! ## A sample connection -/

namespace Sample

/-- A miner with 200 shares behind it, all bad. -/
def badMiner : Client :=
  { worker 2 with
    shareLimiter :=
      { (worker 2).shareLimiter with totalShares := 200, totalBadShares := 200 } }

/-- The service of a pool where every hash has the same single bit. -/
def service : Service where
  setting := Sample.setting (hash 2)
  library := Poolserver.Sample.library
  supply _ := easyEnv 2

def banningLine : StdString :=
  ascii "\x7b\"method\":\"mining.submit\",\"params\":[\"alice\",\"0\"]\x7d"

/-- Another request behind the one for which the miner is banned. -/
def pipelined : Arrival :=
  .bytes (banningLine ++ [newline] ++ ascii "\x7b\"method\":\"mining.submit\"\x7d" ++ [newline])

/-- Whether something is a disconnect, or a line that reaches `OnMessage`. -/
def kind : Happening → Option Bool
  | .effect .disconnect => some true
  | .onMessage _ => some false
  | .effect _ => none

end Sample

/-- A request and the beginning of another, in one read and in two. -/
theorem framing_independent_sample :
    Frames (Session.handler Sample.service) (Session.new Sample.badMiner)
        [⟨id, Sample.banningLine ++ [newline] ++ ascii "\x7b\"me"⟩]
        [Sample.banningLine] (ascii "\x7b\"me") ∧
      Frames (Session.handler Sample.service) (Session.new Sample.badMiner)
        [⟨id, Sample.banningLine.take 9⟩,
          ⟨id, Sample.banningLine.drop 9 ++ [newline] ++ ascii "\x7b\"me"⟩]
        [Sample.banningLine] (ascii "\x7b\"me") := by
  refine framing_independent (by decide) ⟨by decide, by decide, by decide⟩ ?_
  decide

end Poolserver.Stratum
