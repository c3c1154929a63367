import Poolserver.JSON.Characters
import Poolserver.Stratum.Session

/-!
# Bytes and calls

However the bytes of a connection are cut into reads and whatever is posted between them, the
connection is its client handling one message after the other: those of the lines that
`JSON::FromString` accepts, in their order. So what holds of the runs of a client holds of a
connection, and a peer that writes its requests one a line has exactly these handled.
-/

namespace Poolserver.Stratum

open RunTrace Framing Client

abbrev WireEntry := Entry Endpoint Arrival (List Received)

/-- The runs of a connection from its start. -/
abbrev WireRun (service : Service) (connection : Connection) : List WireEntry → Endpoint → Prop :=
  Run (Endpoint.step service)
    (Receiver.new (Session.new (Client.new service.setting.config connection)))

/-- The message of a line, where `JSON::FromString` returns one. -/
def message? (library : Library) (line : StdString) : Option JSON :=
  match Node.fromString library line with
  | some (.ok node) => some node.json
  | _ => none

/-- The calls of the client that an arrival comes to. -/
def asked (library : Library) (entry : WireEntry) : List Action :=
  match entry.event with
  | .bytes _ => ((handed entry.output).filterMap (message? library)).map .message
  | .sendJob clean _ => [.sendJob clean]

/-- What a call logs. -/
def logged (call : ClientEntry) : List Happening :=
  match call.event.action with
  | .message msg => Session.messageLog msg call.output.effects
  | .sendJob _ => call.output.effects.map .effect

/-- The disconnect for the size of a message. -/
def oversize (entry : WireEntry) : List Happening :=
  if .disconnect ∈ entry.output then [.effect .disconnect] else []

/-- What an arrival logs when it comes to these calls. -/
def turnLog (entry : WireEntry) (calls : List ClientEntry) : List Happening :=
  calls.flatMap logged ++ oversize entry

/-- What a call of `OnMessage` finds outside the client. -/
def found? (call : ClientEntry) : Option Env :=
  match call.event.action with
  | .message _ => some call.event.env
  | .sendJob _ => none

/-- A run of a connection, as the calls of its client that each arrival comes to. -/
structure Serves (service : Service) (connection : Connection) (trace : List WireEntry)
    (last : Endpoint) (turns : List (List ClientEntry)) : Prop where
  run : ClientRun service.setting connection turns.flatten last.client.client
  asks : turns.map (List.map fun call => call.event.action) = trace.map (asked service.library)
  logs : last.client.log = (List.zipWith turnLog trace turns).flatten
  finds : turns.flatten.filterMap found? = (List.range last.client.calls).map service.supply

/-- The bytes that a connection has read. -/
def arrived (trace : List WireEntry) : List UInt8 :=
  trace.flatMap fun entry =>
    match entry.event with
    | .bytes bytes => bytes
    | .sendJob _ _ => []

/-- The lines that a connection has handed to `JSON::FromString`. -/
def linesOf (trace : List WireEntry) : List StdString :=
  trace.flatMap fun entry => handed entry.output

def Action.message? : Action → Option JSON
  | .message msg => some msg
  | .sendJob _ => none

/-- The messages of a run of calls. -/
def messagesOf (calls : List ClientEntry) : List JSON :=
  calls.filterMap fun call => call.event.action.message?

/-- A message with the end of its line. -/
def lineText (library : Library) (message : JSON) : List UInt8 :=
  message.toText library ++ [newline]

/-- A message that goes into one line and comes back from it. -/
structure Sendable (message : JSON) : Prop where
  isObject : ∃ members, message = .object members
  plain : message.Plain
  single : newline ∉ message.characters

variable {service : Service} {setting : Setting} {connection : Connection}
  {trace : List WireEntry} {endpoint next last : Endpoint} {calls : List ClientEntry}

/-! ## One read -/

/-- What a read leaves behind, as calls of the client. -/
structure Round (service : Service) (connection : Connection) (before : List ClientEntry)
    (session next : Session) (lines : List StdString) (calls : List ClientEntry) : Prop where
  run : ClientRun service.setting connection (before ++ calls) next.client
  asks : (calls.map fun call => call.event.action) =
    (lines.filterMap (message? service.library)).map .message
  logs : next.log = session.log ++ calls.flatMap logged
  finds : (List.range session.calls).map service.supply ++ calls.filterMap found? =
    (List.range next.calls).map service.supply

theorem message?_eq_some {library : Library} {line : StdString} {node : Node}
    (parses : Node.fromString library line = some (.ok node)) :
    message? library line = some node.json := by
  rw [message?, parses]

theorem message?_eq_none {library : Library} {line : StdString}
    (refused : ¬∃ node, Node.fromString library line = some (.ok node)) :
    message? library line = none := by
  unfold message?
  split
  · rename_i node parses
    exact absurd ⟨node, parses⟩ refused
  · rfl

theorem receiveLine_turn {session later : Session} {line : StdString}
    {thrown : Option StdException}
    (run : ClientRun service.setting connection calls session.client)
    (received : session.receiveLine service line = some (later, thrown)) :
    ∃ added, Round service connection calls session later [line] added := by
  rcases Session.receiveLine_eq_some received with
    ⟨refused, rfl⟩ | ⟨node, outcome, parses, done, rfl⟩
  · refine ⟨[], by simpa using run, ?_, by simp, by simp⟩
    rw [List.filterMap_cons, message?_eq_none refused]
    rfl
  · have stepped : session.client.step service.setting
        ⟨.message node.json, service.supply session.calls⟩ =
          some (outcome.client, ⟨outcome.effects, outcome.thrown⟩) := by
      simp only [step, done, Option.bind_eq_bind, Option.bind_some, Option.pure_def]
    refine ⟨_, run.extend stepped, ?_, ?_, ?_⟩
    · rw [List.filterMap_cons, message?_eq_some parses]
      rfl
    · rw [List.flatMap_singleton]
      rfl
    · rw [List.range_succ, List.map_append]
      rfl

theorem Round.trans {before first others : List ClientEntry} {session middle later : Session}
    {lines moreLines : List StdString}
    (turn : Round service connection before session middle lines first)
    (rest : Round service connection (before ++ first) middle later moreLines others) :
    Round service connection before session later (lines ++ moreLines) (first ++ others) where
  run := by
    rw [← List.append_assoc]
    exact rest.run
  asks := by rw [List.map_append, turn.asks, rest.asks, List.filterMap_append, List.map_append]
  logs := by rw [rest.logs, turn.logs, List.flatMap_append, List.append_assoc]
  finds := by rw [List.filterMap_append, ← List.append_assoc, turn.finds, rest.finds]

theorem receiveChars_turn {bytes : List UInt8} {received : List Received}
    (reads : receiveChars (Session.handler service) endpoint bytes = some (next, received))
    (run : ClientRun service.setting connection calls endpoint.client.client) :
    ∃ added, Round service connection calls endpoint.client next.client (handed received) added := by
  induction bytes generalizing endpoint calls received with
  | nil =>
      simp only [receiveChars, Option.some.injEq, Prod.mk.injEq] at reads
      rcases reads with ⟨rfl, rfl⟩
      exact ⟨[], by simpa using run, rfl, by simp, by simp⟩
  | cons c bytes ih =>
      simp only [receiveChars, Option.bind_eq_bind, Option.bind_eq_some_iff] at reads
      rcases reads with ⟨⟨middle, first⟩, turn, ⟨final, others⟩, rest, reads⟩
      simp only [Option.pure_def, Option.some.injEq, Prod.mk.injEq] at reads
      rcases reads with ⟨rfl, rfl⟩
      by_cases ends : c = newline
      · subst ends
        rcases Session.receiveChar_newline turn with ⟨handedEq, _, thrown, line⟩
        rcases receiveLine_turn run line with ⟨now, turned⟩
        rcases ih rest turned.run with ⟨later, turnedLater⟩
        refine ⟨now ++ later, ?_⟩
        rw [handed_append, handedEq]
        exact turned.trans turnedLater
      · simp only [receiveChar, if_neg ends, Option.some.injEq, Prod.mk.injEq] at turn
        rcases turn with ⟨rfl, rfl⟩
        rcases ih rest run with ⟨added, turned⟩
        exact ⟨added, turned⟩

/-! ## Runs -/

theorem Serves.snoc {turns : List (List ClientEntry)} {entry : WireEntry}
    (serves : Serves service connection trace entry.before turns)
    (run : ClientRun service.setting connection (turns.flatten ++ calls) entry.after.client.client)
    (asks : (calls.map fun call => call.event.action) = asked service.library entry)
    (logs : entry.after.client.log = entry.before.client.log ++ turnLog entry calls)
    (finds : (List.range entry.before.client.calls).map service.supply ++ calls.filterMap found? =
      (List.range entry.after.client.calls).map service.supply) :
    Serves service connection (trace ++ [entry]) entry.after (turns ++ [calls]) where
  run := by simpa using run
  asks := by rw [List.map_append, List.map_append, serves.asks, List.map_singleton, asks,
    List.map_singleton]
  logs := by
    have aligned : trace.length = turns.length := by
      simpa using (congrArg List.length serves.asks).symm
    rw [List.zipWith_append aligned, List.flatten_append, ← serves.logs, logs]
    simp
  finds := by
    rw [List.flatten_append, List.filterMap_append, serves.finds]
    simpa using finds

/-- Every run of a connection is a run of its client. -/
theorem exists_serves (run : WireRun service connection trace last) :
    ∃ turns, Serves service connection trace last turns := by
  refine run.invariant (fun trace last => ∃ turns, Serves service connection trace last turns)
    (fun _ => True) (fun _ _ => trivial) ⟨[], .nil, rfl, rfl, rfl⟩ ?_
  rintro trace entry ⟨turns, serves⟩ _ moves
  cases eventEq : entry.event with
  | bytes bytes =>
      simp only [eventEq, Endpoint.step] at moves
      split at moves
      · cases moves
      simp only [Option.bind_eq_bind, Option.bind_eq_some_iff] at moves
      rcases moves with ⟨⟨final, all⟩, reads, moves⟩
      simp only [onReceive, id_eq, Option.bind_eq_bind, Option.bind_eq_some_iff] at reads
      rcases reads with ⟨⟨read, inLoop⟩, loop, reads⟩
      simp only [Option.pure_def, Option.some.injEq, Prod.mk.injEq] at reads moves
      rcases reads with ⟨rfl, allEq⟩
      rcases moves with ⟨afterEq, outputEq⟩
      rcases receiveChars_turn loop serves.run with ⟨added, turned⟩
      have lines : handed entry.output = handed inLoop := by
        rw [← outputEq, ← allEq, handed_append]
        split
        · exact List.append_nil _
        · exact List.append_nil _
      have sameClient : entry.after.client.client = read.client.client ∧
          entry.after.client.calls = read.client.calls := by
        rw [← afterEq]
        split
        · exact ⟨rfl, rfl⟩
        · exact ⟨rfl, rfl⟩
      refine ⟨turns ++ [added], serves.snoc (by rw [sameClient.1]; exact turned.run) ?_ ?_
        (by rw [sameClient.2]; exact turned.finds)⟩
      · simp only [asked, eventEq, lines]
        exact turned.asks
      · rw [turnLog, ← List.append_assoc, ← turned.logs, ← afterEq, oversize, ← outputEq]
        split
        · rfl
        · exact (List.append_nil _).symm
  | sendJob clean env =>
      simp only [eventEq, Endpoint.step, Option.bind_eq_bind, Option.bind_eq_some_iff] at moves
      rcases moves with ⟨⟨sentClient, effects⟩, sends, moves⟩
      simp only [Option.pure_def, Option.some.injEq, Prod.mk.injEq] at moves
      rcases moves with ⟨afterEq, outputEq⟩
      have stepped : entry.before.client.client.step service.setting ⟨.sendJob clean, env⟩ =
          some (sentClient, ⟨effects, none⟩) := by
        simp only [step, sends, Option.bind_eq_bind, Option.bind_some, Option.pure_def]
      refine ⟨_, serves.snoc (by rw [← afterEq]; exact serves.run.extend stepped) ?_ ?_ ?_⟩
      · simp only [asked, eventEq]
        rfl
      · rw [← afterEq, turnLog, oversize, ← outputEq, List.flatMap_singleton]
        simp [Endpoint.record, logged]
      · rw [← afterEq]
        exact List.append_nil _

/-! ## Requests -/

theorem step_lines {entry : WireEntry} {stream : List UInt8} {lines : List StdString}
    (framed : Framed newline stream lines entry.before.recvMessage)
    (moves : Endpoint.step service entry.before entry.event = some (entry.after, entry.output)) :
    Framed newline (stream ++ arrived [entry]) (lines ++ handed entry.output)
        entry.after.recvMessage ∧
      (asked service.library entry).filterMap Action.message? =
        (handed entry.output).filterMap (message? service.library) := by
  cases eventEq : entry.event with
  | bytes bytes =>
      simp only [eventEq, Endpoint.step] at moves
      split at moves
      · cases moves
      simp only [Option.bind_eq_bind, Option.bind_eq_some_iff] at moves
      rcases moves with ⟨⟨final, all⟩, reads, moves⟩
      simp only [Option.pure_def, Option.some.injEq, Prod.mk.injEq] at moves
      rcases moves with ⟨afterEq, outputEq⟩
      have kept : entry.after.recvMessage = final.recvMessage := by
        rw [← afterEq]
        split
        · rfl
        · rfl
      have read := (onReceive_framed framed reads).1
      constructor
      · rw [kept, ← outputEq]
        simpa [arrived, eventEq] using read
      · simp only [asked, eventEq, List.filterMap_map]
        exact List.filterMap_some
  | sendJob clean env =>
      simp only [eventEq, Endpoint.step, Option.bind_eq_bind, Option.bind_eq_some_iff] at moves
      rcases moves with ⟨⟨sentClient, effects⟩, _, moves⟩
      simp only [Option.pure_def, Option.some.injEq, Prod.mk.injEq] at moves
      rcases moves with ⟨afterEq, outputEq⟩
      constructor
      · rw [← afterEq, ← outputEq]
        simpa [arrived, eventEq, handed, Endpoint.record] using framed
      · rw [asked, eventEq, ← outputEq]
        rfl

/-- The lines that are handed over are those of the bytes that have arrived. -/
theorem wire_framed (run : WireRun service connection trace last) :
    Framed newline (arrived trace) (linesOf trace) last.recvMessage := by
  refine run.invariant
    (fun trace last => Framed newline (arrived trace) (linesOf trace) last.recvMessage)
    (fun _ => True) (fun _ _ => trivial) .nil ?_
  intro trace entry framed _ moves
  have next := (step_lines framed moves).1
  simpa [arrived, linesOf] using next

/-- The messages that are handled are those of the lines that are accepted. -/
theorem Serves.messagesOf_eq {turns : List (List ClientEntry)}
    (serves : Serves service connection trace last turns)
    (run : WireRun service connection trace last) :
    messagesOf turns.flatten = (linesOf trace).filterMap (message? service.library) := by
  have actions : turns.flatten.map (fun call => call.event.action) =
      trace.flatMap (asked service.library) := by
    rw [List.map_flatten, serves.asks, List.flatMap_def]
  have perEntry : ∀ entry ∈ trace, (asked service.library entry).filterMap Action.message? =
      (handed entry.output).filterMap (message? service.library) := by
    intro entry entryMem
    rcases run.before_of_mem entryMem with ⟨earlier, later, _, before, moves⟩
    exact (step_lines (wire_framed before) moves).2
  calc messagesOf turns.flatten
      = (turns.flatten.map fun call => call.event.action).filterMap Action.message? := by
        rw [List.filterMap_map]
        rfl
    _ = trace.flatMap fun entry =>
          (asked service.library entry).filterMap Action.message? := by
        rw [actions, List.filterMap_flatMap]
    _ = trace.flatMap fun entry =>
          (handed entry.output).filterMap (message? service.library) :=
        List.flatMap_congr perEntry
    _ = (linesOf trace).filterMap (message? service.library) := by
        rw [linesOf, List.filterMap_flatMap]

theorem message?_toText {library : Library} (documented : library.Documented) {message : JSON}
    (sendable : Sendable message) :
    message? library (message.toText library) = some message.normalize := by
  rcases sendable with ⟨⟨members, rfl⟩, plain, _⟩
  rcases JSON.fromString_object documented plain with ⟨read, parses, same⟩
  rw [message?_eq_some parses, same]

/-- Messages that are written one a line are these lines. -/
theorem messages_framed {library : Library} (prints : library.PrintsDoubles)
    {messages : List JSON} (single : ∀ message ∈ messages, newline ∉ message.characters) :
    Framed newline (messages.flatMap (lineText library))
      (messages.map (JSON.toText library)) [] := by
  refine ⟨?_, ?_, List.not_mem_nil⟩
  · rw [List.append_nil, List.flatMap_map]
    rfl
  · intro line lineMem
    rcases List.mem_map.mp lineMem with ⟨message, messageMem, rfl⟩
    intro breaks
    rcases JSON.mem_toText prints breaks with printable | inside
    · exact absurd printable (by decide)
    · exact single message messageMem inside

theorem Serves.messagesOf_lines {turns : List (List ClientEntry)}
    (documented : service.library.Documented)
    (serves : Serves service connection trace last turns)
    (run : WireRun service connection trace last) {handled : List JSON}
    (sendable : ∀ request ∈ handled, Sendable request)
    (linesEq : linesOf trace = handled.map (JSON.toText service.library)) :
    messagesOf turns.flatten = handled.map JSON.normalize := by
  have parses : ∀ request ∈ handled,
      (message? service.library ∘ JSON.toText service.library) request =
        some request.normalize := by
    intro request requestMem
    exact message?_toText documented (sendable request requestMem)
  rw [serves.messagesOf_eq run, linesEq, List.filterMap_map, List.filterMap_congr parses,
    List.filterMap_eq_map']

/--
Of a peer that writes requests one a line, a connection has handled exactly those whose line is
complete, in their order and whatever happens between the reads, and keeps the beginning of
the next.
-/
theorem requests_handled (documented : service.library.Documented)
    (prints : service.library.PrintsDoubles) (run : WireRun service connection trace last)
    {requests : List JSON} (sendable : ∀ request ∈ requests, Sendable request)
    (sent : arrived trace <+: requests.flatMap (lineText service.library)) :
    ∃ turns handled pending, Serves service connection trace last turns ∧
      requests = handled ++ pending ∧
      messagesOf turns.flatten = handled.map JSON.normalize ∧
      arrived trace = handled.flatMap (lineText service.library) ++ last.recvMessage ∧
      (arrived trace = requests.flatMap (lineText service.library) → pending = []) := by
  rcases exists_serves run with ⟨turns, serves⟩
  rcases sent with ⟨unread, streamEq⟩
  have whole := messages_framed prints fun request requestMem => (sendable request requestMem).single
  have framed := wire_framed run
  rcases framed.exists_append unread with ⟨later, after, longer⟩
  rw [streamEq] at longer
  have linesEq := (whole.unique longer).1
  rcases List.map_eq_append_iff.mp linesEq with ⟨handled, pending, rfl, handledEq, pendingEq⟩
  refine ⟨turns, handled, pending, serves, rfl, ?_, ?_, ?_⟩
  · refine serves.messagesOf_lines documented run ?_ handledEq.symm
    exact fun request requestMem => sendable request (List.mem_append_left _ requestMem)
  · rw [framed.joined, ← handledEq, List.flatMap_map]
    rfl
  · intro all
    rw [← all] at whole
    have same := (whole.unique framed).1
    rw [List.map_append, handledEq] at same
    exact List.map_eq_nil_iff.mp (List.append_right_eq_self.mp same)

/-! ## A sample connection -/

namespace Sample

theorem library_printsDoubles : Poolserver.Sample.library.PrintsDoubles := by
  intro bits ch chMem
  cases chMem

/-- A worker that subscribes and asks for authorization. -/
def requests : List JSON :=
  [request "mining.subscribe" [], request "mining.authorize" ["alice", "secret"]]

theorem requests_sendable : ∀ request ∈ requests, Sendable request := by
  intro request requestMem
  rcases List.mem_pair.mp requestMem with rfl | rfl
  · refine ⟨⟨_, rfl⟩, ?_, by decide⟩
    simp only [Sample.request, JSON.Plain, JSON.PlainMembers, JSON.PlainAll, JSON.Quoteless,
      JSON.text, List.map_nil]
    decide
  · refine ⟨⟨_, rfl⟩, ?_, by decide⟩
    simp only [Sample.request, JSON.Plain, JSON.PlainMembers, JSON.PlainAll, JSON.Quoteless,
      JSON.text, List.map_cons, List.map_nil]
    decide

def requestBytes : List UInt8 :=
  requests.flatMap (lineText Poolserver.Sample.library)

/-- Two reads that cut the first request, with a new template between them. -/
def arrivals : List Arrival :=
  [.bytes (requestBytes.take 9), .sendJob false (easyEnv 2), .bytes (requestBytes.drop 9)]

end Sample

theorem Sample.exists_wireRun :
    ∃ (trace : List WireEntry) (last : Endpoint),
      WireRun Sample.service Sample.connection trace last ∧
      trace.map Entry.event = Sample.arrivals ∧ arrived trace = Sample.requestBytes := by
  have defined : (replay (Endpoint.step Sample.service)
      (Receiver.new (Session.new (Client.new Sample.config Sample.connection)))
      Sample.arrivals).isSome = true := by
    decide +kernel
  rcases Option.isSome_iff_exists.mp defined with ⟨⟨trace, last⟩, replayed⟩
  have events := map_event_replay replayed
  refine ⟨trace, last, .ofReplay replayed, events, ?_⟩
  have perEvent : arrived trace = (trace.map Entry.event).flatMap fun
      | .bytes bytes => bytes
      | .sendJob _ _ => [] := by
    rw [List.flatMap_map]
    rfl
  rw [perEvent, events]
  exact List.take_append_drop 9 Sample.requestBytes

theorem requests_handled_sample :
    ∃ (trace : List WireEntry) (last : Endpoint) (turns : List (List ClientEntry)),
      trace.map Entry.event = Sample.arrivals ∧
      Serves Sample.service Sample.connection trace last turns ∧
      messagesOf turns.flatten = Sample.requests.map JSON.normalize := by
  rcases Sample.exists_wireRun with ⟨trace, last, run, events, all⟩
  rcases requests_handled Poolserver.Sample.library_documented Sample.library_printsDoubles run
    Sample.requests_sendable (by rw [all]; exact List.prefix_refl _) with
    ⟨turns, handled, pending, serves, requestsEq, messages, _, nothing⟩
  refine ⟨trace, last, turns, events, serves, ?_⟩
  rw [messages, requestsEq, nothing all, List.append_nil]

end Poolserver.Stratum
