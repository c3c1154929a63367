import Poolserver.Lib.Framing
import Poolserver.Lib.RunTrace
import Poolserver.Shared.Common

/-!
# Receiving messages

`Client::_OnReceive` collects the bytes of every read into `_recvMessage` and hands each line
to `JSON::FromString` and `OnMessage`. What a line does to the rest of the client is a
parameter, as is what happens to it between two reads: the lines do not depend on either.
-/

namespace Poolserver.Stratum

open RunTrace Framing

/-- `MAX_PACKET`. -/
def maxPacket : ℕ := 4096

def newline : UInt8 := 10

/-- What the loop of `_OnReceive` needs of a client. -/
structure Handler (σ : Type) where
  subscribed : σ → Bool
  /--
  `OnMessage(JSON::FromString(line))`, with the exception derived from `std::exception` that
  ends it, if any.
  -/
  onMessage : σ → StdString → Option (σ × Option StdException)

structure Receiver (σ : Type) where
  client : σ
  recvMessage : StdString

/-- What `_OnReceive` does that is seen outside. -/
inductive Received where
  | handed (line : StdString)
  | redirectGetwork
  /-- `Disconnect` for a message that is too long. -/
  | disconnect
  deriving DecidableEq

/-- One completed read: what happened to the client before it, and the bytes it delivers. -/
structure Delivery (σ : Type) where
  meanwhile : σ → σ
  bytes : List UInt8

variable {σ : Type} (handler : Handler σ)

/-- One turn of the loop. The exception of a message is caught and logged. -/
def receiveChar (receiver : Receiver σ) (c : UInt8) : Option (Receiver σ × List Received) :=
  if c = newline then do
    let redirects :=
      if handler.subscribed receiver.client = false ∧
          receiver.recvMessage = ascii "POST / HTTP/1.1\r"
        then [Received.redirectGetwork] else []
    let (client, _) ← handler.onMessage receiver.client receiver.recvMessage
    return (⟨client, []⟩, redirects ++ [.handed receiver.recvMessage])
  else some ({ receiver with recvMessage := receiver.recvMessage ++ [c] }, [])

/-- The loop over the bytes of one read. -/
def receiveChars (receiver : Receiver σ) : List UInt8 → Option (Receiver σ × List Received)
  | [] => some (receiver, [])
  | c :: bytes => do
      let (receiver, first) ← receiveChar handler receiver c
      let (receiver, others) ← receiveChars receiver bytes
      return (receiver, first ++ others)

/-- `Client::_OnReceive` without an error. -/
def onReceive (receiver : Receiver σ) (delivery : Delivery σ) :
    Option (Receiver σ × List Received) := do
  let (receiver, received) ←
    receiveChars handler { receiver with client := delivery.meanwhile receiver.client }
      delivery.bytes
  let disconnects :=
    if maxPacket < receiver.recvMessage.length then [Received.disconnect] else []
  return (receiver, received ++ disconnects)

/-- A client whose connection has delivered nothing yet. -/
def Receiver.new (client : σ) : Receiver σ :=
  ⟨client, []⟩

/-! ## Lines -/

/-- The strings that were handed to `JSON::FromString`, in order. -/
def handed (received : List Received) : List StdString :=
  received.filterMap fun event =>
    match event with
    | .handed line => some line
    | _ => none

@[simp]
theorem handed_append (left right : List Received) :
    handed (left ++ right) = handed left ++ handed right :=
  List.filterMap_append

variable {handler} {receiver next : Receiver σ} {received : List Received}
  {stream : List UInt8} {lines : List StdString} {rest : StdString}

/-- A turn of the loop ends the current line or adds to it, whatever the message does. -/
theorem receiveChar_framed {c : UInt8} (framed : Framed newline stream lines receiver.recvMessage)
    (receives : receiveChar handler receiver c = some (next, received)) :
    Framed newline (stream ++ [c]) (lines ++ handed received) next.recvMessage ∧
      Received.disconnect ∉ received := by
  unfold receiveChar at receives
  split at receives
  · rename_i ends
    subst ends
    simp only [Option.bind_eq_bind, Option.bind_eq_some_iff] at receives
    rcases receives with ⟨⟨client, exception⟩, _, receives⟩
    simp only [Option.pure_def, Option.some.injEq, Prod.mk.injEq] at receives
    rcases receives with ⟨rfl, rfl⟩
    have line := framed.separate
    split
    · exact ⟨by simpa [handed] using line, by simp⟩
    · exact ⟨by simpa [handed] using line, by simp⟩
  · rename_i other
    simp only [Option.some.injEq, Prod.mk.injEq] at receives
    rcases receives with ⟨rfl, rfl⟩
    exact ⟨by simpa [handed] using framed.extend other, by simp⟩

theorem receiveChars_framed {bytes : List UInt8}
    (framed : Framed newline stream lines receiver.recvMessage)
    (receives : receiveChars handler receiver bytes = some (next, received)) :
    Framed newline (stream ++ bytes) (lines ++ handed received) next.recvMessage ∧
      Received.disconnect ∉ received := by
  induction bytes generalizing stream lines receiver received with
  | nil =>
      simp only [receiveChars, Option.some.injEq, Prod.mk.injEq] at receives
      rcases receives with ⟨rfl, rfl⟩
      exact ⟨by simpa [handed] using framed, by simp⟩
  | cons c bytes ih =>
      simp only [receiveChars, Option.bind_eq_bind, Option.bind_eq_some_iff] at receives
      rcases receives with ⟨⟨middle, first⟩, firstRead, ⟨last, others⟩, othersRead, receives⟩
      simp only [Option.pure_def, Option.some.injEq, Prod.mk.injEq] at receives
      rcases receives with ⟨rfl, rfl⟩
      rcases receiveChar_framed framed firstRead with ⟨framedFirst, quietFirst⟩
      rcases ih framedFirst othersRead with ⟨framedOthers, quietOthers⟩
      refine ⟨by simpa using framedOthers, ?_⟩
      rw [List.mem_append]
      exact not_or.mpr ⟨quietFirst, quietOthers⟩

/-- A line is handed over if each of its messages returns. -/
theorem exists_receiveChars (returns : ∀ client line, handler.onMessage client line ≠ none)
    (receiver : Receiver σ) (bytes : List UInt8) :
    ∃ next received, receiveChars handler receiver bytes = some (next, received) := by
  induction bytes generalizing receiver with
  | nil => exact ⟨receiver, [], rfl⟩
  | cons c bytes ih =>
      have turn : ∃ next received, receiveChar handler receiver c = some (next, received) := by
        unfold receiveChar
        split
        · rcases Option.ne_none_iff_exists'.mp
            (returns receiver.client receiver.recvMessage) with ⟨⟨client, exception⟩, returned⟩
          rw [returned]
          exact ⟨_, _, rfl⟩
        · exact ⟨_, _, rfl⟩
      rcases turn with ⟨middle, first, firstRead⟩
      rcases ih middle with ⟨last, others, othersRead⟩
      refine ⟨last, first ++ others, ?_⟩
      rw [receiveChars, firstRead]
      simp only [Option.bind_eq_bind, Option.bind_some]
      rw [othersRead]
      rfl

/-! ## Reads -/

abbrev ReceiverEntry (σ : Type) := Entry (Receiver σ) (Delivery σ) (List Received)

/-- The bytes that reads deliver. -/
def bytesOf (deliveries : List (Delivery σ)) : List UInt8 :=
  deliveries.flatMap Delivery.bytes

/-- All that was received in a run of reads. -/
def receivedIn (trace : List (ReceiverEntry σ)) : List Received :=
  trace.flatMap Entry.output

/--
The reads deliver these lines and leave this rest, and no message is too long; and they do
come to an end if every message returns, by an exception or not.
-/
structure Frames (handler : Handler σ) (client : σ) (deliveries : List (Delivery σ))
    (lines : List StdString) (rest : StdString) : Prop where
  delivers : ∀ trace last,
    replay (onReceive handler) (Receiver.new client) deliveries = some (trace, last) →
      handed (receivedIn trace) = lines ∧ last.recvMessage = rest ∧
        Received.disconnect ∉ receivedIn trace
  ends : (∀ client line, handler.onMessage client line ≠ none) →
    ∃ trace last, replay (onReceive handler) (Receiver.new client) deliveries = some (trace, last)

/-- The loop of a read goes on with the lines, and its end tests what is unfinished. -/
theorem onReceive_framed {delivery : Delivery σ}
    (framed : Framed newline stream lines receiver.recvMessage)
    (read : onReceive handler receiver delivery = some (next, received)) :
    Framed newline (stream ++ delivery.bytes) (lines ++ handed received) next.recvMessage ∧
      (Received.disconnect ∈ received ↔ maxPacket < next.recvMessage.length) := by
  simp only [onReceive, Option.bind_eq_bind, Option.bind_eq_some_iff] at read
  rcases read with ⟨⟨last, inLoop⟩, loop, read⟩
  simp only [Option.pure_def, Option.some.injEq, Prod.mk.injEq] at read
  rcases read with ⟨rfl, rfl⟩
  have kept : Framed newline stream lines
      (Receiver.mk (delivery.meanwhile receiver.client) receiver.recvMessage).recvMessage :=
    framed
  rcases receiveChars_framed kept loop with ⟨framedLast, quiet⟩
  split
  · rename_i long
    exact ⟨by simpa [handed] using framedLast, by simp [long]⟩
  · rename_i short
    exact ⟨by simpa using framedLast, by simp [quiet, short]⟩

section Runs

variable {client : σ} {trace : List (ReceiverEntry σ)} {last : Receiver σ}

theorem run_framed (run : Run (onReceive handler) (Receiver.new client) trace last) :
    Framed newline (bytesOf (trace.map Entry.event)) (handed (receivedIn trace))
      last.recvMessage := by
  refine run.invariant (fun trace last => Framed newline (bytesOf (trace.map Entry.event))
    (handed (receivedIn trace)) last.recvMessage) (fun _ => True) (fun _ _ => trivial) .nil ?_
  intro trace entry framed _ read
  simpa [bytesOf, receivedIn] using (onReceive_framed framed read).1

/-- The client is disconnected where what is unfinished after a read is too long. -/
theorem disconnect_iff (run : Run (onReceive handler) (Receiver.new client) trace last) :
    Received.disconnect ∈ receivedIn trace ↔
      ∃ entry ∈ trace, maxPacket < entry.after.recvMessage.length := by
  rw [receivedIn, List.mem_flatMap]
  refine exists_congr fun entry => and_congr_right fun entryMem => ?_
  rcases run.before_of_mem entryMem with ⟨earlier, later, _, before, read⟩
  exact (onReceive_framed (run_framed before) read).2

/-- What is kept after a read is no longer than the line that it begins. -/
theorem quiet_of_short (run : Run (onReceive handler) (Receiver.new client) trace last)
    {unread : List UInt8}
    (framed : Framed newline (bytesOf (trace.map Entry.event) ++ unread) lines rest)
    (short : ∀ line ∈ rest :: lines, line.length ≤ maxPacket) :
    Received.disconnect ∉ receivedIn trace := by
  rw [disconnect_iff run]
  rintro ⟨entry, entryMem, long⟩
  rcases run.before_of_mem entryMem with ⟨earlier, later, traceEq, before, read⟩
  have unfinished := (onReceive_framed (run_framed before) read).1
  have whole : Framed newline (bytesOf (earlier.map Entry.event) ++ entry.event.bytes ++
      (bytesOf (later.map Entry.event) ++ unread)) lines rest := by
    simpa [traceEq, bytesOf] using framed
  rcases unfinished.unfinished_prefix whole with ⟨line, lineMem, isPrefix⟩
  exact absurd long (not_lt.mpr (isPrefix.length_le.trans (short line lineMem)))

end Runs

theorem exists_replay (returns : ∀ client line, handler.onMessage client line ≠ none)
    (receiver : Receiver σ) (deliveries : List (Delivery σ)) :
    ∃ trace last, replay (onReceive handler) receiver deliveries = some (trace, last) := by
  induction deliveries generalizing receiver with
  | nil => exact ⟨[], receiver, rfl⟩
  | cons delivery deliveries ih =>
      rcases exists_receiveChars returns
        { receiver with client := delivery.meanwhile receiver.client } delivery.bytes with
        ⟨middle, inLoop, loop⟩
      rcases ih middle with ⟨trace, last, replayed⟩
      have read : ∃ received, onReceive handler receiver delivery = some (middle, received) := by
        rw [onReceive, loop]
        exact ⟨_, rfl⟩
      rcases read with ⟨received, read⟩
      refine ⟨⟨receiver, delivery, received, middle⟩ :: trace, last, ?_⟩
      rw [replay, read]
      simp only [replayed, Option.map_some]

theorem frames_of_framed {client : σ} {deliveries : List (Delivery σ)}
    (framed : Framed newline (bytesOf deliveries) lines rest)
    (short : ∀ line ∈ rest :: lines, line.length ≤ maxPacket) :
    Frames handler client deliveries lines rest := by
  refine ⟨?_, fun returns => exists_replay returns _ _⟩
  intro trace last replayed
  have run : Run (onReceive handler) (Receiver.new client) trace last := .ofReplay replayed
  have events := map_event_replay replayed
  have framedLast := run_framed run
  rw [events] at framedLast
  rcases framedLast.unique framed with ⟨linesEq, restEq⟩
  have whole : Framed newline (bytesOf (trace.map Entry.event) ++ []) lines rest := by
    rwa [List.append_nil, events]
  exact ⟨linesEq, restEq, quiet_of_short run whole short⟩

/--
Two splittings of a stream whose lines are not too long hand over the same lines, those of the
stream, keep the same rest, and disconnect no one for the size of a message.
-/
theorem framing_independent {client other : σ} {left right : List (Delivery σ)}
    (same : bytesOf left = bytesOf right) (framed : Framed newline (bytesOf left) lines rest)
    (short : ∀ line ∈ rest :: lines, line.length ≤ maxPacket) :
    Frames handler client left lines rest ∧ Frames handler other right lines rest :=
  ⟨frames_of_framed framed short, frames_of_framed (same ▸ framed) short⟩

end Poolserver.Stratum
