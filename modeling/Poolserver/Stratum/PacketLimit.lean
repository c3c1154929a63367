import Poolserver.Stratum.Receive

/-!
# The limit for packets

`_OnReceive` compares what is unfinished at the end of a read with `MAX_PACKET`. A line that
ends within a read is handed over before that, however long it is, and whether it is
noticed on the way depends on where the reads were cut.
-/

namespace Poolserver.Stratum

open RunTrace Framing

variable {stream : List UInt8} {lines : List StdString} {rest : StdString}

/--
The reads of a stream. `Disconnect` closes the socket, so that the last read is the only one
that can disconnect the client, and all of the stream is read if it does not.
-/
structure Reads {σ : Type} (handler : Handler σ) (client : σ) (stream : List UInt8)
    (trace : List (ReceiverEntry σ)) : Prop where
  run : ∃ last, Run (onReceive handler) (Receiver.new client) trace last
  isOpen : ∀ entry ∈ trace.dropLast, Received.disconnect ∉ entry.output
  joined : ∃ unread, stream = bytesOf (trace.map Entry.event) ++ unread ∧
    (unread ≠ [] → Received.disconnect ∈ receivedIn trace)

/-- What can come of a stream, however it is cut into reads and whatever its messages do. -/
def Receives (stream : List UInt8) (received : List Received) : Prop :=
  ∃ (σ : Type) (handler : Handler σ) (client : σ) (trace : List (ReceiverEntry σ)),
    Reads handler client stream trace ∧ receivedIn trace = received

/--
No string that is handed over is longer than a packet, and whether the client is
disconnected for the size of a message is a matter of the stream.
-/
structure LimitsPackets (stream : List UInt8) : Prop where
  short : ∀ received, Receives stream received → ∀ line ∈ handed received, line.length ≤ maxPacket
  independent : ∀ left right, Receives stream left → Receives stream right →
    (.disconnect ∈ left ↔ .disconnect ∈ right)

/-- The lines of a stream that are complete are no longer than a packet. -/
def LinesFit (stream : List UInt8) : Prop :=
  ∀ lines rest, Framed newline stream lines rest → ∀ line ∈ lines, line.length ≤ maxPacket

/-! ## Every splitting -/

section Reads

variable {received : List Received}

/-- What is handed over are lines of the stream. -/
theorem Receives.handed_prefix (receives : Receives stream received)
    (framed : Framed newline stream lines rest) : handed received <+: lines := by
  rcases receives with ⟨σ, handler, client, trace, reads, rfl⟩
  rcases reads.run with ⟨last, run⟩
  rcases reads.joined with ⟨unread, rfl, _⟩
  rcases (run_framed run).exists_append unread with ⟨later, after, whole⟩
  exact ⟨later, (whole.unique framed).1⟩

/-- A rest that is too long is noticed at the end of the last read. -/
theorem Receives.disconnect_of_rest (receives : Receives stream received)
    (framed : Framed newline stream lines rest) (long : maxPacket < rest.length) :
    .disconnect ∈ received := by
  rcases receives with ⟨σ, handler, client, trace, reads, rfl⟩
  rcases reads.run with ⟨last, run⟩
  rcases reads.joined with ⟨unread, rfl, closed⟩
  by_cases all : unread = []
  · rw [all, List.append_nil] at framed
    have restEq := ((run_framed run).unique framed).2
    rw [disconnect_iff run]
    cases run with
    | nil => simp [Receiver.new, ← restEq] at long
    | snoc run moves => exact ⟨_, by simp, restEq.symm ▸ long⟩
  · exact closed all

/-- Nothing is noticed where no line and no rest is too long. -/
theorem Receives.quiet (receives : Receives stream received)
    (framed : Framed newline stream lines rest)
    (short : ∀ line ∈ rest :: lines, line.length ≤ maxPacket) : .disconnect ∉ received := by
  rcases receives with ⟨σ, handler, client, trace, reads, rfl⟩
  rcases reads.run with ⟨last, run⟩
  rcases reads.joined with ⟨unread, rfl, _⟩
  exact quiet_of_short run framed short

theorem independent_of_linesFit (fits : LinesFit stream) {left right : List Received}
    (receivesLeft : Receives stream left) (receivesRight : Receives stream right) :
    .disconnect ∈ left ↔ .disconnect ∈ right := by
  rcases exists_framed newline stream with ⟨lines, rest, framed⟩
  by_cases long : maxPacket < rest.length
  · exact iff_of_true (receivesLeft.disconnect_of_rest framed long)
      (receivesRight.disconnect_of_rest framed long)
  · have short : ∀ line ∈ rest :: lines, line.length ≤ maxPacket :=
      List.forall_mem_cons.mpr ⟨not_lt.mp long, fits lines rest framed⟩
    exact iff_of_false (receivesLeft.quiet framed short) (receivesRight.quiet framed short)

end Reads

/-! ## One read -/

/-- Messages that do nothing. -/
def Sample.handler : Handler Unit where
  subscribed _ := true
  onMessage client _ := some (client, none)

theorem exists_read (bytes : List UInt8) (framed : Framed newline bytes lines rest) :
    ∃ trace, (∃ last, Run (onReceive Sample.handler) (Receiver.new ()) trace last) ∧
      trace.map Entry.event = [⟨id, bytes⟩] ∧ trace.dropLast = [] ∧
      handed (receivedIn trace) = lines ∧
      (Received.disconnect ∈ receivedIn trace ↔ maxPacket < rest.length) := by
  have returns : ∀ client line, Sample.handler.onMessage client line ≠ none := by
    intro client line
    simp [Sample.handler]
  rcases exists_replay returns (Receiver.new ()) [⟨id, bytes⟩] with ⟨trace, last, replayed⟩
  have events := map_event_replay replayed
  rcases replay_cons replayed with ⟨next, output, later, read, others, rfl⟩
  rw [List.map_cons, List.cons.injEq, List.map_eq_nil_iff] at events
  rcases events with ⟨_, rfl⟩
  have nothing : Framed newline [] [] (Receiver.new ()).recvMessage := .nil
  rcases onReceive_framed nothing read with ⟨framedRead, noticed⟩
  rcases framedRead.unique framed with ⟨linesEq, restEq⟩
  refine ⟨_, ⟨last, .ofReplay replayed⟩, rfl, rfl, by simpa [receivedIn] using linesEq, ?_⟩
  rw [← restEq, ← noticed]
  simp [receivedIn]

/-- A stream that comes in one read. -/
theorem exists_receives_whole (framed : Framed newline stream lines rest) :
    ∃ received, Receives stream received ∧ handed received = lines ∧
      (.disconnect ∈ received ↔ maxPacket < rest.length) := by
  rcases exists_read stream framed with ⟨trace, run, events, single, sameLines, noticed⟩
  refine ⟨_, ⟨Unit, Sample.handler, (), trace, ⟨run, by simp [single], [], ?_⟩, rfl⟩,
    sameLines, noticed⟩
  simp [events, bytesOf]

/-- A stream that is cut within a line that is too long. -/
theorem exists_receives_cut {front back : List UInt8} (framed : Framed newline front lines rest)
    (long : maxPacket < rest.length) :
    ∃ received, Receives (front ++ back) received ∧ .disconnect ∈ received := by
  rcases exists_read front framed with ⟨trace, run, events, single, _, noticed⟩
  have disconnected := noticed.mpr long
  refine ⟨_, ⟨Unit, Sample.handler, (), trace, ⟨run, by simp [single], back, ?_⟩, rfl⟩,
    disconnected⟩
  exact ⟨by simp [events, bytesOf], fun _ => disconnected⟩

/-! ## The limit -/

theorem linesFit_of_short
    (short : ∀ received, Receives stream received →
      ∀ line ∈ handed received, line.length ≤ maxPacket) : LinesFit stream := by
  intro lines rest framed
  rcases exists_receives_whole framed with ⟨received, receives, handedEq, _⟩
  rw [← handedEq]
  exact short received receives

/--
Whether the client is disconnected depends on where the reads were cut exactly if a complete
line is too long and the rest is not.
-/
theorem independent_iff (stream : List UInt8) :
    (∀ left right, Receives stream left → Receives stream right →
      (.disconnect ∈ left ↔ .disconnect ∈ right)) ↔
      LinesFit stream ∨ ∃ lines rest, Framed newline stream lines rest ∧ maxPacket < rest.length := by
  constructor
  · intro independent
    rcases exists_framed newline stream with ⟨lines, rest, framed⟩
    by_cases long : maxPacket < rest.length
    · exact .inr ⟨lines, rest, framed, long⟩
    · refine .inl fun others otherRest framedOther line lineMem => ?_
      by_contra tooLong
      rw [not_le] at tooLong
      rcases exists_receives_whole framed with ⟨left, receivesLeft, _, noticed⟩
      rcases framedOther.of_line lineMem with ⟨front, back, before, rfl, framedFront⟩
      rcases exists_receives_cut framedFront tooLong with ⟨right, receivesRight, disconnected⟩
      have missed := (independent left right receivesLeft receivesRight).mpr disconnected
      exact long (noticed.mp missed)
  · rintro (fits | ⟨lines, rest, framed, long⟩) left right receivesLeft receivesRight
    · exact independent_of_linesFit fits receivesLeft receivesRight
    · exact iff_of_true (receivesLeft.disconnect_of_rest framed long)
        (receivesRight.disconnect_of_rest framed long)

/-- The limit is enforced exactly on the streams that have no complete line that is too long. -/
theorem limitsPackets_iff (stream : List UInt8) : LimitsPackets stream ↔ LinesFit stream := by
  constructor
  · intro limits
    exact linesFit_of_short limits.short
  · intro fits
    refine ⟨?_, fun left right => independent_of_linesFit fits⟩
    intro received receives line lineMem
    rcases exists_framed newline stream with ⟨lines, rest, framed⟩
    exact fits lines rest framed line ((receives.handed_prefix framed).subset lineMem)

/-- A line that is one byte too long. -/
theorem not_limitsPackets :
    ¬LimitsPackets (List.replicate (maxPacket + 1) 97 ++ [newline]) := by
  intro limits
  have unfinished : Framed newline (List.replicate (maxPacket + 1) 97) []
      (List.replicate (maxPacket + 1) 97) := ⟨rfl, by simp, by simp [newline]⟩
  have fits := linesFit_of_short limits.short _ _ unfinished.separate
  simp at fits

end Poolserver.Stratum
