import Poolserver.DataMgr.Inserts
import Poolserver.Stratum.Messages

/-!
# Everything that a connection sends

Beside its messages, a connection sends the redirection of `RedirectGetwork`, whenever a miner
that has not subscribed asks for work over HTTP. All of it reaches the peer in whole lines,
wherever the redirections stand between the messages.
-/

namespace Poolserver.Stratum

open RunTrace Framing Client

/-- The options that `RedirectGetwork` reads. -/
structure Redirection where
  stratumRedirectHost : StdString
  stratumPort : UInt16

namespace Redirection

variable (redirection : Redirection)

/-- The redirection before it is cut. -/
def format : StdString :=
  ascii "HTTP/1.1 200 OK\r\nX-Stratum: stratum+tcp://" ++
    Util.cStr redirection.stratumRedirectHost ++ ascii ":" ++
    Util.unsigned redirection.stratumPort.toUInt32 ++
    ascii "\r\nConnection: Close\r\nContent-Length: 41\r\n\r\n" ++
    ascii "\x7b\"error\": null, \"result\": false, \"id\": 0\x7d\n"

/-- `Client::RedirectGetwork`. -/
def redirectGetwork : StdString :=
  Util.fs redirection.format

/-- The host is in one line, and the text has room in the buffer of `Util::FS`. -/
structure Sound : Prop where
  single : newline ∉ Util.cStr redirection.stratumRedirectHost
  fits : DataMgr.Fits redirection.format

/-- The lines of a redirection. -/
def lines : List StdString :=
  [ascii "HTTP/1.1 200 OK\r",
    ascii "X-Stratum: stratum+tcp://" ++ Util.cStr redirection.stratumRedirectHost ++ ascii ":" ++
      Util.unsigned redirection.stratumPort.toUInt32 ++ ascii "\r",
    ascii "Connection: Close\r", ascii "Content-Length: 41\r", ascii "\r",
    ascii "\x7b\"error\": null, \"result\": false, \"id\": 0\x7d"]

variable {redirection}

theorem newline_notMem_unsigned (number : UInt32) : newline ∉ Util.unsigned number := by
  intro breaks
  exact absurd (DecimalText.isDigit_of_mem_write breaks) (by decide)

theorem framed (sound : redirection.Sound) :
    Framed newline redirection.redirectGetwork redirection.lines [] := by
  have whole : redirection.redirectGetwork = redirection.format :=
    DataMgr.fs_of_fits sound.fits
  refine ⟨?_, ?_, List.not_mem_nil⟩
  · have head : ascii "HTTP/1.1 200 OK\r\nX-Stratum: stratum+tcp://" =
        ascii "HTTP/1.1 200 OK\r" ++ newline :: ascii "X-Stratum: stratum+tcp://" := by
      decide
    have body : ascii "\r\nConnection: Close\r\nContent-Length: 41\r\n\r\n" =
        ascii "\r" ++ newline :: (ascii "Connection: Close\r" ++
          newline :: (ascii "Content-Length: 41\r" ++ newline :: (ascii "\r" ++ [newline]))) := by
      decide
    have last : ascii "\x7b\"error\": null, \"result\": false, \"id\": 0\x7d\n" =
        ascii "\x7b\"error\": null, \"result\": false, \"id\": 0\x7d" ++ [newline] := by
      decide
    rw [whole, format, head, body, last]
    simp [lines]
  · have fixed : ∀ line ∈ [ascii "HTTP/1.1 200 OK\r", ascii "Connection: Close\r",
        ascii "Content-Length: 41\r", ascii "\r",
        ascii "\x7b\"error\": null, \"result\": false, \"id\": 0\x7d"], newline ∉ line := by
      decide
    have host : newline ∉ ascii "X-Stratum: stratum+tcp://" ++
        Util.cStr redirection.stratumRedirectHost ++ ascii ":" ++
        Util.unsigned redirection.stratumPort.toUInt32 ++ ascii "\r" := by
      have before : newline ∉ ascii "X-Stratum: stratum+tcp://" := by decide
      have colon : newline ∉ ascii ":" := by decide
      have carriage : newline ∉ ascii "\r" := by decide
      simp only [List.mem_append, not_or]
      exact ⟨⟨⟨⟨before, sound.single⟩, colon⟩, newline_notMem_unsigned _⟩, carriage⟩
    rw [lines, List.forall_mem_cons, List.forall_mem_cons]
    rw [List.forall_mem_cons] at fixed
    exact ⟨fixed.1, host, fixed.2⟩

end Redirection

/-- What a connection writes at once. -/
inductive Write where
  | message (message : JSON)
  | redirect

namespace Write

def message? : Write → Option JSON
  | .message sent => some sent
  | .redirect => none

def isRedirect : Write → Bool
  | .message _ => false
  | .redirect => true

/-- What is handed to the socket. -/
def text (library : Library) (redirection : Redirection) : Write → StdString
  | .message sent => lineText library sent
  | .redirect => redirection.redirectGetwork

def lines (library : Library) (redirection : Redirection) : Write → List StdString
  | .message sent => [sent.toText library]
  | .redirect => redirection.lines

end Write

section Sent

variable {service : Service} {connection : Connection} {trace : List WireEntry}
  {last : Endpoint} {redirection : Redirection} {writes : List Write}

/-- The messages of a connection in their order, and its redirections wherever they stand. -/
structure Written (trace : List WireEntry) (last : Endpoint) (writes : List Write) : Prop where
  messages : writes.filterMap Write.message? = sentOf last.client.log
  redirects : writes.countP Write.isRedirect =
    (trace.flatMap Entry.output).count .redirectGetwork

theorem framed_of_write {library : Library} (prints : library.PrintsDoubles)
    (sound : redirection.Sound) {write : Write}
    (single : ∀ message, write.message? = some message → newline ∉ message.characters) :
    Framed newline (write.text library redirection) (write.lines library redirection) [] := by
  cases write with
  | message message =>
      have whole := messages_framed prints
        (List.forall_mem_singleton.mpr (single message rfl))
      simpa [Write.text, Write.lines] using whole
  | redirect => exact Redirection.framed sound

/--
Whatever is received, a peer that cuts what the connection hands to the socket into lines finds
one line for each message and the lines of each redirection, in their order, and nothing behind
the last line; it reads every message back from its line if the ids of the requests hold no quotes
and no numbers in floating point.
-/
theorem sent_read_back (documented : service.library.Documented)
    (prints : service.library.PrintsDoubles) (sound : redirection.Sound)
    (run : WireRun service connection trace last) (written : Written trace last writes)
    {lines : List StdString} {rest : StdString}
    (framed : Framed newline (writes.flatMap (Write.text service.library redirection)) lines
      rest) :
    ∃ turns, Serves service connection trace last turns ∧ rest = [] ∧
      lines = writes.flatMap (Write.lines service.library redirection) ∧
      ((∀ request ∈ messagesOf turns.flatten, (requestId request).Plain) →
        ∀ message ∈ sentOf last.client.log,
          message? service.library (message.toText service.library) = some message) := by
  rcases exists_serves run with ⟨turns, serves⟩
  have whole : Framed newline (writes.flatMap (Write.text service.library redirection))
      (writes.flatMap (Write.lines service.library redirection)) [] := by
    refine Framed.flatMap fun write writeMem => framed_of_write prints sound ?_
    intro message isMessage
    apply single_of_sent documented run
    rw [← written.messages]
    exact List.mem_filterMap.mpr ⟨write, writeMem, isMessage⟩
  rcases whole.unique framed with ⟨linesEq, restEq⟩
  exact ⟨turns, serves, restEq.symm, linesEq.symm, fun plain message sent =>
    message?_of_sent documented run serves plain sent⟩

end Sent

/-! ## A sample run -/

namespace Sample

/-- The defaults of the options. -/
def redirection : Redirection :=
  ⟨ascii "0.0.0.0", 3333⟩

/-- A miner asks for work over HTTP before it subscribes. -/
def getwork : StdString := ascii "POST / HTTP/1.1\r"

def getworkArrivals : List Arrival :=
  .bytes (getwork ++ [newline]) :: arrivals

theorem exists_getworkRun :
    ∃ (trace : List WireEntry) (last : Endpoint),
      WireRun service connection trace last ∧ trace.map Entry.event = getworkArrivals ∧
      linesOf trace = getwork :: requests.map (JSON.toText Poolserver.Sample.library) ∧
      (trace.flatMap Entry.output).count .redirectGetwork = 1 := by
  have found : ∃ result ∈ replay (Endpoint.step service)
      (Receiver.new (Session.new (Client.new config Sample.connection))) getworkArrivals,
      linesOf result.1 = getwork :: requests.map (JSON.toText Poolserver.Sample.library) ∧
        (result.1.flatMap Entry.output).count .redirectGetwork = 1 := by
    decide +kernel
  rcases found with ⟨⟨trace, last⟩, replayed, linesEq, redirects⟩
  exact ⟨trace, last, .ofReplay replayed, map_event_replay replayed, linesEq, redirects⟩

end Sample

theorem sent_read_back_sample :
    ∃ (trace : List WireEntry) (last : Endpoint) (writes : List Write) (lines : List StdString),
      WireRun Sample.service Sample.connection trace last ∧
      trace.map Entry.event = Sample.getworkArrivals ∧ Written trace last writes ∧
      lines = Sample.redirection.lines ++
        (sentOf last.client.log).map (JSON.toText Poolserver.Sample.library) ∧
      ∀ message ∈ sentOf last.client.log,
        message? Poolserver.Sample.library (message.toText Poolserver.Sample.library) =
          some message := by
  rcases Sample.exists_getworkRun with ⟨trace, last, run, events, linesEq, redirects⟩
  have written : Written trace last (.redirect :: (sentOf last.client.log).map .message) := by
    constructor
    · rw [List.filterMap_cons_none rfl, List.filterMap_map]
      exact List.filterMap_some
    · have others : ((sentOf last.client.log).map Write.message).countP Write.isRedirect = 0 := by
        rw [List.countP_eq_zero, List.forall_mem_map]
        exact fun _ _ => Bool.false_ne_true
      rw [redirects, List.countP_cons_of_pos rfl, others]
  have short : Sample.redirection.format.length < 256 := by
    decide +kernel
  have sound : Sample.redirection.Sound :=
    ⟨by decide, short.trans (by decide)⟩
  rcases exists_framed newline ((.redirect :: (sentOf last.client.log).map .message).flatMap
    (Write.text Poolserver.Sample.library Sample.redirection)) with ⟨lines, rest, framed⟩
  rcases sent_read_back Poolserver.Sample.library_documented Sample.library_printsDoubles sound run
    written framed with ⟨turns, serves, _, writtenLines, readBack⟩
  refine ⟨trace, last, _, lines, run, events, written, ?_, readBack ?_⟩
  · rw [writtenLines, List.flatMap_cons, List.flatMap_map, List.map_eq_flatMap]
    rfl
  · have unread : message? Sample.service.library Sample.getwork = none := by
      decide +kernel
    have parses : ∀ request ∈ Sample.requests,
        (message? Sample.service.library ∘ JSON.toText Poolserver.Sample.library) request =
          some request.normalize := fun request requestMem =>
      message?_toText Poolserver.Sample.library_documented
        (Sample.requests_sendable request requestMem)
    have handled : messagesOf turns.flatten = Sample.requests.map JSON.normalize := by
      rw [serves.messagesOf_eq run, linesEq, List.filterMap_cons_none unread, List.filterMap_map,
        List.filterMap_congr parses, List.filterMap_eq_map']
    rw [handled]
    intro request requestMem
    rcases List.mem_pair.mp requestMem with rfl | rfl
    · exact trivial
    · exact trivial

end Poolserver.Stratum
