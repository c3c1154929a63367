import Mathlib.Data.Finset.Basic
import Mathlib.Logic.Function.Basic
import Poolserver.Lib.RunTrace

/-!
# The set of clients and their reads

`Server::_clients` as the handlers of several threads leave it. An accept handler starts a
client and inserts it afterwards; the handlers of one client run one after the other, on its
strand, and beside the accept handler. `Disconnect` erases the client and closes its socket,
which are two steps. What the handlers do with messages is left out: a receive handler may
disconnect its client or not, and any handler may start sends.
-/

namespace Poolserver.Stratum

open RunTrace

/-- The error of a completed operation. -/
inductive ErrorCode where
  | eof
  | connectionReset
  | other (value : ℤ)
  deriving DecidableEq, Repr

/-- The errors for which a handler disconnects its client. -/
def ErrorCode.Lost (code : ErrorCode) : Prop :=
  code = .eof ∨ code = .connectionReset

instance : DecidablePred ErrorCode.Lost :=
  fun code => inferInstanceAs (Decidable (code = .eof ∨ code = .connectionReset))

/-- The handler that runs on the strand of a client. -/
inductive StrandHandler where
  /-- `_OnReceive` without an error, in front of its `StartRead`. -/
  | receiving
  /-- `_OnReceive` or `_OnSend` with an error for which it disconnects the client. -/
  | failing
  deriving DecidableEq, Repr

/-- A client object, as far as its socket is concerned. -/
structure Peer where
  started : Bool
  isOpen : Bool
  /-- A read is outstanding. -/
  reading : Bool
  /-- The number of sends that are outstanding. -/
  sends : ℕ
  handler : Option StrandHandler
  /-- `Disconnect` has erased the client and not closed its socket yet. -/
  closing : Bool
  deriving DecidableEq, Repr

/-- A client object that has not been started. -/
def Peer.unstarted : Peer where
  started := false
  isOpen := false
  reading := false
  sends := 0
  handler := none
  closing := false

/-- `Client::Start`, when it starts to read. -/
def Peer.start : Peer where
  started := true
  isOpen := true
  reading := true
  sends := 0
  handler := none
  closing := false

/-- The client has been disconnected. -/
def Peer.Disconnected (peer : Peer) : Prop :=
  peer.closing = true ∨ peer.isOpen = false

instance : DecidablePred Peer.Disconnected :=
  fun peer => inferInstanceAs (Decidable (peer.closing = true ∨ peer.isOpen = false))

/-- A client that is not disconnected and reads, or has a handler that will see to it. -/
structure Peer.Tended (peer : Peer) : Prop where
  isOpen : peer.isOpen = true
  closing : peer.closing = false
  reading : peer.handler = none → peer.reading = true

/-- How an accept handler goes. -/
inductive Accepted where
  | error
  /-- `Start` disconnects a banned client. -/
  | banned
  /-- `Start` catches an exception. -/
  | thrown
  | started
  deriving DecidableEq, Repr

structure ClientSet where
  peers : ℕ → Peer
  clientId : ℕ
  /-- The client that an accept handler has started and not inserted yet. -/
  accepting : Option ℕ
  clients : Finset ℕ

namespace ClientSet

def new : ClientSet where
  peers _ := .unstarted
  clientId := 0
  accepting := none
  clients := ∅

inductive Event where
  | accept (accepted : Accepted)
  | insert
  /-- A read completes, and `_OnReceive` begins. -/
  | receive (id : ℕ) (error : Option ErrorCode)
  /-- `StartRead` at the end of `_OnReceive`. -/
  | startRead (id : ℕ)
  | startSend (id : ℕ)
  /-- A send completes, and `_OnSend` begins. -/
  | send (id : ℕ) (error : Option ErrorCode)
  /-- The first half of `Disconnect`. -/
  | erase (id : ℕ)
  /-- The second half of `Disconnect`. -/
  | close (id : ℕ)
  deriving DecidableEq

/-- A client object changes. -/
def setPeer (state : ClientSet) (id : ℕ) (peer : Peer) : ClientSet :=
  { state with peers := Function.update state.peers id peer }

/-- The handler that a completion begins, unless it has nothing to do. -/
def handlerOf (success : Option StrandHandler) : Option ErrorCode → Option StrandHandler
  | none => success
  | some code => if code.Lost then some .failing else none

def step (state : ClientSet) : Event → Option (ClientSet × Unit)
  | .accept accepted =>
      if state.accepting = none then
        if accepted = .started then
          some ({ state.setPeer state.clientId .start with
            clientId := state.clientId + 1
            accepting := some state.clientId }, ())
        else some ({ state with clientId := state.clientId + 1 }, ())
      else none
  | .insert =>
      match state.accepting with
      | none => none
      | some id => some ({ state with clients := insert id state.clients, accepting := none }, ())
  | .receive id error =>
      let peer := state.peers id
      if peer.reading ∧ peer.handler = none then
        let handler := handlerOf (some .receiving) error
        some (state.setPeer id { peer with reading := false, handler }, ())
      else none
  | .startRead id =>
      let peer := state.peers id
      if peer.handler = some .receiving ∧ peer.closing = false then
        some (state.setPeer id { peer with reading := true, handler := none }, ())
      else none
  | .startSend id =>
      let peer := state.peers id
      if peer.started then some (state.setPeer id { peer with sends := peer.sends + 1 }, ())
      else none
  | .send id error =>
      let peer := state.peers id
      if 0 < peer.sends ∧ peer.handler = none then
        let handler := handlerOf none error
        some (state.setPeer id { peer with sends := peer.sends - 1, handler }, ())
      else none
  | .erase id =>
      let peer := state.peers id
      if peer.handler ≠ none ∧ peer.closing = false then
        let state := { state with clients := state.clients.erase id }
        some (state.setPeer id { peer with closing := true }, ())
      else none
  | .close id =>
      let peer := state.peers id
      if peer.closing then
        -- the error branch ends with `Disconnect`
        let handler := if peer.handler = some .failing then none else peer.handler
        some (state.setPeer id { peer with isOpen := false, closing := false, handler }, ())
      else none

end ClientSet

abbrev ClientSetEntry := Entry ClientSet ClientSet.Event Unit

abbrev ClientSetRun : List ClientSetEntry → ClientSet → Prop :=
  Run ClientSet.step ClientSet.new

namespace ClientSet

variable {state next : ClientSet} {trace : List ClientSetEntry} {last : ClientSet}

/-! ## Live connections -/

/-- No handler is running. -/
def Quiescent (state : ClientSet) : Prop :=
  state.accepting = none ∧ ∀ id < state.clientId, (state.peers id).handler = none

/-- Every client in the set has an outstanding read. -/
def Live (state : ClientSet) : Prop :=
  ∀ id ∈ state.clients, (state.peers id).reading = true

instance : DecidablePred Quiescent :=
  fun state => inferInstanceAs
    (Decidable (state.accepting = none ∧ ∀ id < state.clientId, (state.peers id).handler = none))

instance : DecidablePred Live :=
  fun state => inferInstanceAs
    (Decidable (∀ id ∈ state.clients, (state.peers id).reading = true))

/--
The read of a client that has not been disconnected fails with one of the two codes only,
and a client is not disconnected between its start and its insertion.
-/
def Orderly (entry : ClientSetEntry) : Prop :=
  match entry.event with
  | .receive id (some code) => code.Lost ∨ (entry.before.peers id).Disconnected
  | .erase id => entry.before.accepting ≠ some id
  | _ => True

instance : DecidablePred Orderly := fun entry =>
  match eventEq : entry.event with
  | .receive id (some code) =>
      decidable_of_iff (code.Lost ∨ (entry.before.peers id).Disconnected)
        (by simp [Orderly, eventEq])
  | .erase id => decidable_of_iff (entry.before.accepting ≠ some id) (by simp [Orderly, eventEq])
  | .accept _ | .insert | .receive _ none | .startRead _ | .startSend _ | .send _ _ | .close _ =>
      isTrue (by simp [Orderly, eventEq])

/-- A client in the set, or about to be inserted into it. -/
def Counts (state : ClientSet) (id : ℕ) : Prop :=
  id ∈ state.clients ∨ state.accepting = some id

/-- What holds of every state that is reached in an orderly way. -/
structure Tended (state : ClientSet) : Prop where
  known : ∀ id, state.Counts id → id < state.clientId
  tended : ∀ id, state.Counts id → (state.peers id).Tended

theorem tended_of_setPeer {id : ℕ} {peer : Peer} (tended : Tended state)
    (good : state.Counts id → peer.Tended) : Tended (state.setPeer id peer) := by
  constructor
  · exact tended.known
  · intro other counts
    by_cases same : other = id
    · subst same
      simp only [setPeer, Function.update_self]
      exact good counts
    · simp only [setPeer, Function.update_of_ne same]
      exact tended.tended other counts

theorem tended_new : Tended new := by
  constructor
  · rintro id (member | pending)
    · cases member
    · cases pending
  · rintro id (member | pending)
    · cases member
    · cases pending

theorem tended_of_insert {id : ℕ} (tended : Tended state) (pending : state.accepting = some id) :
    Tended { state with clients := insert id state.clients, accepting := none } := by
  have counts : ∀ other, Counts { state with clients := insert id state.clients, accepting := none }
      other → state.Counts other := by
    rintro other (member | absurdPending)
    · rcases Finset.mem_insert.mp member with rfl | old
      · exact Or.inr pending
      · exact Or.inl old
    · cases absurdPending
  exact ⟨fun other now => tended.known other (counts other now),
    fun other now => tended.tended other (counts other now)⟩

theorem tended_of_start (tended : Tended state) :
    Tended { state.setPeer state.clientId .start with
      clientId := state.clientId + 1
      accepting := some state.clientId } := by
  constructor
  · rintro id (member | pending)
    · exact Nat.lt_succ_of_lt (tended.known id (Or.inl member))
    · cases pending
      exact Nat.lt_succ_self _
  · rintro id (member | pending)
    · have old := tended.known id (Or.inl member)
      simp only [setPeer, Function.update_of_ne (Nat.ne_of_lt old)]
      exact tended.tended id (Or.inl member)
    · cases pending
      simp only [setPeer, Function.update_self]
      exact ⟨rfl, rfl, fun _ => rfl⟩

theorem tended_of_erase {id : ℕ} {peer : Peer} (tended : Tended state)
    (inserted : state.accepting ≠ some id) :
    Tended ({ state with clients := state.clients.erase id }.setPeer id peer) := by
  have counts : ∀ other, Counts { state with clients := state.clients.erase id } other →
      other ≠ id ∧ state.Counts other := by
    rintro other (member | pending)
    · rcases Finset.mem_erase.mp member with ⟨different, old⟩
      exact ⟨different, Or.inl old⟩
    · refine ⟨?_, Or.inr pending⟩
      rintro rfl
      exact inserted pending
  apply tended_of_setPeer
  · exact ⟨fun other now => tended.known other (counts other now).2,
      fun other now => tended.tended other (counts other now).2⟩
  · exact fun now => absurd rfl (counts id now).1

theorem tended_of_step {entry : ClientSetEntry} (tended : Tended entry.before)
    (orderly : Orderly entry)
    (stepped : entry.before.step entry.event = some (entry.after, entry.output)) :
    Tended entry.after := by
  cases eventEq : entry.event with
  | accept accepted =>
      simp only [eventEq, step, Option.ite_none_right_eq_some] at stepped
      rcases stepped with ⟨_, stepped⟩
      split at stepped
      · simp only [Option.some.injEq, Prod.mk.injEq] at stepped
        rw [← stepped.1]
        exact tended_of_start tended
      · simp only [Option.some.injEq, Prod.mk.injEq] at stepped
        rw [← stepped.1]
        exact ⟨fun id counts => Nat.lt_succ_of_lt (tended.known id counts), tended.tended⟩
  | insert =>
      simp only [eventEq, step] at stepped
      split at stepped
      · cases stepped
      · rename_i id pending
        simp only [Option.some.injEq, Prod.mk.injEq] at stepped
        rw [← stepped.1]
        exact tended_of_insert tended pending
  | receive id error =>
      simp only [eventEq, step, Option.ite_none_right_eq_some, Option.some.injEq,
        Prod.mk.injEq] at stepped
      rcases stepped with ⟨_, after, _⟩
      rw [← after]
      apply tended_of_setPeer tended
      intro counts
      have peerTended := tended.tended id counts
      refine ⟨peerTended.isOpen, peerTended.closing, fun unhandled => ?_⟩
      -- a handler that ends at once has met another error, of a disconnected client
      cases error with
      | none => cases unhandled
      | some code =>
          simp only [Orderly, eventEq] at orderly
          rcases orderly with lost | disconnected
          · simp [handlerOf, lost] at unhandled
          · simp [Peer.Disconnected, peerTended.isOpen, peerTended.closing] at disconnected
  | startRead id =>
      simp only [eventEq, step, Option.ite_none_right_eq_some, Option.some.injEq,
        Prod.mk.injEq] at stepped
      rcases stepped with ⟨_, after, _⟩
      rw [← after]
      apply tended_of_setPeer tended
      intro counts
      have peerTended := tended.tended id counts
      exact ⟨peerTended.isOpen, peerTended.closing, fun _ => rfl⟩
  | startSend id =>
      simp only [eventEq, step, Option.ite_none_right_eq_some, Option.some.injEq,
        Prod.mk.injEq] at stepped
      rcases stepped with ⟨_, after, _⟩
      rw [← after]
      apply tended_of_setPeer tended
      intro counts
      have peerTended := tended.tended id counts
      exact ⟨peerTended.isOpen, peerTended.closing, peerTended.reading⟩
  | send id error =>
      simp only [eventEq, step, Option.ite_none_right_eq_some, Option.some.injEq,
        Prod.mk.injEq] at stepped
      rcases stepped with ⟨⟨_, free⟩, after, _⟩
      rw [← after]
      apply tended_of_setPeer tended
      intro counts
      have peerTended := tended.tended id counts
      exact ⟨peerTended.isOpen, peerTended.closing, fun _ => peerTended.reading free⟩
  | erase id =>
      simp only [eventEq, step, Option.ite_none_right_eq_some, Option.some.injEq,
        Prod.mk.injEq] at stepped
      rcases stepped with ⟨_, after, _⟩
      rw [← after]
      apply tended_of_erase tended
      simpa only [Orderly, eventEq] using orderly
  | close id =>
      simp only [eventEq, step, Option.ite_none_right_eq_some, Option.some.injEq,
        Prod.mk.injEq] at stepped
      rcases stepped with ⟨closing, after, _⟩
      rw [← after]
      apply tended_of_setPeer tended
      intro counts
      -- a client that is being closed has been erased
      rw [(tended.tended id counts).closing] at closing
      cases closing

/--
In every run whose steps are orderly, every client in the set has an outstanding read
whenever no handler is running.
-/
theorem live_of_orderly (run : ClientSetRun trace last)
    (orderly : ∀ entry ∈ trace, Orderly entry) (quiescent : Quiescent last) : Live last := by
  have tended : Tended last := by
    refine run.invariant (fun _ last => Tended last) Orderly orderly tended_new ?_
    exact fun _ _ tended entryOrderly stepped => tended_of_step tended entryOrderly stepped
  intro id member
  have inside := tended.known id (Or.inl member)
  exact (tended.tended id (Or.inl member)).reading (quiescent.2 id inside)

/-! ## Sample runs -/

namespace Sample

/-- A client is started and inserted, sends a message and closes its connection. -/
def polite : List Event :=
  [.accept .started, .insert, .receive 0 none, .startSend 0, .startRead 0, .send 0 none,
    .receive 0 (some .eof), .erase 0, .close 0]

/-- A client closes its connection before it is inserted. -/
def raced : List Event :=
  [.accept .started, .receive 0 (some .eof), .erase 0, .close 0, .insert]

/-- The read of a client times out. -/
def timedOut : List Event :=
  [.accept .started, .insert, .receive 0 (some (.other 110))]

end Sample

theorem live_of_orderly_sample :
    ∃ trace last, ClientSetRun trace last ∧ trace.map Entry.event = Sample.polite ∧
      Quiescent last ∧ Live last := by
  have found : ∃ result ∈ replay step new Sample.polite,
      (∀ entry ∈ result.1, Orderly entry) ∧ Quiescent result.2 := by
    decide +kernel
  rcases found with ⟨⟨trace, last⟩, replayed, orderly, quiescent⟩
  have run : ClientSetRun trace last := .ofReplay replayed
  exact ⟨trace, last, run, map_event_replay replayed, quiescent,
    live_of_orderly run orderly quiescent⟩

/-- A run that leaves a client without a read in the set. -/
def Kills (events : List Event) : Prop :=
  ∃ trace last, ClientSetRun trace last ∧ trace.map Entry.event = events ∧
    Quiescent last ∧ ¬Live last

theorem kills_of_replay {events : List Event}
    (found : ∃ result ∈ replay step new events, Quiescent result.2 ∧ ¬Live result.2) :
    Kills events := by
  rcases found with ⟨⟨trace, last⟩, replayed, quiescent, dead⟩
  exact ⟨trace, last, .ofReplay replayed, map_event_replay replayed, quiescent, dead⟩

theorem exists_dead_client : Kills Sample.raced ∧ Kills Sample.timedOut := by
  constructor
  · apply kills_of_replay
    decide +kernel
  · apply kills_of_replay
    decide +kernel

end ClientSet

end Poolserver.Stratum
