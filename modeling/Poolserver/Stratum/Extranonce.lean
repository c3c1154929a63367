import Poolserver.Stratum.CoinbaseGap
import Poolserver.Stratum.Server

/-!
# The extranonce

The server counts the subscriptions. Clients who have subscribed therefore put different
numbers into the gap of their coinbases; a client who has not subscribed can be sent jobs
all the same, and fills the gap with whatever its memory held.
-/

namespace Poolserver.Stratum

open Poolserver.Bitcoin RunTrace

/-! ## The extranonce of a client -/

namespace Client

/-- What only a subscription changes. -/
structure Keeps (client next : Client) : Prop where
  extranonce : next.extranonce = client.extranonce
  subscribed : next.subscribed = client.subscribed

variable {env : Env} {client middle next : Client} {effects : List Effect}

theorem Keeps.refl (client : Client) : client.Keeps client :=
  ⟨rfl, rfl⟩

theorem Keeps.trans (first : client.Keeps middle) (second : middle.Keeps next) :
    client.Keeps next :=
  ⟨second.extranonce.trans first.extranonce, second.subscribed.trans first.subscribed⟩

theorem keeps_of_sendsJob (sends : SendsJob env client effects next) : client.Keeps next := by
  cases sends with
  | intro clean issued branchEq => cases clean <;> exact ⟨rfl, rfl⟩

theorem keeps_of_act (act : Act env client effects next) : client.Keeps next := by
  cases act with
  | turn turns =>
      cases turns with
      | count limiter total bad => exact ⟨rfl, rfl⟩
      | ban time => exact .refl client
  | reply replies => exact .refl client
  | perform plain => exact .refl client
  | refuse bad => exact ⟨rfl, rfl⟩
  | enlist username password found => exact ⟨rfl, rfl⟩
  | setMinDiff minDiff => exact ⟨rfl, rfl⟩
  | submitShare share jobAt => exact ⟨rfl, rfl⟩

theorem keeps_of_changesDiff (changes : ChangesDiff client effects next) :
    client.Keeps next := by
  cases changes with
  | intro diff differs bound => exact ⟨rfl, rfl⟩

theorem keeps_of_acts (acts : Acts env client effects next) : client.Keeps next := by
  have path : Path (fun client _ next => client.Keeps next) client effects next :=
    acts.toPath keeps_of_act keeps_of_changesDiff keeps_of_sendsJob
  exact path.related Keeps.refl Keeps.trans id

/-- A subscription takes the extranonce of the server; no other call changes it. -/
theorem step_extranonce {setting : Setting} {event : Event} {output : Output}
    (stepped : client.step setting event = some (next, output)) :
    (Server.subscribes event.action = true ∧ next.extranonce = event.env.extranonce ∧
      next.subscribed = true) ∨
    (Server.subscribes event.action = false ∧ client.Keeps next) := by
  have otherMethod : ∀ {msg : JSON}, event.action = .message msg →
      msg.stringMember "method" ≠ .ok (ascii "mining.subscribe") →
      Server.subscribes event.action = false := by
    intro msg actionEq differs
    rw [actionEq, Server.subscribes]
    split
    · rename_i method methodEq
      rw [methodEq, ne_eq, Except.ok.injEq] at differs
      simpa using differs
    · rfl
  have handles := step_handles stepped
  generalize output.effects = effects at handles
  cases handles with
  | submission actionEq methodEq does =>
      refine Or.inr ⟨otherMethod actionEq ?_, ?_⟩
      · rw [methodEq]
        decide
      · rcases does with path | ⟨addr, _, limited⟩
        · exact keeps_of_acts (.ofPath path)
        · exact keeps_of_acts limited.acts
  | subscription actionEq methodEq sends =>
      have kept := keeps_of_sendsJob sends
      refine Or.inl ⟨?_, kept.extranonce, kept.subscribed⟩
      simp [Server.subscribes, actionEq, methodEq]
  | other actionEq notSubmit notSubscribe authorizes =>
      exact Or.inr ⟨otherMethod actionEq notSubscribe, keeps_of_acts authorizes.acts⟩
  | sendJob actionEq sends =>
      refine Or.inr ⟨?_, keeps_of_sendsJob sends⟩
      rw [actionEq]
      rfl

end Client

/-- A call in which the client subscribes. -/
def Subscribes (entry : ClientEntry) : Prop :=
  Server.subscribes entry.event.action = true

variable {setting : Setting} {connection : Connection}

/-- A client is subscribed from its first subscription on and has the extranonce of its last. -/
theorem extranonce_of_subscribed {trace : List ClientEntry} {last : Client}
    (run : ClientRun setting connection trace last) :
    (last.subscribed = true ↔ ∃ entry ∈ trace, Subscribes entry) ∧
    (last.subscribed = true →
      ∃ entry ∈ trace, Subscribes entry ∧ entry.event.env.extranonce = last.extranonce) := by
  refine run.invariant (fun trace client =>
    (client.subscribed = true ↔ ∃ entry ∈ trace, Subscribes entry) ∧
    (client.subscribed = true →
      ∃ entry ∈ trace, Subscribes entry ∧ entry.event.env.extranonce = client.extranonce))
    (fun _ => True) (fun _ _ => trivial) (by simp [Client.new]) ?_
  intro trace entry held _ stepped
  rcases held with ⟨flag, value⟩
  rcases Client.step_extranonce stepped with ⟨subscribes, extranonce, subscribed⟩ |
    ⟨otherwise, keeps⟩
  · have found : entry ∈ trace ++ [entry] := by simp
    refine ⟨iff_of_true subscribed ⟨entry, found, subscribes⟩, fun _ => ?_⟩
    exact ⟨entry, found, subscribes, extranonce.symm⟩
  · have notSubscribes : ¬Subscribes entry := by simp [Subscribes, otherwise]
    rw [keeps.subscribed, keeps.extranonce]
    constructor
    · rw [flag]
      simp [or_and_right, exists_or, notSubscribes]
    · intro subscribed
      rcases value subscribed with ⟨past, pastMem, subscribes, same⟩
      exact ⟨past, List.mem_append_left _ pastMem, subscribes, same⟩

/-! ## The counter of the server -/

namespace Server

/-- A step in which a client subscribes. -/
def isSubscription (entry : Entry) : Bool :=
  match entry.output with
  | some (_, clientEntry) => subscribes clientEntry.event.action
  | none => false

variable {trace earlier later : List Entry} {server final : Server}

theorem extranonce_of_call {id : ℕ} {action : Action} {env : Env} {next : Server}
    {output : Option Call} (called : server.call setting id action env = some (next, output)) :
    ∃ clientEntry : ClientEntry,
      output = some (id, clientEntry) ∧
      clientEntry.event.env.extranonce = server.extranonce ∧
      next.extranonce =
        if subscribes clientEntry.event.action then server.extranonce + 1
        else server.extranonce := by
  simp only [call, Option.bind_eq_bind, Option.bind_eq_some_iff] at called
  rcases called with ⟨client, _, ⟨after, clientOutput⟩, _, called⟩
  simp only [Option.pure_def, Option.some.injEq, Prod.mk.injEq] at called
  rcases called with ⟨rfl, rfl⟩
  exact ⟨_, rfl, rfl, rfl⟩

/-- A step gives out the extranonce of the server and counts the subscription. -/
theorem extranonce_of_step {entry : Entry}
    (stepped : entry.before.step setting entry.event = some (entry.after, entry.output)) :
    (∀ id clientEntry, entry.output = some (id, clientEntry) →
      clientEntry.event.env.extranonce = entry.before.extranonce) ∧
    entry.after.extranonce =
      if isSubscription entry then entry.before.extranonce + 1 else entry.before.extranonce := by
  have ofCall : ∀ {before : Server} {id : ℕ} {action : Action} {env : Env},
      before.extranonce = entry.before.extranonce →
      before.call setting id action env = some (entry.after, entry.output) →
      (∀ id clientEntry, entry.output = some (id, clientEntry) →
        clientEntry.event.env.extranonce = entry.before.extranonce) ∧
      entry.after.extranonce =
        if isSubscription entry then entry.before.extranonce + 1
        else entry.before.extranonce := by
    intro before id action env same called
    rcases extranonce_of_call called with ⟨clientEntry, outputEq, given, counted⟩
    rw [same] at given counted
    refine ⟨?_, by simpa [isSubscription, outputEq] using counted⟩
    intro caller found calls
    rw [outputEq, Option.some.injEq, Prod.mk.injEq] at calls
    rw [← calls.2, given]
  cases eventEq : entry.event with
  | accept connection =>
      simp only [step, eventEq, Option.some.injEq, Prod.mk.injEq] at stepped
      rcases stepped with ⟨afterEq, outputEq⟩
      exact ⟨by simp [← outputEq], by simp [isSubscription, ← outputEq, ← afterEq]⟩
  | receive id msg env =>
      rw [eventEq] at stepped
      exact ofCall rfl stepped
  | blockNotify block newBlock =>
      simp only [step, eventEq, Option.some.injEq, Prod.mk.injEq] at stepped
      rcases stepped with ⟨afterEq, outputEq⟩
      exact ⟨by simp [← outputEq], by simp [isSubscription, ← outputEq, ← afterEq]⟩
  | runPosted position env =>
      simp only [step, eventEq, Option.bind_eq_bind, Option.bind_eq_some_iff] at stepped
      rcases stepped with ⟨⟨id, clean⟩, _, called⟩
      refine ofCall ?_ called
      rfl

/-- The counter is the number of subscriptions, in 32 bits. -/
theorem extranonce_of_run (run : Run setting trace server) :
    server.extranonce = UInt32.ofNat (trace.countP isSubscription) := by
  refine run.invariant
    (fun trace server => server.extranonce = UInt32.ofNat (trace.countP isSubscription))
    (fun _ => True) (fun _ _ => trivial) rfl ?_
  intro trace entry counted _ stepped
  rw [(extranonce_of_step stepped).2, counted, List.countP_append, List.countP_singleton]
  cases isSubscription entry with
  | true => simp [UInt32.ofNat_add]
  | false => simp

/-- Fewer than 2 ^ 32 subscriptions are given different numbers. -/
theorem extranonce_ne_of_before (run : Run setting trace server)
    (few : trace.countP isSubscription < 2 ^ 32) {first second : Entry}
    (order : Before first second trace) (firstSubscribes : isSubscription first = true)
    (secondSubscribes : isSubscription second = true) :
    first.before.extranonce ≠ second.before.extranonce := by
  rcases order with ⟨earlier, between, rest, rfl⟩
  rcases run.split_two with ⟨⟨firstRun, _⟩, secondRun, _⟩
  rw [extranonce_of_run firstRun, extranonce_of_run secondRun]
  simp only [List.countP_append, List.countP_cons, firstSubscribes, secondSubscribes, if_true]
    at few ⊢
  intro same
  have numbers := congrArg UInt32.toNat same
  rw [UInt32.toNat_ofNat_of_lt' (by change _ < 2 ^ 32; omega),
    UInt32.toNat_ofNat_of_lt' (by change _ < 2 ^ 32; omega)] at numbers
  omega

/-- The server has given the client that extranonce. -/
def Assigned (id : ℕ) (trace : List Entry) (extranonce : UInt32) : Prop :=
  ∃ entry ∈ trace, ∃ clientEntry, entry.output = some (id, clientEntry) ∧
    Subscribes clientEntry ∧ clientEntry.event.env.extranonce = extranonce

theorem mem_connectionTrace {id : ℕ} {clientEntry : ClientEntry} :
    clientEntry ∈ connectionTrace id trace ↔
      ∃ entry ∈ trace, entry.output = some (id, clientEntry) := by
  rw [connectionTrace, List.mem_filterMap]
  refine exists_congr fun entry => and_congr_right fun _ => ?_
  cases outputEq : entry.output with
  | none => simp [ofClient?, outputEq]
  | some call =>
      rcases call with ⟨caller, found⟩
      by_cases same : caller = id
      · simp [ofClient?, outputEq, same]
      · simp [ofClient?, outputEq, same]

/-- A client has an extranonce of its own exactly if it has subscribed. -/
theorem assigned_iff (run : Run setting trace server) {id : ℕ} {client : Client}
    (clientAt : server.clients[id]? = some client) :
    Assigned id trace client.extranonce ↔ client.subscribed = true := by
  rcases clientRun_of_run run clientAt with ⟨connection, clientRun⟩
  rcases extranonce_of_subscribed clientRun with ⟨flag, value⟩
  constructor
  · rintro ⟨entry, entryMem, clientEntry, called, subscribes, _⟩
    exact flag.mpr ⟨clientEntry, mem_connectionTrace.mpr ⟨entry, entryMem, called⟩, subscribes⟩
  · intro subscribed
    rcases value subscribed with ⟨clientEntry, clientEntryMem, subscribes, same⟩
    rcases mem_connectionTrace.mp clientEntryMem with ⟨entry, entryMem, called⟩
    exact ⟨entry, entryMem, clientEntry, called, subscribes, same⟩

/-- Extranonces given to different clients are different. -/
theorem assigned_ne (run : Run setting trace server)
    (few : trace.countP isSubscription < 2 ^ 32) {left right : ℕ} (distinct : left ≠ right)
    {leftExtranonce rightExtranonce : UInt32} (leftAssigned : Assigned left trace leftExtranonce)
    (rightAssigned : Assigned right trace rightExtranonce) :
    leftExtranonce ≠ rightExtranonce := by
  rcases leftAssigned with ⟨first, firstMem, firstCall, firstOutput, firstSubscribes, rfl⟩
  rcases rightAssigned with ⟨second, secondMem, secondCall, secondOutput, secondSubscribes, rfl⟩
  have given : ∀ {entry : Entry} {id : ℕ} {clientEntry : ClientEntry}, entry ∈ trace →
      entry.output = some (id, clientEntry) →
      clientEntry.event.env.extranonce = entry.before.extranonce := by
    intro entry id clientEntry entryMem called
    rcases run.before_of_mem entryMem with ⟨_, _, _, _, stepped⟩
    exact (extranonce_of_step stepped).1 id clientEntry called
  rw [given firstMem firstOutput, given secondMem secondOutput]
  have firstCounts : isSubscription first = true := by
    rw [isSubscription, firstOutput]
    exact firstSubscribes
  have secondCounts : isSubscription second = true := by
    rw [isSubscription, secondOutput]
    exact secondSubscribes
  rcases List.getElem?_of_mem firstMem with ⟨i, firstAt⟩
  rcases List.getElem?_of_mem secondMem with ⟨j, secondAt⟩
  rcases lt_trichotomy i j with order | rfl | order
  · exact extranonce_ne_of_before run few (before_of_getElem? firstAt secondAt order)
      firstCounts secondCounts
  · rw [firstAt, Option.some.injEq] at secondAt
    subst secondAt
    rw [firstOutput, Option.some.injEq, Prod.mk.injEq] at secondOutput
    exact (distinct secondOutput.1).elim
  · exact (extranonce_ne_of_before run few (before_of_getElem? secondAt firstAt order)
      secondCounts firstCounts).symm

end Server

/-! ## Search spaces -/

/-- A job to which the client can submit. -/
def Client.Live (client : Client) (job : Job) : Prop :=
  ∃ id addr, client.jobs id = some addr ∧ client.heap[addr]? = some job

/-- Every coinbase has its extranonce at the same place. -/
theorem coinbasebuf_ne {job other : Job} (sound : job.Sound) (otherSound : other.Sound)
    {extranonce otherExtranonce : UInt32} (distinct : extranonce ≠ otherExtranonce)
    (extranonce2 otherExtranonce2 : BinaryData) :
    (job.coinbasebuf extranonce extranonce2).vec ≠
      (other.coinbasebuf otherExtranonce otherExtranonce2).vec := by
  have prefixLength : ∀ {job : Job}, job.Sound → job.coinbase1.length = cbsplit := by
    intro job sound
    rcases sound.cut with ⟨coinbase, others, _, long, first, _⟩
    rw [first, List.length_take]
    omega
  intro same
  simp only [Job.coinbasebuf_eq, ByteBuffer.ofBinary, Job.coinbase, List.append_assoc] at same
  have sameLength := (prefixLength sound).trans (prefixLength otherSound).symm
  have gaps := (List.append_inj same sameLength).2
  have width : (serialize extranonce).length = (serialize otherExtranonce).length := by
    rw [length_serialize_scalar, length_serialize_scalar]
  exact distinct (serialize_injective (List.append_inj gaps width).1)

/--
In a run with fewer than 2 ^ 32 subscriptions, two clients who have subscribed never
assemble the same coinbase, at the same time or at different times, from any live jobs of
theirs and with any second extranonces.
-/
theorem coinbases_disjoint {setting : Setting} {earlier later : List Server.Entry}
    {server final : Server} (run : Server.Run setting earlier server)
    (wholeRun : Server.Run setting (earlier ++ later) final)
    (few : (earlier ++ later).countP Server.isSubscription < 2 ^ 32)
    {left right : ℕ} (distinct : left ≠ right) {leftClient rightClient : Client}
    (leftAt : server.clients[left]? = some leftClient)
    (rightAt : final.clients[right]? = some rightClient)
    (leftSubscribed : ∃ entry ∈ Server.connectionTrace left earlier, Subscribes entry)
    (rightSubscribed : ∃ entry ∈ Server.connectionTrace right (earlier ++ later), Subscribes entry)
    {leftJob rightJob : Job} (leftLive : leftClient.Live leftJob)
    (rightLive : rightClient.Live rightJob) (leftExtranonce2 rightExtranonce2 : BinaryData) :
    (leftJob.coinbasebuf leftClient.extranonce leftExtranonce2).vec ≠
      (rightJob.coinbasebuf rightClient.extranonce rightExtranonce2).vec := by
  have soundOf : ∀ {trace : List Server.Entry} {state : Server} {id : ℕ} {client : Client}
      {job : Job}, Server.Run setting trace state → state.clients[id]? = some client →
      client.Live job → job.Sound := by
    intro trace state id client job run clientAt live
    rcases live with ⟨_, addr, _, jobAt⟩
    rcases Server.clientRun_of_run run clientAt with ⟨connection, clientRun⟩
    have anything : Supplied (Server.connectionTrace id trace) fun _ => True :=
      fun _ _ _ _ => trivial
    exact (sound_of_run clientRun anything (List.mem_of_getElem? jobAt)).1
  have assigned : ∀ {trace : List Server.Entry} {state : Server} {id : ℕ} {client : Client},
      Server.Run setting trace state → state.clients[id]? = some client →
      (∃ entry ∈ Server.connectionTrace id trace, Subscribes entry) →
      Server.Assigned id trace client.extranonce := by
    intro trace state id client run clientAt subscribed
    rcases Server.clientRun_of_run run clientAt with ⟨connection, clientRun⟩
    exact (Server.assigned_iff run clientAt).mpr
      ((extranonce_of_subscribed clientRun).1.mpr subscribed)
  have leftAssigned : Server.Assigned left (earlier ++ later) leftClient.extranonce := by
    rcases assigned run leftAt leftSubscribed with ⟨entry, entryMem, given⟩
    exact ⟨entry, List.mem_append_left later entryMem, given⟩
  have rightAssigned := assigned wholeRun rightAt rightSubscribed
  have extranonces := Server.assigned_ne wholeRun few distinct leftAssigned rightAssigned
  exact coinbasebuf_ne (soundOf run leftAt leftLive) (soundOf wholeRun rightAt rightLive)
    extranonces leftExtranonce2 rightExtranonce2

/-- Two clients subscribe and are each sent a job. -/
def Sample.twoClients : List Server.Event :=
  [.accept Sample.connection, .accept Sample.connection,
    .blockNotify (template (hash 2) 0x207fffff) true,
    .receive 0 (request "mining.subscribe" []) (easyEnv 2),
    .receive 1 (request "mining.subscribe" []) (easyEnv 2)]

theorem coinbases_disjoint_sample :
    ∃ (trace : List Server.Entry) (server : Server) (left right : Client) (leftJob rightJob : Job),
      Server.Run (Sample.setting (Sample.hash 2)) trace server ∧
      server.clients[0]? = some left ∧ server.clients[1]? = some right ∧
      left.Live leftJob ∧ right.Live rightJob ∧
      (leftJob.coinbasebuf left.extranonce [0, 0, 0, 1]).vec ≠
        (rightJob.coinbasebuf right.extranonce [0, 0, 0, 1]).vec := by
  have found : ∃ result : List Server.Entry × Server,
      result ∈ replay (Server.step (Sample.setting (Sample.hash 2))) Server.new
        Sample.twoClients ∧ result.1.countP Server.isSubscription < 2 ^ 32 ∧
      (∃ entry ∈ Server.connectionTrace 0 result.1, Server.subscribes entry.event.action = true) ∧
      (∃ entry ∈ Server.connectionTrace 1 result.1, Server.subscribes entry.event.action = true) ∧
      (∃ left : Client, left ∈ result.2.clients[0]? ∧
        ∃ addr : ℕ, addr ∈ left.jobs 0 ∧ (left.heap[addr]?).isSome) ∧
      ∃ right : Client, right ∈ result.2.clients[1]? ∧
        ∃ addr : ℕ, addr ∈ right.jobs 0 ∧ (right.heap[addr]?).isSome := by
    decide +kernel
  rcases found with ⟨⟨trace, server⟩, replayed, few, leftSubscribed, rightSubscribed,
    ⟨left, leftAt, leftAddr, leftFound, leftHeap⟩, right, rightAt, rightAddr, rightFound, rightHeap⟩
  rcases Option.isSome_iff_exists.mp leftHeap with ⟨leftJob, leftJobAt⟩
  rcases Option.isSome_iff_exists.mp rightHeap with ⟨rightJob, rightJobAt⟩
  have run : Server.Run (Sample.setting (Sample.hash 2)) trace server := .ofReplay replayed
  have wholeRun : Server.Run (Sample.setting (Sample.hash 2)) (trace ++ []) server := by
    simpa using run
  have leftLive : left.Live leftJob := ⟨_, leftAddr, leftFound, leftJobAt⟩
  have rightLive : right.Live rightJob := ⟨_, rightAddr, rightFound, rightJobAt⟩
  refine ⟨trace, server, left, right, leftJob, rightJob, run, leftAt, rightAt, leftLive,
    rightLive, ?_⟩
  exact coinbases_disjoint run wholeRun (by simpa using few) (by decide) leftAt rightAt
    leftSubscribed (by rwa [List.append_nil]) leftLive rightLive _ _

/-! ## Extranonces that were never assigned -/

/--
Whenever a submission gets as far as its coinbase, the client's extranonce is one that the
server gave it before.
-/
def ExtranonceAssigned (setting : Setting) (trace : List Server.Entry) : Prop :=
  ∀ earlier entry later id clientEntry msg, trace = earlier ++ entry :: later →
    entry.output = some (id, clientEntry) → Submits clientEntry msg →
    ∀ checked : Checked setting clientEntry.event.env msg clientEntry.before,
      Server.Assigned id earlier checked.holder.extranonce

/-- Before such a submission the client has subscribed. -/
def SubscribedToSubmit (setting : Setting) (trace : List Server.Entry) : Prop :=
  ∀ entry ∈ trace, ∀ id clientEntry msg,
    entry.output = some (id, clientEntry) → Submits clientEntry msg →
    Nonempty (Checked setting clientEntry.event.env msg clientEntry.before) →
    clientEntry.before.subscribed = true

/-- The client of a call has its extranonce from the server exactly if it has subscribed. -/
theorem assigned_iff_of_call {setting : Setting} {trace earlier later : List Server.Entry}
    {server : Server} {entry : Server.Entry} (run : Server.Run setting trace server)
    (traceEq : trace = earlier ++ entry :: later) {id : ℕ} {clientEntry : ClientEntry}
    (called : entry.output = some (id, clientEntry)) :
    Server.Assigned id earlier clientEntry.before.extranonce ↔
      clientEntry.before.subscribed = true := by
  subst traceEq
  rcases run.split with ⟨runBefore, stepped⟩
  rcases Server.step_cases stepped with ⟨caller, found, outputEq, callerAt, _⟩ |
    ⟨outputEq, _⟩ | ⟨outputEq, _⟩
  · rw [called, Option.some.injEq, Prod.mk.injEq] at outputEq
    rcases outputEq with ⟨rfl, rfl⟩
    exact Server.assigned_iff runBefore callerAt
  · rw [called] at outputEq
    simp at outputEq
  · rw [called] at outputEq
    simp at outputEq

/--
The extranonces of a run are assigned before they are used exactly if every submission that
gets as far as its coinbase comes from a client who has subscribed. The handler of a
submission does not look at that.
-/
theorem extranonceAssigned_iff {setting : Setting} {trace : List Server.Entry} {server : Server}
    (run : Server.Run setting trace server) :
    ExtranonceAssigned setting trace ↔ SubscribedToSubmit setting trace := by
  constructor
  · rintro assigned entry entryMem id clientEntry msg called submits ⟨checked⟩
    rcases List.append_of_mem entryMem with ⟨earlier, later, traceEq⟩
    have given := assigned earlier entry later id clientEntry msg traceEq called submits checked
    rw [checked.extranonce_holder] at given
    exact (assigned_iff_of_call run traceEq called).mp given
  · intro subscribed earlier entry later id clientEntry msg traceEq called submits checked
    rw [checked.extranonce_holder]
    have entryMem : entry ∈ trace := by
      rw [traceEq]
      exact List.mem_append_right _ (List.mem_cons_self ..)
    exact (assigned_iff_of_call run traceEq called).mpr
      (subscribed entry entryMem id clientEntry msg called submits ⟨checked⟩)

/-- A worker who subscribes, is authorized and submits uses the extranonce he was given. -/
theorem extranonceAssigned_sample :
    ∃ (trace : List Server.Entry) (server : Server),
      Server.Run (Sample.setting (Sample.hash 2)) trace server ∧
      trace.map Entry.event = Sample.serverEvents ∧
      ExtranonceAssigned (Sample.setting (Sample.hash 2)) trace := by
  have found : ∃ result ∈ replay (Server.step (Sample.setting (Sample.hash 2))) Server.new
      Sample.serverEvents, ∀ entry ∈ result.1, ∀ call ∈ entry.output,
        call.2.before.subscribed = true ∨ Server.subscribes call.2.event.action = true := by
    decide +kernel
  rcases found with ⟨⟨trace, server⟩, replayed, subscribed⟩
  have run : Server.Run (Sample.setting (Sample.hash 2)) trace server := .ofReplay replayed
  refine ⟨trace, server, run, map_event_replay replayed, (extranonceAssigned_iff run).mpr ?_⟩
  rintro entry entryMem id clientEntry msg called ⟨actionEq, methodEq⟩ _
  rcases subscribed entry entryMem _ called with before | subscribes
  · exact before
  · rw [actionEq, Server.subscribes, methodEq] at subscribes
    exact absurd subscribes (by decide)

namespace Sample

/-- A client who has not subscribed is sent a job, is authorized and submits to the job. -/
def unsubscribedEvents : List Server.Event :=
  [.accept Sample.connection, .blockNotify (template (hash 2) 0x207fffff) true,
    .runPosted 0 (easyEnv 2),
    .receive 0 (request "mining.authorize" ["alice", "secret"]) (easyEnv 2),
    .receive 0 (submission "0") (easyEnv 2)]

end Sample

/-- A client who never subscribed mines with whatever its extranonce was before. -/
theorem exists_unassigned_extranonce :
    ∃ (trace : List Server.Entry) (server : Server),
      Server.Run (Sample.setting (Sample.hash 2)) trace server ∧
      trace.map Entry.event = Sample.unsubscribedEvents ∧
      ¬ExtranonceAssigned (Sample.setting (Sample.hash 2)) trace := by
  have found : ∃ result ∈ replay (Server.step (Sample.setting (Sample.hash 2))) Server.new
      Sample.unsubscribedEvents, ∃ entry ∈ result.1, ∃ call ∈ entry.output,
      ∃ msg ∈ Sample.submitted? call.2, call.2.before.subscribed = false ∧
        (Checked.find? (Sample.setting (Sample.hash 2)) call.2.event.env msg
          call.2.before).isSome := by
    decide +kernel
  rcases found with ⟨⟨trace, server⟩, replayed, entry, entryMem, ⟨id, clientEntry⟩, called, msg,
    submitted, unsubscribed, checks⟩
  rcases Option.isSome_iff_exists.mp checks with ⟨checked, _⟩
  have run : Server.Run (Sample.setting (Sample.hash 2)) trace server := .ofReplay replayed
  refine ⟨trace, server, run, map_event_replay replayed, ?_⟩
  intro assigned
  rcases List.append_of_mem entryMem with ⟨earlier, later, traceEq⟩
  have given := assigned earlier entry later id clientEntry msg traceEq called
    (Sample.submits_of_submitted? submitted) checked
  rw [checked.extranonce_holder, assigned_iff_of_call run traceEq called] at given
  exact Bool.false_ne_true (unsubscribed.symm.trans given)

end Poolserver.Stratum
