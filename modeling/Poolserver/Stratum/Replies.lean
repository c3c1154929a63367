import Poolserver.Stratum.Handled

/-!
# Replies

A reply carries the id of its request and says either what the result is or what the error is.
Every reply of the three handlers does so, but the one that refuses an authorization.
-/

namespace Poolserver.Stratum

open RunTrace Client

/-- A message that is no notification. -/
def IsReply (message : JSON) : Prop :=
  message.member (ascii "method") = .ok .null

/-- A reply to a request. -/
def Replies (request reply : JSON) (result error : JSON) : Prop :=
  ∃ members, reply = .object members ∧
    members.lookup (ascii "id") = some (requestId request) ∧
    members.lookup (ascii "result") = some result ∧
    members.lookup (ascii "error") = some error

/-- Exactly one of the two is given. -/
def OneGiven (result error : JSON) : Prop :=
  (result ≠ .null ∧ error = .null) ∨ (result = .null ∧ error ≠ .null)

/-- An effect that is no reply, or a reply that gives a result or an error. -/
def Honours (request : JSON) (effect : Effect) : Prop :=
  ∀ reply, effect = .sendMessage reply → IsReply reply →
    ∃ result error, Replies request reply result error ∧ OneGiven result error

/-- The call queries the credentials of the request, finds them and adds the worker. -/
def AddsWorker (entry : ClientEntry) (request : JSON) : Prop :=
  ∃ username password, readCredentials request = .ok (username, password) ∧
    .query username password true ∈ entry.output.effects ∧
    entry.after.workers = insert username entry.before.workers

/-- The contract between a request and what is sent while it is handled. -/
structure KeepsContract (entry : ClientEntry) (request : JSON) : Prop where
  replies : ∀ effect ∈ entry.output.effects, Honours request effect
  authorization : request.stringMember "method" = .ok (ascii "mining.authorize") →
    ∀ reply result error, .sendMessage reply ∈ entry.output.effects →
      Replies request reply result error → (result = .bool true ↔ AddsWorker entry request)

/-- An authorization whose query finds no row. -/
def FindsNoRow (env : Env) (request : JSON) : Prop :=
  request.stringMember "method" = .ok (ascii "mining.authorize") ∧
    ∃ username password, readCredentials request = .ok (username, password) ∧
      env.row username password = none

variable {setting : Setting} {env : Env} {request : JSON} {client next : Client}
  {effects : List Effect} {outcome : Outcome}

/-! ## The replies of the handlers -/

theorem honours_of_replies {reply result error : JSON}
    (replies : Replies request reply result error) (one : OneGiven result error) :
    Honours request (.sendMessage reply) := by
  intro sent sentEq _
  rw [Effect.sendMessage.injEq] at sentEq
  subst sentEq
  exact ⟨result, error, replies, one⟩

theorem honours_errorResponse (code : Int64) (text : String) :
    Honours request (.sendMessage (errorResponse request code text)) := by
  have replies : Replies request (errorResponse request code text) .null
      (.array [.integer code, .text text, .null]) :=
    ⟨_, rfl, rfl, rfl, rfl⟩
  exact honours_of_replies replies (Or.inr ⟨rfl, JSON.noConfusion⟩)

theorem honours_trueResponse : Honours request (.sendMessage (trueResponse request)) := by
  have replies : Replies request (trueResponse request) (.bool true) .null :=
    ⟨_, rfl, rfl, rfl, rfl⟩
  exact honours_of_replies replies (Or.inl ⟨JSON.noConfusion, rfl⟩)

theorem honours_subscribeResponse (extranonce : UInt32) :
    Honours request (.sendMessage (subscribeResponse request extranonce)) := by
  have replies : Replies request (subscribeResponse request extranonce) _ .null :=
    ⟨_, rfl, rfl, rfl, rfl⟩
  exact honours_of_replies replies (Or.inl ⟨JSON.noConfusion, rfl⟩)

theorem authorizedResponse_replies :
    Replies request (authorizedResponse request) (.bool true) .null :=
  ⟨_, rfl, rfl, rfl, rfl⟩

theorem authenticationFailed_replies :
    Replies request (authenticationFailed request) (.bool true)
      (.array [.integer 20, .text "Authentication failed", .null]) :=
  ⟨_, rfl, rfl, rfl, rfl⟩

theorem Replies.unique {reply result error otherResult otherError : JSON}
    (replies : Replies request reply result error)
    (again : Replies request reply otherResult otherError) :
    result = otherResult ∧ error = otherError := by
  rcases replies with ⟨members, rfl, _, resultEq, errorEq⟩
  rcases again with ⟨others, othersEq, _, otherResultEq, otherErrorEq⟩
  rw [JSON.object.injEq] at othersEq
  subst othersEq
  exact ⟨Option.some.inj (resultEq.symm.trans otherResultEq),
    Option.some.inj (errorEq.symm.trans otherErrorEq)⟩

/-- A notification is no reply. -/
theorem announces_honours {effect : Effect} (announces : Announces effect) :
    Honours request effect := by
  intro reply replyEq isReply
  cases announces with
  | difficulty diff =>
      rw [Effect.sendMessage.injEq] at replyEq
      subst replyEq
      cases isReply
  | job jobid job branch clean =>
      rw [Effect.sendMessage.injEq] at replyEq
      subst replyEq
      cases isReply

theorem not_replies_of_announces {message result error : JSON}
    (announces : Announces (.sendMessage message)) : ¬Replies request message result error := by
  rintro ⟨members, rfl, _, resultEq, _⟩
  generalize messageEq : JSON.object members = message at announces
  cases announces with
  | difficulty diff =>
      rw [setDifficultyMessage, JSON.object.injEq] at messageEq
      subst messageEq
      cases resultEq
  | job jobid job branch clean =>
      rw [notifyMessage, JSON.object.injEq] at messageEq
      subst messageEq
      cases resultEq

theorem verifies_honours {effect : Effect} (verifies : Verifies request effect) :
    Honours request effect := by
  cases verifies with
  | refused code text => exact honours_errorResponse code text
  | accepted => exact honours_trueResponse
  | submitShare addr share => exact fun _ replyEq => by cases replyEq
  | getHash block => exact fun _ replyEq => by cases replyEq
  | submitBlock block => exact fun _ replyEq => by cases replyEq
  | push share => exact fun _ replyEq => by cases replyEq
  | executeAsync insert => exact fun _ replyEq => by cases replyEq

theorem forall_honours_respond (honours : ∀ effect ∈ effects, Honours request effect) {reply : JSON}
    (replies : Honours request (.sendMessage reply)) :
    ∀ effect ∈ (client.respond effects reply).effects, Honours request effect := by
  intro effect effectMem
  rcases List.mem_append.mp effectMem with earlier | last
  · exact honours effect earlier
  · rw [List.mem_singleton] at last
    subst last
    exact replies

theorem limitShare_honours {passed : Bool} {diff : UInt64}
    (done : client.limitShare setting.config setting.floating env diff =
      some (passed, next, effects)) :
    ∀ effect ∈ effects, Honours request effect := by
  intro effect effectMem
  rcases limitShare_cases done with ⟨_, _, rfl⟩ | ⟨_, announces⟩
  · intro reply replyEq
    subst replyEq
    simp [ban] at effectMem
  · exact announces_honours (announces effect effectMem)

theorem submitToJob_honours {params : JSON} {username : StdString} {addr : ℕ}
    (done : submitToJob setting env request params username addr client = some outcome) :
    ∀ effect ∈ outcome.effects, Honours request effect := by
  rcases submitToJob_limits done with ⟨job, passed, limited, sent, _, limiter, limits⟩
  have honours : ∀ effect ∈ sent, Honours request effect := limitShare_honours limiter
  cases limits with
  | blocked => exact forall_honours_respond honours (honours_errorResponse _ _)
  | unreadable read => exact honours
  | wrongSize read => exact forall_honours_respond honours (honours_errorResponse _ _)
  | verified read worked =>
      intro effect effectMem
      rcases List.mem_append.mp effectMem with earlier | later
      · exact honours effect earlier
      · exact verifies_honours (submitWork_verifies worked effect later)

/-! ## Authorizations -/

theorem raiseDiff_announces (raised : client.raiseDiff env = some (next, effects)) :
    ∀ effect ∈ effects, Announces effect := by
  rcases raiseDiff_eq_some raised with slows | ⟨_, rfl⟩
  · exact setDifficulty_announces slows
  · intro effect effectMem
    cases effectMem

theorem raiseDiff_workers (raised : client.raiseDiff env = some (next, effects)) :
    next.workers = client.workers := by
  rcases raiseDiff_eq_some raised with slows | ⟨rfl, _⟩
  · cases setDifficulty_ends slows with
    | unchanged same => rfl
    | told differs quiet => rfl
    | resent differs resend sends => cases resend
  · rfl

/-- The ends of an authorization. -/
inductive Authorization (env : Env) (request : JSON) (username password : StdString)
    (client : Client) : Outcome → Prop where
  | noRow (absent : env.row username password = none) :
      Authorization env request username password client
        (client.respond [.query username password false] (authenticationFailed request))
  | unreadable {exception : StdException}
      (row : env.row username password = some (.error exception)) :
      Authorization env request username password client
        ({ client with workers := insert username client.workers }.throws
          [.query username password true] exception)
  | authorized {mindiff : UInt32} {next : Client} {told : List Effect}
      (row : env.row username password = some (.ok mindiff))
      (workers : next.workers = insert username client.workers)
      (announces : ∀ effect ∈ told, Announces effect) :
      Authorization env request username password client
        (next.respond (.query username password true :: told) (authorizedResponse request))

theorem authorize_cases {username password : StdString}
    (done : authorize env request username password client = some outcome) :
    Authorization env request username password client outcome := by
  cases authorize_ends done with
  | noRow absent => exact .noRow absent
  | unreadable row => exact .unreadable row
  | authorized row raises =>
      exact .authorized row (raiseDiff_workers raises) (raiseDiff_announces raises)

theorem onMessage_authorize
    (methodEq : request.stringMember "method" = .ok (ascii "mining.authorize")) :
    client.onMessage env setting request = onMiningAuthorize env request client := by
  have notSubmit : ascii "mining.authorize" ≠ ascii "mining.submit" := by decide
  have notSubscribe : ascii "mining.authorize" ≠ ascii "mining.subscribe" := by decide
  simp only [onMessage, methodEq, if_neg notSubmit, if_neg notSubscribe, if_true]

/-! ## The contract -/

/-- Every reply but that to an authorization without a row. -/
theorem handled_honours (handled : Handled setting env request client outcome)
    (found : ¬FindsNoRow env request) : ∀ effect ∈ outcome.effects, Honours request effect := by
  cases handled with
  | unreadable exception other => simp [throws]
  | ignored other => simp
  | unauthorized methodEq paramsEq usernameEq unknown other =>
      exact forall_honours_respond (by simp) (honours_errorResponse _ _)
  | jobNotFound methodEq paramsEq usernameEq authorized textEq unknown other =>
      refine forall_honours_respond ?_ (honours_errorResponse _ _)
      intro effect effectMem reply replyEq
      rw [List.mem_singleton, replyEq] at effectMem
      cases effectMem
  | limited reaches done => exact submitToJob_honours done
  | subscribes methodEq sends =>
      rw [List.forall_mem_cons]
      exact ⟨honours_subscribeResponse _, fun effect effectMem =>
        announces_honours (sendJob_announces sends effect effectMem)⟩
  | authorizes methodEq credentials done =>
      cases authorize_cases done with
      | noRow absent => exact absurd ⟨methodEq, _, _, credentials, absent⟩ found
      | unreadable row =>
          intro effect effectMem reply replyEq
          rw [throws, List.mem_singleton, replyEq] at effectMem
          cases effectMem
      | authorized row workers announces =>
          refine forall_honours_respond ?_
            (honours_of_replies authorizedResponse_replies (Or.inl ⟨JSON.noConfusion, rfl⟩))
          rw [List.forall_mem_cons]
          refine ⟨?_, fun effect effectMem => announces_honours (announces effect effectMem)⟩
          intro reply replyEq
          cases replyEq

/-- An authorization is answered with the result true just when it adds the worker. -/
theorem authorization_iff {entry : ClientEntry} {username password : StdString}
    (credentials : readCredentials request = .ok (username, password))
    (authorization : Authorization entry.event.env request username password entry.before
      ⟨entry.after, entry.output.effects, entry.output.thrown⟩)
    (found : entry.event.env.row username password ≠ none) {reply result error : JSON}
    (sent : .sendMessage reply ∈ entry.output.effects)
    (replies : Replies request reply result error) :
    result = .bool true ↔ AddsWorker entry request := by
  generalize outcomeEq : (⟨entry.after, entry.output.effects, entry.output.thrown⟩ : Outcome) = outcome
    at authorization
  cases authorization with
  | noRow absent => exact absurd absent found
  | unreadable row =>
      have effectsEq : entry.output.effects = [.query username password true] :=
        congrArg Outcome.effects outcomeEq
      rw [effectsEq, List.mem_singleton] at sent
      cases sent
  | @authorized mindiff next told row workers announces =>
      have effectsEq : entry.output.effects = (.query username password true :: told) ++
          [.sendMessage (authorizedResponse request)] :=
        congrArg Outcome.effects outcomeEq
      have afterEq : entry.after = next := congrArg Outcome.client outcomeEq
      have adds : AddsWorker entry request := by
        refine ⟨username, password, credentials, ?_, ?_⟩
        · rw [effectsEq]
          simp
        · rw [afterEq, workers]
      have answered : reply = authorizedResponse request := by
        rw [effectsEq, List.mem_append, List.mem_singleton, Effect.sendMessage.injEq] at sent
        rcases sent with earlier | last
        · rcases List.mem_cons.mp earlier with query | notified
          · cases query
          · exact absurd replies (not_replies_of_announces (announces _ notified))
        · exact last
      rw [answered] at replies
      rcases replies.unique authorizedResponse_replies with ⟨resultEq, _⟩
      exact iff_of_true resultEq adds

theorem keepsContract_iff {entry : ClientEntry} (actionEq : entry.event.action = .message request)
    (moves : entry.before.step setting entry.event = some (entry.after, entry.output)) :
    KeepsContract entry request ↔ ¬FindsNoRow entry.event.env request := by
  simp only [step, actionEq, Option.bind_eq_bind, Option.bind_eq_some_iff] at moves
  rcases moves with ⟨outcome, done, moves⟩
  simp only [Option.pure_def, Option.some.injEq, Prod.mk.injEq] at moves
  rcases moves with ⟨afterEq, outputEq⟩
  constructor
  · rintro keeps ⟨methodEq, username, password, credentials, absent⟩
    rw [onMessage_authorize methodEq] at done
    simp only [onMiningAuthorize, credentials, authorize, absent, Option.some.injEq] at done
    have sent : .sendMessage (authenticationFailed request) ∈ entry.output.effects := by
      rw [← outputEq, ← done]
      simp [respond]
    rcases keeps.replies _ sent _ rfl rfl with ⟨result, error, replies, one⟩
    rcases replies.unique authenticationFailed_replies with ⟨rfl, rfl⟩
    rcases one with ⟨_, nothing⟩ | ⟨nothing, _⟩
    · cases nothing
    · cases nothing
  · intro found
    have handled := onMessage_handled done
    refine ⟨?_, ?_⟩
    · rw [← outputEq]
      exact handled_honours handled found
    · intro methodEq reply result error sent replies
      rw [onMessage_authorize methodEq] at done
      rw [← outputEq] at sent
      cases credentialsEq : readCredentials request with
      | error exception =>
          simp only [onMiningAuthorize, credentialsEq, Option.some.injEq] at done
          rw [← done] at sent
          cases sent
      | ok credentials =>
          simp only [onMiningAuthorize, credentialsEq] at done
          have authorization := authorize_cases done
          have outcomeEq : outcome =
              ⟨entry.after, entry.output.effects, entry.output.thrown⟩ := by
            rw [← afterEq, ← outputEq]
          rw [outcomeEq] at authorization sent
          refine authorization_iff credentialsEq authorization ?_ sent replies
          exact fun absent => found ⟨methodEq, _, _, credentialsEq, absent⟩

/-- In a run, a request keeps the contract unless it is an authorization without a row. -/
theorem contract_iff {connection : Connection} {trace : List ClientEntry}
    (run : ClientRun setting connection trace client) :
    (∀ entry ∈ trace, ∀ request, entry.event.action = .message request →
      KeepsContract entry request) ↔
    ∀ entry ∈ trace, ∀ request, entry.event.action = .message request →
      ¬FindsNoRow entry.event.env request := by
  refine forall₂_congr fun entry entryMem => forall₂_congr fun request actionEq => ?_
  rcases run.before_of_mem entryMem with ⟨_, _, _, _, moves⟩
  exact keepsContract_iff actionEq moves

/-- A worker subscribes, is authorized and submits a share. -/
theorem contract_sample :
    ∃ (trace : List ClientEntry) (last : Client),
      ClientRun (Sample.setting (Sample.hash 2)) Sample.connection trace last ∧
      trace.map Entry.event = Sample.session (Sample.easyEnv 2) ∧
      ∀ entry ∈ trace, ∀ request, entry.event.action = .message request →
        KeepsContract entry request := by
  have defined : (replay (Client.step (Sample.setting (Sample.hash 2)))
      (Client.new Sample.config Sample.connection)
      (Sample.session (Sample.easyEnv 2))).isSome = true := by
    decide +kernel
  rcases Option.isSome_iff_exists.mp defined with ⟨⟨trace, last⟩, replayed⟩
  have run : ClientRun (Sample.setting (Sample.hash 2)) Sample.connection trace last :=
    .ofReplay replayed
  have events := map_event_replay replayed
  refine ⟨trace, last, run, events, (contract_iff run).mpr ?_⟩
  rintro entry entryMem request _ ⟨_, username, password, _, absent⟩
  have eventMem : entry.event ∈ Sample.session (Sample.easyEnv 2) :=
    events ▸ List.mem_map_of_mem entryMem
  have rows : ∀ event ∈ Sample.session (Sample.easyEnv 2),
      event.env.row username password = some (.ok 1) := by
    simp [Sample.session, Sample.easyEnv, Sample.env]
  rw [rows _ eventMem] at absent
  cases absent

/-- A database without workers. -/
def Sample.emptyEnv : Env :=
  { Sample.easyEnv 2 with row := fun _ _ => none }

/-- The reply that refuses an authorization has the result true. -/
theorem exists_contradictory_reply :
    ∃ (trace : List ClientEntry) (last : Client),
      ClientRun (Sample.setting (Sample.hash 2)) Sample.connection trace last ∧
      trace.map Entry.event = [⟨Sample.authorize, Sample.emptyEnv⟩] ∧
      ¬∀ entry ∈ trace, ∀ request, entry.event.action = .message request →
        KeepsContract entry request := by
  have defined : (replay (Client.step (Sample.setting (Sample.hash 2)))
      (Client.new Sample.config Sample.connection)
      [⟨Sample.authorize, Sample.emptyEnv⟩]).isSome = true := by
    decide +kernel
  rcases Option.isSome_iff_exists.mp defined with ⟨⟨trace, last⟩, replayed⟩
  have run : ClientRun (Sample.setting (Sample.hash 2)) Sample.connection trace last :=
    .ofReplay replayed
  have events := map_event_replay replayed
  refine ⟨trace, last, run, events, ?_⟩
  intro keeps
  rcases List.map_eq_singleton_iff.mp events with ⟨entry, rfl, eventEq⟩
  have actionEq : entry.event.action = Sample.authorize := by rw [eventEq]
  rcases run.before_of_mem (List.mem_singleton_self entry) with ⟨_, _, _, _, moves⟩
  refine (keepsContract_iff actionEq moves).mp (keeps entry (by simp) _ actionEq) ?_
  refine ⟨by decide, ascii "alice", ascii "secret", by decide, ?_⟩
  rw [eventEq]
  rfl

end Poolserver.Stratum
