import Poolserver.Stratum.Handlers

/-!
# The ends of the functions

Each function of the client comes to one of a few ends, and has found out something on the way to
it. What the functions do is proved from these ends, so that their bodies are taken apart once.
-/

namespace Poolserver.Stratum

open Poolserver.Bitcoin

namespace Client

variable {setting : Setting} {config : Config} {floating : FloatingPoint} {env : Env}
  {client next : Client} {effects : List Effect} {outcome : Outcome}

/-! ## The share limiter -/

/-- The ends of `SetDifficulty`, from the bound of the worker on. -/
inductive SetDifficultyEnds (env : Env) (newDiff : UInt64) (resendJob : Bool) (client : Client) :
    Client → List Effect → Prop where
  | unchanged (same : newDiff = client.diff) :
      SetDifficultyEnds env newDiff resendJob client client []
  | told (differs : newDiff ≠ client.diff) (quiet : resendJob = false) :
      SetDifficultyEnds env newDiff resendJob client { client with diff := newDiff }
        [.sendMessage (setDifficultyMessage newDiff)]
  | resent {next : Client} {jobs : List Effect} (differs : newDiff ≠ client.diff)
      (resend : resendJob = true)
      (sends : sendJob env false { client with diff := newDiff } = some (next, jobs)) :
      SetDifficultyEnds env newDiff resendJob client next
        (.sendMessage (setDifficultyMessage newDiff) :: jobs)

theorem setDifficulty_ends {diff : UInt64} {resendJob : Bool}
    (done : client.setDifficulty env diff resendJob = some (next, effects)) :
    SetDifficultyEnds env (if diff < client.minDiff then client.minDiff else diff) resendJob client
      next effects := by
  unfold setDifficulty at done
  generalize (if diff < client.minDiff then client.minDiff else diff) = newDiff at done ⊢
  dsimp only at done
  split at done
  · rename_i same
    simp only [Option.some.injEq, Prod.mk.injEq] at done
    rcases done with ⟨rfl, rfl⟩
    exact .unchanged same
  rename_i differs
  split at done
  · rename_i resend
    simp only [Option.bind_eq_bind, Option.bind_eq_some_iff] at done
    rcases done with ⟨⟨sentClient, jobs⟩, sends, done⟩
    simp only [Option.pure_def, Option.some.injEq, Prod.mk.injEq] at done
    rcases done with ⟨rfl, rfl⟩
    exact .resent differs resend sends
  · rename_i quiet
    simp only [Option.some.injEq, Prod.mk.injEq] at done
    rcases done with ⟨rfl, rfl⟩
    exact .told differs (Bool.not_eq_true _ ▸ quiet)

/-- The ends of `ShareLimiter::Submit` behind the calculation of the new difficulty. -/
inductive RetargetEnds (config : Config) (floating : FloatingPoint) (env : Env) (client : Client) :
    Bool → Client → List Effect → Prop where
  | steady
      (small : ShareLimiter.variance
        (client.shareLimiter.newDiff config floating env.limiterTime.toUInt64) client.diff <
          config.retargetVariance) :
      RetargetEnds config floating env client true client []
  | refused {slowed next : Client} {told jobs : List Effect}
      (large : 2000 < ShareLimiter.variance
        (client.shareLimiter.newDiff config floating env.limiterTime.toUInt64) client.diff)
      (slows : client.setDifficulty env
        (client.shareLimiter.newDiff config floating env.limiterTime.toUInt64) false =
          some (slowed, told))
      (sends : slowed.sendJob env true = some (next, jobs)) :
      RetargetEnds config floating env client false next (told ++ jobs)
  | adjusted {next : Client} {told : List Effect}
      (slows : client.setDifficulty env
        (client.shareLimiter.newDiff config floating env.limiterTime.toUInt64) true =
          some (next, told)) :
      RetargetEnds config floating env client true next told

theorem retarget_ends {passed : Bool}
    (done : client.retarget config floating env = some (passed, next, effects)) :
    RetargetEnds config floating env client passed next effects := by
  unfold retarget at done
  dsimp only at done
  split at done
  · cases done
  split at done
  · rename_i small
    simp only [Option.some.injEq, Prod.mk.injEq] at done
    rcases done with ⟨rfl, rfl, rfl⟩
    exact .steady small
  split at done
  · rename_i large
    simp only [Option.bind_eq_bind, Option.bind_eq_some_iff] at done
    rcases done with ⟨⟨slowed, told⟩, slows, ⟨sentClient, jobs⟩, sends, done⟩
    simp only [Option.pure_def, Option.some.injEq, Prod.mk.injEq] at done
    rcases done with ⟨rfl, rfl, rfl⟩
    exact .refused large slows sends
  · simp only [Option.bind_eq_bind, Option.bind_eq_some_iff] at done
    rcases done with ⟨⟨slowed, told⟩, slows, done⟩
    simp only [Option.pure_def, Option.some.injEq, Prod.mk.injEq] at done
    rcases done with ⟨rfl, rfl, rfl⟩
    exact .adjusted slows

/-- The ends of `ShareLimiter::Submit`, each with what has been counted. -/
inductive LimitShareEnds (config : Config) (floating : FloatingPoint) (env : Env) (diff : UInt64)
    (client : Client) : Bool → Client → List Effect → Prop where
  | early
      (early : (client.shareLimiter.count diff env.limiterTime.toUInt64).Early config
        env.limiterTime.toUInt64) :
      LimitShareEnds config floating env diff client true
        { client with shareLimiter := client.shareLimiter.count diff env.limiterTime.toUInt64 } []
  | banned
      (late : ¬(client.shareLimiter.count diff env.limiterTime.toUInt64).Early config
        env.limiterTime.toUInt64)
      (bad : 200 < client.shareLimiter.totalShares + 1 ∧
        floating.tooManyBad client.shareLimiter.totalBadShares
          (client.shareLimiter.totalShares + 1)) :
      LimitShareEnds config floating env diff client false
        { client with
          shareLimiter := (client.shareLimiter.count diff env.limiterTime.toUInt64).markRetarget
            env.limiterTime.toUInt64 }
        (client.ban 600)
  | retargets {passed : Bool} {next : Client} {effects : List Effect}
      (late : ¬(client.shareLimiter.count diff env.limiterTime.toUInt64).Early config
        env.limiterTime.toUInt64)
      (good : ¬(200 < client.shareLimiter.totalShares + 1 ∧
        floating.tooManyBad client.shareLimiter.totalBadShares
          (client.shareLimiter.totalShares + 1)))
      (done : retarget config floating env
        { client with
          shareLimiter := ((client.shareLimiter.count diff env.limiterTime.toUInt64).markRetarget
            env.limiterTime.toUInt64).dropOld config env.limiterTime.toUInt64 } =
          some (passed, next, effects)) :
      LimitShareEnds config floating env diff client passed next effects

theorem limitShare_ends {diff : UInt64} {passed : Bool}
    (done : client.limitShare config floating env diff = some (passed, next, effects)) :
    LimitShareEnds config floating env diff client passed next effects := by
  unfold limitShare at done
  dsimp only at done
  split at done
  · rename_i early
    simp only [Option.some.injEq, Prod.mk.injEq] at done
    rcases done with ⟨rfl, rfl, rfl⟩
    exact .early early
  rename_i late
  split at done
  · rename_i bad
    simp only [Option.some.injEq, Prod.mk.injEq] at done
    rcases done with ⟨rfl, rfl, rfl⟩
    exact .banned late bad
  · rename_i good
    exact .retargets late good done

/-! ## Submissions -/

variable {msg params : JSON} {username : StdString} {addr : ℕ} {submission : Submission}

/-- The ends behind the assembly of a block. -/
inductive JudgeEnds (env : Env) (msg : JSON) (username : StdString) (job : Job) (client : Client)
    (block : Block) (hash : BinaryData) (target : ℕ) : Outcome → Prop where
  | above (above : job.jobTarget < target) :
      JudgeEnds env msg username job client block hash target
        (client.logBad.respond
          [.push (client.shareRecord env username false "Share above target" job.diff)]
          (errorResponse msg 23 "Share above target"))
  | solved (meets : target ≤ job.jobTarget) (solves : target ≤ job.blockTarget)
      (accepted : env.submitBlock block = true) :
      JudgeEnds env msg username job client block hash target
        (client.respond
          [.submitBlock block, .executeAsync (client.blockInsert env username hash job.diff)]
          (trueResponse msg))
  | unanswered (meets : target ≤ job.jobTarget) (solves : target ≤ job.blockTarget)
      (refused : env.submitBlock block = false) :
      JudgeEnds env msg username job client block hash target ⟨client, [.submitBlock block], none⟩
  | credited (meets : target ≤ job.jobTarget) (large : job.blockTarget < target) :
      JudgeEnds env msg username job client block hash target
        (client.respond [.push (client.shareRecord env username true "" job.diff)]
          (trueResponse msg))

theorem judge_ends {job : Job} {block : Block} {hash : BinaryData} {target : ℕ}
    (judged : judge env msg username job client block hash target = outcome) :
    JudgeEnds env msg username job client block hash target outcome := by
  subst judged
  unfold judge
  split
  · rename_i above
    exact .above above
  rename_i meets
  rw [not_lt] at meets
  split
  · rename_i solves
    split
    · rename_i accepted
      exact .solved meets solves accepted
    · rename_i refused
      exact .unanswered meets solves (Bool.not_eq_true _ ▸ refused)
  · rename_i large
    exact .credited meets (not_le.mp large)

/-- The ends from the check for a duplicate share on. -/
inductive SubmitWorkEnds (setting : Setting) (env : Env) (msg : JSON) (username : StdString)
    (addr : ℕ) (submission : Submission) (client : Client) : Outcome → Prop where
  | duplicate {job : Job} (jobAt : client.heap[addr]? = some job)
      (known : job.submitShare submission.share = none) :
      SubmitWorkEnds setting env msg username addr submission client
        (client.logBad.respond
          [.submitShare addr submission.share,
            .push (client.shareRecord env username false "Duplicate share" job.diff)]
          (errorResponse msg 22 "Duplicate share"))
  | unassembled {job stored : Job} {exception : StdException}
      (jobAt : client.heap[addr]? = some job)
      (submitted : job.submitShare submission.share = some stored)
      (assembles : (client.storeJob addr stored).assemble setting.sha256d stored submission =
        some (.error exception)) :
      SubmitWorkEnds setting env msg username addr submission client
        ((client.storeJob addr stored).throws [.submitShare addr submission.share] exception)
  | unprinted {job stored : Job} {block : Block} {exception : StdException}
      (jobAt : client.heap[addr]? = some job)
      (submitted : job.submitShare submission.share = some stored)
      (assembles : (client.storeJob addr stored).assemble setting.sha256d stored submission =
        some (.ok block))
      (prints : Util.bigIntFromHex (Util.binToASCII (Util.reverse
        (block.getHash setting.sha256d))) = .error exception) :
      SubmitWorkEnds setting env msg username addr submission client
        ((client.storeJob addr stored).throws
          [.submitShare addr submission.share, .getHash block] exception)
  | judged {job stored : Job} {block : Block} {target : ℕ}
      (jobAt : client.heap[addr]? = some job)
      (submitted : job.submitShare submission.share = some stored)
      (assembles : (client.storeJob addr stored).assemble setting.sha256d stored submission =
        some (.ok block))
      (prints : Util.bigIntFromHex (Util.binToASCII (Util.reverse
        (block.getHash setting.sha256d))) = .ok target) :
      SubmitWorkEnds setting env msg username addr submission client
        ((judge env msg username stored (client.storeJob addr stored) block
          (block.getHash setting.sha256d) target).after
            [.submitShare addr submission.share, .getHash block])

theorem submitWork_ends
    (done : submitWork setting env msg username addr submission client = some outcome) :
    SubmitWorkEnds setting env msg username addr submission client outcome := by
  unfold submitWork at done
  simp only [Option.bind_eq_bind, Option.bind_eq_some_iff] at done
  rcases done with ⟨job, jobAt, done⟩
  split at done
  · rename_i known
    simp only [Option.pure_def, Option.some.injEq] at done
    subst done
    exact .duplicate jobAt known
  rename_i stored submitted
  simp only [Option.bind_eq_some_iff] at done
  rcases done with ⟨assembled, assembles, done⟩
  split at done
  · simp only [Option.pure_def, Option.some.injEq] at done
    subst done
    exact .unassembled jobAt submitted assembles
  split at done
  · rename_i unprinted
    simp only [Option.pure_def, Option.some.injEq] at done
    subst done
    exact .unprinted jobAt submitted assembles unprinted
  · rename_i printed
    simp only [Option.pure_def, Option.some.injEq] at done
    subst done
    exact .judged jobAt submitted assembles printed

/-- What becomes of a submission that reaches the share limiter. -/
inductive Limits (setting : Setting) (env : Env) (msg params : JSON) (username : StdString)
    (addr : ℕ) (limited : Client) (sent : List Effect) : Bool → Outcome → Prop where
  | blocked : Limits setting env msg params username addr limited sent false
      (limited.respond sent (errorResponse msg 20 "Blocked by share limiter"))
  | unreadable {exception : StdException}
      (read : readSubmission params = .error (.thrown exception)) :
      Limits setting env msg params username addr limited sent true
        (limited.throws sent exception)
  | wrongSize {text : String} (read : readSubmission params = .error (.wrongSize text)) :
      Limits setting env msg params username addr limited sent true
        (limited.respond sent (errorResponse msg 20 text))
  | verified {submission : Submission} {outcome : Outcome}
      (read : readSubmission params = .ok submission)
      (done : submitWork setting env msg username addr submission limited = some outcome) :
      Limits setting env msg params username addr limited sent true (outcome.after sent)

theorem submitToJob_limits
    (done : submitToJob setting env msg params username addr client = some outcome) :
    ∃ job passed limited sent, client.heap[addr]? = some job ∧
      client.limitShare setting.config setting.floating env job.diff =
        some (passed, limited, sent) ∧
      Limits setting env msg params username addr limited sent passed outcome := by
  unfold submitToJob at done
  simp only [Option.bind_eq_bind, Option.bind_eq_some_iff] at done
  rcases done with ⟨job, jobAt, ⟨passed, limited, sent⟩, limiter, done⟩
  refine ⟨job, passed, limited, sent, jobAt, limiter, ?_⟩
  cases passed with
  | false =>
      simp only [Option.pure_def, Option.some.injEq] at done
      subst done
      exact .blocked
  | true =>
      dsimp only at done
      split at done
      · rename_i read
        simp only [Option.pure_def, Option.some.injEq] at done
        subst done
        exact .unreadable read
      · rename_i read
        simp only [Option.pure_def, Option.some.injEq] at done
        subst done
        exact .wrongSize read
      · rename_i read
        simp only [Option.bind_eq_some_iff] at done
        rcases done with ⟨rest, worked, done⟩
        simp only [Option.pure_def, Option.some.injEq] at done
        subst done
        exact .verified read worked

/-- The ends of `OnMiningSubmit`. -/
inductive SubmitEnds (setting : Setting) (env : Env) (msg : JSON) (client : Client) :
    Outcome → Prop where
  | noParams {exception : StdException}
      (paramsEq : msg.member (ascii "params") = .error exception) :
      SubmitEnds setting env msg client (client.throws [] exception)
  | noUsername {params : JSON} {exception : StdException}
      (paramsEq : msg.member (ascii "params") = .ok params)
      (usernameEq : params.stringAt 0 = .error exception) :
      SubmitEnds setting env msg client (client.throws [] exception)
  | unauthorized {params : JSON} {username : StdString}
      (paramsEq : msg.member (ascii "params") = .ok params)
      (usernameEq : params.stringAt 0 = .ok username) (unknown : username ∉ client.workers) :
      SubmitEnds setting env msg client
        (client.respond [] (errorResponse msg 24 "Unauthorized worker"))
  | noJobText {params : JSON} {username : StdString} {exception : StdException}
      (paramsEq : msg.member (ascii "params") = .ok params)
      (usernameEq : params.stringAt 0 = .ok username) (authorized : username ∈ client.workers)
      (textEq : params.stringAt 1 = .error exception) :
      SubmitEnds setting env msg client (client.throws [] exception)
  | jobNotFound {params : JSON} {username text : StdString}
      (paramsEq : msg.member (ascii "params") = .ok params)
      (usernameEq : params.stringAt 0 = .ok username) (authorized : username ∈ client.workers)
      (textEq : params.stringAt 1 = .ok text)
      (unknown : client.jobs (parseHex env.uninitialized text).toUInt64 = none) :
      SubmitEnds setting env msg client
        (client.logBad.respond [.push (client.shareRecord env username false "Job not found" 1)]
          (errorResponse msg 21 "Job not found"))
  | reaches {params : JSON} {username text : StdString} {addr : ℕ} {outcome : Outcome}
      (paramsEq : msg.member (ascii "params") = .ok params)
      (usernameEq : params.stringAt 0 = .ok username) (authorized : username ∈ client.workers)
      (textEq : params.stringAt 1 = .ok text)
      (found : client.jobs (parseHex env.uninitialized text).toUInt64 = some addr)
      (done : submitToJob setting env msg params username addr client = some outcome) :
      SubmitEnds setting env msg client outcome

theorem onMiningSubmit_ends (done : onMiningSubmit setting env msg client = some outcome) :
    SubmitEnds setting env msg client outcome := by
  unfold onMiningSubmit at done
  split at done
  · rename_i paramsEq
    simp only [Option.some.injEq] at done
    subst done
    exact .noParams paramsEq
  rename_i params paramsEq
  split at done
  · rename_i usernameEq
    simp only [Option.some.injEq] at done
    subst done
    exact .noUsername paramsEq usernameEq
  rename_i username usernameEq
  split at done
  · rename_i unknown
    simp only [Option.some.injEq] at done
    subst done
    exact .unauthorized paramsEq usernameEq unknown
  rename_i authorized
  rw [not_not] at authorized
  split at done
  · rename_i textEq
    simp only [Option.some.injEq] at done
    subst done
    exact .noJobText paramsEq usernameEq authorized textEq
  rename_i text textEq
  split at done
  · rename_i unknown
    simp only [Option.some.injEq] at done
    subst done
    exact .jobNotFound paramsEq usernameEq authorized textEq unknown
  · rename_i addr found
    exact .reaches paramsEq usernameEq authorized textEq found done

/-! ## Authorizations, messages and calls -/

theorem raiseDiff_eq_some (raised : client.raiseDiff env = some (next, effects)) :
    client.setDifficulty env client.minDiff false = some (next, effects) ∨
      next = client ∧ effects = [] := by
  unfold raiseDiff at raised
  split at raised
  · exact Or.inl raised
  · simp only [Option.some.injEq, Prod.mk.injEq] at raised
    exact Or.inr ⟨raised.1.symm, raised.2.symm⟩

/-- The ends of `OnMiningAuthorize` behind the database query. -/
inductive AuthorizeEnds (env : Env) (msg : JSON) (username password : StdString)
    (client : Client) : Outcome → Prop where
  | noRow (absent : env.row username password = none) :
      AuthorizeEnds env msg username password client
        (client.respond [.query username password false] (authenticationFailed msg))
  | unreadable {exception : StdException}
      (row : env.row username password = some (.error exception)) :
      AuthorizeEnds env msg username password client
        ({ client with workers := insert username client.workers }.throws
          [.query username password true] exception)
  | authorized {mindiff : UInt32} {next : Client} {told : List Effect}
      (row : env.row username password = some (.ok mindiff))
      (raises : raiseDiff env
        { client with
          workers := insert username client.workers
          minDiff := mindiff.toUInt64 } = some (next, told)) :
      AuthorizeEnds env msg username password client
        (next.respond (.query username password true :: told) (authorizedResponse msg))

theorem authorize_ends {password : StdString}
    (done : authorize env msg username password client = some outcome) :
    AuthorizeEnds env msg username password client outcome := by
  unfold authorize at done
  split at done
  · rename_i absent
    simp only [Option.some.injEq] at done
    subst done
    exact .noRow absent
  rename_i mindiff row
  split at done
  · simp only [Option.some.injEq] at done
    subst done
    exact .unreadable row
  · simp only [Option.bind_eq_bind, Option.bind_eq_some_iff] at done
    rcases done with ⟨⟨raised, told⟩, raises, done⟩
    simp only [Option.pure_def, Option.some.injEq] at done
    subst done
    exact .authorized row raises

/-- The ends of `OnMessage`. -/
inductive MessageEnds (setting : Setting) (env : Env) (msg : JSON) (client : Client) :
    Outcome → Prop where
  | noMethod {exception : StdException}
      (methodEq : msg.stringMember "method" = .error exception) :
      MessageEnds setting env msg client (client.throws [] exception)
  | submit {outcome : Outcome}
      (methodEq : msg.stringMember "method" = .ok (ascii "mining.submit"))
      (done : onMiningSubmit setting env msg client = some outcome) :
      MessageEnds setting env msg client outcome
  | subscribe {next : Client} {sent : List Effect}
      (methodEq : msg.stringMember "method" = .ok (ascii "mining.subscribe"))
      (sends : sendJob env false { client with subscribed := true, extranonce := env.extranonce } =
        some (next, sent)) :
      MessageEnds setting env msg client
        ⟨next, .sendMessage (subscribeResponse msg env.extranonce) :: sent, none⟩
  | noCredentials {exception : StdException}
      (methodEq : msg.stringMember "method" = .ok (ascii "mining.authorize"))
      (unread : readCredentials msg = .error exception) :
      MessageEnds setting env msg client (client.throws [] exception)
  | authorize {username password : StdString} {outcome : Outcome}
      (methodEq : msg.stringMember "method" = .ok (ascii "mining.authorize"))
      (credentials : readCredentials msg = .ok (username, password))
      (done : authorize env msg username password client = some outcome) :
      MessageEnds setting env msg client outcome
  | ignored {method : StdString} (methodEq : msg.stringMember "method" = .ok method)
      (notSubmit : method ≠ ascii "mining.submit")
      (notSubscribe : method ≠ ascii "mining.subscribe")
      (notAuthorize : method ≠ ascii "mining.authorize") :
      MessageEnds setting env msg client ⟨client, [], none⟩

theorem onMessage_ends (done : client.onMessage env setting msg = some outcome) :
    MessageEnds setting env msg client outcome := by
  unfold onMessage at done
  split at done
  · rename_i methodEq
    simp only [Option.some.injEq] at done
    subst done
    exact .noMethod methodEq
  rename_i method methodEq
  split at done
  · rename_i submits
    subst submits
    exact .submit methodEq done
  rename_i notSubmit
  split at done
  · rename_i subscribes
    subst subscribes
    simp only [onMiningSubscribe, Option.bind_eq_bind, Option.bind_eq_some_iff] at done
    rcases done with ⟨⟨sentClient, sent⟩, sends, done⟩
    simp only [Option.pure_def, Option.some.injEq] at done
    subst done
    exact .subscribe methodEq sends
  rename_i notSubscribe
  split at done
  · rename_i authorizes
    subst authorizes
    unfold onMiningAuthorize at done
    split at done
    · rename_i unread
      simp only [Option.some.injEq] at done
      subst done
      exact .noCredentials methodEq unread
    · rename_i username password credentials
      exact .authorize methodEq credentials done
  · rename_i notAuthorize
    simp only [Option.some.injEq] at done
    subst done
    exact .ignored methodEq notSubmit notSubscribe notAuthorize

/-- The ends of a call. -/
inductive StepEnds (setting : Setting) (event : Event) (client : Client) :
    Client → Output → Prop where
  | message {msg : JSON} {outcome : Outcome} (actionEq : event.action = .message msg)
      (done : client.onMessage event.env setting msg = some outcome) :
      StepEnds setting event client outcome.client ⟨outcome.effects, outcome.thrown⟩
  | sendJob {clean : Bool} {next : Client} {sent : List Effect}
      (actionEq : event.action = .sendJob clean)
      (sends : client.sendJob event.env clean = some (next, sent)) :
      StepEnds setting event client next ⟨sent, none⟩

theorem step_ends {event : Event} {output : Output}
    (stepped : client.step setting event = some (next, output)) :
    StepEnds setting event client next output := by
  unfold step at stepped
  split at stepped
  · rename_i msg actionEq
    simp only [Option.bind_eq_bind, Option.bind_eq_some_iff] at stepped
    rcases stepped with ⟨outcome, done, stepped⟩
    simp only [Option.pure_def, Option.some.injEq, Prod.mk.injEq] at stepped
    rcases stepped with ⟨rfl, rfl⟩
    exact .message actionEq done
  · rename_i clean actionEq
    simp only [Option.bind_eq_bind, Option.bind_eq_some_iff] at stepped
    rcases stepped with ⟨⟨sentClient, sent⟩, sends, stepped⟩
    simp only [Option.pure_def, Option.some.injEq, Prod.mk.injEq] at stepped
    rcases stepped with ⟨rfl, rfl⟩
    exact .sendJob actionEq sends

end Client

end Poolserver.Stratum
