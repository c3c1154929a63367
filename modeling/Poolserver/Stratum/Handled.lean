import Poolserver.Stratum.Acts

/-!
# How a message is handled

`OnMessage` comes to one of seven ends. A submission of an authorized worker for one of the
client's jobs reaches the share limiter, and everything else it can do comes after that; the
other ends are those of the remaining branches of the three handlers.
-/

namespace Poolserver.Stratum

open Poolserver.Bitcoin RunTrace

namespace Client

variable {setting : Setting} {env : Env} {msg : JSON} {client : Client} {outcome : Outcome}

/-- A submission of an authorized worker that names the job at a pointer. -/
structure ReachesLimiter (env : Env) (msg : JSON) (client : Client) (params : JSON)
    (username : StdString) (addr : ℕ) : Prop where
  methodEq : msg.stringMember "method" = .ok (ascii "mining.submit")
  paramsEq : msg.member (ascii "params") = .ok params
  usernameEq : params.stringAt 0 = .ok username
  authorized : username ∈ client.workers
  jobFound : ∃ text, params.stringAt 1 = .ok text ∧
    client.jobs (parseHex env.uninitialized text).toUInt64 = some addr

/-- The message makes `OnMiningSubmit` call the share limiter. -/
def AsksLimiter (env : Env) (msg : JSON) (client : Client) : Prop :=
  ∃ params username addr, ReachesLimiter env msg client params username addr

theorem ReachesLimiter.sameParams {params other : JSON} {username : StdString} {addr : ℕ}
    (reaches : ReachesLimiter env msg client other username addr)
    (paramsEq : msg.member (ascii "params") = .ok params) : other = params :=
  Except.ok.inj (reaches.paramsEq.symm.trans paramsEq)

theorem ReachesLimiter.unique {params other : JSON} {username otherName : StdString}
    {addr otherAddr : ℕ} (reaches : ReachesLimiter env msg client params username addr)
    (again : ReachesLimiter env msg client other otherName otherAddr) :
    params = other ∧ username = otherName ∧ addr = otherAddr := by
  have same : params = other := reaches.sameParams again.paramsEq
  subst same
  have sameName : username = otherName := Except.ok.inj (reaches.usernameEq.symm.trans again.usernameEq)
  rcases reaches.jobFound with ⟨text, textEq, found⟩
  rcases again.jobFound with ⟨otherText, otherTextEq, otherFound⟩
  have sameText : text = otherText := Except.ok.inj (textEq.symm.trans otherTextEq)
  subst sameText
  exact ⟨rfl, sameName, Option.some.inj (found.symm.trans otherFound)⟩

/-- The ends of `OnMessage`. -/
inductive Handled (setting : Setting) (env : Env) (msg : JSON) (client : Client) :
    Outcome → Prop where
  | unreadable (exception : StdException) (other : ¬AsksLimiter env msg client) :
      Handled setting env msg client (client.throws [] exception)
  | ignored (other : ¬AsksLimiter env msg client) :
      Handled setting env msg client ⟨client, [], none⟩
  | unauthorized {params : JSON} {username : StdString}
      (methodEq : msg.stringMember "method" = .ok (ascii "mining.submit"))
      (paramsEq : msg.member (ascii "params") = .ok params)
      (usernameEq : params.stringAt 0 = .ok username) (unknown : username ∉ client.workers)
      (other : ¬AsksLimiter env msg client) :
      Handled setting env msg client
        (client.respond [] (errorResponse msg 24 "Unauthorized worker"))
  | jobNotFound {params : JSON} {username text : StdString}
      (methodEq : msg.stringMember "method" = .ok (ascii "mining.submit"))
      (paramsEq : msg.member (ascii "params") = .ok params)
      (usernameEq : params.stringAt 0 = .ok username) (authorized : username ∈ client.workers)
      (textEq : params.stringAt 1 = .ok text)
      (unknown : client.jobs (parseHex env.uninitialized text).toUInt64 = none)
      (other : ¬AsksLimiter env msg client) :
      Handled setting env msg client
        (client.logBad.respond [.push (client.shareRecord env username false "Job not found" 1)]
          (errorResponse msg 21 "Job not found"))
  | limited {params : JSON} {username : StdString} {addr : ℕ} {outcome : Outcome}
      (reaches : ReachesLimiter env msg client params username addr)
      (done : submitToJob setting env msg params username addr client = some outcome) :
      Handled setting env msg client outcome
  | subscribes {next : Client} {sent : List Effect}
      (methodEq : msg.stringMember "method" = .ok (ascii "mining.subscribe"))
      (sends : sendJob env false { client with subscribed := true, extranonce := env.extranonce } =
        some (next, sent)) :
      Handled setting env msg client
        ⟨next, .sendMessage (subscribeResponse msg env.extranonce) :: sent, none⟩
  | authorizes {username password : StdString} {outcome : Outcome}
      (methodEq : msg.stringMember "method" = .ok (ascii "mining.authorize"))
      (credentials : readCredentials msg = .ok (username, password))
      (done : authorize env msg username password client = some outcome) :
      Handled setting env msg client outcome

theorem not_asks_of_method {method : StdString} (methodEq : msg.stringMember "method" = .ok method)
    (differs : method ≠ ascii "mining.submit") : ¬AsksLimiter env msg client := by
  rintro ⟨params, username, addr, reaches⟩
  exact differs (Except.ok.inj (methodEq.symm.trans reaches.methodEq))

theorem onMiningSubmit_handled
    (methodEq : msg.stringMember "method" = .ok (ascii "mining.submit"))
    (done : onMiningSubmit setting env msg client = some outcome) :
    Handled setting env msg client outcome := by
  cases onMiningSubmit_ends done with
  | noParams paramsEq =>
      refine .unreadable _ ?_
      rintro ⟨params, username, addr, reaches⟩
      have read := reaches.paramsEq
      rw [paramsEq] at read
      cases read
  | noUsername paramsEq usernameEq =>
      refine .unreadable _ ?_
      rintro ⟨other, username, addr, reaches⟩
      have read := reaches.usernameEq
      rw [reaches.sameParams paramsEq, usernameEq] at read
      cases read
  | unauthorized paramsEq usernameEq unknown =>
      refine .unauthorized methodEq paramsEq usernameEq unknown ?_
      rintro ⟨other, otherName, addr, reaches⟩
      have read := reaches.usernameEq
      rw [reaches.sameParams paramsEq, usernameEq, Except.ok.injEq] at read
      rw [read] at unknown
      exact unknown reaches.authorized
  | noJobText paramsEq usernameEq authorized textEq =>
      refine .unreadable _ ?_
      rintro ⟨other, otherName, addr, reaches⟩
      rcases reaches.jobFound with ⟨text, read, _⟩
      rw [reaches.sameParams paramsEq, textEq] at read
      cases read
  | jobNotFound paramsEq usernameEq authorized textEq unknown =>
      refine .jobNotFound methodEq paramsEq usernameEq authorized textEq unknown ?_
      rintro ⟨other, otherName, addr, reaches⟩
      rcases reaches.jobFound with ⟨otherText, read, found⟩
      rw [reaches.sameParams paramsEq, textEq, Except.ok.injEq] at read
      rw [← read, unknown] at found
      cases found
  | reaches paramsEq usernameEq authorized textEq found done =>
      exact .limited ⟨methodEq, paramsEq, usernameEq, authorized, _, textEq, found⟩ done

theorem onMessage_handled (done : client.onMessage env setting msg = some outcome) :
    Handled setting env msg client outcome := by
  cases onMessage_ends done with
  | noMethod methodEq =>
      refine .unreadable _ ?_
      rintro ⟨params, username, addr, reaches⟩
      have read := reaches.methodEq
      rw [methodEq] at read
      cases read
  | submit methodEq done => exact onMiningSubmit_handled methodEq done
  | subscribe methodEq sends => exact .subscribes methodEq sends
  | noCredentials methodEq unread =>
      exact .unreadable _ (not_asks_of_method methodEq (by decide))
  | authorize methodEq credentials done => exact .authorizes methodEq credentials done
  | ignored methodEq notSubmit notSubscribe notAuthorize =>
      exact .ignored (not_asks_of_method methodEq notSubmit)

/-! ## From the share limiter on -/

/-- The share limiter finds a retarget due and the miner's shares mostly bad. -/
def BansMiner (setting : Setting) (env : Env) (client : Client) : Prop :=
  ¬(client.shareLimiter.count 0 env.limiterTime.toUInt64).Early setting.config
      env.limiterTime.toUInt64 ∧
    200 < client.shareLimiter.totalShares + 1 ∧
    setting.floating.tooManyBad client.shareLimiter.totalBadShares
      (client.shareLimiter.totalShares + 1)

/-- Where shares can be counted in a `double`, it is for more than nine bad ones in ten. -/
theorem bansMiner_iff {timePerShare : ℚ} (documented : setting.floating.Documented timePerShare)
    (few : (client.shareLimiter.totalShares + 1).toNat < 2 ^ 49) :
    BansMiner setting env client ↔
      ¬(client.shareLimiter.count 0 env.limiterTime.toUInt64).Early setting.config
          env.limiterTime.toUInt64 ∧
        200 < client.shareLimiter.totalShares + 1 ∧
        9 * (client.shareLimiter.totalShares + 1).toNat <
          10 * client.shareLimiter.totalBadShares.toNat := by
  rw [BansMiner, documented.tooManyBad_iff _ _ few]

/-- A message that tells the client of a difficulty or a job. -/
inductive Announces : Effect → Prop where
  | difficulty (diff : UInt64) : Announces (.sendMessage (setDifficultyMessage diff))
  | job (jobid : UInt32) (job : Job) (branch : List BinaryData) (clean : Bool) :
      Announces (.sendMessage (notifyMessage jobid job branch clean))

variable {next limited : Client} {effects sent : List Effect} {passed : Bool} {diff : UInt64}

theorem sendJob_announces {clean : Bool} (done : client.sendJob env clean = some (next, effects)) :
    ∀ effect ∈ effects, Announces effect := by
  rcases sendJob_eq_some done with ⟨job, branch, _, _, _, rfl⟩
  intro effect effectMem
  rw [List.mem_singleton] at effectMem
  subst effectMem
  exact .job ..

theorem setDifficulty_announces {resendJob : Bool}
    (done : client.setDifficulty env diff resendJob = some (next, effects)) :
    ∀ effect ∈ effects, Announces effect := by
  cases setDifficulty_ends done with
  | unchanged same =>
      intro effect effectMem
      cases effectMem
  | told differs quiet =>
      intro effect effectMem
      rw [List.mem_singleton] at effectMem
      subst effectMem
      exact .difficulty _
  | resent differs resend sends =>
      intro effect effectMem
      rcases List.mem_cons.mp effectMem with rfl | job
      · exact .difficulty _
      · exact sendJob_announces sends effect job

theorem retarget_announces {config : Config} {floating : FloatingPoint}
    (done : client.retarget config floating env = some (passed, next, effects)) :
    ∀ effect ∈ effects, Announces effect := by
  cases retarget_ends done with
  | steady small =>
      intro effect effectMem
      cases effectMem
  | refused large slows sends =>
      intro effect effectMem
      rcases List.mem_append.mp effectMem with told | jobs
      · exact setDifficulty_announces slows effect told
      · exact sendJob_announces sends effect jobs
  | adjusted slows => exact setDifficulty_announces slows

/-- The share limiter bans the miner, or only tells it of a difficulty and a job. -/
theorem limitShare_cases
    (done : client.limitShare setting.config setting.floating env diff =
      some (passed, next, effects)) :
    (BansMiner setting env client ∧ passed = false ∧ effects = client.ban 600) ∨
      (¬BansMiner setting env client ∧ ∀ effect ∈ effects, Announces effect) := by
  have sameEarly : (client.shareLimiter.count diff env.limiterTime.toUInt64).Early setting.config
      env.limiterTime.toUInt64 ↔ (client.shareLimiter.count 0 env.limiterTime.toUInt64).Early
        setting.config env.limiterTime.toUInt64 := Iff.rfl
  cases limitShare_ends done with
  | early early =>
      refine Or.inr ⟨fun bans => bans.1 (sameEarly.mp early), ?_⟩
      intro effect effectMem
      cases effectMem
  | banned late bad =>
      exact Or.inl ⟨⟨fun early => late (sameEarly.mpr early), bad.1, bad.2⟩, rfl, rfl⟩
  | retargets late good done =>
      exact Or.inr ⟨fun bans => good bans.2, retarget_announces done⟩

/-- The effects of the verification of a share. -/
inductive Verifies (msg : JSON) : Effect → Prop where
  | submitShare (addr : ℕ) (share : UInt64) : Verifies msg (.submitShare addr share)
  | getHash (block : Block) : Verifies msg (.getHash block)
  | submitBlock (block : Block) : Verifies msg (.submitBlock block)
  | push (share : Share) : Verifies msg (.push share)
  | executeAsync (insert : BlockInsert) : Verifies msg (.executeAsync insert)
  | refused (code : Int64) (text : String) :
      Verifies msg (.sendMessage (errorResponse msg code text))
  | accepted : Verifies msg (.sendMessage (trueResponse msg))

theorem judge_verifies {username : StdString} {job : Job} {block : Block} {hash : BinaryData}
    {target : ℕ} :
    ∀ effect ∈ (judge env msg username job client block hash target).effects,
      Verifies msg effect := by
  generalize judged : judge env msg username job client block hash target = outcome
  cases judge_ends judged with
  | above above =>
      simp only [respond, List.cons_append, List.nil_append, List.forall_mem_cons]
      exact ⟨.push _, .refused _ _, by simp⟩
  | solved meets solves accepted =>
      simp only [respond, List.cons_append, List.nil_append, List.forall_mem_cons]
      exact ⟨.submitBlock _, .executeAsync _, .accepted, by simp⟩
  | unanswered meets solves refused =>
      simp only [List.forall_mem_cons]
      exact ⟨.submitBlock _, by simp⟩
  | credited meets large =>
      simp only [respond, List.cons_append, List.nil_append, List.forall_mem_cons]
      exact ⟨.push _, .accepted, by simp⟩

theorem submitWork_verifies {username : StdString} {addr : ℕ} {submission : Submission}
    (done : submitWork setting env msg username addr submission client = some outcome) :
    ∀ effect ∈ outcome.effects, Verifies msg effect := by
  cases submitWork_ends done with
  | duplicate jobAt known =>
      simp only [respond, List.cons_append, List.nil_append, List.forall_mem_cons]
      exact ⟨.submitShare _ _, .push _, .refused _ _, by simp⟩
  | unassembled jobAt submitted assembles =>
      simp only [throws, List.forall_mem_cons]
      exact ⟨.submitShare _ _, by simp⟩
  | unprinted jobAt submitted assembles prints =>
      simp only [throws, List.forall_mem_cons]
      exact ⟨.submitShare _ _, .getHash _, by simp⟩
  | judged jobAt submitted assembles prints =>
      simp only [Outcome.after, List.cons_append, List.nil_append, List.forall_mem_cons]
      exact ⟨.submitShare _ _, .getHash _, judge_verifies⟩

end Client

end Poolserver.Stratum
