import Poolserver.Stratum.Ends

/-!
# What a call does

Every handler is a course of acts, each with its exact effect on the client and on the
world: acts that answer a request, record a share or change one of the client's tables,
then at most one change of the difficulty, then at most one new job, then acts again. A
subscription is the only call that does something else, and does it first.
-/

namespace Poolserver.Stratum

open Poolserver.Bitcoin RunTrace

/-! ## Jobs as they are made -/

namespace Job

/-- What `GetJob` establishes and nothing changes afterwards. -/
structure Sound (job : Job) : Prop where
  jobTarget : diffToTarget job.diff.toNat = some job.jobTarget
  blockTarget : targetFromBits job.block.bits = some job.blockTarget
  cut : ∃ coinbase others, job.block.tx = coinbase :: others ∧
    cbsplit + 8 ≤ (serialize coinbase).length ∧
    job.coinbase1 = (serialize coinbase).take cbsplit ∧
    job.coinbase2 = (serialize coinbase).drop (cbsplit + 8)

/-- A fresh job for the current work. -/
structure Issued (work : Option Block) (diff : UInt64) (job : Job) : Prop extends Sound job where
  work : work = some job.block
  diff : job.diff = diff
  shares : job.shares = ∅

/-- The job after a share was submitted to it, new or not. -/
def withShare (job : Job) (share : UInt64) : Job :=
  { job with shares := insert share job.shares }

theorem Sound.withShare {job : Job} (sound : job.Sound) (share : UInt64) :
    (job.withShare share).Sound :=
  ⟨sound.jobTarget, sound.blockTarget, sound.cut⟩

theorem submitShare_eq_none {job : Job} {share : UInt64}
    (duplicate : job.submitShare share = none) : job.withShare share = job := by
  unfold submitShare at duplicate
  split at duplicate
  · rename_i known
    simp [Job.withShare, Finset.insert_eq_of_mem known]
  · simp at duplicate

end Job

namespace Client

variable {env : Env} {client next : Client} {effects : List Effect}

theorem getJob_eq_some {work : Option Block} {job : Job}
    (made : client.getJob work = some job) : job.Issued work client.diff := by
  simp only [getJob, Option.bind_eq_bind, Option.bind_eq_some_iff] at made
  rcases made with ⟨block, workEq, jobTarget, jobTargetEq, blockTarget, blockTargetEq, made⟩
  rcases made with ⟨coinbase, first, made⟩
  split at made
  · simp at made
  · rename_i long
    cases txEq : block.tx with
    | nil => simp [txEq] at first
    | cons head others =>
        simp only [txEq, List.getElem?_cons_zero, Option.some.injEq] at first
        subst first
        simp only [Option.pure_def, Option.some.injEq] at made
        subst made
        exact {
          jobTarget := jobTargetEq
          blockTarget := blockTargetEq
          cut := ⟨head, others, txEq, not_lt.mp long, rfl, rfl⟩
          work := workEq
          diff := rfl
          shares := rfl }

theorem sendJob_eq_some {clean : Bool} (sent : client.sendJob env clean = some (next, effects)) :
    ∃ job branch,
      job.Issued env.work client.diff ∧
      job.branch = some branch ∧
      next = (if clean then client.cleanJobs else client).addJob job ∧
      effects = [.sendMessage (notifyMessage client.jobid job branch clean)] := by
  simp only [sendJob, Option.bind_eq_bind, Option.bind_eq_some_iff] at sent
  rcases sent with ⟨job, made, branch, branchEq, sent⟩
  simp only [Option.pure_def, Option.some.injEq, Prod.mk.injEq] at sent
  rcases sent with ⟨rfl, rfl⟩
  have issued := getJob_eq_some made
  cases clean with
  | true => exact ⟨job, branch, issued, branchEq, rfl, rfl⟩
  | false => exact ⟨job, branch, issued, branchEq, rfl, rfl⟩

end Client

/-! ## Acts -/

/-- What a handler answers to a submission or an authorization. -/
inductive Reply : JSON → Prop where
  | error (msg : JSON) (code : Int64) (text : String) : Reply (errorResponse msg code text)
  | accepted (msg : JSON) : Reply (trueResponse msg)
  | authorized (msg : JSON) : Reply (Client.authorizedResponse msg)
  | unauthenticated (msg : JSON) : Reply (Client.authenticationFailed msg)

/-- The reasons for which shares are refused. -/
def refusals : List String :=
  ["Job not found", "Duplicate share", "Share above target"]

/-- The record of a refused share. -/
def Share.Refused (share : Share) : Prop :=
  share.result = false ∧ ∃ reason ∈ refusals, share.reason = ascii reason

/-- The record of a share that is paid for. -/
def Share.Credited (share : Share) : Prop :=
  share.result = true ∧ share.reason = []

/-- Effects that come without a change of the client. -/
def Effect.Plain : Effect → Prop
  | query _ _ found => found = false
  | getHash _ => True
  | submitBlock _ => True
  | push share => share.Credited
  | executeAsync _ => True
  | _ => False

namespace Client

/-- One act of the share limiter, other than to change the difficulty or to send a job. -/
inductive Turn : Client → List Effect → Client → Prop where
  | count (client : Client) (limiter : ShareLimiter)
      (total : limiter.totalShares = client.shareLimiter.totalShares + 1)
      (bad : limiter.totalBadShares = client.shareLimiter.totalBadShares) :
      Turn client [] { client with shareLimiter := limiter }
  | ban (client : Client) (time : UInt32) : Turn client (client.ban time) client

/-- `SetDifficulty` when it changes the difficulty. -/
inductive ChangesDiff : Client → List Effect → Client → Prop where
  | intro (client : Client) (diff : UInt64) (changes : diff ≠ client.diff)
      (bound : diff = client.minDiff ∨ diff.toNat < 2 ^ 32) :
      ChangesDiff client [.sendMessage (setDifficultyMessage diff)] { client with diff }

/-- `SendJob` when it returns. -/
inductive SendsJob (env : Env) : Client → List Effect → Client → Prop where
  | intro (client : Client) (clean : Bool) {job : Job} {branch : List BinaryData}
      (issued : job.Issued env.work client.diff) (branchEq : job.branch = some branch) :
      SendsJob env client [.sendMessage (notifyMessage client.jobid job branch clean)]
        ((if clean then client.cleanJobs else client).addJob job)

/-- One act of a handler that neither sends a job nor takes an extranonce. -/
inductive Act (env : Env) : Client → List Effect → Client → Prop where
  | turn {client next : Client} {effects : List Effect} (turns : Turn client effects next) :
      Act env client effects next
  | reply (client : Client) {response : JSON} (replies : Reply response) :
      Act env client [.sendMessage response] client
  | perform (client : Client) {effect : Effect} (plain : effect.Plain) :
      Act env client [effect] client
  | refuse (client : Client) {share : Share} (bad : share.Refused) :
      Act env client [.push share] client.logBad
  | enlist (client : Client) (username password : StdString)
      (found : env.row username password ≠ none) :
      Act env client [.query username password true]
        { client with workers := insert username client.workers }
  | setMinDiff (client : Client) (minDiff : UInt32) :
      Act env client [] { client with minDiff := minDiff.toUInt64 }
  | submitShare (client : Client) (share : UInt64) {addr : ℕ} {job : Job}
      (jobAt : client.heap[addr]? = some job) :
      Act env client [.submitShare addr share] (client.storeJob addr (job.withShare share))

/-- Moves of one kind, with at most one change of the difficulty and one new job after it. -/
inductive Course (env : Env) (move : Client → List Effect → Client → Prop) :
    Client → List Effect → Client → Prop where
  | intro {client opened changed sent next : Client} {opening told jobs ending : List Effect}
      (opens : Path move client opening opened)
      (changes : Possibly ChangesDiff opened told changed)
      (sends : Possibly (SendsJob env) changed jobs sent)
      (ends : Path move sent ending next) :
      Course env move client (opening ++ told ++ jobs ++ ending) next

/-- What a handler does that takes no extranonce. -/
abbrev Acts (env : Env) : Client → List Effect → Client → Prop :=
  Course env (Act env)

variable {env : Env} {client middle next : Client} {effects emitted : List Effect}

namespace Course

variable {move : Client → List Effect → Client → Prop}

theorem ofPath (path : Path move client effects next) : Course env move client effects next := by
  have course : Course env move client (effects ++ [] ++ [] ++ []) next :=
    .intro path (.skip next) (.skip next) (.refl next)
  simpa using course

theorem trans (course : Course env move client emitted middle)
    (path : Path move middle effects next) : Course env move client (emitted ++ effects) next := by
  cases course with
  | intro opens changes sends ends =>
      rw [List.append_assoc]
      exact .intro opens changes sends (ends.trans path)

theorem preceded (path : Path move client emitted middle)
    (course : Course env move middle effects next) :
    Course env move client (emitted ++ effects) next := by
  cases course with
  | intro opens changes sends ends =>
      simp only [← List.append_assoc]
      exact .intro (path.trans opens) changes sends ends

theorem mono {wider : Client → List Effect → Client → Prop}
    (embeds : ∀ {client effects next}, move client effects next → wider client effects next)
    (course : Course env move client effects next) : Course env wider client effects next := by
  cases course with
  | intro opens changes sends ends =>
      exact .intro (opens.mono embeds) changes sends (ends.mono embeds)

/-- A course of moves, changes and jobs that are moves of a wider kind. -/
theorem toPath {wider : Client → List Effect → Client → Prop}
    (embeds : ∀ {client effects next}, move client effects next → wider client effects next)
    (embedsChange : ∀ {client effects next}, ChangesDiff client effects next →
      wider client effects next)
    (embedsJob : ∀ {client effects next}, SendsJob env client effects next →
      wider client effects next)
    (course : Course env move client effects next) : Path wider client effects next := by
  cases course with
  | intro opens changes sends ends =>
      have changed := (opens.mono embeds).trans (changes.toPath.mono embedsChange)
      exact (changed.trans (sends.toPath.mono embedsJob)).trans (ends.mono embeds)

end Course

theorem storeJob_self {addr : ℕ} {job : Job} (jobAt : client.heap[addr]? = some job) :
    client.storeJob addr job = client := by
  rw [List.getElem?_eq_some_iff] at jobAt
  rcases jobAt with ⟨inside, rfl⟩
  simp [storeJob]

/-! ## The share limiter -/

theorem sendJob_sends {clean : Bool} (sent : client.sendJob env clean = some (next, effects)) :
    SendsJob env client effects next := by
  rcases sendJob_eq_some sent with ⟨job, branch, issued, branchEq, rfl, rfl⟩
  exact .intro client clean issued branchEq

/-- `SetDifficulty` announces a change and, if it is asked to, sends a job after it. -/
theorem setDifficulty_changes {diff : UInt64} {resendJob : Bool}
    (small : diff.toNat < 2 ^ 32 ∨ diff = client.minDiff)
    (moved : client.setDifficulty env diff resendJob = some (next, effects)) :
    ∃ changed told jobs, Possibly ChangesDiff client told changed ∧
      Possibly (SendsJob env) changed jobs next ∧ effects = told ++ jobs ∧
      (resendJob = false → jobs = [] ∧ next = changed) := by
  have bound : (if diff < client.minDiff then client.minDiff else diff) = client.minDiff ∨
      (if diff < client.minDiff then client.minDiff else diff).toNat < 2 ^ 32 := by
    split
    · exact Or.inl rfl
    · exact small.symm
  have ends := setDifficulty_ends moved
  generalize (if diff < client.minDiff then client.minDiff else diff) = newDiff at ends bound
  have changes : newDiff ≠ client.diff →
      Possibly ChangesDiff client [.sendMessage (setDifficultyMessage newDiff)]
        { client with diff := newDiff } :=
    fun differs => .take (.intro client newDiff differs bound)
  cases ends with
  | unchanged same => exact ⟨client, [], [], .skip client, .skip client, rfl, fun _ => ⟨rfl, rfl⟩⟩
  | told differs quiet =>
      exact ⟨_, _, [], changes differs, .skip _, by simp, fun _ => ⟨rfl, rfl⟩⟩
  | resent differs resend sends =>
      refine ⟨_, _, _, changes differs, .take (sendJob_sends sends), rfl, ?_⟩
      intro quiet
      rw [resend] at quiet
      exact Bool.noConfusion quiet

theorem newDiff_small (config : Config) (floating : FloatingPoint) (limiter : ShareLimiter)
    (curTime : UInt64) : (limiter.newDiff config floating curTime).toNat < 2 ^ 32 := by
  have max_lt := config.retargetMaxDiff.toNat_lt
  have maxEq : config.retargetMaxDiff.toUInt64.toNat = config.retargetMaxDiff.toNat :=
    UInt32.toNat_toUInt64 _
  unfold ShareLimiter.newDiff
  dsimp only
  generalize (if _ < config.retargetMinDiff.toUInt64 then _ else _ : UInt64) = newDiff
  split
  · omega
  · rename_i within
    have := UInt64.le_iff_toNat_le.mp (UInt64.not_lt.mp within)
    omega

variable {config : Config} {floating : FloatingPoint} {passed : Bool}

theorem retarget_course
    (moved : client.retarget config floating env = some (passed, next, effects)) :
    Course env Turn client effects next := by
  have small := newDiff_small config floating client.shareLimiter env.limiterTime.toUInt64
  cases retarget_ends moved with
  | steady unmoved => exact .ofPath (.refl client)
  | refused large slows sends =>
      rcases setDifficulty_changes (Or.inl small) slows with
        ⟨changed, told, jobs, changes, _, rfl, quiet⟩
      rcases quiet rfl with ⟨rfl, rfl⟩
      simpa using Course.intro (.refl client) changes (.take (sendJob_sends sends)) (.refl _)
  | adjusted slows =>
      rcases setDifficulty_changes (Or.inl small) slows with
        ⟨changed, told, jobs, changes, sends, rfl, _⟩
      simpa using Course.intro (.refl client) changes sends (.refl _)

theorem limitShare_course {diff : UInt64}
    (moved : client.limitShare config floating env diff = some (passed, next, effects)) :
    Course env Turn client effects next := by
  cases limitShare_ends moved with
  | early early => exact .ofPath (.single (.count client _ rfl rfl))
  | banned late bad =>
      have counts : Path Turn client [] _ :=
        .single (.count client
          ((client.shareLimiter.count diff env.limiterTime.toUInt64).markRetarget
            env.limiterTime.toUInt64) rfl rfl)
      exact .ofPath (counts.snoc (.ban _ 600))
  | retargets late good done =>
      have counts : Path Turn client [] _ :=
        .single (.count client
          (((client.shareLimiter.count diff env.limiterTime.toUInt64).markRetarget
            env.limiterTime.toUInt64).dropOld config env.limiterTime.toUInt64) rfl rfl)
      exact .preceded counts (retarget_course done)

/-! ## The handlers -/

theorem reply_acts {response : JSON} (replies : Reply response) :
    Path (Act env) client [.sendMessage response] client :=
  .single (.reply client replies)

theorem perform_acts {effect : Effect} (plain : effect.Plain) :
    Path (Act env) client [effect] client :=
  .single (.perform client plain)

theorem refuse_acts {share : Share} (bad : share.Refused) {response : JSON}
    (replies : Reply response) :
    Path (Act env) client [.push share, .sendMessage response] client.logBad :=
  (Path.single (.refuse client bad)).trans (reply_acts replies)

variable {setting : Setting} {msg params : JSON} {username : StdString} {addr : ℕ}
  {submission : Submission} {outcome : Outcome}

/-- Whatever the judgement is, it records the share and answers, with one exception. -/
theorem judge_acts {job : Job} {block : Block} {hash : BinaryData} {target : ℕ} :
    Path (Act env) client (judge env msg username job client block hash target).effects
      (judge env msg username job client block hash target).client := by
  have submits : Path (Act env) client [.submitBlock block] client := perform_acts trivial
  generalize judged : judge env msg username job client block hash target = outcome
  cases judge_ends judged with
  | above above => exact refuse_acts ⟨rfl, "Share above target", by decide, rfl⟩ (.error ..)
  | solved meets solves accepted =>
      have inserts : Path (Act env) client
          [.executeAsync (client.blockInsert env username hash job.diff)] client :=
        perform_acts trivial
      exact (submits.trans inserts).trans (reply_acts (.accepted msg))
  | unanswered meets solves refused => exact submits
  | credited meets large =>
      have credits : Path (Act env) client
          [.push (client.shareRecord env username true "" job.diff)] client :=
        perform_acts ⟨rfl, rfl⟩
      exact credits.trans (reply_acts (.accepted msg))

theorem submitWork_acts
    (done : submitWork setting env msg username addr submission client = some outcome) :
    Path (Act env) client outcome.effects outcome.client := by
  have submits : ∀ {job : Job}, client.heap[addr]? = some job →
      Path (Act env) client [.submitShare addr submission.share]
        (client.storeJob addr (job.withShare submission.share)) := by
    intro job jobAt
    exact .single (.submitShare client submission.share jobAt)
  have hashes : ∀ (stored : Client) (block : Block),
      Path (Act env) stored [.getHash block] stored := by
    intro stored block
    exact perform_acts trivial
  cases submitWork_ends done with
  | duplicate jobAt known =>
      have submitsAgain := submits jobAt
      rw [Job.submitShare_eq_none known, storeJob_self jobAt] at submitsAgain
      exact submitsAgain.trans (refuse_acts ⟨rfl, "Duplicate share", by decide, rfl⟩ (.error ..))
  | unassembled jobAt submitted assembles =>
      rcases Job.submitShare_eq_some submitted with ⟨_, rfl⟩
      exact submits jobAt
  | unprinted jobAt submitted assembles prints =>
      rcases Job.submitShare_eq_some submitted with ⟨_, rfl⟩
      exact (submits jobAt).trans (hashes _ _)
  | judged jobAt submitted assembles prints =>
      rcases Job.submitShare_eq_some submitted with ⟨_, rfl⟩
      exact ((submits jobAt).trans (hashes _ _)).trans judge_acts

/-- What a submission to a job does: the share limiter comes first. -/
def Limited (setting : Setting) (env : Env) (addr : ℕ) (client : Client) (effects : List Effect)
    (next : Client) : Prop :=
  ∃ job passed limited sent rest, client.heap[addr]? = some job ∧
    client.limitShare setting.config setting.floating env job.diff = some (passed, limited, sent) ∧
    Path (Act env) limited rest next ∧ effects = sent ++ rest

theorem Limited.acts (limits : Limited setting env addr client effects next) :
    Acts env client effects next := by
  rcases limits with ⟨job, passed, limited, sent, rest, _, limiter, path, rfl⟩
  exact ((limitShare_course limiter).mono .turn).trans path

theorem submitToJob_limited
    (done : submitToJob setting env msg params username addr client = some outcome) :
    Limited setting env addr client outcome.effects outcome.client := by
  rcases submitToJob_limits done with ⟨job, passed, limited, sent, jobAt, limiter, limits⟩
  cases limits with
  | blocked => exact ⟨job, _, limited, sent, _, jobAt, limiter, reply_acts (.error ..), rfl⟩
  | unreadable read =>
      exact ⟨job, _, limited, sent, [], jobAt, limiter, .refl limited, by simp [throws]⟩
  | wrongSize read => exact ⟨job, _, limited, sent, _, jobAt, limiter, reply_acts (.error ..), rfl⟩
  | @verified _ rest read worked =>
      exact ⟨job, _, limited, sent, rest.effects, jobAt, limiter, submitWork_acts worked, rfl⟩

/-- The pointer that a submission finds under its job id. -/
def Names (env : Env) (msg : JSON) (client : Client) (addr : ℕ) : Prop :=
  ∃ params jobText, msg.member (ascii "params") = .ok params ∧
    params.stringAt 1 = .ok jobText ∧
    client.jobs (parseHex env.uninitialized jobText).toUInt64 = some addr

/-- A submission either names a job, or is refused without one. -/
theorem onMiningSubmit_limited (done : onMiningSubmit setting env msg client = some outcome) :
    Path (Act env) client outcome.effects outcome.client ∨
      ∃ addr, Names env msg client addr ∧
        Limited setting env addr client outcome.effects outcome.client := by
  cases onMiningSubmit_ends done with
  | noParams paramsEq => exact Or.inl (.refl client)
  | noUsername paramsEq usernameEq => exact Or.inl (.refl client)
  | unauthorized paramsEq usernameEq unknown => exact Or.inl (reply_acts (.error ..))
  | noJobText paramsEq usernameEq authorized textEq => exact Or.inl (.refl client)
  | jobNotFound paramsEq usernameEq authorized textEq unknown =>
      exact Or.inl (refuse_acts ⟨rfl, "Job not found", by decide, rfl⟩ (.error ..))
  | reaches paramsEq usernameEq authorized textEq found done =>
      exact Or.inr ⟨_, ⟨_, _, paramsEq, textEq, found⟩, submitToJob_limited done⟩

theorem raiseDiff_changes (raised : client.raiseDiff env = some (next, effects)) :
    Possibly ChangesDiff client effects next := by
  rcases raiseDiff_eq_some raised with slows | ⟨rfl, rfl⟩
  · rcases setDifficulty_changes (Or.inr rfl) slows with
      ⟨changed, told, jobs, changes, _, rfl, quiet⟩
    rcases quiet rfl with ⟨rfl, rfl⟩
    simpa using changes
  · exact .skip next

/-- What an authorization does: it may change the difficulty, but sends no job. -/
def Authorizes (env : Env) (client : Client) (effects : List Effect) (next : Client) : Prop :=
  ∃ opened changed opening told ending, Path (Act env) client opening opened ∧
    Possibly ChangesDiff opened told changed ∧ Path (Act env) changed ending next ∧
    effects = opening ++ told ++ ending

theorem Authorizes.ofPath (path : Path (Act env) client effects next) :
    Authorizes env client effects next :=
  ⟨next, next, effects, [], [], path, .skip next, .refl next, by simp⟩

theorem Authorizes.acts (authorizes : Authorizes env client effects next) :
    Acts env client effects next := by
  rcases authorizes with ⟨opened, changed, opening, told, ending, opens, changes, ends, rfl⟩
  simpa using Course.intro opens changes (.skip changed) ends

theorem authorize_authorizes {username password : StdString}
    (done : authorize env msg username password client = some outcome) :
    Authorizes env client outcome.effects outcome.client := by
  have enlists : ∀ {row : Except StdException UInt32}, env.row username password = some row →
      Path (Act env) client [.query username password true]
        { client with workers := insert username client.workers } := by
    intro row found
    exact .single (.enlist client username password (by simp [found]))
  cases authorize_ends done with
  | noRow absent =>
      have asks : Path (Act env) client [.query username password false] client :=
        perform_acts rfl
      exact .ofPath (asks.trans (reply_acts (.unauthenticated msg)))
  | unreadable row => exact .ofPath (enlists row)
  | @authorized minDiff slowed difficulty row raises =>
      have adjusts := (enlists row).snoc (.setMinDiff _ minDiff)
      exact ⟨_, slowed, _, difficulty, _, adjusts, raiseDiff_changes raises,
        reply_acts (.authorized msg), by simp [respond]⟩

/-- Each kind of call, and what it does. -/
inductive Handles (setting : Setting) (event : Event) (client : Client) :
    List Effect → Client → Prop where
  | submission {msg : JSON} {effects : List Effect} {next : Client}
      (actionEq : event.action = .message msg)
      (methodEq : msg.stringMember "method" = .ok (ascii "mining.submit"))
      (does : Path (Act event.env) client effects next ∨
        ∃ addr, Names event.env msg client addr ∧
          Limited setting event.env addr client effects next) :
      Handles setting event client effects next
  | subscription {msg : JSON} {sent : List Effect} {next : Client}
      (actionEq : event.action = .message msg)
      (methodEq : msg.stringMember "method" = .ok (ascii "mining.subscribe"))
      (sends : SendsJob event.env
        { client with subscribed := true, extranonce := event.env.extranonce } sent next) :
      Handles setting event client
        (.sendMessage (subscribeResponse msg event.env.extranonce) :: sent) next
  | other {msg : JSON} {effects : List Effect} {next : Client}
      (actionEq : event.action = .message msg)
      (notSubmit : msg.stringMember "method" ≠ .ok (ascii "mining.submit"))
      (notSubscribe : msg.stringMember "method" ≠ .ok (ascii "mining.subscribe"))
      (authorizes : Authorizes event.env client effects next) :
      Handles setting event client effects next
  | sendJob {clean : Bool} {sent : List Effect} {next : Client}
      (actionEq : event.action = .sendJob clean)
      (sends : SendsJob event.env client sent next) :
      Handles setting event client sent next

theorem step_handles {event : Event} {output : Output}
    (stepped : client.step setting event = some (next, output)) :
    Handles setting event client output.effects next := by
  cases step_ends stepped with
  | sendJob actionEq sends => exact .sendJob actionEq (sendJob_sends sends)
  | @message msg outcome actionEq done =>
      have otherThan : ∀ {method text : StdString}, msg.stringMember "method" = .ok method →
          method ≠ text → msg.stringMember "method" ≠ .ok text := by
        intro method text methodEq differs same
        rw [methodEq, Except.ok.injEq] at same
        exact differs same
      cases onMessage_ends done with
      | noMethod methodEq =>
          have noneOf : ∀ method, msg.stringMember "method" ≠ .ok method := by
            intro method same
            rw [methodEq] at same
            cases same
          exact .other actionEq (noneOf _) (noneOf _) (.ofPath (.refl client))
      | submit methodEq done => exact .submission actionEq methodEq (onMiningSubmit_limited done)
      | subscribe methodEq sends => exact .subscription actionEq methodEq (sendJob_sends sends)
      | noCredentials methodEq unread =>
          exact .other actionEq (otherThan methodEq (by decide)) (otherThan methodEq (by decide))
            (.ofPath (.refl client))
      | authorize methodEq credentials done =>
          exact .other actionEq (otherThan methodEq (by decide)) (otherThan methodEq (by decide))
            (authorize_authorizes done)
      | ignored methodEq notSubmit notSubscribe notAuthorize =>
          exact .other actionEq (otherThan methodEq notSubmit) (otherThan methodEq notSubscribe)
            (.ofPath (.refl client))

theorem SendsJob.acts (sends : SendsJob env client effects next) :
    Acts env client effects next := by
  simpa using Course.intro (.refl client) (.skip client) (.take sends) (.refl next)

end Client

end Poolserver.Stratum
