import Poolserver.Stratum.Invariants

/-!
# Duplicate shares

A job remembers the pairs of nonce and second extranonce that were submitted to it. A
submission with a known pair is a duplicate, whatever its time is and whatever extranonce
the client had when the pair was submitted before.
-/

namespace Poolserver.Stratum

open Poolserver.Bitcoin RunTrace

variable {setting : Setting} {env : Env} {msg : JSON} {client next : Client} {outcome : Outcome}

/-! ## Submissions that reach their job -/

/-- A submission that passes every check in front of the one for duplicates. -/
structure Reached (setting : Setting) (env : Env) (msg : JSON) (client : Client) where
  params : JSON
  username : StdString
  jobText : StdString
  addr : ℕ
  job : Job
  limited : Client
  sent : List Effect
  submission : Submission
  paramsEq : msg.member (ascii "params") = .ok params
  usernameEq : params.stringAt 0 = .ok username
  authorized : username ∈ client.workers
  jobTextEq : params.stringAt 1 = .ok jobText
  jobFound : client.jobs (parseHex env.uninitialized jobText).toUInt64 = some addr
  jobAt : client.heap[addr]? = some job
  passed : client.limitShare setting.config setting.floating env job.diff =
    some (true, limited, sent)
  fields : readSubmission params = .ok submission

/-- The error response to a duplicate share. -/
def duplicateResponse (msg : JSON) : JSON :=
  errorResponse msg 22 "Duplicate share"

/-- Effects other than those of a submission that reaches its job. -/
def Effect.Elsewhere : Effect → Prop
  | sendMessage response => ∀ msg, response ≠ duplicateResponse msg
  | submitShare _ _ => False
  | _ => True

theorem Effect.Unsolicited.elsewhere {effect : Effect} (unsolicited : effect.Unsolicited) :
    effect.Elsewhere := by
  cases effect with
  | sendMessage response =>
      intro msg same
      subst same
      have answers : isResponse (duplicateResponse msg) = true := rfl
      have silent : isResponse (duplicateResponse msg) = false := unsolicited
      rw [answers] at silent
      exact Bool.noConfusion silent
  | submitShare addr share => exact unsolicited.elim
  | _ => trivial

theorem errorResponse_ne_duplicate (msg other : JSON) {code : Int64} (text : String)
    (differs : code ≠ 22) : errorResponse msg code text ≠ duplicateResponse other := by
  intro same
  simp only [duplicateResponse, errorResponse, JSON.object.injEq, List.cons.injEq, Prod.mk.injEq,
    JSON.array.injEq, JSON.integer.injEq] at same
  exact differs same.2.2.1.2.1

theorem trueResponse_ne_duplicate (msg other : JSON) :
    trueResponse msg ≠ duplicateResponse other := by
  intro same
  simp [duplicateResponse, errorResponse, trueResponse] at same

namespace Client

/-- A submission that does not reach its job neither stores a share nor is a duplicate. -/
theorem onMiningSubmit_reaches (done : onMiningSubmit setting env msg client = some outcome) :
    (∀ effect ∈ outcome.effects, effect.Elsewhere) ∨
      ∃ (reached : Reached setting env msg client) (rest : Outcome),
        submitWork setting env msg reached.username reached.addr reached.submission
          reached.limited = some rest ∧ outcome = rest.after reached.sent := by
  cases onMiningSubmit_ends done with
  | noParams paramsEq => exact Or.inl (by simp [throws])
  | noUsername paramsEq usernameEq => exact Or.inl (by simp [throws])
  | unauthorized paramsEq usernameEq unknown =>
      apply Or.inl
      simp only [respond, List.nil_append, List.mem_singleton, forall_eq]
      exact fun other => errorResponse_ne_duplicate msg other _ (by decide)
  | noJobText paramsEq usernameEq authorized jobTextEq => exact Or.inl (by simp [throws])
  | jobNotFound paramsEq usernameEq authorized jobTextEq unknown =>
      apply Or.inl
      simp only [respond, List.cons_append, List.nil_append, List.mem_cons, List.not_mem_nil,
        or_false, forall_eq_or_imp, forall_eq]
      exact ⟨trivial, fun other => errorResponse_ne_duplicate msg other _ (by decide)⟩
  | @reaches params username jobText addr _ paramsEq usernameEq authorized jobTextEq jobFound
      done =>
      rcases submitToJob_limits done with ⟨job, passed, limited, sent, jobAt, limiter, limits⟩
      have elsewhere : ∀ effect ∈ sent, effect.Elsewhere := fun effect effectMem =>
        (unsolicited_of_path (limitShare_tunes limiter) effect effectMem).elsewhere
      have answers : ∀ {code : Int64} {text : String}, code ≠ 22 →
          ∀ effect ∈ (limited.respond sent (errorResponse msg code text)).effects,
            effect.Elsewhere := by
        intro code text differs effect effectMem
        rcases List.mem_append.mp effectMem with early | late
        · exact elsewhere effect early
        · rw [List.mem_singleton] at late
          subst late
          exact fun other => errorResponse_ne_duplicate msg other _ differs
      cases limits with
      | blocked => exact Or.inl (answers (by decide))
      | unreadable read => exact Or.inl elsewhere
      | wrongSize read => exact Or.inl (answers (by decide))
      | @verified submission rest fields worked =>
          let reached : Reached setting env msg client :=
            { params, username, jobText, addr, job, limited, sent, submission, paramsEq,
              usernameEq, authorized, jobTextEq, jobFound, jobAt, passed := limiter, fields }
          exact Or.inr ⟨reached, rest, worked, rfl⟩

theorem onMiningSubmit_of_reached (reached : Reached setting env msg client) :
    onMiningSubmit setting env msg client =
      (submitWork setting env msg reached.username reached.addr reached.submission
        reached.limited).map (Outcome.after reached.sent) := by
  simp only [onMiningSubmit, reached.paramsEq, reached.usernameEq, reached.authorized,
    not_true_eq_false, if_false, reached.jobTextEq, reached.jobFound, submitToJob, reached.jobAt,
    reached.passed, reached.fields, Option.bind_eq_bind, Option.bind_some, Option.map_eq_bind]
  rfl

/-- The last stage submits the share and reports a duplicate exactly if the job knows it. -/
theorem submitWork_reports {username : StdString} {addr : ℕ} {job : Job} {submission : Submission}
    (jobAt : client.heap[addr]? = some job)
    (worked : submitWork setting env msg username addr submission client = some outcome) :
    .submitShare addr submission.share ∈ outcome.effects ∧
    (∀ other share, .submitShare other share ∈ outcome.effects →
      other = addr ∧ share = submission.share) ∧
    (.sendMessage (duplicateResponse msg) ∈ outcome.effects ↔ submission.share ∈ job.shares) := by
  have same : ∀ {other : Job}, client.heap[addr]? = some other → other = job := by
    intro other otherAt
    exact Option.some.inj (otherAt.symm.trans jobAt)
  cases submitWork_ends worked with
  | @duplicate other otherAt duplicate =>
      have known : submission.share ∈ job.shares := by
        by_contra fresh
        rw [same otherAt] at duplicate
        simp [Job.submitShare, fresh] at duplicate
      simp [respond, known, duplicateResponse]
  | unassembled otherAt submitted assembles =>
      have fresh := (Job.submitShare_eq_some submitted).1
      rw [same otherAt] at fresh
      simp [throws, fresh]
  | unprinted otherAt submitted assembles prints =>
      have fresh := (Job.submitShare_eq_some submitted).1
      rw [same otherAt] at fresh
      simp [throws, fresh]
  | judged otherAt submitted assembles prints =>
      have fresh := (Job.submitShare_eq_some submitted).1
      rw [same otherAt] at fresh
      have above := errorResponse_ne_duplicate msg msg "Share above target"
        (by decide : (23 : Int64) ≠ 22)
      have accepts := trueResponse_ne_duplicate msg msg
      generalize judgedEq : judge env msg username _ _ _ _ _ = outcome
      cases judge_ends judgedEq with
      | above exceeds => simp [respond, Outcome.after, fresh, above.symm]
      | solved meets solves accepted => simp [respond, Outcome.after, fresh, accepts.symm]
      | unanswered meets solves refused => simp [Outcome.after, fresh]
      | credited meets large => simp [respond, Outcome.after, fresh, accepts.symm]

end Client

/-! ## Shares of a job and the submissions behind them -/

/-- A call that brings a submission as far as the job at an address. -/
def SubmitsTo (setting : Setting) (entry : ClientEntry) (addr : ℕ) (submission : Submission) :
    Prop :=
  ∃ (msg : JSON) (reached : Reached setting entry.event.env msg entry.before),
    Submits entry msg ∧ reached.addr = addr ∧ reached.submission = submission

variable {addr : ℕ} {submission : Submission} {entry : ClientEntry} {connection : Connection}
  {trace : List ClientEntry} {last : Client}

theorem Submits.unique {msg other : JSON} (submits : Submits entry msg)
    (submitsOther : Submits entry other) : msg = other := by
  have actions := submits.1.symm.trans submitsOther.1
  injection actions

theorem SubmitsTo.unique {otherAddr : ℕ} {other : Submission}
    (submits : SubmitsTo setting entry addr submission)
    (submitsOther : SubmitsTo setting entry otherAddr other) : submission = other := by
  rcases submits with ⟨msg, reached, first, _, rfl⟩
  rcases submitsOther with ⟨_, otherReached, second, _, rfl⟩
  have same := first.unique second
  subst same
  have params := reached.paramsEq.symm.trans otherReached.paramsEq
  rw [Except.ok.injEq] at params
  have fields := reached.fields
  rw [params, otherReached.fields, Except.ok.injEq] at fields
  exact fields.symm

theorem SubmitsTo.sized (submits : SubmitsTo setting entry addr submission) :
    submission.noncebuf.length = 4 ∧ submission.extranonce2.length = 4 := by
  rcases submits with ⟨msg, reached, _, _, rfl⟩
  have readFrom := readSubmission_ok reached.fields
  exact ⟨readFrom.noncebuf.1, readFrom.extranonce2.1⟩

/-- A share is the pair of its nonce and its extranonce. -/
theorem share_eq_iff {other : Submission} {otherEntry : ClientEntry} {otherAddr : ℕ}
    (submits : SubmitsTo setting entry addr submission)
    (submitsOther : SubmitsTo setting otherEntry otherAddr other) :
    submission.share = other.share ↔
      submission.noncebuf = other.noncebuf ∧ submission.extranonce2 = other.extranonce2 := by
  constructor
  · intro same
    have bytes := congrArg serialize same
    rw [Submission.serialize_share submits.sized.1 submits.sized.2,
      Submission.serialize_share submitsOther.sized.1 submitsOther.sized.2] at bytes
    exact List.append_inj bytes (submits.sized.1.trans submitsOther.sized.1.symm)
  · rintro ⟨nonce, extranonce2⟩
    rw [Submission.share, Submission.share, nonce, extranonce2]

/-- Whoever submits to a job submits the share and is told whether the job knows it. -/
theorem SubmitsTo.reports
    (stepped : entry.before.step setting entry.event = some (entry.after, entry.output))
    (submits : SubmitsTo setting entry addr submission) :
    ∃ job, entry.before.heap[addr]? = some job ∧
      .submitShare addr submission.share ∈ entry.output.effects ∧
      ∀ msg, Submits entry msg →
        (.sendMessage (duplicateResponse msg) ∈ entry.output.effects ↔
          submission.share ∈ job.shares) := by
  rcases submits with ⟨msg, reached, submits, rfl, rfl⟩
  simp only [Client.step, submits.1, Client.onMessage, submits.2, if_true,
    Client.onMiningSubmit_of_reached reached, Option.bind_eq_bind, Option.bind_eq_some_iff,
    Option.map_eq_some_iff] at stepped
  rcases stepped with ⟨_, ⟨rest, worked, rfl⟩, stepped⟩
  simp only [Option.pure_def, Option.some.injEq, Prod.mk.injEq] at stepped
  have effectsEq : entry.output.effects = reached.sent ++ rest.effects := by
    rw [← stepped.2]
    rfl
  have tuned := Client.tuned_of_path (Client.limitShare_tunes reached.passed)
  rcases Client.submitWork_reports (tuned.jobAt reached.jobAt) worked with ⟨stores, _, duplicate⟩
  refine ⟨reached.job, reached.jobAt, ?_, ?_⟩
  · rw [effectsEq]
    exact List.mem_append_right _ stores
  · intro other submitsOther
    rw [← submits.unique submitsOther, effectsEq, List.mem_append, ← duplicate, or_iff_right]
    intro early
    have unsolicited := Client.unsolicited_of_path (Client.limitShare_tunes reached.passed)
    exact (unsolicited _ early).elsewhere msg rfl

/-- Only a submission that reaches its job has effects that others do not have. -/
theorem submitsTo_of_submits
    (stepped : entry.before.step setting entry.event = some (entry.after, entry.output))
    (submits : Submits entry msg) {effect : Effect} (effectMem : effect ∈ entry.output.effects)
    (here : ¬effect.Elsewhere) :
    ∃ addr submission, SubmitsTo setting entry addr submission ∧
      ∀ other share, .submitShare other share ∈ entry.output.effects →
        other = addr ∧ share = submission.share := by
  simp only [Client.step, submits.1, Client.onMessage, submits.2, if_true, Option.bind_eq_bind,
    Option.bind_eq_some_iff] at stepped
  rcases stepped with ⟨outcome, done, stepped⟩
  simp only [Option.pure_def, Option.some.injEq, Prod.mk.injEq] at stepped
  rw [← stepped.2] at effectMem
  rcases Client.onMiningSubmit_reaches done with elsewhere | ⟨reached, rest, worked, rfl⟩
  · exact (here (elsewhere effect effectMem)).elim
  refine ⟨reached.addr, reached.submission, ⟨msg, reached, submits, rfl, rfl⟩, ?_⟩
  intro other share stores
  rw [← stepped.2] at stores
  have tuned := Client.tuned_of_path (Client.limitShare_tunes reached.passed)
  have reports := Client.submitWork_reports (tuned.jobAt reached.jobAt) worked
  rcases List.mem_append.mp stores with early | late
  · have unsolicited := Client.unsolicited_of_path (Client.limitShare_tunes reached.passed)
    exact (unsolicited _ early).elim
  · exact reports.2.1 other share late

/-- A share is stored by a submission. -/
theorem submitsTo_of_submitShare
    (stepped : entry.before.step setting entry.event = some (entry.after, entry.output))
    {share : UInt64} (stores : .submitShare addr share ∈ entry.output.effects) :
    ∃ submission, SubmitsTo setting entry addr submission ∧ submission.share = share := by
  have unsolicitedStores : ∀ {effects : List Effect}, (∀ effect ∈ effects, effect.Unsolicited) →
      .submitShare addr share ∉ effects := fun unsolicited stores => unsolicited _ stores
  by_cases submits : ∃ msg, Submits entry msg
  · rcases submits with ⟨msg, submits⟩
    rcases submitsTo_of_submits stepped submits stores id with ⟨target, submission, reaches, only⟩
    rcases only addr share stores with ⟨rfl, rfl⟩
    exact ⟨submission, reaches, rfl⟩
  exfalso
  have ends := Client.step_ends stepped
  generalize entry.after = after, entry.output = output at ends stores
  cases ends with
  | sendJob actionEq sends =>
      exact unsolicitedStores (Client.unsolicited_of_path (Client.sendJob_tunes sends)) stores
  | @message msg outcome actionEq done =>
      cases Client.onMessage_ends done with
      | noMethod methodEq => simp [Client.throws] at stores
      | submit methodEq done => exact submits ⟨msg, actionEq, methodEq⟩
      | subscribe methodEq sends =>
          rcases List.mem_cons.mp stores with answer | late
          · cases answer
          · exact unsolicitedStores (Client.unsolicited_of_path (Client.sendJob_tunes sends)) late
      | noCredentials methodEq unread => simp [Client.throws] at stores
      | authorize methodEq credentials done =>
          rcases Client.authorize_effects done with ⟨sent, effectsEq, messages⟩
          rw [effectsEq] at stores
          rcases List.mem_cons.mp stores with query | late
          · cases query
          · rcases messages _ late with ⟨response, message⟩ | unsolicited
            · cases message
            · exact unsolicited.elim
      | ignored methodEq notSubmit notSubscribe notAuthorize => simp at stores

/-- Every share of a job was submitted to it. -/
theorem stored_of_run (run : ClientRun setting connection trace last) {job : Job} {share : UInt64}
    (jobAt : last.heap[addr]? = some job) (known : share ∈ job.shares) :
    .submitShare addr share ∈ log trace := by
  refine invariant_of_run (fun log client => ∀ addr job share, client.heap[addr]? = some job →
    share ∈ job.shares → .submitShare addr share ∈ log) (fun _ => True) run (fun _ _ => trivial)
      (by simp [Client.new]) ?_ addr job share jobAt known
  intro env emitted effects client next _ held move addr job share jobAt known
  cases move with
  | adjust adjusts _ =>
      rw [adjusts.heap] at jobAt
      exact List.mem_append_left _ (held addr job share jobAt known)
  | enlist username password found => exact List.mem_append_left _ (held addr job share jobAt known)
  | subscribe msg extranonce => exact List.mem_append_left _ (held addr job share jobAt known)
  | @sendJob clean fresh branch issued branchEq =>
      have shape : (client.heap ++ [fresh])[addr]? = some job := by cases clean <;> exact jobAt
      by_cases old : addr < client.heap.length
      · rw [List.getElem?_append_left old] at shape
        exact List.mem_append_left _ (held addr job share shape known)
      · rw [List.getElem?_append_right (not_lt.mp old)] at shape
        have jobEq : job = fresh := List.mem_singleton.mp (List.mem_of_getElem? shape)
        rw [jobEq, issued.shares] at known
        exact absurd known (Finset.notMem_empty share)
  | @submitShare stored target old oldAt =>
      by_cases same : addr = target
      · subst same
        rw [Client.storeJob, List.getElem?_set_self (List.getElem?_eq_some_iff.mp oldAt).1,
          Option.some.injEq] at jobAt
        subst jobAt
        rcases Finset.mem_insert.mp known with rfl | before
        · exact List.mem_append_right _ (List.mem_singleton_self _)
        · exact List.mem_append_left _ (held addr old share oldAt before)
      · rw [Client.storeJob, List.getElem?_set_ne (Ne.symm same)] at jobAt
        exact List.mem_append_left _ (held addr job share jobAt known)

/-! ## The property -/

/-- Two submissions with the nonce and the second extranonce of each other. -/
def Submission.SamePair (submission other : Submission) : Prop :=
  submission.noncebuf = other.noncebuf ∧ submission.extranonce2 = other.extranonce2

/--
Every submission that is answered as a duplicate repeats an earlier one on its job: the
nonce, the second extranonce, and what else `work` names.
-/
def DuplicatesRepeat {κ : Type} (work : ClientEntry → Submission → κ) (setting : Setting)
    (trace : List ClientEntry) : Prop :=
  ∀ earlier entry later msg addr submission, trace = earlier ++ entry :: later →
    Submits entry msg → SubmitsTo setting entry addr submission →
    .sendMessage (duplicateResponse msg) ∈ entry.output.effects →
    ∃ past ∈ earlier, ∃ other, SubmitsTo setting past addr other ∧
      other.SamePair submission ∧ work past other = work entry submission

/-- Submissions of one pair to one job agree in what `work` names. -/
def PairsAgree {κ : Type} (work : ClientEntry → Submission → κ) (setting : Setting)
    (trace : List ClientEntry) : Prop :=
  ∀ earlier entry later addr submission, trace = earlier ++ entry :: later →
    SubmitsTo setting entry addr submission → ∀ past ∈ earlier, ∀ other,
    SubmitsTo setting past addr other → other.SamePair submission →
    work past other = work entry submission

/-- A submission is answered as a duplicate exactly if its pair was submitted to the job before. -/
theorem duplicate_iff {earlier later : List ClientEntry}
    (run : ClientRun setting connection (earlier ++ entry :: later) last)
    (submits : Submits entry msg) (reaches : SubmitsTo setting entry addr submission) :
    .sendMessage (duplicateResponse msg) ∈ entry.output.effects ↔
      ∃ past ∈ earlier, ∃ other, SubmitsTo setting past addr other ∧ other.SamePair submission := by
  rcases run.split with ⟨runBefore, stepped⟩
  rcases reaches.reports stepped with ⟨job, jobAt, _, duplicate⟩
  rw [duplicate msg submits]
  constructor
  · intro known
    rcases List.mem_flatMap.mp (stored_of_run runBefore jobAt known) with ⟨past, pastMem, stores⟩
    rcases runBefore.before_of_mem pastMem with ⟨_, _, _, _, pastStepped⟩
    rcases submitsTo_of_submitShare pastStepped stores with ⟨other, pastReaches, same⟩
    exact ⟨past, pastMem, other, pastReaches, (share_eq_iff pastReaches reaches).mp same⟩
  · rintro ⟨past, pastMem, other, pastReaches, pair⟩
    rcases runBefore.before_of_mem pastMem with ⟨_, _, _, _, pastStepped⟩
    rcases pastReaches.reports pastStepped with ⟨_, _, stores, _⟩
    have remembered := remembers_of_run runBefore addr other.share
      (List.mem_flatMap.mpr ⟨past, pastMem, stores⟩)
    rcases remembered with ⟨same, sameAt, known⟩
    rw [jobAt, Option.some.injEq] at sameAt
    rwa [sameAt, ← (share_eq_iff pastReaches reaches).mpr pair]

/-- Duplicates repeat earlier work exactly in the runs in which pairs agree in it. -/
theorem duplicatesRepeat_iff {κ : Type} (work : ClientEntry → Submission → κ)
    (run : ClientRun setting connection trace last) :
    DuplicatesRepeat work setting trace ↔ PairsAgree work setting trace := by
  constructor
  · intro repeats earlier
    -- the last submission of a pair repeats one before it, which agrees with all before that
    induction count : earlier.length using Nat.strong_induction_on generalizing earlier with
    | _ length ih =>
        intro entry later addr submission traceEq reaches first firstMem firstSubmission
          firstReaches pair
        have submits : ∃ msg, Submits entry msg := by
          rcases reaches with ⟨msg, _, submits, _⟩
          exact ⟨msg, submits⟩
        rcases submits with ⟨msg, submits⟩
        subst traceEq
        have duplicate := (duplicate_iff run submits reaches).mpr
          ⟨first, firstMem, firstSubmission, firstReaches, pair⟩
        rcases repeats earlier entry later msg addr submission rfl submits reaches duplicate with
          ⟨past, pastMem, other, pastReaches, pastPair, same⟩
        rw [← same]
        have pairs : firstSubmission.SamePair other :=
          ⟨pair.1.trans pastPair.1.symm, pair.2.trans pastPair.2.symm⟩
        rcases List.append_of_mem pastMem with ⟨front, back, rfl⟩
        rcases List.mem_append.mp firstMem with before | within
        · exact ih front.length (by simp [← count]) front rfl past (back ++ entry :: later) addr
            other (by simp) pastReaches first before firstSubmission firstReaches pairs
        rcases List.mem_cons.mp within with rfl | after
        · rw [firstReaches.unique pastReaches]
        · rcases List.append_of_mem after with ⟨middle, rest, rfl⟩
          have agrees := ih (front ++ past :: middle).length (by simp [← count])
            (front ++ past :: middle) rfl first (rest ++ entry :: later) addr firstSubmission
            (by simp) firstReaches past (by simp) other pastReaches
            ⟨pairs.1.symm, pairs.2.symm⟩
          exact agrees.symm
  · intro agree earlier entry later msg addr submission traceEq submits reaches duplicate
    subst traceEq
    rcases (duplicate_iff run submits reaches).mp duplicate with
      ⟨past, pastMem, other, pastReaches, pair⟩
    exact ⟨past, pastMem, other, pastReaches, pair,
      agree earlier entry later addr submission rfl reaches past pastMem other pastReaches pair⟩

/-- The time of a submission. -/
def ntime (_ : ClientEntry) (submission : Submission) : BinaryData :=
  submission.timebuf

/-- What the header depends on besides the job and the pair. -/
def headerWork (entry : ClientEntry) (submission : Submission) : UInt32 × BinaryData :=
  (entry.before.extranonce, submission.timebuf)

/--
In any run, every submission answered as a duplicate repeats the nonce, the second
extranonce and the time of an earlier one on its job exactly if submissions of one pair to
one job always agree in the time; and it repeats the whole header exactly if they agree in
the time and in the extranonce of the client.
-/
theorem duplicates_iff (run : ClientRun setting connection trace last) :
    (DuplicatesRepeat ntime setting trace ↔ PairsAgree ntime setting trace) ∧
    (DuplicatesRepeat headerWork setting trace ↔ PairsAgree headerWork setting trace) :=
  ⟨duplicatesRepeat_iff ntime run, duplicatesRepeat_iff headerWork run⟩

namespace Sample

/-- A submission of the worker on the first job at that time. -/
def submitAt (time : String) : Action :=
  .message (request "mining.submit" ["alice", "0", "00000001", time, "deadbeef"])

/-- The fields of the submission that a call handles. -/
def fields? (entry : ClientEntry) : Option Submission := do
  let msg ← submitted? entry
  let params ← (msg.member (ascii "params")).toOption
  (readSubmission params).toOption

theorem fields?_of_submitsTo (reaches : SubmitsTo setting entry addr submission) :
    fields? entry = some submission := by
  rcases reaches with ⟨msg, reached, ⟨actionEq, methodEq⟩, _, rfl⟩
  simp [fields?, submitted?, actionEq, methodEq, reached.paramsEq, reached.fields,
    Except.toOption]

/-- The share that an effect stores. -/
def stored? : Effect → Option (ℕ × UInt64)
  | .submitShare addr share => some (addr, share)
  | _ => none

theorem mem_of_stored? {effects : List Effect} {share : UInt64}
    (found : effects.findSome? stored? = some (addr, share)) :
    .submitShare addr share ∈ effects := by
  rcases List.exists_of_findSome?_eq_some found with ⟨effect, effectMem, stored⟩
  cases effect with
  | submitShare other stores =>
      simp only [stored?, Option.some.injEq, Prod.mk.injEq] at stored
      rcases stored with ⟨rfl, rfl⟩
      exact effectMem
  | _ => simp [stored?] at stored

end Sample

/-- A submission that is sent twice is a duplicate of itself. -/
theorem duplicates_sample :
    ∃ (trace : List ClientEntry) (last : Client),
      ClientRun (Sample.setting (Sample.hash 2)) Sample.connection trace last ∧
      trace.length = 4 ∧
      DuplicatesRepeat ntime (Sample.setting (Sample.hash 2)) trace ∧
      DuplicatesRepeat headerWork (Sample.setting (Sample.hash 2)) trace := by
  have found : ∃ result ∈ replay (Client.step (Sample.setting (Sample.hash 2)))
      (Client.new Sample.config Sample.connection)
      (Sample.opening ++ [⟨Sample.submitAt "52c35a80", Sample.easyEnv 2⟩,
        ⟨Sample.submitAt "52c35a80", Sample.easyEnv 2⟩]),
      result.1.length = 4 ∧ ∀ entry ∈ result.1, ∀ submission ∈ Sample.fields? entry,
        submission.timebuf = [0x80, 0x5a, 0xc3, 0x52] ∧ entry.before.extranonce = 5 := by
    decide +kernel
  rcases found with ⟨⟨trace, last⟩, replayed, four, agree⟩
  have run : ClientRun (Sample.setting (Sample.hash 2)) Sample.connection trace last :=
    .ofReplay replayed
  refine ⟨trace, last, run, four, (duplicates_iff run).1.mpr ?_, (duplicates_iff run).2.mpr ?_⟩
  · rintro earlier entry later addr submission rfl reaches past pastMem other pastReaches _
    have first := agree past (by simp [pastMem]) other (Sample.fields?_of_submitsTo pastReaches)
    have second := agree entry (by simp) submission (Sample.fields?_of_submitsTo reaches)
    exact first.1.trans second.1.symm
  · rintro earlier entry later addr submission rfl reaches past pastMem other pastReaches _
    have first := agree past (by simp [pastMem]) other (Sample.fields?_of_submitsTo pastReaches)
    have second := agree entry (by simp) submission (Sample.fields?_of_submitsTo reaches)
    rw [headerWork, headerWork, first.1, first.2, second.1, second.2]

/-- A miner who submits the same nonce at a later time is told that it is a duplicate. -/
theorem exists_false_duplicate :
    ∃ (trace : List ClientEntry) (last : Client),
      ClientRun (Sample.setting (Sample.hash 2)) Sample.connection trace last ∧
      ¬DuplicatesRepeat ntime (Sample.setting (Sample.hash 2)) trace := by
  have found : ∃ result : List ClientEntry × Client,
      result ∈ replay (Client.step (Sample.setting (Sample.hash 2)))
        (Client.new Sample.config Sample.connection)
        (Sample.opening ++ [⟨Sample.submitAt "52c35a80", Sample.easyEnv 2⟩,
          ⟨Sample.submitAt "52c35a81", Sample.easyEnv 2⟩]) ∧
      ∃ first : ClientEntry, first ∈ result.1[2]? ∧ ∃ second : ClientEntry, second ∈ result.1[3]? ∧
      ∃ stored ∈ first.output.effects.findSome? Sample.stored?,
        second.output.effects.findSome? Sample.stored? = some stored ∧
        (Sample.fields? first).map Submission.timebuf ≠
          (Sample.fields? second).map Submission.timebuf := by
    decide +kernel
  rcases found with ⟨⟨trace, last⟩, replayed, first, firstAt, second, secondAt, ⟨addr, share⟩,
    firstStored, secondStored, times⟩
  have run : ClientRun (Sample.setting (Sample.hash 2)) Sample.connection trace last :=
    .ofReplay replayed
  refine ⟨trace, last, run, ?_⟩
  rw [duplicatesRepeat_iff ntime run]
  intro agree
  rcases before_of_getElem? firstAt secondAt (by decide) with ⟨earlier, between, rest, traceEq⟩
  dsimp only at traceEq
  subst traceEq
  rcases run.split_two with ⟨⟨_, firstStepped⟩, _, secondStepped⟩
  rcases submitsTo_of_submitShare firstStepped (Sample.mem_of_stored? firstStored) with
    ⟨submission, reaches, firstShare⟩
  rcases submitsTo_of_submitShare secondStepped (Sample.mem_of_stored? secondStored) with
    ⟨other, reachesAgain, secondShare⟩
  have pair := (share_eq_iff reaches reachesAgain).mp (firstShare.trans secondShare.symm)
  have same := agree (earlier ++ first :: between) second rest addr other (by simp) reachesAgain
    first (by simp) submission reaches pair
  rw [Sample.fields?_of_submitsTo reaches, Sample.fields?_of_submitsTo reachesAgain] at times
  exact times (congrArg some same)

end Poolserver.Stratum
