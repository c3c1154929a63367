import Poolserver.Stratum.Replies

/-!
# Messages that end by an exception

A message that cannot be read changes nothing, unless it is a submission that the share limiter
has counted before its fields are read. What the share limiter has done then stays, and nothing
else is done.
-/

namespace Poolserver.Stratum

open RunTrace Client

/-- What the share limiter leaves alone. -/
structure Spares (client next : Client) : Prop where
  workers : next.workers = client.workers
  subscribed : next.subscribed = client.subscribed
  extranonce : next.extranonce = client.extranonce
  minDiff : next.minDiff = client.minDiff
  /-- The jobs so far are the same objects with the same share sets. -/
  heap : client.heap <+: next.heap
  badShares : next.shareLimiter.totalBadShares = client.shareLimiter.totalBadShares

/-- The row of the worker has a `mindiff` that cannot be converted. -/
def RowUnreadable (env : Env) (msg : JSON) : Prop :=
  msg.stringMember "method" = .ok (ascii "mining.authorize") ∧
    ∃ username password exception, readCredentials msg = .ok (username, password) ∧
      env.row username password = some (.error exception)

/--
The share is new and stays in its job, but the block with it cannot be assembled, or its hash
not be read as a number.
-/
def AssemblyFails (setting : Setting) (client : Client) (addr : ℕ) (submission : Submission)
    (outcome : Outcome) : Prop :=
  ∃ job stored exception, client.heap[addr]? = some job ∧
    job.submitShare submission.share = some stored ∧
    (((client.storeJob addr stored).assemble setting.sha256d stored submission =
          some (.error exception) ∧
        outcome = (client.storeJob addr stored).throws [.submitShare addr submission.share]
          exception) ∨
      ∃ block, (client.storeJob addr stored).assemble setting.sha256d stored submission =
          some (.ok block) ∧
        Util.bigIntFromHex (Util.binToASCII (Util.reverse (block.getHash setting.sha256d))) =
          .error exception ∧
        outcome = (client.storeJob addr stored).throws
          [.submitShare addr submission.share, .getHash block] exception)

/-- The exception of a submission that the share limiter has let pass. -/
structure FailsBehindLimiter (setting : Setting) (env : Env) (params : JSON) (addr : ℕ)
    (client : Client) (outcome : Outcome) (limited : Client) (sent : List Effect) : Prop where
  limits : ∃ job, client.heap[addr]? = some job ∧
    client.limitShare setting.config setting.floating env job.diff = some (true, limited, sent)
  spares : Spares client limited
  announces : ∀ effect ∈ sent, Announces effect
  fails :
    (∃ exception, readSubmission params = .error (.thrown exception) ∧
      outcome = limited.throws sent exception) ∨
    ∃ submission rest, readSubmission params = .ok submission ∧
      AssemblyFails setting limited addr submission rest ∧ outcome = rest.after sent

variable {setting : Setting} {env : Env} {msg : JSON} {client next : Client}
  {effects : List Effect} {outcome : Outcome}

/-! ## What the share limiter leaves alone -/

theorem Spares.refl (client : Client) : Spares client client :=
  ⟨rfl, rfl, rfl, rfl, List.prefix_rfl, rfl⟩

theorem Spares.trans {middle : Client} (first : Spares client middle)
    (second : Spares middle next) : Spares client next where
  workers := second.workers.trans first.workers
  subscribed := second.subscribed.trans first.subscribed
  extranonce := second.extranonce.trans first.extranonce
  minDiff := second.minDiff.trans first.minDiff
  heap := first.heap.trans second.heap
  badShares := second.badShares.trans first.badShares

theorem limitShare_spares {passed : Bool} {diff : UInt64}
    (done : client.limitShare setting.config setting.floating env diff =
      some (passed, next, effects)) :
    Spares client next := by
  have path : Path (fun client _ next => Spares client next) client effects next := by
    refine (limitShare_course done).toPath ?_ ?_ ?_
    · intro client effects next turns
      cases turns with
      | count limiter total bad => exact ⟨rfl, rfl, rfl, rfl, List.prefix_rfl, bad⟩
      | ban time => exact .refl client
    · intro client effects next changes
      cases changes with
      | intro diff changes bound => exact ⟨rfl, rfl, rfl, rfl, List.prefix_rfl, rfl⟩
    · intro client effects next sends
      cases sends with
      | intro clean issued branchEq =>
          cases clean with
          | true => exact ⟨rfl, rfl, rfl, rfl, List.prefix_append _ _, rfl⟩
          | false => exact ⟨rfl, rfl, rfl, rfl, List.prefix_append _ _, rfl⟩
  exact path.related Spares.refl Spares.trans id

/-! ## Exceptions -/

theorem judge_thrown {username : StdString} {job : Job} {block : Bitcoin.Block}
    {hash : BinaryData} {target : ℕ} :
    (judge env msg username job client block hash target).thrown = none := by
  generalize judged : judge env msg username job client block hash target = outcome
  cases judge_ends judged with
  | above above => rfl
  | solved meets solves accepted => rfl
  | unanswered meets solves refused => rfl
  | credited meets large => rfl

theorem submitWork_thrown {username : StdString} {addr : ℕ} {submission : Submission}
    (done : submitWork setting env msg username addr submission client = some outcome)
    (failed : outcome.thrown ≠ none) : AssemblyFails setting client addr submission outcome := by
  cases submitWork_ends done with
  | duplicate jobAt known => exact absurd rfl failed
  | unassembled jobAt submitted assembles =>
      exact ⟨_, _, _, jobAt, submitted, Or.inl ⟨assembles, rfl⟩⟩
  | unprinted jobAt submitted assembles prints =>
      exact ⟨_, _, _, jobAt, submitted, Or.inr ⟨_, assembles, prints, rfl⟩⟩
  | judged jobAt submitted assembles prints => exact absurd judge_thrown failed

theorem submitToJob_thrown {params : JSON} {username : StdString} {addr : ℕ}
    (done : submitToJob setting env msg params username addr client = some outcome)
    (failed : outcome.thrown ≠ none) :
    ∃ limited sent, FailsBehindLimiter setting env params addr client outcome limited sent := by
  rcases submitToJob_limits done with ⟨job, passed, limited, sent, jobAt, limiter, limits⟩
  have spares := limitShare_spares limiter
  have announces : passed = true → ∀ effect ∈ sent, Announces effect := by
    intro passes
    rcases limitShare_cases limiter with ⟨_, blocked, _⟩ | ⟨_, announces⟩
    · rw [passes] at blocked
      cases blocked
    · exact announces
  cases limits with
  | blocked => exact absurd rfl failed
  | unreadable read =>
      exact ⟨limited, sent, ⟨job, jobAt, limiter⟩, spares, announces rfl, Or.inl ⟨_, read, rfl⟩⟩
  | wrongSize read => exact absurd rfl failed
  | @verified submission rest read worked =>
      exact ⟨limited, sent, ⟨job, jobAt, limiter⟩, spares, announces rfl,
        Or.inr ⟨submission, rest, read, submitWork_thrown worked failed, rfl⟩⟩

/-- A message that ends by an exception. -/
theorem failure_spares (done : client.onMessage env setting msg = some outcome)
    (failed : outcome.thrown ≠ none) (converts : ¬RowUnreadable env msg) :
    (¬AsksLimiter env msg client → outcome.client = client ∧ outcome.effects = []) ∧
      ∀ params username addr, ReachesLimiter env msg client params username addr →
        ∃ limited sent,
          FailsBehindLimiter setting env params addr client outcome limited sent := by
  cases onMessage_handled done with
  | unreadable exception other =>
      refine ⟨fun _ => ⟨rfl, rfl⟩, fun params username addr reaches => ?_⟩
      exact absurd ⟨params, username, addr, reaches⟩ other
  | ignored other => exact absurd rfl failed
  | unauthorized methodEq paramsEq usernameEq unknown other => exact absurd rfl failed
  | jobNotFound methodEq paramsEq usernameEq authorized textEq unknown other =>
      exact absurd rfl failed
  | limited reaches submits =>
      refine ⟨fun other => absurd ⟨_, _, _, reaches⟩ other, ?_⟩
      intro params username addr again
      rcases reaches.unique again with ⟨rfl, rfl, rfl⟩
      exact submitToJob_thrown submits failed
  | subscribes methodEq sends => exact absurd rfl failed
  | authorizes methodEq credentials authorizes =>
      cases authorize_cases authorizes with
      | noRow absent => exact absurd rfl failed
      | unreadable row => exact absurd ⟨methodEq, _, _, _, credentials, row⟩ converts
      | authorized row workers announces => exact absurd rfl failed

/-- A submission without its last three parameters. -/
def Sample.shortSubmission : JSON :=
  request "mining.submit" ["alice", "0"]

theorem Sample.shortSubmission_fails :
    ∃ outcome, (worker 2).onMessage (easyEnv 2) (Sample.setting (hash 2)) shortSubmission =
        some outcome ∧
      outcome.thrown ≠ none ∧
      (worker 2).shareLimiter.totalShares = 0 ∧ outcome.client.shareLimiter.totalShares = 1 := by
  have found : ∃ outcome ∈
      (worker 2).onMessage (easyEnv 2) (Sample.setting (hash 2)) shortSubmission,
      outcome.thrown.isSome = true ∧
      (worker 2).shareLimiter.totalShares = 0 ∧ outcome.client.shareLimiter.totalShares = 1 := by
    decide +kernel
  rcases found with ⟨outcome, done, thrown, before, after⟩
  exact ⟨outcome, done, Option.isSome_iff_ne_none.mp thrown, before, after⟩

theorem Sample.shortSubmission_reaches :
    ReachesLimiter (easyEnv 2) shortSubmission (worker 2)
      (.array [.text "alice", .text "0"]) (ascii "alice") 0 := by
  refine ⟨by decide, rfl, by decide, by decide +kernel, ascii "0", by decide, by decide +kernel⟩

theorem failure_spares_sample :
    ∃ outcome limited sent,
      (Sample.worker 2).onMessage (Sample.easyEnv 2) (Sample.setting (Sample.hash 2))
        Sample.shortSubmission = some outcome ∧
      outcome.thrown ≠ none ∧
      FailsBehindLimiter (Sample.setting (Sample.hash 2)) (Sample.easyEnv 2)
        (.array [.text "alice", .text "0"]) 0 (Sample.worker 2) outcome limited sent := by
  rcases Sample.shortSubmission_fails with ⟨outcome, done, failed, _⟩
  have converts : ¬RowUnreadable (Sample.easyEnv 2) Sample.shortSubmission := by
    rintro ⟨_, username, password, exception, _, row⟩
    cases row
  rcases (failure_spares done failed converts).2 _ _ _ Sample.shortSubmission_reaches with
    ⟨limited, sent, fails⟩
  exact ⟨outcome, limited, sent, done, failed, fails⟩

/-- A submission without its last three parameters is counted all the same. -/
theorem exists_counted_failure :
    ∃ outcome,
      (Sample.worker 2).onMessage (Sample.easyEnv 2) (Sample.setting (Sample.hash 2))
        Sample.shortSubmission = some outcome ∧
      outcome.thrown ≠ none ∧ outcome.client.shareLimiter ≠ (Sample.worker 2).shareLimiter := by
  rcases Sample.shortSubmission_fails with ⟨outcome, done, failed, before, after⟩
  refine ⟨outcome, done, failed, ?_⟩
  intro same
  rw [same, before] at after
  cases after

end Poolserver.Stratum
