import Poolserver.Stratum.Difficulty
import Poolserver.Stratum.Handled

/-!
# What a call does to the difficulty and to the share limiter

A call can reach `ShareLimiter::Submit`, it can load the minimum difficulty of a worker, or it
can leave both alone. What a submission does behind the share limiter only logs bad shares, one
for each invalid share it records.
-/

namespace Poolserver.Stratum

open Poolserver.Bitcoin RunTrace

/-! ## Invalid shares -/

/-- The record of an invalid share. -/
def Effect.isInvalid : Effect → Bool
  | push share => !share.result
  | _ => false

/-- The number of invalid shares that are recorded. -/
def invalids (effects : List Effect) : ℕ :=
  effects.countP Effect.isInvalid

@[simp]
theorem invalids_append (left right : List Effect) :
    invalids (left ++ right) = invalids left + invalids right :=
  List.countP_append

namespace ShareLimiter

/-- The limiter with more bad shares. -/
def logBads (limiter : ShareLimiter) (count : ℕ) : ShareLimiter :=
  { limiter with totalBadShares := limiter.totalBadShares + UInt64.ofNat count }

@[simp]
theorem logBads_zero (limiter : ShareLimiter) : limiter.logBads 0 = limiter := by
  simp [logBads]

@[simp]
theorem logBads_one (limiter : ShareLimiter) : limiter.logBads 1 = limiter.logBad :=
  rfl

theorem logBads_logBads (limiter : ShareLimiter) (first second : ℕ) :
    (limiter.logBads first).logBads second = limiter.logBads (first + second) := by
  simp [logBads, UInt64.ofNat_add, UInt64.add_assoc]

/-- The limiter after `ShareLimiter::Submit`. -/
def submitted (setting : Setting) (diff curTime : UInt64) (limiter : ShareLimiter) :
    ShareLimiter :=
  let limiter := limiter.count diff curTime
  if limiter.Early setting.config curTime then limiter
  else
    let limiter := limiter.markRetarget curTime
    if 200 < limiter.totalShares ∧
        setting.floating.tooManyBad limiter.totalBadShares limiter.totalShares then limiter
    else limiter.dropOld setting.config curTime

end ShareLimiter

namespace Client

variable {setting : Setting} {env : Env} {msg : JSON} {client middle next : Client}
  {effects emitted : List Effect}

/-- What keeps the difficulty, and the share limiter but for the bad shares it logs. -/
structure Logs (client : Client) (effects : List Effect) (next : Client) : Prop where
  diff : next.diff = client.diff
  minDiff : next.minDiff = client.minDiff
  limiter : next.shareLimiter = client.shareLimiter.logBads (invalids effects)

theorem Logs.refl (client : Client) : Logs client [] client :=
  ⟨rfl, rfl, by simp [invalids]⟩

theorem Logs.trans (first : Logs client emitted middle) (second : Logs middle effects next) :
    Logs client (emitted ++ effects) next where
  diff := second.diff.trans first.diff
  minDiff := second.minDiff.trans first.minDiff
  limiter := by
    rw [second.limiter, first.limiter, ShareLimiter.logBads_logBads, invalids_append]

/-- Effects without an invalid share come with no change of the counters. -/
theorem Logs.same (client : Client) (valid : invalids effects = 0) :
    Logs client effects client :=
  ⟨rfl, rfl, by rw [valid, ShareLimiter.logBads_zero]⟩

theorem SendsJob.logs (sends : SendsJob env client effects next) : Logs client effects next := by
  cases sends with
  | intro clean issued branchEq =>
      cases clean
      · exact ⟨rfl, rfl, (ShareLimiter.logBads_zero _).symm⟩
      · exact ⟨rfl, rfl, (ShareLimiter.logBads_zero _).symm⟩

theorem sendJob_logs {clean : Bool} (sent : client.sendJob env clean = some (next, effects)) :
    Logs client effects next :=
  (sendJob_sends sent).logs

/-! ## Behind the share limiter -/

variable {params : JSON} {username : StdString} {addr : ℕ} {outcome : Outcome}

theorem judge_logs {job : Job} {block : Block} {hash : BinaryData} {target : ℕ} :
    Logs client (judge env msg username job client block hash target).effects
      (judge env msg username job client block hash target).client := by
  generalize judged : judge env msg username job client block hash target = outcome
  cases judge_ends judged with
  | above above => exact ⟨rfl, rfl, rfl⟩
  | solved meets solves accepted => exact .same client rfl
  | unanswered meets solves refused => exact .same client rfl
  | credited meets large => exact .same client rfl

theorem submitWork_logs {submission : Submission}
    (done : submitWork setting env msg username addr submission client = some outcome) :
    Logs client outcome.effects outcome.client := by
  have stores : ∀ (effects : List Effect) (stored : Job), invalids effects = 0 →
      Logs client effects (client.storeJob addr stored) := by
    intro effects stored valid
    exact ⟨rfl, rfl, by rw [valid, ShareLimiter.logBads_zero]; rfl⟩
  cases submitWork_ends done with
  | duplicate jobAt known => exact ⟨rfl, rfl, rfl⟩
  | unassembled jobAt submitted assembles => exact stores _ _ rfl
  | unprinted jobAt submitted assembles prints => exact stores _ _ rfl
  | judged jobAt submitted assembles prints => exact (stores _ _ rfl).trans judge_logs

theorem limits_logs {limited : Client} {sent : List Effect} {passed : Bool}
    (limits : Limits setting env msg params username addr limited sent passed outcome) :
    ∃ rest, outcome.effects = sent ++ rest ∧ Logs limited rest outcome.client := by
  cases limits with
  | blocked => exact ⟨_, rfl, .same limited rfl⟩
  | unreadable read => exact ⟨[], (List.append_nil _).symm, .refl limited⟩
  | wrongSize read => exact ⟨_, rfl, .same limited rfl⟩
  | verified read worked => exact ⟨_, rfl, submitWork_logs worked⟩

/-! ## Calls of the share limiter -/

/-- What keeps the workers, their minimum difficulty and the share limiter, and records no share. -/
structure Adapts (client : Client) (effects : List Effect) (next : Client) : Prop where
  workers : next.workers = client.workers
  minDiff : next.minDiff = client.minDiff
  limiter : next.shareLimiter = client.shareLimiter
  valid : invalids effects = 0

theorem Adapts.trans (first : Adapts client emitted middle) (second : Adapts middle effects next) :
    Adapts client (emitted ++ effects) next where
  workers := second.workers.trans first.workers
  minDiff := second.minDiff.trans first.minDiff
  limiter := second.limiter.trans first.limiter
  valid := by rw [invalids_append, first.valid, second.valid]

theorem sendJob_adapts {clean : Bool} (sent : client.sendJob env clean = some (next, effects)) :
    Adapts client effects next := by
  cases sendJob_sends sent with
  | intro clean issued branchEq =>
      cases clean
      · exact ⟨rfl, rfl, rfl, rfl⟩
      · exact ⟨rfl, rfl, rfl, rfl⟩

theorem setDifficulty_adapts {diff : UInt64} {resendJob : Bool}
    (moved : client.setDifficulty env diff resendJob = some (next, effects)) :
    Adapts client effects next := by
  cases setDifficulty_ends moved with
  | unchanged same => exact ⟨rfl, rfl, rfl, rfl⟩
  | told differs quiet => exact ⟨rfl, rfl, rfl, rfl⟩
  | resent differs resend sends =>
      have told : Adapts client
          [.sendMessage (setDifficultyMessage (if diff < client.minDiff then client.minDiff else diff))]
          { client with diff := if diff < client.minDiff then client.minDiff else diff } :=
        ⟨rfl, rfl, rfl, rfl⟩
      exact told.trans (sendJob_adapts sends)

/-- The difficulty that `SetDifficulty` sets, not below the minimum of the worker. -/
def raised (client : Client) (diff : UInt64) : UInt64 :=
  if diff < client.minDiff then client.minDiff else diff

theorem raised_toNat (client : Client) (diff : UInt64) :
    (client.raised diff).toNat = max diff.toNat client.minDiff.toNat := by
  unfold raised
  split
  · rename_i below
    have := UInt64.lt_iff_toNat_lt.mp below
    omega
  · rename_i above
    have := UInt64.le_iff_toNat_le.mp (UInt64.not_lt.mp above)
    omega

theorem setDifficulty_toNat {diff : UInt64} {resendJob : Bool}
    (moved : client.setDifficulty env diff resendJob = some (next, effects)) :
    next.diff.toNat = max diff.toNat client.minDiff.toNat := by
  rw [setDifficulty_diff moved]
  exact client.raised_toNat diff

/-- The difficulty before the share limiter, or one it has fitted to the shares. -/
def Fits (config : Config) (floating : FloatingPoint) (client next : Client) : Prop :=
  next.diff = client.diff ∨ ∃ (limiter : ShareLimiter) (curTime : UInt64),
    next.diff.toNat = max (limiter.newDiff config floating curTime).toNat client.minDiff.toNat

theorem retarget_adapts {config : Config} {floating : FloatingPoint} {passed : Bool}
    (moved : client.retarget config floating env = some (passed, next, effects)) :
    Adapts client effects next ∧ Fits config floating client next := by
  cases retarget_ends moved with
  | steady small => exact ⟨⟨rfl, rfl, rfl, rfl⟩, Or.inl rfl⟩
  | refused large slows sends =>
      have kept := (sendJob_logs sends).diff
      have slowed := setDifficulty_toNat slows
      rw [← kept] at slowed
      exact ⟨(setDifficulty_adapts slows).trans (sendJob_adapts sends), Or.inr ⟨_, _, slowed⟩⟩
  | adjusted slows =>
      have slowed := setDifficulty_toNat slows
      exact ⟨setDifficulty_adapts slows, Or.inr ⟨_, _, slowed⟩⟩

/-- What `ShareLimiter::Submit` leaves behind. -/
structure Submits (setting : Setting) (env : Env) (diff : UInt64) (client : Client)
    (effects : List Effect) (next : Client) : Prop where
  fits : Fits setting.config setting.floating client next
  minDiff : next.minDiff = client.minDiff
  limiter : next.shareLimiter =
    client.shareLimiter.submitted setting diff env.limiterTime.toUInt64
  valid : invalids effects = 0

theorem limitShare_submits {diff : UInt64} {passed : Bool}
    (moved : client.limitShare setting.config setting.floating env diff =
      some (passed, next, effects)) :
    client.Submits setting env diff effects next := by
  cases limitShare_ends moved with
  | early early =>
      refine ⟨Or.inl rfl, rfl, ?_, rfl⟩
      simp only [ShareLimiter.submitted, if_pos early]
  | banned late bad =>
      refine ⟨Or.inl rfl, rfl, ?_, rfl⟩
      simp only [ShareLimiter.submitted, if_neg late]
      exact (if_pos bad).symm
  | retargets late good done =>
      rcases retarget_adapts done with ⟨adapts, fits⟩
      refine ⟨fits, adapts.minDiff, ?_, adapts.valid⟩
      rw [adapts.limiter]
      simp only [ShareLimiter.submitted, if_neg late]
      exact (if_neg good).symm

/-! ## Authorizations -/

/-- The user and the minimum difficulty that an authorization loads. -/
def loaded? (env : Env) (msg : JSON) : Option (StdString × UInt32) :=
  match msg.stringMember "method" with
  | .ok method =>
      if method = ascii "mining.authorize" then
        match readCredentials msg with
        | .ok (username, password) =>
            match env.row username password with
            | some (.ok mindiff) => some (username, mindiff)
            | _ => none
        | .error _ => none
      else none
  | .error _ => none

/-- The authorization of a worker whose minimum difficulty is read. -/
structure Loads (username : StdString) (mindiff : UInt32) (client : Client)
    (effects : List Effect) (next : Client) : Prop where
  workers : next.workers = insert username client.workers
  minDiff : next.minDiff = mindiff.toUInt64
  diff : next.diff.toNat = max client.diff.toNat mindiff.toNat
  limiter : next.shareLimiter = client.shareLimiter
  valid : invalids effects = 0

theorem raiseDiff_adapts (raised : client.raiseDiff env = some (next, effects)) :
    Adapts client effects next ∧ next.diff.toNat = max client.diff.toNat client.minDiff.toNat := by
  unfold raiseDiff at raised
  split at raised
  · rename_i below
    refine ⟨setDifficulty_adapts raised, ?_⟩
    rw [setDifficulty_toNat raised]
    have := UInt64.lt_iff_toNat_lt.mp below
    omega
  · rename_i above
    simp only [Option.some.injEq, Prod.mk.injEq] at raised
    rcases raised with ⟨rfl, rfl⟩
    have := UInt64.le_iff_toNat_le.mp (UInt64.not_lt.mp above)
    exact ⟨⟨rfl, rfl, rfl, rfl⟩, by omega⟩

theorem authorize_loads {password : StdString}
    (done : authorize env msg username password client = some outcome) :
    (∃ mindiff, env.row username password = some (.ok mindiff) ∧
        Loads username mindiff client outcome.effects outcome.client) ∨
      (∀ mindiff, env.row username password ≠ some (.ok mindiff)) ∧
        Logs client outcome.effects outcome.client ∧ invalids outcome.effects = 0 := by
  cases authorize_ends done with
  | noRow absent => exact Or.inr ⟨by simp [absent], .same client rfl, rfl⟩
  | unreadable row =>
      exact Or.inr ⟨by simp [row], ⟨rfl, rfl, (ShareLimiter.logBads_zero _).symm⟩, rfl⟩
  | @authorized mindiff raised told row raises =>
      rcases raiseDiff_adapts raises with ⟨adapts, raisedTo⟩
      rw [UInt32.toNat_toUInt64] at raisedTo
      refine Or.inl ⟨mindiff, row, adapts.workers, adapts.minDiff, raisedTo, adapts.limiter, ?_⟩
      have valid : invalids (([.query username password true] ++ told) ++
          [.sendMessage (authorizedResponse msg)]) = 0 := by
        rw [invalids_append, invalids_append, adapts.valid]
        rfl
      exact valid

/-! ## Calls -/

/-- What a call does to the difficulty and to the share limiter. -/
inductive Tallies (setting : Setting) (event : Event) (client : Client) :
    List Effect → Client → Prop where
  | submits {msg params : JSON} {username : StdString} {addr : ℕ} {job : Job} {limited next : Client}
      {sent rest : List Effect} (actionEq : event.action = .message msg)
      (reaches : ReachesLimiter event.env msg client params username addr)
      (jobAt : client.heap[addr]? = some job)
      (limits : client.Submits setting event.env job.diff sent limited)
      (logs : Logs limited rest next) : Tallies setting event client (sent ++ rest) next
  | loads {msg : JSON} {username : StdString} {mindiff : UInt32} {effects : List Effect}
      {next : Client} (actionEq : event.action = .message msg)
      (loaded : loaded? event.env msg = some (username, mindiff))
      (loads : Loads username mindiff client effects next) :
      Tallies setting event client effects next
  | rests {effects : List Effect} {next : Client}
      (unasked : ∀ msg, event.action = .message msg → ¬AsksLimiter event.env msg client)
      (unloaded : ∀ msg, event.action = .message msg → loaded? event.env msg = none)
      (logs : Logs client effects next) : Tallies setting event client effects next

theorem loaded?_of_method {method : StdString} (methodEq : msg.stringMember "method" = .ok method)
    (differs : method ≠ ascii "mining.authorize") : loaded? env msg = none := by
  simp only [loaded?, methodEq, if_neg differs]

theorem not_asks_of_loaded {load : StdString × UInt32} (loaded : loaded? env msg = some load) :
    ¬AsksLimiter env msg client := by
  rintro ⟨params, username, addr, reaches⟩
  rw [loaded?_of_method reaches.methodEq (by decide)] at loaded
  cases loaded

theorem loaded?_of_credentials {password : StdString}
    (methodEq : msg.stringMember "method" = .ok (ascii "mining.authorize"))
    (credentials : readCredentials msg = .ok (username, password)) :
    loaded? env msg = match env.row username password with
      | some (.ok mindiff) => some (username, mindiff)
      | _ => none := by
  simp only [loaded?, methodEq, if_true, credentials]

/-- A message that neither reaches the share limiter nor loads a minimum difficulty. -/
theorem Tallies.ofMessage {event : Event} (actionEq : event.action = .message msg)
    (unasked : ¬AsksLimiter event.env msg client) (unloaded : loaded? event.env msg = none)
    (logs : Logs client effects next) : Tallies setting event client effects next := by
  refine .rests ?_ ?_ logs
  · intro other otherEq
    rw [actionEq, Action.message.injEq] at otherEq
    rwa [← otherEq]
  · intro other otherEq
    rw [actionEq, Action.message.injEq] at otherEq
    rwa [← otherEq]

theorem submit_tallies {event : Event} (actionEq : event.action = .message msg)
    (methodEq : msg.stringMember "method" = .ok (ascii "mining.submit"))
    (done : onMiningSubmit setting event.env msg client = some outcome) :
    Tallies setting event client outcome.effects outcome.client := by
  have rests : ∀ {effects next}, ¬AsksLimiter event.env msg client → Logs client effects next →
      Tallies setting event client effects next :=
    fun unasked logs => .ofMessage actionEq unasked (loaded?_of_method methodEq (by decide)) logs
  cases onMiningSubmit_handled methodEq done with
  | unreadable exception other => exact rests other (.refl client)
  | ignored other => exact rests other (.refl client)
  | unauthorized methodEq paramsEq usernameEq unknown other => exact rests other (.same client rfl)
  | jobNotFound methodEq paramsEq usernameEq authorized textEq unknown other =>
      exact rests other ⟨rfl, rfl, rfl⟩
  | limited reaches submits =>
      rcases submitToJob_limits submits with ⟨job, passed, limited, sent, jobAt, limiter, limits⟩
      rcases limits_logs limits with ⟨rest, effectsEq, logs⟩
      rw [effectsEq]
      exact .submits actionEq reaches jobAt (limitShare_submits limiter) logs
  | subscribes otherMethod sends =>
      rw [methodEq, Except.ok.injEq] at otherMethod
      exact absurd otherMethod (by decide)
  | authorizes otherMethod credentials authorized =>
      rw [methodEq, Except.ok.injEq] at otherMethod
      exact absurd otherMethod (by decide)

theorem message_tallies {event : Event} (actionEq : event.action = .message msg)
    (done : client.onMessage event.env setting msg = some outcome) :
    Tallies setting event client outcome.effects outcome.client := by
  have notSubmission : ∀ {method}, msg.stringMember "method" = .ok method →
      method ≠ ascii "mining.submit" → ¬AsksLimiter event.env msg client :=
    fun methodEq differs => not_asks_of_method methodEq differs
  cases onMessage_ends done with
  | noMethod methodEq =>
      refine .ofMessage actionEq ?_ (by simp only [loaded?, methodEq]) (.refl client)
      rintro ⟨params, username, addr, reaches⟩
      have read := reaches.methodEq
      rw [methodEq] at read
      cases read
  | submit methodEq done => exact submit_tallies actionEq methodEq done
  | subscribe methodEq sends =>
      have subscribed : Logs client [.sendMessage (subscribeResponse msg event.env.extranonce)]
          { client with subscribed := true, extranonce := event.env.extranonce } :=
        ⟨rfl, rfl, (ShareLimiter.logBads_zero _).symm⟩
      exact .ofMessage actionEq (notSubmission methodEq (by decide))
        (loaded?_of_method methodEq (by decide)) (subscribed.trans (sendJob_logs sends))
  | noCredentials methodEq unread =>
      refine .ofMessage actionEq (notSubmission methodEq (by decide)) ?_ (.refl client)
      simp only [loaded?, methodEq, if_true, unread]
  | @authorize username password outcome methodEq credentials done =>
      have loadedEq := @loaded?_of_credentials event.env msg username password methodEq credentials
      rcases authorize_loads done with ⟨mindiff, row, loads⟩ | ⟨noRow, logs, _⟩
      · rw [row] at loadedEq
        exact .loads actionEq loadedEq loads
      · refine .ofMessage actionEq (notSubmission methodEq (by decide)) ?_ logs
        rw [loadedEq]
        split
        · rename_i mindiff row
          exact absurd row (noRow mindiff)
        · rfl
  | ignored methodEq notSubmit notSubscribe notAuthorize =>
      exact .ofMessage actionEq (notSubmission methodEq notSubmit)
        (loaded?_of_method methodEq notAuthorize) (.refl client)

theorem step_tallies {event : Event} {output : Output}
    (stepped : client.step setting event = some (next, output)) :
    Tallies setting event client output.effects next := by
  cases step_ends stepped with
  | message actionEq done => exact message_tallies actionEq done
  | sendJob actionEq sends =>
      have noMessage : ∀ msg, event.action ≠ .message msg := by
        intro msg isMessage
        rw [actionEq] at isMessage
        cases isMessage
      refine .rests ?_ ?_ (sendJob_logs sends)
      · exact fun msg isMessage => absurd isMessage (noMessage msg)
      · exact fun msg isMessage => absurd isMessage (noMessage msg)

end Client

end Poolserver.Stratum
