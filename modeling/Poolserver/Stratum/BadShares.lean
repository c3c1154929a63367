import Poolserver.Stratum.Retargets

/-!
# Bad shares and all shares

The share limiter counts a bad share for each invalid share that is recorded, and all shares where
it is asked about them. A submission that names no job of the client is recorded as invalid without
being asked about, so that the bad shares can outnumber all shares.
-/

namespace Poolserver.Stratum

open Poolserver.Bitcoin RunTrace

namespace Client

variable {setting : Setting} {env : Env} {msg : JSON} {client : Client} {outcome : Outcome}

/-- A submission of an authorized worker that names no job of the client. -/
def missesJob (env : Env) (msg : JSON) (client : Client) : Bool :=
  match msg.stringMember "method", msg.member (ascii "params") with
  | .ok method, .ok params =>
      match params.stringAt 0, params.stringAt 1 with
      | .ok username, .ok text =>
          method = ascii "mining.submit" ∧ username ∈ client.workers ∧
            client.jobs (parseHex env.uninitialized text).toUInt64 = none
      | _, _ => false
  | _, _ => false

theorem missesJob_of_method {method : StdString} (methodEq : msg.stringMember "method" = .ok method)
    (differs : method ≠ ascii "mining.submit") : client.missesJob env msg = false := by
  unfold missesJob
  rw [methodEq]
  split
  · rename_i found params same paramsEq
    rw [Except.ok.injEq] at same
    subst same
    split
    · simp [differs]
    · rfl
  · rfl

/-- A submission that misses its job does not reach the share limiter. -/
theorem not_asks_of_missesJob (misses : client.missesJob env msg = true) :
    ¬AsksLimiter env msg client := by
  rintro ⟨params, username, addr, reaches⟩
  rcases reaches.jobFound with ⟨text, textEq, found⟩
  simp [missesJob, reaches.methodEq, reaches.paramsEq, reaches.usernameEq, textEq, found] at misses

/-- No more than one invalid share is recorded behind the share limiter. -/
theorem limits_invalids {params : JSON} {username : StdString} {addr : ℕ} {limited : Client}
    {sent : List Effect} {passed : Bool}
    (limits : Limits setting env msg params username addr limited sent passed outcome) :
    invalids outcome.effects ≤ invalids sent + 1 := by
  cases limits with
  | blocked => simp [respond, invalids, Effect.isInvalid]
  | unreadable read => simp [throws]
  | wrongSize read => simp [respond, invalids, Effect.isInvalid]
  | @verified submission rest read worked =>
      have atMostOne : invalids rest.effects ≤ 1 := by
        cases submitWork_ends worked with
        | duplicate jobAt known => exact Nat.le_refl 1
        | unassembled jobAt submitted assembles => exact Nat.zero_le 1
        | unprinted jobAt submitted assembles prints => exact Nat.zero_le 1
        | @judged job stored block target jobAt submitted assembles prints =>
            generalize judged : judge env msg username stored _ block _ target = verdict
            cases judge_ends judged with
            | above above => exact Nat.le_refl 1
            | solved meets solves accepted => exact Nat.zero_le 1
            | unanswered meets solves refused => exact Nat.zero_le 1
            | credited meets large => exact Nat.zero_le 1
      simp only [Outcome.after, invalids_append]
      omega

/-- What a message records as invalid, and whether the share limiter has been asked. -/
theorem message_invalids (done : client.onMessage env setting msg = some outcome) :
    (client.missesJob env msg = true ∧ invalids outcome.effects = 1) ∨
      (client.missesJob env msg = false ∧
        ((∃ job, limitedJob? env msg client = some job) ∧ invalids outcome.effects ≤ 1 ∨
          invalids outcome.effects = 0)) := by
  cases onMessage_ends done with
  | noMethod methodEq => exact Or.inr ⟨by simp only [missesJob, methodEq], Or.inr rfl⟩
  | submit methodEq done =>
      cases onMiningSubmit_ends done with
      | noParams paramsEq =>
          exact Or.inr ⟨by simp only [missesJob, methodEq, paramsEq], Or.inr rfl⟩
      | noUsername paramsEq usernameEq =>
          exact Or.inr ⟨by simp only [missesJob, methodEq, paramsEq, usernameEq], Or.inr rfl⟩
      | unauthorized paramsEq usernameEq unknown =>
          refine Or.inr ⟨?_, Or.inr rfl⟩
          simp only [missesJob, methodEq, paramsEq, usernameEq]
          split
          · rename_i name text sameName textEq
            rw [Except.ok.injEq] at sameName
            simp [← sameName, unknown]
          · rfl
      | noJobText paramsEq usernameEq authorized textEq =>
          exact Or.inr ⟨by simp only [missesJob, methodEq, paramsEq, usernameEq, textEq], Or.inr rfl⟩
      | jobNotFound paramsEq usernameEq authorized textEq unknown =>
          refine Or.inl ⟨?_, rfl⟩
          simp only [missesJob, methodEq, paramsEq, usernameEq, textEq, authorized, unknown, and_self,
            decide_true]
      | @reaches params username text addr outcome paramsEq usernameEq authorized textEq found done =>
          rcases submitToJob_limits done with ⟨job, passed, limited, sent, jobAt, limiter, limits⟩
          have bound := limits_invalids limits
          rw [(limitShare_submits limiter).valid] at bound
          have limitedJob := limitedJob?_eq_some_iff.mpr ⟨params, username, addr,
            ⟨methodEq, paramsEq, usernameEq, authorized, text, textEq, found⟩, jobAt⟩
          refine Or.inr ⟨?_, Or.inl ⟨⟨job, limitedJob⟩, bound⟩⟩
          simp [missesJob, methodEq, paramsEq, usernameEq, textEq, found]
  | subscribe methodEq sends =>
      refine Or.inr ⟨missesJob_of_method methodEq (by decide), Or.inr ?_⟩
      exact (sendJob_adapts sends).valid
  | noCredentials methodEq unread =>
      exact Or.inr ⟨missesJob_of_method methodEq (by decide), Or.inr rfl⟩
  | authorize methodEq credentials done =>
      refine Or.inr ⟨missesJob_of_method methodEq (by decide), Or.inr ?_⟩
      rcases authorize_loads done with ⟨mindiff, row, loads⟩ | ⟨noRow, logs, valid⟩
      · exact loads.valid
      · exact valid
  | ignored methodEq notSubmit notSubscribe notAuthorize =>
      exact Or.inr ⟨missesJob_of_method methodEq notSubmit, Or.inr rfl⟩

end Client

/-- The call is a submission that names no job of the client. -/
def findsNoJob (entry : ClientEntry) : Bool :=
  match entry.event.action with
  | .message msg => entry.before.missesJob entry.event.env msg
  | .sendJob _ => false

variable {setting : Setting} {connection : Connection} {trace : List ClientEntry} {last : Client}

/-- A call records an invalid share without being counted just when it finds no job. -/
theorem invalids_of_step {entry : ClientEntry}
    (stepped : entry.before.step setting entry.event = some (entry.after, entry.output)) :
    (findsNoJob entry = true ∧ limiterCall? entry = none ∧ invalids entry.output.effects = 1) ∨
      (findsNoJob entry = false ∧
        invalids entry.output.effects ≤ (limiterCalls [entry]).length) := by
  have ends := Client.step_ends stepped
  generalize outputEq : entry.output = output at ends
  generalize entry.after = after at ends
  cases ends with
  | @message msg outcome actionEq done =>
      rcases Client.message_invalids done with ⟨misses, one⟩ | ⟨finds, limited | none⟩
      · refine Or.inl ⟨by simp only [findsNoJob, actionEq, misses], ?_, one⟩
        refine limiterCall?_of_unasked ?_
        intro other otherEq
        rw [actionEq, Action.message.injEq] at otherEq
        rw [← otherEq]
        exact Client.not_asks_of_missesJob misses
      · rcases limited with ⟨⟨job, found⟩, bound⟩
        refine Or.inr ⟨by simp only [findsNoJob, actionEq, finds], ?_⟩
        simpa [limiterCalls, limiterCall?, actionEq, found] using bound
      · refine Or.inr ⟨by simp only [findsNoJob, actionEq, finds], ?_⟩
        simp only [none]
        exact Nat.zero_le _
  | sendJob actionEq sends =>
      refine Or.inr ⟨by simp only [findsNoJob, actionEq], ?_⟩
      simp only [(Client.sendJob_adapts sends).valid]
      exact Nat.zero_le _

/-! ## Runs -/

/-- What the two counters hold, up to the size of the counters. -/
structure Tally (trace : List ClientEntry) (client : Client) : Prop where
  bad : client.shareLimiter.totalBadShares = UInt64.ofNat (invalids (log trace))
  total : client.shareLimiter.totalShares = UInt64.ofNat (limiterCalls trace).length

theorem tally_of_run (run : ClientRun setting connection trace last) : Tally trace last := by
  refine run.invariant Tally (fun _ => True) (fun _ _ => trivial) ⟨rfl, rfl⟩ ?_
  intro trace entry tally _ stepped
  have logEq : log (trace ++ [entry]) = log trace ++ entry.output.effects := by simp [log]
  cases counts_of_step stepped with
  | submits call limiter =>
      constructor
      · rw [limiter, logEq, invalids_append, UInt64.ofNat_add, ← tally.bad]
        simp [ShareLimiter.logBads]
      · rw [limiter, limiterCalls_append, List.length_append, UInt64.ofNat_add, ← tally.total]
        simp [ShareLimiter.logBads, limiterCalls, call]
  | rests call limiter =>
      constructor
      · rw [limiter, logEq, invalids_append, UInt64.ofNat_add, ← tally.bad]
        rfl
      · rw [limiter, limiterCalls_append, List.length_append, UInt64.ofNat_add, ← tally.total]
        simp [ShareLimiter.logBads, limiterCalls, call]

/-- The bad shares are some of all shares, and they are the invalid ones that were recorded. -/
structure Counted (trace : List ClientEntry) (client : Client) : Prop where
  fraction : client.shareLimiter.totalBadShares ≤ client.shareLimiter.totalShares
  records : client.shareLimiter.totalBadShares.toNat = invalids (log trace)

/-- A call that logs a bad share is counted among all shares. -/
def Advances (entry : ClientEntry) : Prop :=
  entry.after.shareLimiter.totalBadShares ≠ entry.before.shareLimiter.totalBadShares →
    entry.after.shareLimiter.totalShares = entry.before.shareLimiter.totalShares + 1

theorem invalids_le_calls (run : ClientRun setting connection trace last)
    (finds : ∀ entry ∈ trace, findsNoJob entry = false) :
    invalids (log trace) ≤ (limiterCalls trace).length := by
  refine run.invariant (fun trace _ => invalids (log trace) ≤ (limiterCalls trace).length)
    (fun entry => findsNoJob entry = false) finds (Nat.zero_le _) ?_
  intro trace entry bound found stepped
  have logEq : log (trace ++ [entry]) = log trace ++ entry.output.effects := by simp [log]
  rw [logEq, invalids_append, limiterCalls_append, List.length_append]
  rcases invalids_of_step stepped with ⟨missed, _⟩ | ⟨_, one⟩
  · rw [found] at missed
    cases missed
  · omega

theorem counted_of_run (run : ClientRun setting connection trace last)
    (short : trace.length < 2 ^ 64) (finds : ∀ entry ∈ trace, findsNoJob entry = false) :
    Counted trace last := by
  have tally := tally_of_run run
  have bound := invalids_le_calls run finds
  have calls : (limiterCalls trace).length ≤ trace.length := List.length_filterMap_le _ _
  have bad : last.shareLimiter.totalBadShares.toNat = invalids (log trace) := by
    rw [tally.bad, UInt64.toNat_ofNat', Nat.mod_eq_of_lt (by omega)]
  have total : last.shareLimiter.totalShares.toNat = (limiterCalls trace).length := by
    rw [tally.total, UInt64.toNat_ofNat', Nat.mod_eq_of_lt (by omega)]
  exact ⟨UInt64.le_iff_toNat_le.mpr (by omega), bad⟩

/-- A call that finds no job logs a bad share that is not counted. -/
theorem advances_iff {entry : ClientEntry}
    (stepped : entry.before.step setting entry.event = some (entry.after, entry.output)) :
    Advances entry ↔ findsNoJob entry = false := by
  rcases invalids_of_step stepped with ⟨misses, call, one⟩ | ⟨finds, bound⟩
  · refine iff_of_false ?_ (by simp [misses])
    intro advances
    cases counts_of_step stepped with
    | submits found limiter => simp [call] at found
    | rests _ limiter =>
        rw [one] at limiter
        have total : entry.after.shareLimiter.totalShares =
            entry.before.shareLimiter.totalShares := by
          rw [limiter]
          rfl
        have changed : entry.after.shareLimiter.totalBadShares ≠
            entry.before.shareLimiter.totalBadShares := by
          rw [limiter]
          simp [ShareLimiter.logBad]
        have advanced := advances changed
        rw [total] at advanced
        simp at advanced
  · refine iff_of_true ?_ finds
    intro changed
    cases counts_of_step stepped with
    | submits found limiter =>
        rw [limiter]
        exact ShareLimiter.submitted_totalShares
    | rests call limiter =>
        have none : invalids entry.output.effects = 0 := by
          simpa [limiterCalls, call] using bound
        rw [none, ShareLimiter.logBads_zero] at limiter
        rw [limiter] at changed
        exact absurd rfl changed

/--
In every state of a run with fewer calls than the counters can hold, the bad shares are some of all
shares and every one of them is counted, if and only if no submission finds no job.
-/
theorem badShares_iff (run : ClientRun setting connection trace last)
    (short : trace.length < 2 ^ 64) :
    ((∀ earlier later state, trace = earlier ++ later →
        ClientRun setting connection earlier state → Counted earlier state) ∧
      ∀ entry ∈ trace, Advances entry) ↔
    ∀ entry ∈ trace, findsNoJob entry = false := by
  have steps : ∀ entry ∈ trace, Advances entry ↔ findsNoJob entry = false := by
    intro entry entryMem
    rcases run.before_of_mem entryMem with ⟨_, _, _, _, stepped⟩
    exact advances_iff stepped
  constructor
  · rintro ⟨_, advances⟩ entry entryMem
    exact (steps entry entryMem).mp (advances entry entryMem)
  · intro finds
    refine ⟨?_, fun entry entryMem => (steps entry entryMem).mpr (finds entry entryMem)⟩
    rintro earlier later state rfl runEarlier
    refine counted_of_run runEarlier ?_ fun entry entryMem => finds entry ?_
    · rw [List.length_append] at short
      omega
    · exact List.mem_append_left _ entryMem

namespace Sample

/-- The worker submits the same share twice. -/
def sameShareTwice : List Event :=
  opening ++ [⟨submit "0", easyEnv 2⟩, ⟨submit "0", easyEnv 2⟩]

/-- The worker names a job that does not exist. -/
def strayShare : List Event :=
  opening ++ [⟨submit "5", easyEnv 2⟩]

end Sample

/-- A duplicate is one of two shares. -/
theorem badShares_sample :
    ∃ (trace : List ClientEntry) (last : Client),
      ClientRun (Sample.setting (Sample.hash 2)) Sample.connection trace last ∧
      trace.map Entry.event = Sample.sameShareTwice ∧
      last.shareLimiter.totalBadShares = 1 ∧ last.shareLimiter.totalShares = 2 ∧
      (∀ earlier later state, trace = earlier ++ later →
        ClientRun (Sample.setting (Sample.hash 2)) Sample.connection earlier state →
        Counted earlier state) ∧
      ∀ entry ∈ trace, Advances entry := by
  have found : ∃ result ∈ replay (Client.step (Sample.setting (Sample.hash 2)))
      (Client.new Sample.config Sample.connection) Sample.sameShareTwice,
      result.2.shareLimiter.totalBadShares = 1 ∧ result.2.shareLimiter.totalShares = 2 ∧
        result.1.length < 2 ^ 64 ∧ ∀ entry ∈ result.1, findsNoJob entry = false := by
    decide +kernel
  rcases found with ⟨⟨trace, last⟩, replayed, bad, total, short, finds⟩
  have run : ClientRun (Sample.setting (Sample.hash 2)) Sample.connection trace last :=
    .ofReplay replayed
  exact ⟨trace, last, run, map_event_replay replayed, bad, total, (badShares_iff run short).mpr finds⟩

/-- A first share that names no job is one bad share of none. -/
theorem exists_bad_of_none :
    ∃ (trace : List ClientEntry) (last : Client),
      ClientRun (Sample.setting (Sample.hash 2)) Sample.connection trace last ∧
      trace.map Entry.event = Sample.strayShare ∧
      last.shareLimiter.totalBadShares = 1 ∧ last.shareLimiter.totalShares = 0 ∧
      ¬Counted trace last := by
  have found : ∃ result ∈ replay (Client.step (Sample.setting (Sample.hash 2)))
      (Client.new Sample.config Sample.connection) Sample.strayShare,
      result.2.shareLimiter.totalBadShares = 1 ∧ result.2.shareLimiter.totalShares = 0 := by
    decide +kernel
  rcases found with ⟨⟨trace, last⟩, replayed, bad, total⟩
  refine ⟨trace, last, .ofReplay replayed, map_event_replay replayed, bad, total, ?_⟩
  intro counted
  have fraction := counted.fraction
  rw [bad, total] at fraction
  exact absurd fraction (by decide)

end Poolserver.Stratum
