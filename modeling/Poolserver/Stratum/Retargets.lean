import Poolserver.Lib.SlidingWindow
import Poolserver.Stratum.LimiterCalls

/-!
# The checks of the share limiter

Every submission to a job is a call of `ShareLimiter::Submit`, which returns early unless a check
is due. A check prunes the shares it has kept to those of its time buffer and fits the difficulty
to their sum. The shares of the last check are counted from a field that the constructor leaves
unassigned.
-/

namespace Poolserver.Stratum

open Poolserver.Bitcoin RunTrace

namespace Client

/-- The job for which a submission reaches the share limiter. -/
def limitedJob? (env : Env) (msg : JSON) (client : Client) : Option Job :=
  match msg.stringMember "method", msg.member (ascii "params") with
  | .ok method, .ok params =>
      match params.stringAt 0, params.stringAt 1 with
      | .ok username, .ok text =>
          if method = ascii "mining.submit" ∧ username ∈ client.workers then do
            let addr ← client.jobs (parseHex env.uninitialized text).toUInt64
            client.heap[addr]?
          else none
      | _, _ => none
  | _, _ => none

variable {env : Env} {msg : JSON} {client : Client} {job : Job}

theorem limitedJob?_eq_some_iff :
    limitedJob? env msg client = some job ↔ ∃ params username addr,
      ReachesLimiter env msg client params username addr ∧ client.heap[addr]? = some job := by
  constructor
  · intro found
    unfold limitedJob? at found
    split at found
    · rename_i method params methodEq paramsEq
      split at found
      · rename_i username text usernameEq textEq
        split at found
        · rename_i submits
          simp only [Option.bind_eq_bind, Option.bind_eq_some_iff] at found
          rcases found with ⟨addr, pointer, jobAt⟩
          rw [submits.1] at methodEq
          exact ⟨params, username, addr,
            ⟨methodEq, paramsEq, usernameEq, submits.2, text, textEq, pointer⟩, jobAt⟩
        · cases found
      · cases found
    · cases found
  · rintro ⟨params, username, addr, reaches, jobAt⟩
    rcases reaches.jobFound with ⟨text, textEq, pointer⟩
    simp only [limitedJob?, reaches.methodEq, reaches.paramsEq, reaches.usernameEq, textEq,
      reaches.authorized, and_self, if_true, pointer, Option.bind_eq_bind, Option.bind_some, jobAt]

end Client

/-- The difficulty and the time with which a call reaches `ShareLimiter::Submit`. -/
def limiterCall? (entry : ClientEntry) : Option ShareLimiterRecord :=
  match entry.event.action with
  | .message msg =>
      (Client.limitedJob? entry.event.env msg entry.before).map fun job =>
        ⟨job.diff, entry.event.env.limiterTime.toUInt64⟩
  | .sendJob _ => none

/-- The calls of `ShareLimiter::Submit` in a run. -/
def limiterCalls (trace : List ClientEntry) : List ShareLimiterRecord :=
  trace.filterMap limiterCall?

@[simp]
theorem limiterCalls_append (earlier later : List ClientEntry) :
    limiterCalls (earlier ++ later) = limiterCalls earlier ++ limiterCalls later :=
  List.filterMap_append

variable {setting : Setting} {connection : Connection} {trace : List ClientEntry} {last : Client}

/-- A call registers its share with the limiter, or leaves the limiter alone but for bad shares. -/
inductive Counts (setting : Setting) (entry : ClientEntry) : Prop where
  | submits {record : ShareLimiterRecord} (call : limiterCall? entry = some record)
      (limiter : entry.after.shareLimiter =
        (entry.before.shareLimiter.submitted setting record.diff record.time).logBads
          (invalids entry.output.effects))
  | rests (call : limiterCall? entry = none)
      (limiter : entry.after.shareLimiter =
        entry.before.shareLimiter.logBads (invalids entry.output.effects))

theorem limiterCall?_of_unasked {entry : ClientEntry}
    (unasked : ∀ msg, entry.event.action = .message msg →
      ¬Client.AsksLimiter entry.event.env msg entry.before) : limiterCall? entry = none := by
  unfold limiterCall?
  split
  · rename_i msg actionEq
    rw [Option.map_eq_none_iff, Option.eq_none_iff_forall_ne_some]
    intro job found
    rcases Client.limitedJob?_eq_some_iff.mp found with ⟨params, username, addr, reaches, _⟩
    exact unasked msg actionEq ⟨params, username, addr, reaches⟩
  · rfl

theorem counts_of_step {entry : ClientEntry}
    (stepped : entry.before.step setting entry.event = some (entry.after, entry.output)) :
    Counts setting entry := by
  have tallies := Client.step_tallies stepped
  generalize effectsEq : entry.output.effects = effects at tallies
  generalize afterEq : entry.after = after at tallies
  cases tallies with
  | @submits msg params username addr job limited _ sent rest actionEq reaches jobAt limits logs =>
      have found := Client.limitedJob?_eq_some_iff.mpr ⟨params, username, addr, reaches, jobAt⟩
      have call : limiterCall? entry = some ⟨job.diff, entry.event.env.limiterTime.toUInt64⟩ := by
        simp only [limiterCall?, actionEq, found, Option.map_some]
      refine .submits call ?_
      rw [afterEq, logs.limiter, limits.limiter, effectsEq, invalids_append, limits.valid, zero_add]
  | loads actionEq loaded loads =>
      refine .rests (limiterCall?_of_unasked ?_) ?_
      · intro other otherEq
        rw [actionEq, Action.message.injEq] at otherEq
        rw [← otherEq]
        exact Client.not_asks_of_loaded loaded
      · rw [afterEq, loads.limiter, effectsEq, loads.valid, ShareLimiter.logBads_zero]
  | rests unasked unloaded logs =>
      refine .rests (limiterCall?_of_unasked unasked) ?_
      rw [afterEq, logs.limiter, effectsEq]

/-! ## The fields of the limiter -/

namespace ShareLimiter

variable {limiter : ShareLimiter} {diff curTime : UInt64} {config : Config}

theorem early_iff : (limiter.count diff curTime).Early config curTime ↔
    (curTime - limiter.lastRetargetTime).toNat < config.retargetInterval.toNat ∧
      (limiter.totalShares + 1 - limiter.lastRetargetShares).toNat <
        config.retargetSharesThreshold.toNat := by
  simp [Early, count, UInt64.lt_iff_toNat_lt]

@[simp]
theorem submitted_startTime :
    (limiter.submitted setting diff curTime).startTime = limiter.startTime := by
  simp only [submitted]
  split
  · rfl
  · split <;> rfl

@[simp]
theorem submitted_totalShares :
    (limiter.submitted setting diff curTime).totalShares = limiter.totalShares + 1 := by
  simp only [submitted]
  split
  · rfl
  · split <;> rfl

@[simp]
theorem submitted_totalBadShares :
    (limiter.submitted setting diff curTime).totalBadShares = limiter.totalBadShares := by
  simp only [submitted]
  split
  · rfl
  · split <;> rfl

theorem submitted_of_early
    (early : (limiter.count diff curTime).Early setting.config curTime) :
    limiter.submitted setting diff curTime = limiter.count diff curTime := by
  simp only [submitted, if_pos early]

/-- A check is noted, whether or not the miner is banned in it. -/
theorem submitted_of_late
    (late : ¬(limiter.count diff curTime).Early setting.config curTime) :
    (limiter.submitted setting diff curTime).lastRetargetTime = curTime ∧
      (limiter.submitted setting diff curTime).lastRetargetShares = limiter.totalShares + 1 := by
  simp only [submitted, if_neg late]
  split
  · exact ⟨rfl, rfl⟩
  · exact ⟨rfl, rfl⟩

end ShareLimiter

/-! ## Checks -/

/-- The call goes past the early return. -/
def Checks (config : Config) (entry : ClientEntry) (record : ShareLimiterRecord) : Prop :=
  ¬(entry.before.shareLimiter.count record.diff record.time).Early config record.time

instance (config : Config) (entry : ClientEntry) (record : ShareLimiterRecord) :
    Decidable (Checks config entry record) :=
  inferInstanceAs (Decidable (¬_))

/-- The time of the last check, and the number of shares submitted since. -/
structure LastCheck where
  time : ℕ
  shares : ℕ

/-- What is known of the last check after another call. -/
def noteCheck (config : Config) (check : LastCheck) (entry : ClientEntry) : LastCheck :=
  match limiterCall? entry with
  | none => check
  | some record =>
      if Checks config entry record then ⟨record.time.toNat, 0⟩
      else { check with shares := check.shares + 1 }

/-- The last check of a run, which begins at a start time. -/
def lastCheck (config : Config) (start : ℕ) (trace : List ClientEntry) : LastCheck :=
  trace.foldl (noteCheck config) ⟨start, 0⟩

/-- A check is due in a call at that time. -/
def LastCheck.Due (config : Config) (check : LastCheck) (time : ℕ) : Prop :=
  check.time + config.retargetInterval.toNat ≤ time ∨
    config.retargetSharesThreshold.toNat ≤ check.shares + 1

/-- There has been a check. -/
def HasChecked (config : Config) (trace : List ClientEntry) : Prop :=
  ∃ entry ∈ trace, ∃ record, limiterCall? entry = some record ∧ Checks config entry record

theorem lastCheck_snoc (config : Config) (start : ℕ) (trace : List ClientEntry)
    (entry : ClientEntry) :
    lastCheck config start (trace ++ [entry]) =
      noteCheck config (lastCheck config start trace) entry := by
  simp [lastCheck]

theorem hasChecked_snoc {config : Config} {entry : ClientEntry} :
    HasChecked config (trace ++ [entry]) ↔ HasChecked config trace ∨
      ∃ record, limiterCall? entry = some record ∧ Checks config entry record := by
  simp [HasChecked, or_and_right, exists_or]

/-- `_startTime` as it is computed when the client is constructed. -/
def Connection.startTime (connection : Connection) : ℕ :=
  (connection.date - 10).toNat

/-- What the share limiter knows of the last check. -/
structure Knows (config : Config) (connection : Connection) (trace : List ClientEntry)
    (client : Client) : Prop where
  startTime : client.shareLimiter.startTime.toNat = connection.startTime
  time : client.shareLimiter.lastRetargetTime.toNat =
    (lastCheck config connection.startTime trace).time
  known : HasChecked config trace →
    (∃ record ∈ limiterCalls trace,
      (lastCheck config connection.startTime trace).time = record.time.toNat) ∧
    client.shareLimiter.totalShares - client.shareLimiter.lastRetargetShares =
      UInt64.ofNat (lastCheck config connection.startTime trace).shares ∧
    (lastCheck config connection.startTime trace).shares ≤ config.retargetSharesThreshold.toNat
  unknown : ¬HasChecked config trace →
    client.shareLimiter.lastRetargetShares = connection.uninitializedShares ∧
    client.shareLimiter.totalShares = UInt64.ofNat (limiterCalls trace).length ∧
    lastCheck config connection.startTime trace =
      ⟨connection.startTime, (limiterCalls trace).length⟩

/-- After a check, the shares since then are counted right. -/
theorem Knows.shareCount {config : Config} {client : Client}
    (knows : Knows config connection trace client) (checked : HasChecked config trace) :
    client.shareLimiter.totalShares + 1 - client.shareLimiter.lastRetargetShares =
        UInt64.ofNat ((lastCheck config connection.startTime trace).shares + 1) ∧
      (client.shareLimiter.totalShares + 1 - client.shareLimiter.lastRetargetShares).toNat =
        (lastCheck config connection.startTime trace).shares + 1 := by
  rcases knows.known checked with ⟨_, count, bound⟩
  have small := config.retargetSharesThreshold.toNat_lt
  have counted : client.shareLimiter.totalShares + 1 - client.shareLimiter.lastRetargetShares =
      UInt64.ofNat ((lastCheck config connection.startTime trace).shares + 1) := by
    rw [UInt64.ofNat_add, ← count]
    grind
  refine ⟨counted, ?_⟩
  rw [counted, UInt64.toNat_ofNat', Nat.mod_eq_of_lt (by omega)]

theorem knows_of_step {entry : ClientEntry}
    (knows : Knows setting.config connection trace entry.before)
    (stepped : entry.before.step setting entry.event = some (entry.after, entry.output)) :
    Knows setting.config connection (trace ++ [entry]) entry.after := by
  cases counts_of_step stepped with
  | rests call limiter =>
      have sameCheck : lastCheck setting.config connection.startTime (trace ++ [entry]) =
          lastCheck setting.config connection.startTime trace := by
        simp [lastCheck_snoc, noteCheck, call]
      have sameCalls : limiterCalls (trace ++ [entry]) = limiterCalls trace := by
        simp [limiterCalls, call]
      have sameChecked : HasChecked setting.config (trace ++ [entry]) ↔
          HasChecked setting.config trace := by
        simp [hasChecked_snoc, call]
      constructor
      · rw [limiter]
        exact knows.startTime
      · rw [limiter, sameCheck]
        exact knows.time
      · rw [limiter, sameCheck, sameCalls, sameChecked]
        exact knows.known
      · rw [limiter, sameCheck, sameCalls, sameChecked]
        exact knows.unknown
  | @submits record call limiter =>
      have calls : limiterCalls (trace ++ [entry]) = limiterCalls trace ++ [record] := by
        simp [limiterCalls, call]
      by_cases early : (entry.before.shareLimiter.count record.diff record.time).Early
        setting.config record.time
      · have unchecked : ¬Checks setting.config entry record := not_not.mpr early
        have check : lastCheck setting.config connection.startTime (trace ++ [entry]) =
            { lastCheck setting.config connection.startTime trace with
              shares := (lastCheck setting.config connection.startTime trace).shares + 1 } := by
          simp [lastCheck_snoc, noteCheck, call, unchecked]
        have sameChecked : HasChecked setting.config (trace ++ [entry]) ↔
            HasChecked setting.config trace := by
          simp [hasChecked_snoc, call, unchecked]
        rw [ShareLimiter.submitted_of_early early] at limiter
        rw [ShareLimiter.early_iff] at early
        constructor
        · rw [limiter]
          exact knows.startTime
        · rw [limiter, check]
          exact knows.time
        · intro checked
          rcases knows.known (sameChecked.mp checked) with ⟨⟨last, lastMem, timeEq⟩, count, bound⟩
          rcases knows.shareCount (sameChecked.mp checked) with ⟨counted, countedNat⟩
          refine ⟨⟨last, ?_, ?_⟩, ?_, ?_⟩
          · rw [calls]
            exact List.mem_append_left _ lastMem
          · rw [check]
            exact timeEq
          · rw [limiter, check]
            exact counted
          · have fewer := early.2
            rw [countedNat] at fewer
            rw [check]
            exact fewer.le
        · intro unchecked
          rcases knows.unknown (sameChecked.not.mp unchecked) with ⟨uninitialized, total, checkEq⟩
          refine ⟨?_, ?_, ?_⟩
          · rw [limiter]
            exact uninitialized
          · rw [limiter, calls, List.length_append, UInt64.ofNat_add, ← total]
            rfl
          · rw [check, checkEq, calls, List.length_append]
            rfl
      · have checks : Checks setting.config entry record := early
        have check : lastCheck setting.config connection.startTime (trace ++ [entry]) =
            ⟨record.time.toNat, 0⟩ := by
          simp [lastCheck_snoc, noteCheck, call, checks]
        have nowChecked : HasChecked setting.config (trace ++ [entry]) :=
          hasChecked_snoc.mpr (Or.inr ⟨record, call, checks⟩)
        have marked := ShareLimiter.submitted_of_late early
        constructor
        · rw [limiter]
          exact (congrArg UInt64.toNat ShareLimiter.submitted_startTime).trans knows.startTime
        · rw [limiter, check]
          exact congrArg UInt64.toNat marked.1
        · intro _
          refine ⟨⟨record, ?_, ?_⟩, ?_, ?_⟩
          · rw [calls]
            simp
          · rw [check]
          · rw [limiter, check]
            change (entry.before.shareLimiter.submitted setting record.diff record.time).totalShares -
              (entry.before.shareLimiter.submitted setting record.diff record.time).lastRetargetShares
                = 0
            rw [ShareLimiter.submitted_totalShares, marked.2, UInt64.sub_self]
          · rw [check]
            exact Nat.zero_le _
        · exact fun unchecked => absurd nowChecked unchecked

theorem knows_of_run (run : ClientRun setting connection trace last) :
    Knows setting.config connection trace last := by
  refine run.invariant (Knows setting.config connection) (fun _ => True) (fun _ _ => trivial) ?_
    (fun _ _ held _ stepped => knows_of_step held stepped)
  have never : ¬HasChecked setting.config [] := by
    rintro ⟨entry, entryMem, _⟩
    cases entryMem
  exact ⟨UInt32.toNat_toUInt64 _, UInt32.toNat_toUInt64 _, fun checked => absurd checked never,
    fun _ => ⟨rfl, rfl, rfl⟩⟩

/-- The clock of the share limiter does not go backwards. -/
def Nondecreasing (trace : List ClientEntry) : Prop :=
  (limiterCalls trace).Pairwise fun first second => first.time.toNat ≤ second.time.toNat

/--
For a call with that many submissions before it, the uninitialized count of the last retarget does
not matter.
-/
def CountsRight (config : Config) (connection : Connection) (trace : List ClientEntry)
    (record : ShareLimiterRecord) : Prop :=
  HasChecked config trace ∨
    connection.startTime + config.retargetInterval.toNat ≤ record.time.toNat ∨
    ((record.time.toNat < connection.startTime ∨
        config.retargetSharesThreshold.toNat ≤
          (UInt64.ofNat ((limiterCalls trace).length + 1) - connection.uninitializedShares).toNat) ↔
      config.retargetSharesThreshold.toNat ≤ (limiterCalls trace).length + 1)

theorem toNat_sub_of_lt {first second : UInt64} (less : first.toNat < second.toNat) :
    (first - second).toNat = 2 ^ 64 + first.toNat - second.toNat := by
  rw [UInt64.toNat_sub]
  have := first.toNat_lt
  have := second.toNat_lt
  omega

/--
Whether a check happens just when it is due depends, before the first check, on the field that the
constructor leaves unassigned.
-/
theorem checks_due_iff (run : ClientRun setting connection trace last)
    (clock : Nondecreasing trace) {earlier later : List ClientEntry} {entry : ClientEntry}
    {record : ShareLimiterRecord} (split : trace = earlier ++ entry :: later)
    (call : limiterCall? entry = some record) :
    (Checks setting.config entry record ↔
        (lastCheck setting.config connection.startTime earlier).Due setting.config
          record.time.toNat) ↔
      CountsRight setting.config connection earlier record := by
  rw [split] at run clock
  have knows := knows_of_run run.split.1
  have clockBefore : ∀ other ∈ limiterCalls earlier, other.time.toNat ≤ record.time.toNat := by
    intro other otherMem
    rw [Nondecreasing, limiterCalls_append, List.pairwise_append] at clock
    exact clock.2.2 other otherMem record (List.mem_filterMap.mpr ⟨entry, List.mem_cons_self, call⟩)
  have smallInterval := setting.config.retargetInterval.toNat_lt
  have checks : Checks setting.config entry record ↔
      setting.config.retargetInterval.toNat ≤
          (record.time - entry.before.shareLimiter.lastRetargetTime).toNat ∨
        setting.config.retargetSharesThreshold.toNat ≤ (entry.before.shareLimiter.totalShares + 1 -
          entry.before.shareLimiter.lastRetargetShares).toNat := by
    rw [Checks, ShareLimiter.early_iff]
    omega
  by_cases checked : HasChecked setting.config earlier
  · refine iff_of_true ?_ (Or.inl checked)
    rcases knows.known checked with ⟨⟨last, lastMem, timeEq⟩, _⟩
    have ordered := clockBefore last lastMem
    have timeBefore := knows.time
    have elapsed : (record.time - entry.before.shareLimiter.lastRetargetTime).toNat =
        record.time.toNat - entry.before.shareLimiter.lastRetargetTime.toNat :=
      UInt64.toNat_sub_of_le _ _ (UInt64.le_iff_toNat_le.mpr (by omega))
    rw [checks, (knows.shareCount checked).2, LastCheck.Due, elapsed]
    omega
  · rcases knows.unknown checked with ⟨uninitialized, total, checkEq⟩
    have total_succ : entry.before.shareLimiter.totalShares + 1 =
        UInt64.ofNat ((limiterCalls earlier).length + 1) := by
      rw [total, UInt64.ofNat_add]
      rfl
    have timeBefore : entry.before.shareLimiter.lastRetargetTime.toNat = connection.startTime := by
      rw [knows.time, checkEq]
    have startSmall : connection.startTime < 2 ^ 32 := (connection.date - 10).toNat_lt
    rw [CountsRight, or_iff_right checked, checks, checkEq, LastCheck.Due, total_succ, uninitialized]
    generalize (UInt64.ofNat ((limiterCalls earlier).length + 1) -
      connection.uninitializedShares).toNat = shares
    dsimp only
    rcases lt_or_ge record.time.toNat connection.startTime with early | late
    · have wrapped : (record.time - entry.before.shareLimiter.lastRetargetTime).toNat =
          2 ^ 64 + record.time.toNat - entry.before.shareLimiter.lastRetargetTime.toNat :=
        toNat_sub_of_lt (by omega)
      rw [wrapped]
      omega
    · have elapsed : (record.time - entry.before.shareLimiter.lastRetargetTime).toNat =
          record.time.toNat - entry.before.shareLimiter.lastRetargetTime.toNat :=
        UInt64.toNat_sub_of_le _ _ (UInt64.le_iff_toNat_le.mpr (by omega))
      rw [elapsed]
      omega

instance (config : Config) (check : LastCheck) (time : ℕ) : Decidable (check.Due config time) :=
  inferInstanceAs (Decidable (_ ∨ _))

namespace Sample

/-- A connection whose share limiter finds that number in the unassigned field. -/
def connectionWith (uninitializedShares : UInt64) : Connection :=
  { Sample.connection with uninitializedShares }

/-- The first share of the worker, twenty seconds behind the start time. -/
def firstShare : Event :=
  ⟨submit "0", easyEnv 2⟩

end Sample

/-- With nothing in the unassigned field, the first share is no reason for a check. -/
theorem checks_due_sample :
    ∃ (trace : List ClientEntry) (last : Client) (earlier : List ClientEntry) (entry : ClientEntry)
      (record : ShareLimiterRecord),
      ClientRun (Sample.setting (Sample.hash 2)) (Sample.connectionWith 0) trace last ∧
      trace = earlier ++ [entry] ∧ entry.event = Sample.firstShare ∧
      limiterCall? entry = some record ∧ ¬Checks Sample.config entry record ∧
      (Checks Sample.config entry record ↔
        (lastCheck Sample.config (Sample.connectionWith 0).startTime earlier).Due Sample.config
          record.time.toNat) := by
  have found : ∃ opened ∈ replay (Client.step (Sample.setting (Sample.hash 2)))
      (Client.new Sample.config (Sample.connectionWith 0)) Sample.opening,
      ∃ next ∈ opened.2.step (Sample.setting (Sample.hash 2)) Sample.firstShare,
        limiterCalls opened.1 = [] ∧
        limiterCall? ⟨opened.2, Sample.firstShare, next.2, next.1⟩ = some ⟨16, 1388534420⟩ ∧
        ¬Checks Sample.config ⟨opened.2, Sample.firstShare, next.2, next.1⟩ ⟨16, 1388534420⟩ := by
    decide +kernel
  rcases found with ⟨⟨earlier, middle⟩, replayed, ⟨last, output⟩, stepped, none, call, early⟩
  have run : ClientRun (Sample.setting (Sample.hash 2)) (Sample.connectionWith 0) _ last :=
    (Run.ofReplay replayed).extend stepped
  refine ⟨_, last, earlier, _, _, run, rfl, rfl, call, early, ?_⟩
  refine (checks_due_iff run ?_ rfl call).mpr (Or.inr (Or.inr ?_))
  · rw [Nondecreasing, limiterCalls_append, none]
    simp [limiterCalls, call]
  · rw [none]
    decide

/-- With a number there, the first share is checked although no check is due. -/
theorem exists_check_not_due :
    ∃ (trace : List ClientEntry) (last : Client) (earlier : List ClientEntry) (entry : ClientEntry)
      (record : ShareLimiterRecord),
      ClientRun (Sample.setting (Sample.hash 2)) (Sample.connectionWith 5) trace last ∧
      Nondecreasing trace ∧ trace = earlier ++ [entry] ∧ entry.event = Sample.firstShare ∧
      limiterCall? entry = some record ∧ Checks Sample.config entry record ∧
      ¬(lastCheck Sample.config (Sample.connectionWith 5).startTime earlier).Due Sample.config
        record.time.toNat := by
  have found : ∃ opened ∈ replay (Client.step (Sample.setting (Sample.hash 2)))
      (Client.new Sample.config (Sample.connectionWith 5)) Sample.opening,
      ∃ next ∈ opened.2.step (Sample.setting (Sample.hash 2)) Sample.firstShare,
        limiterCalls opened.1 = [] ∧
        limiterCall? ⟨opened.2, Sample.firstShare, next.2, next.1⟩ = some ⟨16, 1388534420⟩ ∧
        Checks Sample.config ⟨opened.2, Sample.firstShare, next.2, next.1⟩ ⟨16, 1388534420⟩ ∧
        ¬(lastCheck Sample.config (Sample.connectionWith 5).startTime opened.1).Due Sample.config
          1388534420 := by
    decide +kernel
  rcases found with ⟨⟨earlier, middle⟩, replayed, ⟨last, output⟩, stepped, none, call, late, early⟩
  have run : ClientRun (Sample.setting (Sample.hash 2)) (Sample.connectionWith 5) _ last :=
    (Run.ofReplay replayed).extend stepped
  refine ⟨_, last, earlier, _, _, run, ?_, rfl, rfl, call, late, early⟩
  rw [Nondecreasing, limiterCalls_append, none]
  simp [limiterCalls, call]

end Poolserver.Stratum
