import Poolserver.Stratum.Retargets

/-!
# The window of the hashrate

The share limiter drops old shares only in a check, and only from the front. On a clock that does
not go backwards, what it sums up in a check are the difficulties of all the calls so far whose
time is within the time buffer.
-/

namespace Poolserver.Stratum

open RunTrace SlidingWindow

/-! ## The loop over the shares -/

/-- The loop that adds up the shares, with a 32-bit counter; a sum is what it ends with. -/
inductive Weighs (shares : List ShareLimiterRecord) : UInt32 → ℕ → ℕ → Prop where
  | done {i : UInt32} {totalWeighted : ℕ} (ends : ¬i.toNat < shares.length) :
      Weighs shares i totalWeighted totalWeighted
  | next {i : UInt32} {totalWeighted result : ℕ} {share : ShareLimiterRecord}
      (shareAt : shares[i.toNat]? = some share)
      (rest : Weighs shares (i + 1) (totalWeighted + share.diff.toNat) result) :
      Weighs shares i totalWeighted result

variable {shares : List ShareLimiterRecord} {i : UInt32} {totalWeighted result : ℕ}

/-- The loop does not end when the counter cannot reach the number of shares. -/
theorem Weighs.length_lt (weighs : Weighs shares i totalWeighted result) :
    shares.length < 2 ^ 32 := by
  induction weighs with
  | @done i totalWeighted ends =>
      have := i.toNat_lt
      omega
  | next shareAt rest ih => exact ih

theorem toNat_succ {i : UInt32} (small : i.toNat + 1 < 2 ^ 32) : (i + 1).toNat = i.toNat + 1 := by
  rw [UInt32.toNat_add]
  exact Nat.mod_eq_of_lt small

theorem Weighs.sum_drop (weighs : Weighs shares i totalWeighted result) :
    result = totalWeighted + ((shares.drop i.toNat).map fun share => share.diff.toNat).sum := by
  have small := weighs.length_lt
  induction weighs with
  | done ends => simp [List.drop_eq_nil_of_le (not_lt.mp ends)]
  | @next i totalWeighted result share shareAt rest ih =>
      rcases List.getElem?_eq_some_iff.mp shareAt with ⟨inside, shareEq⟩
      have step := toNat_succ (i := i) (by omega)
      rw [ih, step, List.drop_eq_getElem_cons inside, shareEq, List.map_cons, List.sum_cons]
      omega

theorem weighs_of_length_lt (small : shares.length < 2 ^ 32) (count : ℕ) {i : UInt32}
    (remaining : i.toNat + count = shares.length) (totalWeighted : ℕ) :
    ∃ result, Weighs shares i totalWeighted result := by
  induction count generalizing i totalWeighted with
  | zero => exact ⟨totalWeighted, .done (by omega)⟩
  | succ count ih =>
      have inside : i.toNat < shares.length := by omega
      have step := toNat_succ (i := i) (by omega)
      rcases @ih (i + 1) (by omega) (totalWeighted + shares[i.toNat].diff.toNat) with ⟨result, rest⟩
      exact ⟨result, .next (List.getElem?_eq_getElem inside) rest⟩

/-- The loop adds up all shares, if there are not too many of them for its counter. -/
theorem weighs_iff : Weighs shares 0 0 result ↔
    shares.length < 2 ^ 32 ∧ result = (shares.map fun share => share.diff.toNat).sum := by
  constructor
  · intro weighs
    exact ⟨weighs.length_lt, by simpa using weighs.sum_drop⟩
  · rintro ⟨small, rfl⟩
    have remaining : (0 : UInt32).toNat + shares.length = shares.length := Nat.zero_add _
    rcases weighs_of_length_lt small shares.length remaining 0 with ⟨result, weighs⟩
    have sum := weighs.sum_drop
    rw [UInt32.toNat_zero, List.drop_zero, zero_add] at sum
    rwa [← sum]

/-! ## The window -/

namespace ShareLimiter

/-- The limiter when it calculates the hashrate. -/
def pruned (config : Config) (diff curTime : UInt64) (limiter : ShareLimiter) : ShareLimiter :=
  ((limiter.count diff curTime).markRetarget curTime).dropOld config curTime

/-- The seconds by which the hashrate is divided. -/
def interval (config : Config) (limiter : ShareLimiter) (curTime : UInt64) : UInt64 :=
  stdMin (curTime - limiter.startTime) config.retargetTimeBuffer.toUInt64

end ShareLimiter

variable {setting : Setting} {connection : Connection} {trace : List ClientEntry} {last : Client}

/-- An integer is moved to the nearest one between two bounds. -/
theorem dist_clamp_le (low high first second : ℕ) :
    Nat.dist (min (max first low) high) (min (max second low) high) ≤ Nat.dist first second := by
  simp only [Nat.dist]
  omega

/-- The new difficulty fits the kept shares and the interval, up to one and within the limits. -/
theorem newDiff_near {timePerShare : ℚ} {floating : FloatingPoint} {config : Config}
    {limiter : ShareLimiter} {curTime : UInt64} (documented : floating.Documented timePerShare)
    (elapsed : 0 < limiter.interval config curTime)
    (small : FloatingPoint.fitting timePerShare (limiter.shares.map (·.diff))
      (limiter.interval config curTime) < 2 ^ 49) :
    Nat.dist (limiter.newDiff config floating curTime).toNat
      (min (max (FloatingPoint.fitting timePerShare (limiter.shares.map (·.diff))
        (limiter.interval config curTime)) config.retargetMinDiff.toNat)
        config.retargetMaxDiff.toNat) ≤ 1 := by
  have near := documented.newDiff_near _ _ elapsed small
  generalize FloatingPoint.fitting _ _ _ = fitting at near ⊢
  have clamped : (limiter.newDiff config floating curTime).toNat =
      min (max (floating.newDiff (limiter.shares.map (·.diff))
        (limiter.interval config curTime)).toNat config.retargetMinDiff.toNat)
        config.retargetMaxDiff.toNat := by
    unfold ShareLimiter.newDiff ShareLimiter.interval
    simp only [UInt64.lt_iff_toNat_lt]
    split_ifs <;> simp only [UInt32.toNat_toUInt64] at * <;> omega
  rw [clamped]
  exact (dist_clamp_le _ _ _ _).trans near

/-- A call that gets as far as the hashrate. -/
structure ReachesHashrate (setting : Setting) (entry : ClientEntry) (record : ShareLimiterRecord) :
    Prop where
  call : limiterCall? entry = some record
  late : Checks setting.config entry record
  good : ¬(200 < entry.before.shareLimiter.totalShares + 1 ∧
    setting.floating.tooManyBad entry.before.shareLimiter.totalBadShares
      (entry.before.shareLimiter.totalShares + 1))

/-- From the hashrate on, the call works with the pruned limiter. -/
theorem ReachesHashrate.limitShare_eq {entry : ClientEntry} {record : ShareLimiterRecord}
    (reaches : ReachesHashrate setting entry record) {env : Env}
    (time : env.limiterTime.toUInt64 = record.time) :
    entry.before.limitShare setting.config setting.floating env record.diff =
      Client.retarget setting.config setting.floating env
        { entry.before with
          shareLimiter := entry.before.shareLimiter.pruned setting.config record.diff record.time } := by
  unfold Client.limitShare
  dsimp only
  rw [time, if_neg reaches.late]
  exact if_neg reaches.good

/--
The clock of the share limiter does not go backwards from the construction of the client on, and
its values exceed the time buffer and the ten seconds that are taken off the start time.
-/
structure Clock (config : Config) (connection : Connection) (trace : List ClientEntry) : Prop where
  nondecreasing : Nondecreasing trace
  construction : ∀ record ∈ limiterCalls trace, connection.date.toNat ≤ record.time.toNat
  buffer : config.retargetTimeBuffer.toNat < connection.date.toNat
  ten : 10 < connection.date.toNat

/-- The calls within the time buffer at a time. -/
def window (config : Config) (time : ℕ) (trace : List ClientEntry) : List ShareLimiterRecord :=
  (limiterCalls trace).filter fun record =>
    time - config.retargetTimeBuffer.toNat < record.time.toNat

theorem Nondecreasing.le_last {entry : ClientEntry} {record : ShareLimiterRecord}
    (clock : Nondecreasing (trace ++ [entry])) (call : limiterCall? entry = some record)
    {other : ShareLimiterRecord} (otherMem : other ∈ limiterCalls trace) :
    other.time.toNat ≤ record.time.toNat := by
  rw [Nondecreasing, limiterCalls_append, List.pairwise_append] at clock
  exact clock.2.2 other otherMem record (List.mem_filterMap.mpr ⟨entry, List.mem_cons_self, call⟩)

theorem Clock.left {config : Config} {later : List ClientEntry}
    (clock : Clock config connection (trace ++ later)) : Clock config connection trace where
  nondecreasing := by
    have whole := clock.nondecreasing
    rw [Nondecreasing, limiterCalls_append, List.pairwise_append] at whole
    exact whole.1
  construction := by
    intro record recordMem
    apply clock.construction record
    rw [limiterCalls_append]
    exact List.mem_append_left _ recordMem
  buffer := clock.buffer
  ten := clock.ten

theorem ShareLimiter.dropOld_shares {config : Config} {limiter : ShareLimiter} {curTime : UInt64}
    (late : config.retargetTimeBuffer.toNat ≤ curTime.toNat) :
    (limiter.dropOld config curTime).shares = prune (fun share => share.time.toNat)
      (curTime.toNat - config.retargetTimeBuffer.toNat) limiter.shares := by
  have cutoff : (curTime - config.retargetTimeBuffer.toUInt64).toNat =
      curTime.toNat - config.retargetTimeBuffer.toNat := by
    rw [UInt64.toNat_sub_of_le _ _ (UInt64.le_iff_toNat_le.mpr (by simpa using late)),
      UInt32.toNat_toUInt64]
  simp only [ShareLimiter.dropOld, prune, UInt64.lt_iff_toNat_lt, cutoff, not_lt]

/-- The kept shares are the end of all calls, and those before it are out of every later window. -/
def Keeps (config : Config) (trace : List ClientEntry) (client : Client) : Prop :=
  ∃ cutoff, Covers (fun share : ShareLimiterRecord => share.time.toNat) cutoff (limiterCalls trace)
      client.shareLimiter.shares ∧
    ∀ time, (∀ record ∈ limiterCalls trace, record.time.toNat ≤ time) →
      cutoff ≤ time - config.retargetTimeBuffer.toNat

/-- With a share more, the kept shares are covered from the cutoff of its time on. -/
theorem Keeps.covers {client : Client} {entry : ClientEntry} {record : ShareLimiterRecord}
    (keeps : Keeps setting.config trace client) (call : limiterCall? entry = some record)
    (clock : Nondecreasing (trace ++ [entry])) :
    Covers (fun share : ShareLimiterRecord => share.time.toNat)
      (record.time.toNat - setting.config.retargetTimeBuffer.toNat)
      (limiterCalls (trace ++ [entry])) (client.shareLimiter.shares ++ [record]) := by
  rcases keeps with ⟨cutoff, covers, bound⟩
  have calls : limiterCalls (trace ++ [entry]) = limiterCalls trace ++ [record] := by
    simp [limiterCalls, call]
  rw [calls]
  exact (covers.push record).mono (bound _ fun other otherMem => clock.le_last call otherMem)

theorem keeps_of_step {entry : ClientEntry}
    (keeps : Keeps setting.config trace entry.before)
    (clock : Clock setting.config connection (trace ++ [entry]))
    (stepped : entry.before.step setting entry.event = some (entry.after, entry.output)) :
    Keeps setting.config (trace ++ [entry]) entry.after := by
  cases counts_of_step stepped with
  | rests call limiter =>
      have calls : limiterCalls (trace ++ [entry]) = limiterCalls trace := by
        simp [limiterCalls, call]
      rw [Keeps, calls, limiter]
      exact keeps
  | @submits record call limiter =>
      have covers := keeps.covers call clock.nondecreasing
      have recordMem : record ∈ limiterCalls (trace ++ [entry]) := by
        simp [limiterCalls, call]
      refine ⟨_, ?_, fun time latest => Nat.sub_le_sub_right (latest record recordMem) _⟩
      have construction := clock.construction record recordMem
      have buffer := clock.buffer
      rw [limiter]
      change Covers _ _ _ (entry.before.shareLimiter.submitted setting record.diff record.time).shares
      simp only [ShareLimiter.submitted]
      split
      · exact covers
      · split
        · exact covers
        · rw [ShareLimiter.dropOld_shares (by omega)]
          exact covers.prune

theorem keeps_of_run (run : ClientRun setting connection trace last)
    (clock : Clock setting.config connection trace) : Keeps setting.config trace last := by
  induction run with
  | nil => exact ⟨0, .nil _ 0, fun _ _ => Nat.zero_le _⟩
  | snoc run stepped ih => exact keeps_of_step (ih clock.left) clock stepped

/--
In a check, the loop adds up the difficulties of just the calls within the time buffer, and what
the hashrate is divided by is not zero.
-/
theorem window_exact (run : ClientRun setting connection trace last)
    (clock : Clock setting.config connection trace) {earlier later : List ClientEntry}
    {entry : ClientEntry} {record : ShareLimiterRecord} (split : trace = earlier ++ entry :: later)
    (reaches : ReachesHashrate setting entry record) :
    (∀ totalWeighted,
      Weighs (entry.before.shareLimiter.pruned setting.config record.diff record.time).shares 0 0
          totalWeighted →
        totalWeighted = ((window setting.config record.time.toNat (earlier ++ [entry])).map
          fun share => share.diff.toNat).sum) ∧
      (1 ≤ setting.config.retargetTimeBuffer.toNat →
        1 ≤ ((entry.before.shareLimiter.pruned setting.config record.diff record.time).interval
          setting.config record.time).toNat) := by
  have splitAgain : trace = (earlier ++ [entry]) ++ later := by simp [split]
  rw [splitAgain] at clock
  rw [split] at run
  have clockNow := clock.left
  have recordMem : record ∈ limiterCalls (earlier ++ [entry]) := by
    simp [limiterCalls, reaches.call]
  have construction := clockNow.construction record recordMem
  have buffer := clockNow.buffer
  have covers := (keeps_of_run run.split.1 clockNow.left).covers reaches.call clockNow.nondecreasing
  have kept : (entry.before.shareLimiter.pruned setting.config record.diff record.time).shares =
      window setting.config record.time.toNat (earlier ++ [entry]) := by
    rw [ShareLimiter.pruned, ShareLimiter.dropOld_shares (by omega)]
    exact covers.prune_eq clockNow.nondecreasing
  constructor
  · intro totalWeighted weighs
    rw [kept] at weighs
    exact (weighs_iff.mp weighs).2
  · intro positive
    have ten := clockNow.ten
    have tenLe : (10 : UInt32) ≤ connection.date := UInt32.le_iff_toNat_le.mpr ten.le
    have startTime : (record.time - entry.before.shareLimiter.startTime).toNat =
        record.time.toNat - (connection.date.toNat - 10) := by
      have known := (knows_of_run run.split.1).startTime
      rw [Connection.startTime, UInt32.toNat_sub_of_le _ _ tenLe] at known
      change _ = connection.date.toNat - 10 at known
      rw [UInt64.toNat_sub_of_le _ _ (UInt64.le_iff_toNat_le.mpr (by omega)), known]
    change 1 ≤ (stdMin (record.time - entry.before.shareLimiter.startTime)
      setting.config.retargetTimeBuffer.toUInt64).toNat
    unfold stdMin
    split
    · simpa using positive
    · omega

namespace Sample

/-- A share of the worker at that time. -/
def shareAt (limiterTime : UInt32) : Event :=
  ⟨submit "0", { easyEnv 2 with limiterTime }⟩

end Sample

/-- Three shares, the first of which is out of the time buffer in the check of the third. -/
theorem window_sample :
    ∃ (trace : List ClientEntry) (last : Client) (earlier : List ClientEntry) (entry : ClientEntry)
      (record : ShareLimiterRecord),
      ClientRun (Sample.setting (Sample.hash 2)) Sample.connection trace last ∧
      trace = earlier ++ [entry] ∧
      limiterCalls trace = [⟨16, 1388534410⟩, ⟨16, 1388534710⟩, ⟨16, 1388534770⟩] ∧
      Weighs (entry.before.shareLimiter.pruned Sample.config record.diff record.time).shares 0 0 32 ∧
      32 = ((window Sample.config record.time.toNat (earlier ++ [entry])).map
        fun share => share.diff.toNat).sum := by
  have found : ∃ opened ∈ replay (Client.step (Sample.setting (Sample.hash 2)))
      (Client.new Sample.config Sample.connection)
      (Sample.opening ++ [Sample.shareAt 1388534410, Sample.shareAt 1388534710]),
      ∃ next ∈ opened.2.step (Sample.setting (Sample.hash 2)) (Sample.shareAt 1388534770),
        limiterCalls opened.1 = [⟨16, 1388534410⟩, ⟨16, 1388534710⟩] ∧
        limiterCall? ⟨opened.2, Sample.shareAt 1388534770, next.2, next.1⟩ =
          some ⟨16, 1388534770⟩ ∧
        ¬200 < opened.2.shareLimiter.totalShares + 1 ∧
        Checks Sample.config ⟨opened.2, Sample.shareAt 1388534770, next.2, next.1⟩
          ⟨16, 1388534770⟩ ∧
        (opened.2.shareLimiter.pruned Sample.config 16 1388534770).shares =
          [⟨16, 1388534710⟩, ⟨16, 1388534770⟩] := by
    decide +kernel
  rcases found with ⟨⟨earlier, middle⟩, replayed, ⟨last, output⟩, stepped, before, call, few, late, kept⟩
  have run : ClientRun (Sample.setting (Sample.hash 2)) Sample.connection _ last :=
    (Run.ofReplay replayed).extend stepped
  have calls : limiterCalls (earlier ++
      [⟨middle, Sample.shareAt 1388534770, output, last⟩]) =
      [⟨16, 1388534410⟩, ⟨16, 1388534710⟩, ⟨16, 1388534770⟩] := by
    rw [limiterCalls_append, before]
    simp [limiterCalls, call]
  have clock : Clock Sample.config Sample.connection (earlier ++
      [⟨middle, Sample.shareAt 1388534770, output, last⟩]) := by
    refine ⟨?_, ?_, by decide, by decide⟩
    · rw [Nondecreasing, calls]
      decide
    · rw [calls]
      decide
  have weighs : Weighs (middle.shareLimiter.pruned Sample.config 16 1388534770).shares 0 0 32 := by
    rw [kept]
    exact weighs_iff.mpr ⟨by decide, by decide⟩
  have reaches : ReachesHashrate (Sample.setting (Sample.hash 2))
      ⟨middle, Sample.shareAt 1388534770, output, last⟩ ⟨16, 1388534770⟩ :=
    ⟨call, late, fun bad => few bad.1⟩
  have sums := (window_exact run clock rfl reaches).1 32 weighs
  exact ⟨_, last, earlier, ⟨middle, Sample.shareAt 1388534770, output, last⟩, ⟨16, 1388534770⟩,
    run, rfl, calls, weighs, sums⟩

end Poolserver.Stratum
