import Poolserver.Stratum.Client

/-!
# The share limiter

`ShareLimiter::Submit` counts a share and, when a retarget is due, bans a miner whose
shares are mostly bad or fits the client's difficulty to the recent shares. A large
jump of the difficulty discards the client's jobs and stops the share. The times and
counters are 64-bit unsigned integers, whose differences wrap.
-/

namespace Poolserver.Stratum

namespace ShareLimiter

/-- Registers a share of the given difficulty. -/
def count (limiter : ShareLimiter) (diff curTime : UInt64) : ShareLimiter :=
  { limiter with
    totalShares := limiter.totalShares + 1
    shares := limiter.shares ++ [⟨diff, curTime⟩] }

/-- Neither enough time nor enough shares since the last retarget. -/
def Early (config : Config) (limiter : ShareLimiter) (curTime : UInt64) : Prop :=
  curTime - limiter.lastRetargetTime < config.retargetInterval.toUInt64 ∧
    limiter.totalShares - limiter.lastRetargetShares < config.retargetSharesThreshold.toUInt64

instance (config : Config) (limiter : ShareLimiter) (curTime : UInt64) :
    Decidable (limiter.Early config curTime) :=
  inferInstanceAs (Decidable (_ ∧ _))

/-- Marks the time of a retarget. -/
def markRetarget (limiter : ShareLimiter) (curTime : UInt64) : ShareLimiter :=
  { limiter with lastRetargetTime := curTime, lastRetargetShares := limiter.totalShares }

/-- Drops the shares at the front that are older than the time buffer. -/
def dropOld (config : Config) (limiter : ShareLimiter) (curTime : UInt64) : ShareLimiter :=
  { limiter with
    shares := limiter.shares.dropWhile fun share =>
      ¬curTime - config.retargetTimeBuffer.toUInt64 < share.time }

/-- The difficulty for the recent shares, within the configured limits. -/
def newDiff (config : Config) (floating : FloatingPoint) (limiter : ShareLimiter)
    (curTime : UInt64) : UInt64 :=
  let interval := stdMin (curTime - limiter.startTime) config.retargetTimeBuffer.toUInt64
  let newDiff := floating.newDiff (limiter.shares.map (·.diff)) interval
  let newDiff :=
    if newDiff < config.retargetMinDiff.toUInt64 then config.retargetMinDiff.toUInt64 else newDiff
  if config.retargetMaxDiff.toUInt64 < newDiff then config.retargetMaxDiff.toUInt64 else newDiff

/--
The variance in percent. The quotient is unsigned, so a lower difficulty wraps around;
`abs` takes its low half as a signed integer.
-/
def variance (newDiff diff : UInt64) : UInt32 :=
  UInt32.ofNat (((newDiff - diff) * 100) / diff).toUInt32.toInt32.toInt.natAbs

end ShareLimiter

namespace Client

/-- The end of `ShareLimiter::Submit`, from the calculation of the new difficulty on. -/
def retarget (config : Config) (floating : FloatingPoint) (env : Env) (client : Client) :
    Option (Bool × Client × List Effect) :=
  let newDiff := client.shareLimiter.newDiff config floating env.limiterTime.toUInt64
  -- division by zero
  if client.diff = 0 then none
  else
    let variance := ShareLimiter.variance newDiff client.diff
    if variance < config.retargetVariance then some (true, client, [])
    else if 2000 < variance then do
      let (client, difficulty) ← client.setDifficulty env newDiff false
      let (client, job) ← client.sendJob env true
      return (false, client, difficulty ++ job)
    else do
      let (client, effects) ← client.setDifficulty env newDiff true
      return (true, client, effects)

/-- `ShareLimiter::Submit`; `false` stops any further share verification. -/
def limitShare (config : Config) (floating : FloatingPoint) (env : Env) (diff : UInt64)
    (client : Client) : Option (Bool × Client × List Effect) :=
  let curTime := env.limiterTime.toUInt64
  let limiter := client.shareLimiter.count diff curTime
  if limiter.Early config curTime then some (true, { client with shareLimiter := limiter }, [])
  else
    let limiter := limiter.markRetarget curTime
    if 200 < limiter.totalShares ∧
        floating.tooManyBad limiter.totalBadShares limiter.totalShares then
      some (false, { client with shareLimiter := limiter }, client.ban 600)
    else
      retarget config floating env
        { client with shareLimiter := limiter.dropOld config curTime }

end Client

end Poolserver.Stratum
