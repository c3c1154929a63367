import Mathlib.Data.Nat.Dist
import Mathlib.Data.Rat.Floor
import Mathlib.Logic.Function.Basic
import Poolserver.JSON.Value
import Poolserver.Stratum.Job

/-!
# Clients and the jobs they are sent

The state of one connection, the inputs its handlers take from the rest of the
server, and the effects they have on it. A handler is a function from the state and
the inputs to the next state and the effects in the order in which they happen.
`Util::Date`, the database, the daemon and the floating-point arithmetic of the
share limiter are inputs.
-/

namespace Poolserver.Stratum

open Poolserver.Bitcoin

/-- The settings of the share limiter. -/
structure Config where
  retargetInterval : UInt32
  retargetSharesThreshold : UInt32
  retargetTimeBuffer : UInt32
  retargetVariance : UInt32
  retargetStartingDiff : UInt32
  retargetMinDiff : UInt32
  retargetMaxDiff : UInt32

/-- The computations of the share limiter in `double`. -/
structure FloatingPoint where
  /-- Whether the bad ones among all shares are more than nine in ten. -/
  tooManyBad : UInt64 → UInt64 → Bool
  /-- The difficulty fitting the hashrate, from the difficulties of shares and their interval. -/
  newDiff : List UInt64 → UInt64 → UInt64

namespace FloatingPoint

/-- The difficulty at which shares of these difficulties take the time for each share. -/
def fitting (timePerShare : ℚ) (diffs : List UInt64) (interval : UInt64) : ℕ :=
  ⌊((diffs.map UInt64.toNat).sum : ℚ) * timePerShare / interval.toNat⌋₊

/-- The computations without any rounding but that to an integer. -/
def exact (timePerShare : ℚ) : FloatingPoint where
  tooManyBad bad total := decide (9 * total.toNat < 10 * bad.toNat)
  newDiff diffs interval := .ofNat (fitting timePerShare diffs interval)

/--
What the 53 bits of a `double` are enough for: to tell nine in ten, and to hit the difficulty
or an integer next to it.
-/
structure Documented (timePerShare : ℚ) (floating : FloatingPoint) : Prop where
  tooManyBad_iff : ∀ bad total : UInt64, total.toNat < 2 ^ 49 →
    (floating.tooManyBad bad total = true ↔ 9 * total.toNat < 10 * bad.toNat)
  newDiff_near : ∀ diffs interval, 0 < interval → fitting timePerShare diffs interval < 2 ^ 49 →
    Nat.dist (floating.newDiff diffs interval).toNat (fitting timePerShare diffs interval) ≤ 1

theorem exact_documented (timePerShare : ℚ) : (exact timePerShare).Documented timePerShare where
  tooManyBad_iff _ _ _ := decide_eq_true_iff
  newDiff_near diffs interval _ small := by
    have held : (UInt64.ofNat (fitting timePerShare diffs interval)).toNat =
        fitting timePerShare diffs interval :=
      UInt64.toNat_ofNat_of_lt' (small.trans (by norm_num [UInt64.size]))
    simp only [exact, held, Nat.dist_self, zero_le]

end FloatingPoint

/-- What stays fixed while the pool runs. -/
structure Setting where
  config : Config
  floating : FloatingPoint
  sha256d : BinaryData → BinaryData

structure Share where
  host : UInt64
  username : StdString
  result : Bool
  reason : StdString
  time : UInt64
  diff : UInt64
  deriving DecidableEq, Repr

/-- The row inserted into `shares` for a block that the daemon accepted. -/
structure BlockInsert where
  remHost : UInt32
  username : StdString
  ourResult : Bool
  upstreamResult : Bool
  reason : StdString
  solution : StdString
  time : UInt32
  difficulty : UInt32
  deriving DecidableEq, Repr

/--
What a handler does outside the client, together with its calls of `Job::SubmitShare`
and `Block::GetHash`.
-/
inductive Effect where
  | sendMessage (msg : JSON)
  | query (username password : StdString) (found : Bool)
  | submitShare (addr : ℕ) (share : UInt64)
  | getHash (block : Block)
  | submitBlock (block : Block)
  | push (share : Share)
  | executeAsync (insert : BlockInsert)
  | ban (ip : UInt32) (time : UInt32)
  | disconnect

/-- What a handler finds outside the client. -/
structure Env where
  /-- `Server::GetWork`, a null pointer before the first template. -/
  work : Option Block
  /-- `Server::GetExtranonce`. -/
  extranonce : UInt32
  /-- `Util::Date` as the share limiter reads it. -/
  limiterTime : UInt32
  /-- `Util::Date` as it is read for a share record. -/
  recordTime : UInt32
  /-- The value a local variable has before it is assigned. -/
  uninitialized : UInt32
  /-- The row of a worker with the conversion of its `mindiff`. -/
  row : StdString → StdString → Option (Except StdException UInt32)
  /-- `Server::SubmitBlock`. -/
  submitBlock : Block → Bool

structure ShareLimiterRecord where
  diff : UInt64
  time : UInt64
  deriving DecidableEq, Repr

structure ShareLimiter where
  shares : List ShareLimiterRecord
  lastRetargetTime : UInt64
  lastRetargetShares : UInt64
  startTime : UInt64
  totalShares : UInt64
  totalBadShares : UInt64
  deriving DecidableEq, Repr

/--
A client with the job objects it has allocated; the pointer to a job is its position in
that list. A deleted object stays in the list, where no pointer leads to it any more.
-/
structure Client where
  ip : UInt32
  workers : Finset StdString
  subscribed : Bool
  extranonce : UInt32
  jobs : UInt64 → Option ℕ
  jobid : UInt32
  diff : UInt64
  minDiff : UInt64
  shareLimiter : ShareLimiter
  heap : List Job

/-- A handler's outcome: the client, the effects and the exception that ended it, if any. -/
structure Outcome where
  client : Client
  effects : List Effect
  thrown : Option StdException

/-- The outcome of the rest of a handler, after the effects of its beginning. -/
def Outcome.after (effects : List Effect) (outcome : Outcome) : Outcome :=
  { outcome with effects := effects ++ outcome.effects }

namespace ShareLimiter

/-- `ShareLimiter::LogBad`. -/
def logBad (limiter : ShareLimiter) : ShareLimiter :=
  { limiter with totalBadShares := limiter.totalBadShares + 1 }

end ShareLimiter

/-- What the constructors and `Client::Start` leave unassigned or find outside. -/
structure Connection where
  ip : UInt32
  date : UInt32
  uninitializedExtranonce : UInt32
  uninitializedShares : UInt64

/-- A client after its construction and start. -/
def Client.new (config : Config) (connection : Connection) : Client where
  ip := connection.ip
  workers := ∅
  subscribed := false
  extranonce := connection.uninitializedExtranonce
  jobs := fun _ => none
  jobid := 0
  diff := config.retargetStartingDiff.toUInt64
  minDiff := config.retargetMinDiff.toUInt64
  shareLimiter :=
    { shares := []
      lastRetargetTime := (connection.date - 10).toUInt64
      -- the constructor does not assign this field
      lastRetargetShares := connection.uninitializedShares
      startTime := (connection.date - 10).toUInt64
      totalShares := 0
      totalBadShares := 0 }
  heap := []

namespace Client

/-- `Client::CleanJobs`. -/
def cleanJobs (client : Client) : Client :=
  { client with jobs := fun _ => none }

/-- `Client::GetJob`, from the current work. -/
def getJob (client : Client) (work : Option Block) : Option Job := do
  let block ← work
  let jobTarget ← diffToTarget client.diff.toNat
  let blockTarget ← targetFromBits block.bits
  let coinbasetx ← block.tx[0]?
  let coinbase := (({} : ByteBuffer) <<< coinbasetx).vec
  -- plus extranonce size
  if coinbase.length < cbsplit + 8 then none
  else
    return {
      diff := client.diff
      block
      coinbase1 := coinbase.take cbsplit
      coinbase2 := coinbase.drop (cbsplit + 8)
      shares := ∅
      blockTarget
      jobTarget }

/-- What `std::hex` writes for a number. -/
def hexString (number : ℕ) : StdString :=
  if number = 0 then ascii "0" else (Nat.digits 16 number).reverse.map HexText.digit

/-- A 32-bit header field as `Client::SendJob` writes it. -/
def headerField (data : UInt32) : JSON :=
  .string (Util.binToASCII (Util.reverse (serialize data)))

/-- The `mining.notify` message of `Client::SendJob`. -/
def notifyMessage (jobid : UInt32) (job : Job) (branch : List BinaryData) (clean : Bool) : JSON :=
  .object [
    (ascii "params", .array [
      .string (hexString jobid.toNat),
      .string (Util.binToASCII (prevhashFixed job.block.prevBlockHash)),
      .string (Util.binToASCII job.coinbase1),
      .string (Util.binToASCII job.coinbase2),
      .array (branch.map fun sibling => .string (Util.binToASCII sibling)),
      headerField job.block.version,
      headerField job.block.bits,
      headerField job.block.time,
      .bool clean]),
    (ascii "id", .null),
    (ascii "method", .text "mining.notify")]

/-- Allocates a job and stores the pointer under the next job id. -/
def addJob (client : Client) (job : Job) : Client :=
  { client with
    jobid := client.jobid + 1
    heap := client.heap ++ [job]
    jobs := Function.update client.jobs client.jobid.toUInt64 (some client.heap.length) }

/-- `Client::SendJob`. -/
def sendJob (env : Env) (clean : Bool) (client : Client) : Option (Client × List Effect) := do
  let client := if clean then client.cleanJobs else client
  let job ← client.getJob env.work
  let branch ← job.branch
  return (client.addJob job, [.sendMessage (notifyMessage client.jobid job branch clean)])

/-- The `mining.set_difficulty` message of `Client::SetDifficulty`. -/
def setDifficultyMessage (diff : UInt64) : JSON :=
  .object [
    (ascii "id", .null),
    (ascii "params", .array [.integer diff.toInt64]),
    (ascii "method", .text "mining.set_difficulty")]

/-- `Client::SetDifficulty`. -/
def setDifficulty (env : Env) (diff : UInt64) (resendJob : Bool) (client : Client) :
    Option (Client × List Effect) :=
  let diff := if diff < client.minDiff then client.minDiff else diff
  if diff = client.diff then some (client, [])
  else
    let client := { client with diff := diff }
    let sent := [.sendMessage (setDifficultyMessage diff)]
    if resendJob then do
      let (client, effects) ← client.sendJob env false
      return (client, sent ++ effects)
    else some (client, sent)

/-- `Client::Ban`, which also disconnects the client. -/
def ban (client : Client) (time : UInt32) : List Effect :=
  [.ban client.ip time, .disconnect]

/-- Counts a bad share. -/
def logBad (client : Client) : Client :=
  { client with shareLimiter := client.shareLimiter.logBad }

/-- Writes through the pointer to a job. -/
def storeJob (client : Client) (addr : ℕ) (job : Job) : Client :=
  { client with heap := client.heap.set addr job }

end Client

end Poolserver.Stratum
