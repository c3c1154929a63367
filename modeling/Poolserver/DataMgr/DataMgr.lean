import Poolserver.Lib.DecimalText
import Poolserver.Lib.RunTrace
import Poolserver.Stratum.Client

/-!
# Share uploads

`DataMgr::Upload` moves shares from the deque into bulk queries while other threads push.
Each of its calls of `Size` and `Pop` takes the lock for itself, so that pushes come in
between; what it computes in between touches its own variables only.
-/

namespace Poolserver

namespace Util

/-- `MAX_FORMAT_LEN` of `Common.h`. -/
def maxFormatLen : ℕ := 32 * 1024

/-- What `c_str` shows of a string. -/
def cStr (str : StdString) : StdString :=
  str.takeWhile (· ≠ 0)

/-- What `%u` prints for a number of at most 32 bits. -/
def unsigned (number : UInt32) : StdString :=
  DecimalText.write number.toNat

/-- `Util::FS` of a text that is formatted: it ends before the last place of the buffer. -/
def fs (formatted : StdString) : StdString :=
  formatted.take (maxFormatLen - 1)

end Util

namespace DataMgr

open Stratum RunTrace

/-- The row of a share before it is cut; `%u` takes the low half of a 64-bit number. -/
def formatShare (share : Share) : StdString :=
  ascii "(INET_NTOA(" ++ Util.unsigned share.host.toUInt32 ++ ascii "), '" ++
    Util.cStr share.username ++ ascii "', " ++ (if share.result then ascii "1" else ascii "0") ++
    ascii ", 0, '" ++ Util.cStr share.reason ++ ascii "', FROM_UNIXTIME(" ++
    Util.unsigned share.time.toUInt32 ++ ascii "), " ++ Util.unsigned share.diff.toUInt32 ++
    ascii ")"

def row (share : Share) : StdString :=
  Util.fs (formatShare share)

def insertPrefix : StdString :=
  ascii "INSERT INTO `shares` (`rem_host`, `username`, `our_result`, `upstream_result`, " ++
    ascii "`reason`, `time`, `difficulty`) VALUES "

/-! ## The model -/

structure UploadConfig where
  minCount : UInt32
  bulkCount : UInt32

/-- Where `Upload` is about to take the lock, with its local variables. -/
inductive Point where
  /-- `Size` for the log message. -/
  | logSize
  /-- `Size` in the condition of the outer loop. -/
  | loopSize
  | pop (query : StdString) (i : Int32)
  /-- `Size` after a row was added. -/
  | leftSize (query : StdString) (i : Int32)
  | returned
  deriving DecidableEq

/-- The deque and the one running `Upload`. -/
structure State where
  datastore : List Share
  point : Point

inductive Event where
  | push (share : Share)
  /-- The next call of `Size` or `Pop` by `Upload`. -/
  | upload

def start (datastore : List Share) : State :=
  ⟨datastore, .logSize⟩

variable (config : UploadConfig)

/-- The inner loop from its condition on; at its end the query is executed. -/
def forLoop (query : StdString) (i : Int32) : Point × List StdString :=
  if i.toUInt32 < config.bulkCount then (.pop query i, []) else (.loopSize, [query])

/-- One call of `Upload` under the lock, and what it does until the next one. -/
def uploadStep (state : State) : Option (State × List StdString) :=
  match state.point with
  | .logSize => some ({ state with point := .loopSize }, [])
  | .loopSize =>
      if config.minCount.toNat < state.datastore.length then
        let (point, executed) := forLoop config insertPrefix 0
        some ({ state with point }, executed)
      else some ({ state with point := .returned }, [])
  | .pop query i =>
      match state.datastore with
      -- `front` of an empty deque
      | [] => none
      | share :: datastore => some (⟨datastore, .leftSize (query ++ row share) i⟩, [])
  | .leftSize query i =>
      if state.datastore.length = 0 then some ({ state with point := .loopSize }, [query])
      else
        let query := if i.toUInt32 ≠ config.bulkCount - 1 then query ++ ascii "," else query
        let (point, executed) := forLoop config query (i + 1)
        some ({ state with point }, executed)
  | .returned => none

/-- One step, with the queries that it executes. -/
def step (state : State) : Event → Option (State × List StdString)
  | .push share => some ({ state with datastore := state.datastore ++ [share] }, [])
  | .upload => uploadStep config state

abbrev Run (initial : List Share) : List (Entry State Event (List StdString)) → State → Prop :=
  RunTrace.Run (step config) (start initial)

end DataMgr

end Poolserver
