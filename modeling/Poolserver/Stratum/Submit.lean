import Poolserver.Stratum.ShareLimiter

/-!
# Submitted shares

`Client::OnMiningSubmit` in the order of its exits: the worker and the job are looked
up, the share limiter is asked, the three fields are read, a duplicate is refused, the
block is assembled, and its hash is compared with the targets of the job. Every exit
sends its own response, with one exception at the end of `judge`.
-/

namespace Poolserver.Stratum

open Poolserver.Bitcoin

/-- `msg["id"]`. -/
def requestId (msg : JSON) : JSON :=
  match msg.member (ascii "id") with
  | .ok id => id
  | .error _ => .null

/-- A response with a null result and an error of code and text. -/
def errorResponse (msg : JSON) (code : Int64) (text : String) : JSON :=
  .object [
    (ascii "id", requestId msg),
    (ascii "result", .null),
    (ascii "error", .array [.integer code, .text text, .null])]

/-- A response with the result true and a null error. -/
def trueResponse (msg : JSON) : JSON :=
  .object [(ascii "id", requestId msg), (ascii "result", .bool true), (ascii "error", .null)]

/-! ## Reading the parameters -/

def isSpace (ch : UInt8) : Bool :=
  ch = 32 ∨ 9 ≤ ch ∧ ch ≤ 13

/-- The digits at the front of a text and behind an optional base prefix, as a number. -/
def hexMagnitude (text : StdString) : ℕ :=
  let digits :=
    match text with
    | 48 :: 120 :: digits => digits
    | 48 :: 88 :: digits => digits
    | digits => digits
  Nat.ofDigits 16 ((digits.map HexText.digitValue?).takeWhile Option.isSome).reduceOption.reverse

/--
Extraction of a `uint32` from a stream with `std::hex`: a blank text leaves the variable
unassigned, a text without digits gives zero, too large a number the largest one.
-/
def parseHex (uninitialized : UInt32) (text : StdString) : UInt32 :=
  let convert (negative : Bool) (number : ℕ) : UInt32 :=
    if 2 ^ 32 ≤ number then 0xFFFFFFFF
    else if negative then -UInt32.ofNat number
    else UInt32.ofNat number
  match text.dropWhile isSpace with
  | [] => uninitialized
  | 45 :: text => convert true (hexMagnitude text)
  | 43 :: text => convert false (hexMagnitude text)
  | text => convert false (hexMagnitude text)

/-- Why a parameter is not read: it is no string, or its bytes have the wrong size. -/
inductive Refusal where
  | thrown (exception : StdException)
  | wrongSize (text : String)

/-- A parameter of four bytes in hexadecimal, put in order by `arrange`. -/
def readField (params : JSON) (arrange : BinaryData → BinaryData) (position : ℕ) (text : String) :
    Except Refusal BinaryData :=
  match params.stringAt position with
  | .error exception => .error (.thrown exception)
  | .ok field =>
      let data := arrange (Util.asciiToBin field)
      if data.length ≠ 4 then .error (.wrongSize text) else .ok data

def readExtranonce2 (params : JSON) : Except Refusal BinaryData :=
  readField params id 2 "Wrong extranonce size"

def readTimebuf (params : JSON) : Except Refusal BinaryData :=
  readField params Util.reverse 3 "Wrong ntime size"

def readNoncebuf (params : JSON) : Except Refusal BinaryData :=
  readField params Util.reverse 4 "Wrong nonce size"

/-- The bytes of the three fields of a share. -/
@[ext]
structure Submission where
  extranonce2 : BinaryData
  timebuf : BinaryData
  noncebuf : BinaryData
  deriving DecidableEq, Repr

def readSubmission (params : JSON) : Except Refusal Submission := do
  let extranonce2 ← readExtranonce2 params
  let timebuf ← readTimebuf params
  let noncebuf ← readNoncebuf params
  return { extranonce2, timebuf, noncebuf }

namespace Submission

/-- The 32-bit number at the front of a field. -/
def word (field : BinaryData) : UInt32 :=
  (ByteBuffer.readScalar UInt32 (ByteBuffer.ofBinary field)).1

/-- Packs two 32-bit integers into a 64-bit one. -/
def share (submission : Submission) : UInt64 :=
  let sharebuf := ({} : ByteBuffer) <<< ByteBuffer.ofBinary submission.noncebuf <<<
    submission.extranonce2
  (ByteBuffer.readScalar UInt64 sharebuf).1

end Submission

/-! ## The handler -/

namespace Client

variable (setting : Setting) (env : Env)

/-- The end of a handler with one more message. -/
def respond (client : Client) (effects : List Effect) (response : JSON) : Outcome :=
  ⟨client, effects ++ [.sendMessage response], none⟩

/-- The end of a handler by an exception. -/
def throws (client : Client) (effects : List Effect) (exception : StdException) : Outcome :=
  ⟨client, effects, some exception⟩

/-- A share record of this client. -/
def shareRecord (client : Client) (username : StdString) (result : Bool) (reason : String)
    (diff : UInt64) : Share :=
  { host := client.ip.toUInt64
    username
    result
    reason := ascii reason
    time := env.recordTime.toUInt64
    diff }

/-- The row for an accepted block; the format `%u` takes the low half of the difficulty. -/
def blockInsert (client : Client) (username : StdString) (hash : BinaryData) (jobDiff : UInt64) :
    BlockInsert :=
  { remHost := client.ip
    username
    ourResult := true
    upstreamResult := true
    reason := []
    solution := Util.binToASCII (Util.reverse hash)
    time := env.recordTime
    difficulty := jobDiff.toUInt32 }

/-- Assembles the block: time, nonce, coinbase and the left side of the merkle tree. -/
def assemble (sha256d : BinaryData → BinaryData) (client : Client) (job : Job)
    (submission : Submission) : Option (Except StdException Block) :=
  let block := { job.block with
    time := Submission.word submission.timebuf
    nonce := Submission.word submission.noncebuf }
  let coinbasebuf := ({} : ByteBuffer) <<< job.coinbase1 <<< client.extranonce <<<
    submission.extranonce2 <<< job.coinbase2
  match Transaction.read coinbasebuf with
  | .error exception => some (.error exception)
  | .ok (coinbasetx, _) => do
      let block ← { block with tx := block.tx.set 0 coinbasetx }.rebuildMerkleTree sha256d
      return .ok block

/-- The exits after the block is assembled and hashed. -/
def judge (msg : JSON) (username : StdString) (job : Job) (client : Client) (block : Block)
    (hash : BinaryData) (target : ℕ) : Outcome :=
  if job.jobTarget < target then
    client.logBad.respond
      [.push (client.shareRecord env username false "Share above target" job.diff)]
      (errorResponse msg 23 "Share above target")
  else if target ≤ job.blockTarget then
    if env.submitBlock block then
      client.respond
        [.submitBlock block, .executeAsync (client.blockInsert env username hash job.diff)]
        (trueResponse msg)
    -- the function ends here without a response
    else ⟨client, [.submitBlock block], none⟩
  else
    client.respond [.push (client.shareRecord env username true "" job.diff)] (trueResponse msg)

/-- From the check for a duplicate share on. -/
def submitWork (msg : JSON) (username : StdString) (addr : ℕ) (submission : Submission)
    (client : Client) : Option Outcome := do
  let job ← client.heap[addr]?
  let share := submission.share
  match job.submitShare share with
  | none =>
      let record := client.shareRecord env username false "Duplicate share" job.diff
      return client.logBad.respond [.submitShare addr share, .push record]
        (errorResponse msg 22 "Duplicate share")
  | some job =>
      let client := client.storeJob addr job
      match ← client.assemble setting.sha256d job submission with
      | .error exception => return client.throws [.submitShare addr share] exception
      | .ok block =>
          let hash := block.getHash setting.sha256d
          let effects := [.submitShare addr share, .getHash block]
          match Util.bigIntFromHex (Util.binToASCII (Util.reverse hash)) with
          | .error exception => return client.throws effects exception
          | .ok target => return (judge env msg username job client block hash target).after effects

/-- From the share limiter on. -/
def submitToJob (msg params : JSON) (username : StdString) (addr : ℕ) (client : Client) :
    Option Outcome := do
  let job ← client.heap[addr]?
  match ← client.limitShare setting.config setting.floating env job.diff with
  | (false, client, effects) =>
      return client.respond effects (errorResponse msg 20 "Blocked by share limiter")
  | (true, client, effects) =>
      match readSubmission params with
      | .error (.thrown exception) => return client.throws effects exception
      | .error (.wrongSize text) => return client.respond effects (errorResponse msg 20 text)
      | .ok submission =>
          let outcome ← submitWork setting env msg username addr submission client
          return outcome.after effects

/-- `Client::OnMiningSubmit`. -/
def onMiningSubmit (msg : JSON) (client : Client) : Option Outcome :=
  match msg.member (ascii "params") with
  | .error exception => some (client.throws [] exception)
  | .ok params =>
      match params.stringAt 0 with
      | .error exception => some (client.throws [] exception)
      | .ok username =>
          if username ∉ client.workers then
            some (client.respond [] (errorResponse msg 24 "Unauthorized worker"))
          else
            match params.stringAt 1 with
            | .error exception => some (client.throws [] exception)
            | .ok text =>
                match client.jobs (parseHex env.uninitialized text).toUInt64 with
                | none =>
                    some (client.logBad.respond
                      [.push (client.shareRecord env username false "Job not found" 1)]
                      (errorResponse msg 21 "Job not found"))
                | some addr => submitToJob setting env msg params username addr client

end Client

end Poolserver.Stratum
