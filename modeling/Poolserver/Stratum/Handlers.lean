import Poolserver.Lib.RunTrace
import Poolserver.Stratum.Submit

/-!
# Message handlers and runs of a connection

The two other message handlers, the dispatch of messages, and a connection as a
transition system: each event is one handler call or one `SendJob` call, taken whole,
together with what the call finds outside the client.
-/

namespace Poolserver.Stratum

open Poolserver.Bitcoin

namespace Client

variable (env : Env)

/-- The response of `Client::OnMiningSubscribe`. -/
def subscribeResponse (msg : JSON) (extranonce : UInt32) : JSON :=
  .object [
    (ascii "id", requestId msg),
    (ascii "result", .array [
      .array [.text "mining.notify", .text "ae6812eb4cd7735a302a8a9dd95cf71f"],
      .string (Util.binToASCII (serialize extranonce)),
      .integer 4]),
    (ascii "error", .null)]

/-- `Client::OnMiningSubscribe`. -/
def onMiningSubscribe (msg : JSON) (client : Client) : Option Outcome := do
  let client := { client with subscribed := true, extranonce := env.extranonce }
  let (client, effects) ← client.sendJob env false
  return ⟨client, .sendMessage (subscribeResponse msg env.extranonce) :: effects, none⟩

/-- The response to a successful authorization. -/
def authorizedResponse (msg : JSON) : JSON :=
  .object [(ascii "id", requestId msg), (ascii "error", .null), (ascii "result", .bool true)]

/-- The response to a failed authorization, whose result is true as well. -/
def authenticationFailed (msg : JSON) : JSON :=
  .object [
    (ascii "id", requestId msg),
    (ascii "error", .array [.integer 20, .text "Authentication failed", .null]),
    (ascii "result", .bool true)]

/-- Raises the difficulty to the minimum of a worker. -/
def raiseDiff (client : Client) : Option (Client × List Effect) :=
  if client.diff < client.minDiff then client.setDifficulty env client.minDiff false
  else some (client, [])

/-- `Client::OnMiningAuthorize`, from the database query on. -/
def authorize (msg : JSON) (username password : StdString) (client : Client) : Option Outcome :=
  match env.row username password with
  | none =>
      some (client.respond [.query username password false] (authenticationFailed msg))
  | some mindiff =>
      let client := { client with workers := insert username client.workers }
      let found := [.query username password true]
      match mindiff with
      | .error exception => some (client.throws found exception)
      | .ok mindiff => do
          let client := { client with minDiff := mindiff.toUInt64 }
          let (client, effects) ← client.raiseDiff env
          return client.respond (found ++ effects) (authorizedResponse msg)

/-- The two strings of an authorization request. -/
def readCredentials (msg : JSON) : Except StdException (StdString × StdString) := do
  let params ← msg.member (ascii "params")
  let username ← params.stringAt 0
  let password ← params.stringAt 1
  return (username, password)

/-- `Client::OnMiningAuthorize`. -/
def onMiningAuthorize (msg : JSON) (client : Client) : Option Outcome :=
  match readCredentials msg with
  | .error exception => some (client.throws [] exception)
  | .ok (username, password) => authorize env msg username password client

/-- `Client::OnMessage`. -/
def onMessage (setting : Setting) (msg : JSON) (client : Client) : Option Outcome :=
  match msg.stringMember "method" with
  | .error exception => some (client.throws [] exception)
  | .ok method =>
      if method = ascii "mining.submit" then onMiningSubmit setting env msg client
      else if method = ascii "mining.subscribe" then onMiningSubscribe env msg client
      else if method = ascii "mining.authorize" then onMiningAuthorize env msg client
      else some ⟨client, [], none⟩

end Client

/-- What a connection is asked to do: handle a received message, or send a job. -/
inductive Action where
  | message (msg : JSON)
  | sendJob (clean : Bool)

/-- One call and what it finds outside the client. -/
structure Event where
  action : Action
  env : Env

/-- What one call leaves behind besides the new client. -/
structure Output where
  effects : List Effect
  thrown : Option StdException

/-- One call. The exception of a message handler is caught where messages are received. -/
def Client.step (setting : Setting) (client : Client) (event : Event) :
    Option (Client × Output) :=
  match event.action with
  | .message msg => do
      let outcome ← client.onMessage event.env setting msg
      return (outcome.client, ⟨outcome.effects, outcome.thrown⟩)
  | .sendJob clean => do
      let (client, effects) ← client.sendJob event.env clean
      return (client, ⟨effects, none⟩)

abbrev ClientEntry := RunTrace.Entry Client Event Output

/-- The message of a call is handled as a submission. -/
def Submits (entry : ClientEntry) (msg : JSON) : Prop :=
  entry.event.action = .message msg ∧ msg.stringMember "method" = .ok (ascii "mining.submit")

/-- The runs of one connection. -/
abbrev ClientRun (setting : Setting) (connection : Connection) :
    List ClientEntry → Client → Prop :=
  RunTrace.Run (Client.step setting) (Client.new setting.config connection)

/-! ## A sample connection -/

namespace Sample

def config : Config where
  retargetInterval := 60
  retargetSharesThreshold := 10
  retargetTimeBuffer := 300
  retargetVariance := 30
  retargetStartingDiff := 16
  retargetMinDiff := 16
  retargetMaxDiff := 1024

def setting (sha256d : BinaryData → BinaryData) : Setting where
  config
  floating := .exact 4
  sha256d

def connection : Connection where
  ip := 0x7F000001
  date := 1388534410
  uninitializedExtranonce := 0
  uninitializedShares := 0

/-- A checksum in the lowest of 32 bytes, and a single bit at that byte. -/
def hash (position : ℕ) (data : BinaryData) : BinaryData :=
  (data.foldl (fun sum byte => 31 * sum + byte) 0 :: List.replicate 31 0).set position 1

/-- Two transactions beside the coinbase. -/
def others : List Transaction :=
  [createCoinbaseTX 277313 [3] 1, createCoinbaseTX 277314 [4] 2]

def work (bits : UInt32) : Block where
  version := 2
  prevBlockHash := (List.range 32).map UInt8.ofNat
  merkleRootHash := []
  time := 1388534400
  bits
  nonce := 0
  tx := createCoinbaseTX 277315 [2] 2500000000 :: others
  merkleTree := []

/-- The work with its merkle tree. -/
def template (sha256d : BinaryData → BinaryData) (bits : UInt32) : Block :=
  ((work bits).buildMerkleTree sha256d).getD (work bits)

def env (work : Block) (accepts : Bool) : Env where
  work := some work
  extranonce := 5
  limiterTime := 1388534420
  recordTime := 1388534420
  uninitialized := 0
  row _ _ := some (.ok 1)
  submitBlock _ := accepts

/-- A request with a list of strings for parameters. -/
def request (method : String) (params : List String) : JSON :=
  .object [(ascii "id", .integer 7), (ascii "method", .text method),
    (ascii "params", .array (params.map .text))]

def subscribe : Action :=
  .message (request "mining.subscribe" [])

def authorize : Action :=
  .message (request "mining.authorize" ["alice", "secret"])

/-- A submission of the worker under a job id. -/
def submission (jobText : String) : JSON :=
  request "mining.submit" ["alice", jobText, "00000001", "52c35a80", "deadbeef"]

def submit (jobText : String) : Action :=
  .message (submission jobText)

/-- A worker subscribes, is authorized, and submits a share on the first job. -/
def session (env : Env) : List Event :=
  [⟨subscribe, env⟩, ⟨authorize, env⟩, ⟨submit "0", env⟩]

/-- The client after those events, or a new one. -/
def clientAfter (sha256d : BinaryData → BinaryData) (events : List Event) : Client :=
  let start := Client.new config connection
  match RunTrace.replay (Client.step (setting sha256d)) start events with
  | some (_, client) => client
  | none => start

/-- The environment of a network whose target is easier than that of any job. -/
def easyEnv (position : ℕ) : Env :=
  env (template (hash position) 0x207fffff) true

/-- The calls that lead to an authorized worker with one job. -/
def opening : List Event :=
  [⟨subscribe, easyEnv 2⟩, ⟨authorize, easyEnv 2⟩]

/-- A worker who has been sent one job. -/
def worker (position : ℕ) : Client :=
  clientAfter (hash position) [⟨subscribe, easyEnv position⟩, ⟨authorize, easyEnv position⟩]

/-- The submission that a call handles. -/
def submitted? (entry : ClientEntry) : Option JSON :=
  match entry.event.action with
  | .message msg =>
      if (msg.stringMember "method").toOption = some (ascii "mining.submit") then some msg
      else none
  | .sendJob _ => none

theorem submits_of_submitted? {entry : ClientEntry} {msg : JSON}
    (submitted : submitted? entry = some msg) : Submits entry msg := by
  unfold submitted? at submitted
  split at submitted
  · rename_i found actionEq
    split at submitted
    · rename_i method
      rw [Option.some.injEq] at submitted
      subst submitted
      cases methodEq : found.stringMember "method" with
      | error exception => simp [methodEq, Except.toOption] at method
      | ok text =>
          simp only [methodEq, Except.toOption, Option.some.injEq] at method
          exact ⟨actionEq, by rw [methodEq, method]⟩
    · simp at submitted
  · simp at submitted

theorem length_hash (position : ℕ) (data : BinaryData) : (hash position data).length = 32 := by
  simp [hash]

end Sample

end Poolserver.Stratum
