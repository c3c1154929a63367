import Poolserver.Bitcoin.Coinbase
import Poolserver.Bitcoin.Decoding
import Poolserver.Bitcoin.MerkleTree
import Poolserver.JSON.Value
import Poolserver.Lib.RunTrace

/-!
# The network manager

The pool's side of the conversation with the bitcoin daemons: polling the block
height, fetching block templates, submitting blocks. The daemons' replies are inputs;
a query that fails is a reply by exception, and so is any other failure in the turn of a
daemon that does not come from the reply. The two mutexes make `BlockCheck` and
`UpdateBlockTemplate` atomic, so a run is a sequence of such calls.
-/

namespace Poolserver

open Poolserver.Bitcoin

/-- The reply to a query, or the exception `JSONRPC::Query` leaves by. -/
abbrev Reply : Type := Except StdException JSON

structure NetworkMgr where
  blockHeight : UInt32
  curBlockTmpl : Option Block
  deriving DecidableEq, Repr

namespace NetworkMgr

/-- What stays fixed while the pool runs. -/
structure Setting where
  miningAddress : StdString
  sha256d : BinaryData → BinaryData

/-- A daemon asked for a template. -/
structure Daemon where
  /-- The height of its chain. -/
  blocks : ℤ
  reply : Reply
  /--
  What the allocation of a vector does while the transaction with that index is read: it
  throws where there is no memory for so many elements.
  -/
  allocate : ℕ → ByteBuffer → UInt64 → Except StdException Unit

/-- One turn of the loop of `BlockCheck`: a reply to `getinfo`, and the daemons at that moment. -/
structure Poll where
  getinfo : Reply
  daemons : List Daemon

/-- What the manager does, in the order of the calls. -/
inductive Effect where
  /-- `_blockHeight` is advanced. -/
  | raise (height : UInt32)
  /-- `UpdateBlockTemplate` is called while `_blockHeight` has that value. -/
  | update (height : UInt32) (daemons : List Daemon)
  /-- `UpdateBlockTemplate` stores a template of that daemon. -/
  | store (height : UInt32) (daemon : Daemon) (block : Block)
  /-- `BlockNotifySend` posts the current template to all subscribers. -/
  | notify (tmpl : Option Block) (newBlock : Bool)
  /-- `Query` is called with `submitblock` and that parameter; the connection may fail. -/
  | submit (param : StdString)

/-- The manager before any daemon is connected. -/
def new : NetworkMgr where
  blockHeight := 0
  curBlockTmpl := none

/-! ## Templates -/

section Reading

variable (allocate : ℕ → ByteBuffer → UInt64 → Except StdException Unit)

/-- The transactions of a template, decoded one after the other. -/
def readTransactions (trans : JSON) : Except StdException (List Transaction) :=
  (List.range trans.size).mapM fun tidx => do
    let data ← (← trans.index tidx).stringMember "data"
    let (tx, _) ← Logged.erase (Transaction.decode (allocate tidx))
      (ByteBuffer.ofBinary (Util.asciiToBin data))
    return tx

/-- The block of a template reply, before its merkle tree is built. -/
def readTemplate (miningAddress : StdString) (blockHeight : UInt32) (response : JSON) :
    Except StdException Block := do
  let version := (← response.intMember "version").toUInt64.toUInt32
  let prevBlockHash :=
    Util.reverse (Util.asciiToBin (← response.stringMember "previousblockhash"))
  let time := (← response.intMember "curtime").toUInt64.toUInt32
  let bitbuf := ByteBuffer.ofBinary
    (Util.reverse (Util.asciiToBin (← response.stringMember "bits")))
  let bits := (ByteBuffer.readScalar UInt32 bitbuf).1
  let pubkey := Util.asciiToBin miningAddress
  let coinbase := createCoinbaseTX blockHeight pubkey (← response.intMember "coinbasevalue")
  let others ← readTransactions allocate (← response.member (ascii "transactions"))
  return {
    version
    prevBlockHash
    merkleRootHash := []
    time
    bits
    -- left unassigned
    nonce := 0
    tx := coinbase :: others
    merkleTree := [] }

end Reading

variable (setting : Setting)

/-- `Block::BuildMerkleTree` within the `try` block. -/
def buildTemplate (block : Block) : Except StdException Block :=
  match block.buildMerkleTree setting.sha256d with
  | some built => return built
  -- a loop that never ends appends nodes until there is no memory for another one
  | none => throw .badAlloc

/-- One turn of the loop of `UpdateBlockTemplate`; nothing when the daemon lags behind. -/
def fetchTemplate (blockHeight : UInt32) (daemon : Daemon) :
    Except StdException (Option Block) := do
  let response ← daemon.reply
  let height ← response.intMember "height"
  -- new blocks may not appear on all daemons the same time
  if height.toInt < blockHeight.toNat then return none
  else
    let block ← readTemplate daemon.allocate setting.miningAddress blockHeight response
    return some (← buildTemplate setting block)

/-- The daemon whose template `UpdateBlockTemplate` uses, and the block made of it. -/
def firstUsable (blockHeight : UInt32) : List Daemon → Option (Daemon × Block)
  | [] => none
  | daemon :: daemons =>
      match fetchTemplate setting blockHeight daemon with
      | .ok (some block) => some (daemon, block)
      | _ => firstUsable blockHeight daemons

/-- `NetworkMgr::UpdateBlockTemplate`. -/
def updateBlockTemplate (mgr : NetworkMgr) (daemons : List Daemon) : NetworkMgr × List Effect :=
  let called := .update mgr.blockHeight daemons
  match firstUsable setting mgr.blockHeight daemons with
  | none => (mgr, [called])
  | some (daemon, block) =>
      ({ mgr with curBlockTmpl := some block }, [called, .store mgr.blockHeight daemon block])

/-- `NetworkMgr::BlockNotifySend`. -/
def blockNotifySend (mgr : NetworkMgr) (newBlock : Bool) : Effect :=
  .notify mgr.curBlockTmpl newBlock

/-! ## Calls -/

/-- The height in a reply to `getinfo`. -/
def readBlocks (reply : Reply) : Except StdException UInt32 := do
  let response ← reply
  return (← response.intMember "blocks").toUInt64.toUInt32

/-- One turn of the loop of `BlockCheck`. -/
def checkDaemon (mgr : NetworkMgr) (poll : Poll) : NetworkMgr × List Effect :=
  match readBlocks poll.getinfo with
  | .error _ => (mgr, [])
  | .ok curBlock =>
      if mgr.blockHeight < curBlock then
        let (mgr, updated) :=
          updateBlockTemplate setting { mgr with blockHeight := curBlock } poll.daemons
        -- send notifications (and reset work)
        (mgr, .raise curBlock :: updated ++ [mgr.blockNotifySend true])
      else (mgr, [])

/-- `NetworkMgr::BlockCheck`. -/
def blockCheck (mgr : NetworkMgr) : List Poll → NetworkMgr × List Effect
  | [] => (mgr, [])
  | poll :: polls =>
      let (mgr, effects) := checkDaemon setting mgr poll
      let (mgr, rest) := blockCheck mgr polls
      (mgr, effects ++ rest)

/-- `NetworkMgr::BlockNotifyTimerExpired`. -/
def blockNotifyTimerExpired (mgr : NetworkMgr) (daemons : List Daemon) :
    NetworkMgr × List Effect :=
  let (mgr, updated) := updateBlockTemplate setting mgr daemons
  (mgr, updated ++ [mgr.blockNotifySend false])

/-- The parameter of `submitblock`. -/
def submitBlockParam (block : Block) : StdString :=
  Util.binToASCII (serialize block)

/-- Whether a reply to `submitblock` has a null result. -/
def accepts (reply : Reply) : Bool :=
  match reply with
  | .error _ => false
  | .ok response =>
      match response.member (ascii "result") with
      | .error _ => false
      | .ok result => result.isNull

/-- `NetworkMgr::SubmitBlock`: each daemon's reply, and the polls of the check after it. -/
def submitBlock (mgr : NetworkMgr) (block : Block) :
    List (Reply × List Poll) → Bool × NetworkMgr × List Effect
  | [] => (false, mgr, [])
  | (reply, polls) :: rest =>
      if accepts reply then
        let (mgr, effects) := blockCheck setting mgr polls
        (true, mgr, .submit (submitBlockParam block) :: effects)
      else
        let (result, mgr, effects) := submitBlock mgr block rest
        (result, mgr, .submit (submitBlockParam block) :: effects)

/-- A call, with the replies it receives. -/
inductive Event where
  | blockCheck (polls : List Poll)
  | blockNotifyTimerExpired (daemons : List Daemon)
  | updateBlockTemplate (daemons : List Daemon)
  | submitBlock (block : Block) (replies : List (Reply × List Poll))

/-- Every call returns. -/
def step (mgr : NetworkMgr) : Event → Option (NetworkMgr × List Effect)
  | .blockCheck polls => some (blockCheck setting mgr polls)
  | .blockNotifyTimerExpired daemons => some (blockNotifyTimerExpired setting mgr daemons)
  | .updateBlockTemplate daemons => some (updateBlockTemplate setting mgr daemons)
  | .submitBlock block replies => some (submitBlock setting mgr block replies).2

abbrev Entry := RunTrace.Entry NetworkMgr Event (List Effect)

/-- The runs of the manager. -/
abbrev Run : List Entry → NetworkMgr → Prop :=
  RunTrace.Run (step setting) new

end NetworkMgr

namespace NetworkMgr.Sample

def setting : Setting where
  miningAddress := ascii "02"
  sha256d data := (data ++ List.replicate 32 0).take 32

/-- A reply to `getblocktemplate` from a daemon that has that many blocks. -/
def template (blocks : ℤ) (transactions : List JSON) : Reply :=
  .ok (.object [
    (ascii "height", .integer (Int64.ofInt (blocks + 1))),
    (ascii "version", .integer 2),
    (ascii "previousblockhash", .text "00ff"),
    (ascii "curtime", .integer 1388534400),
    (ascii "bits", .text "1d00ffff"),
    (ascii "coinbasevalue", .integer 2500000000),
    (ascii "transactions", .array transactions)])

def daemon (blocks : ℤ) : Daemon :=
  ⟨blocks, template blocks [], fun _ => allocates⟩

/-- A daemon whose template has one transaction, with that string under `data`. -/
def carrying (data : StdString) : Daemon :=
  ⟨100, template 100 [.object [(ascii "data", .string data)]], fun _ => allocates⟩

def getinfo (blocks : ℤ) : Reply :=
  .ok (.object [(ascii "blocks", .integer (Int64.ofInt blocks))])

/-- One check of two daemons, with the number of blocks each of them has. -/
def check (first second : ℤ) : Event :=
  .blockCheck [⟨getinfo first, [daemon first, daemon second]⟩,
    ⟨getinfo second, [daemon first, daemon second]⟩]

/-- A check of one daemon that reports that many blocks and has no template. -/
def failingCheck (blocks : ℤ) : Event :=
  .blockCheck [⟨getinfo blocks, [⟨blocks, .error (.jsonRPC (ascii "Malformed HTTP Response")),
    fun _ => allocates⟩]⟩]

end NetworkMgr.Sample

end Poolserver
