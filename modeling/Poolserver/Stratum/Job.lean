import Poolserver.Bitcoin.Coinbase
import Poolserver.Bitcoin.MerkleTree

/-!
# Jobs

A job freezes the block template, the difficulty and the two targets under which
work is handed to a miner, and remembers the shares submitted on it.
-/

namespace Poolserver.Stratum

open Poolserver.Bitcoin

structure Job where
  diff : UInt64
  block : Block
  coinbase1 : BinaryData
  coinbase2 : BinaryData
  shares : Finset UInt64
  blockTarget : ℕ
  jobTarget : ℕ

namespace Job

/-- `Job::SubmitShare`: nothing when the share exists already, else the job with the share. -/
def submitShare (job : Job) (share : UInt64) : Option Job :=
  if share ∈ job.shares then none else some { job with shares := insert share job.shares }

theorem submitShare_eq_some {job stored : Job} {share : UInt64}
    (submitted : job.submitShare share = some stored) :
    share ∉ job.shares ∧ stored = { job with shares := insert share job.shares } := by
  unfold submitShare at submitted
  split at submitted
  · simp at submitted
  · rename_i fresh
    exact ⟨fresh, (Option.some.inj submitted).symm⟩

end Job

/--
The split of the serialized coinbase in `Client::GetJob`: the version, the number of
inputs, the empty previous output, the length of the script and the block height.
-/
def cbsplit : ℕ := 4 + 32 + 4 + 2 + 4

/-- The merkle branch of `Client::SendJob`: the second node of every level below the root. -/
def merkleBranch (merkleTree : List BinaryData) :
    ℕ → UInt32 → UInt32 → Option (List BinaryData)
  | 0, _, _ => none
  | fuel + 1, j, size =>
      if 1 < size then do
        let sibling ← merkleTree[(j + 1).toNat]?
        let siblings ← merkleBranch merkleTree fuel (j + size) ((size + 1) / 2)
        return sibling :: siblings
      else some []

/-- The merkle branch of the block of a job. -/
def Job.branch (job : Job) : Option (List BinaryData) :=
  let size := UInt32.ofNat job.block.tx.length
  merkleBranch job.block.merkleTree (size.toNat + 1) 0 size

/-- Reads that many words one after the other; past the end a word is zero. -/
def readWords : ℕ → ByteBuffer → List UInt32
  | 0, _ => []
  | count + 1, a =>
      (ByteBuffer.readScalar UInt32 a).1 :: readWords count (ByteBuffer.readScalar UInt32 a).2

/--
The previous block hash as `Client::SendJob` sends it: the reversed hash is read into
eight words from the last to the first, which are written from the first to the last.
-/
def prevhashFixed (prevBlockHash : BinaryData) : BinaryData :=
  let prevhash := (readWords 8 (ByteBuffer.ofBinary (Util.reverse prevBlockHash))).reverse
  (prevhash.foldl (· <<< ·) ({} : ByteBuffer)).vec

end Poolserver.Stratum
