import Poolserver.Bitcoin.Serialization
import Poolserver.Shared.Util

/-!
# Merkle trees and hashes of blocks

The loops of `Block::BuildMerkleTree` and `Block::RebuildMerkleTree` over the
flat vector `merkleTree`, with their 32-bit offsets, and the hashes of
transactions and block headers. `Crypto::SHA256D` is a parameter. An index
outside the vector and a loop that does not end have no result; the fuel of a
loop bounds the number of its turns.
-/

namespace Poolserver.Bitcoin

variable (sha256d : BinaryData → BinaryData)

/-- `Transaction::GetHash`. -/
def Transaction.getHash (b : Transaction) : BinaryData :=
  sha256d (serialize b)

namespace Block

/-- The inner loop of `BuildMerkleTree`: append the parents of the level at offset `j`. -/
def buildLevel (j size : UInt32) : ℕ → UInt32 → List BinaryData → Option (List BinaryData)
  | 0, _, _ => none
  | fuel + 1, i, merkleTree =>
      if i < size then do
        let i2 := stdMin (i + 1) (size - 1)
        let left ← merkleTree[(j + i).toNat]?
        let right ← merkleTree[(j + i2).toNat]?
        buildLevel j size fuel (i + 2) (merkleTree ++ [sha256d (Util.join left right)])
      else some merkleTree

/-- The outer loop of `BuildMerkleTree`, one level a turn. -/
def buildLevels : ℕ → UInt32 → UInt32 → List BinaryData → Option (List BinaryData)
  | 0, _, _, _ => none
  | fuel + 1, j, size, merkleTree =>
      if 1 < size then do
        let merkleTree ← buildLevel sha256d j size (size.toNat + 1) 0 merkleTree
        buildLevels fuel (j + size) ((size + 1) / 2) merkleTree
      else some merkleTree

/-- `Block::BuildMerkleTree`. -/
def buildMerkleTree (block : Block) : Option Block := do
  let size := UInt32.ofNat block.tx.length
  let merkleTree ← buildLevels sha256d (size.toNat + 1) 0 size
    (block.tx.map (Transaction.getHash sha256d))
  let merkleRootHash ← merkleTree[merkleTree.length - 1]?
  return { block with merkleTree, merkleRootHash }

/-- Assignment to an element of a vector. -/
def assign (vector : List BinaryData) (index : ℕ) (data : BinaryData) : Option (List BinaryData) :=
  if index < vector.length then some (vector.set index data) else none

/-- The loop of `RebuildMerkleTree`: recompute the first node of every level. -/
def rebuildLevels : ℕ → UInt32 → UInt32 → List BinaryData → Option (List BinaryData)
  | 0, _, _, _ => none
  | fuel + 1, j, size, merkleTree =>
      if 1 < size then do
        let left ← merkleTree[j.toNat]?
        let right ← merkleTree[(j + 1).toNat]?
        let merkleTree ← assign merkleTree (j + size).toNat (sha256d (Util.join left right))
        rebuildLevels fuel (j + size) ((size + 1) / 2) merkleTree
      else some merkleTree

/-- `Block::RebuildMerkleTree`. -/
def rebuildMerkleTree (block : Block) : Option Block := do
  let coinbase ← block.tx[0]?
  let size := UInt32.ofNat block.tx.length
  let merkleTree ← assign block.merkleTree 0 (coinbase.getHash sha256d)
  let merkleTree ← rebuildLevels sha256d (size.toNat + 1) 0 size merkleTree
  let merkleRootHash ← merkleTree[merkleTree.length - 1]?
  return { block with merkleTree, merkleRootHash }

/-- The buffer that `Block::GetHash` fills. -/
def headerBuffer (block : Block) : ByteBuffer :=
  ({} : ByteBuffer) <<< block.version <<< block.prevBlockHash <<< block.merkleRootHash <<<
    block.time <<< block.bits <<< block.nonce

/-- `Block::GetHash`. -/
def getHash (block : Block) : BinaryData :=
  sha256d block.headerBuffer.vec

end Block

end Poolserver.Bitcoin
