import Poolserver.Stratum.Moves

/-!
# The block behind a submission

A job is cut from the coinbase of a block template. Whatever extranonce is put back
into the gap, the result is again the encoding of a coinbase transaction, and the
block assembled around it carries the merkle tree of its own transactions.
-/

namespace Poolserver.Bitcoin

open ByteBuffer (Fits)

namespace Block

/-- `GetHash` hashes the bytes of the header. -/
theorem headerBuffer_vec (block : Block) : block.headerBuffer.vec = block.toBlockHeader.bytes := by
  simp [headerBuffer, BlockHeader.bytes, Appends.shiftLeft_eq]

/--
A block as `NetworkMgr::UpdateBlockTemplate` builds it: a coinbase transaction, which
fits into memory, in front of other transactions, and their merkle tree.
-/
structure IsTemplate (sha256d : BinaryData → BinaryData) (block : Block) : Prop where
  coinbase : ∃ height pubkey value others,
    block.tx = createCoinbaseTX height pubkey value :: others ∧
    Fits (serialize (createCoinbaseTX height pubkey value))
  hasTree : block.HasMerkleTree sha256d
  small : block.tx.length < 2 ^ 30

/-- A block with a coinbase transaction is a template once its merkle tree is built. -/
theorem isTemplate_of_built {sha256d : BinaryData → BinaryData} {block built : Block}
    {height : UInt32} {pubkey : BinaryData} {value : Int64} {others : List Transaction}
    (txEq : block.tx = createCoinbaseTX height pubkey value :: others)
    (fits : Fits (serialize (createCoinbaseTX height pubkey value)))
    (small : block.tx.length < 2 ^ 30)
    (builtEq : block.buildMerkleTree sha256d = some built) : built.IsTemplate sha256d := by
  rw [buildMerkleTree_eq txEq small, Option.some.injEq] at builtEq
  subst builtEq
  have smallAgain : (createCoinbaseTX height pubkey value :: others).length < 2 ^ 30 := by
    rwa [← txEq]
  exact ⟨⟨height, pubkey, value, others, rfl, fits⟩, hasMerkleTree_withTree smallAgain, smallAgain⟩

end Block

end Poolserver.Bitcoin

namespace Poolserver.Stratum

open Poolserver.Bitcoin ByteBuffer

variable {sha256d : BinaryData → BinaryData}

/-- Work that a miner can be told about. -/
structure Notifiable (sha256d : BinaryData → BinaryData) (work : Block) : Prop where
  template : work.IsTemplate sha256d
  prevBlockHash : work.prevBlockHash.length = 32

namespace Submission

/-- A byte string of the size of a word is what the word at its front is written as. -/
theorem serialize_readScalar {T : Type} [Scalar T] {field : BinaryData} (data : T)
    (written : serialize data = field) (fits : Fits field) :
    serialize (ByteBuffer.readScalar T (ByteBuffer.ofBinary field)).1 = field := by
  have decoded := decodes_scalar data [] [] (by simpa [written] using fits)
  simp only [ByteBuffer.atCursor, ByteBuffer.read, List.nil_append, List.append_nil, written,
    Except.ok.injEq] at decoded
  have readEq : ByteBuffer.readScalar T (ByteBuffer.ofBinary field) = (data, _) := decoded
  rw [readEq, written]

theorem serialize_word {field : BinaryData} (size : field.length = 4) :
    serialize (word field) = field := by
  have small : ByteOrder.value field < 2 ^ 32 := by
    simpa [size] using ByteOrder.value_lt field
  apply serialize_readScalar (UInt32.ofNat (ByteOrder.value field))
  · rw [serialize_scalar]
    change ByteOrder.littleEndian 4 (UInt32.ofNat (ByteOrder.value field)).toNat = field
    rw [UInt32.toNat_ofNat_of_lt' small, ← size, ByteOrder.littleEndian_value]
  · simp [Fits, size]

/-- The packed number is the nonce followed by the second extranonce. -/
theorem serialize_share {submission : Submission} (nonce : submission.noncebuf.length = 4)
    (extranonce2 : submission.extranonce2.length = 4) :
    serialize submission.share = submission.noncebuf ++ submission.extranonce2 := by
  have size : (submission.noncebuf ++ submission.extranonce2).length = 8 := by
    simp [nonce, extranonce2]
  have small : ByteOrder.value (submission.noncebuf ++ submission.extranonce2) < 2 ^ 64 := by
    simpa [size] using ByteOrder.value_lt (submission.noncebuf ++ submission.extranonce2)
  have buffer : ({} : ByteBuffer) <<< ByteBuffer.ofBinary submission.noncebuf <<<
      submission.extranonce2 =
      ByteBuffer.ofBinary (submission.noncebuf ++ submission.extranonce2) := by
    simp [Appends.shiftLeft_eq, ByteBuffer.ofBinary]
  simp only [share, buffer]
  refine serialize_readScalar
    (UInt64.ofNat (ByteOrder.value (submission.noncebuf ++ submission.extranonce2))) ?_ ?_
  · rw [serialize_scalar]
    change ByteOrder.littleEndian 8 (UInt64.ofNat (ByteOrder.value _)).toNat = _
    rw [UInt64.toNat_ofNat_of_lt' small, ← size, ByteOrder.littleEndian_value]
  · simp [Fits, size]

end Submission

namespace Job

/-- The coinbase with the extranonces in the gap. -/
def coinbase (job : Job) (extranonce : UInt32) (extranonce2 : BinaryData) : BinaryData :=
  job.coinbase1 ++ serialize extranonce ++ extranonce2 ++ job.coinbase2

theorem cut_createCoinbaseTX (height : UInt32) (pubkey : BinaryData) (value : Int64) :
    (serialize (createCoinbaseTX height pubkey value)).take cbsplit =
        coinbaseHead ++ serialize height ∧
      (serialize (createCoinbaseTX height pubkey value)).drop (cbsplit + 8) =
        coinbaseTail pubkey value := by
  have cutAt : (coinbaseHead ++ serialize height).length = cbsplit := by
    simp [length_coinbaseHead, length_serialize_scalar, Scalar.size, cbsplit]
  rw [serialize_createCoinbaseTX]
  constructor
  · exact List.take_left' cutAt
  · rw [← List.append_assoc]
    apply List.drop_left'
    rw [List.length_append, cutAt, List.length_replicate]

/-- The two halves of the coinbase of a template, and the transaction they belong to. -/
theorem Sound.halves {job : Job} (sound : job.Sound) (template : job.block.IsTemplate sha256d) :
    ∃ (height : UInt32) (pubkey : BinaryData) (value : Int64) (others : List Transaction),
      job.block.tx = createCoinbaseTX height pubkey value :: others ∧
      Fits (serialize (createCoinbaseTX height pubkey value)) ∧
      job.coinbase1 = coinbaseHead ++ serialize height ∧
      job.coinbase2 = coinbaseTail pubkey value := by
  rcases template.coinbase with ⟨height, pubkey, value, others, txEq, fits⟩
  rcases sound.cut with ⟨coinbase, rest, cutEq, _, first, second⟩
  rw [txEq, List.cons.injEq] at cutEq
  rcases cutEq with ⟨rfl, rfl⟩
  rcases cut_createCoinbaseTX height pubkey value with ⟨head, tail⟩
  exact ⟨height, pubkey, value, others, txEq, fits, first.trans head, second.trans tail⟩

end Job

/-- The branch that is sent lists the siblings of the left spine. -/
theorem merkleBranch_eq {node : BinaryData → BinaryData → BinaryData}
    {done rest : List BinaryData} {first : BinaryData} {j size : UInt32} {fuel : ℕ}
    (jEq : j.toNat = done.length) (sizeEq : size.toNat = rest.length + 1)
    (small : (done ++ MerkleSpine.tree node first rest).length + 1 < 2 ^ 32)
    (enough : rest.length < fuel) :
    merkleBranch (done ++ MerkleSpine.tree node first rest) fuel j size =
      some (MerkleSpine.branch node rest) := by
  induction rest using MerkleSpine.branch.induct node generalizing done first j size fuel with
  | case1 =>
      obtain ⟨fuel, rfl⟩ : ∃ n, fuel = n + 1 := ⟨fuel - 1, by omega⟩
      have stops : ¬ 1 < size := by
        rw [UInt32.lt_iff_toNat_lt, sizeEq]
        decide
      simp [merkleBranch, stops]
  | case2 sibling others ih =>
      obtain ⟨fuel, rfl⟩ : ∃ n, fuel = n + 1 := ⟨fuel - 1, by omega⟩
      simp only [MerkleSpine.tree_cons, List.length_append, List.length_cons] at sizeEq small enough
      have continues : 1 < size := by
        rw [UInt32.lt_iff_toNat_lt, sizeEq]
        change 1 < _
        omega
      have next : (j + 1).toNat = done.length + 1 := toNat_add_eq jEq rfl (by omega)
      have offset : (j + size).toNat = (done ++ first :: sibling :: others).length := by
        have := toNat_add_eq jEq sizeEq (by omega)
        simpa using this
      have half := toNat_half_eq sizeEq (by omega)
      have above := @ih (done ++ first :: sibling :: others) (node first sibling)
        (j + size) ((size + 1) / 2) fuel offset (by rw [half, MerkleSpine.length_nextLevel]; omega)
        (by simp only [List.length_append, List.length_cons]; omega)
        (by rw [MerkleSpine.length_nextLevel]; omega)
      have siblingAt : ((done ++ first :: sibling :: others) ++ MerkleSpine.tree node
          (node first sibling) (MerkleSpine.nextLevel node others))[(j + 1).toNat]? =
          some sibling := by
        simpa using getElem?_offset (done ++ [first]) _ (by simpa using next)
      rw [MerkleSpine.tree_cons, ← List.append_assoc, MerkleSpine.branch_cons]
      simp only [merkleBranch, if_pos continues, siblingAt, above, Option.bind_eq_bind,
        Option.bind_some]
      rfl

theorem Job.branch_eq {sha256d : BinaryData → BinaryData} {job : Job}
    (template : job.block.IsTemplate sha256d) :
    job.branch = some (MerkleSpine.branch (merkleNode sha256d)
      (job.block.tx.tail.map (Transaction.getHash sha256d))) := by
  rcases template.coinbase with ⟨height, pubkey, value, others, txEq, _⟩
  have small := template.small
  have count : job.block.tx.length = others.length + 1 := by simp [txEq]
  have sizeEq : (UInt32.ofNat job.block.tx.length).toNat = others.length + 1 := by
    rw [UInt32.toNat_ofNat_of_lt' (by rw [count] at small ⊢; change _ < 2 ^ 32; omega), count]
  have treeEq := template.hasTree.merkleTree_eq txEq small
  have spine := @merkleBranch_eq (merkleNode sha256d) []
    (others.map (Transaction.getHash sha256d))
    ((createCoinbaseTX height pubkey value).getHash sha256d) 0 (UInt32.ofNat job.block.tx.length)
    ((UInt32.ofNat job.block.tx.length).toNat + 1) rfl (by simpa using sizeEq)
    (by simpa using Block.length_tree_small (by simpa [count] using small))
    (by simp [sizeEq])
  simp only [List.nil_append] at spine
  simp only [Job.branch, treeEq, txEq, List.tail_cons] at spine ⊢
  exact spine

namespace Client

/-- The block that is assembled for a submission, around some coinbase transaction. -/
theorem assemble_eq {client : Client} {job : Job} {submission : Submission}
    (sound : job.Sound) (template : job.block.IsTemplate sha256d)
    (size : submission.extranonce2.length = 4) :
    ∃ coinbasetx,
      coinbasetx.HashSized ∧
      serialize coinbasetx = job.coinbase client.extranonce submission.extranonce2 ∧
      client.assemble sha256d job submission =
        some (.ok ({ job.block with
          time := Submission.word submission.timebuf
          nonce := Submission.word submission.noncebuf }.withTree sha256d coinbasetx
            job.block.tx.tail)) := by
  rcases sound.halves template with ⟨height, pubkey, value, others, txEq, fits, first, second⟩
  let script := serialize height ++ (serialize client.extranonce ++ submission.extranonce2)
  have scriptLength : script.length = 12 := by
    simp [script, length_serialize_scalar, Scalar.size, size]
  have bytes : serialize (coinbaseWith script pubkey value) =
      job.coinbase client.extranonce submission.extranonce2 := by
    rw [serialize_coinbaseWith pubkey value scriptLength, Job.coinbase, first, second]
    simp [script]
  have fitsAgain : Fits (serialize (coinbaseWith script pubkey value)) := by
    rw [serialize_createCoinbaseTX] at fits
    rw [serialize_coinbaseWith pubkey value scriptLength]
    simp only [Fits, List.length_append, List.length_replicate, length_serialize_scalar,
      Scalar.size, scriptLength] at fits ⊢
    omega
  have buffer : ({} : ByteBuffer) <<< job.coinbase1 <<< client.extranonce <<<
      submission.extranonce2 <<< job.coinbase2 =
      ByteBuffer.ofBinary (serialize (coinbaseWith script pubkey value)) := by
    rw [bytes]
    simp [Appends.shiftLeft_eq, ByteBuffer.ofBinary, Job.coinbase]
  refine ⟨_, coinbaseWith_hashSized script pubkey value, bytes, ?_⟩
  rcases read_coinbaseWith fitsAgain with ⟨rest, readEq⟩
  have treeEq := template.hasTree.merkleTree_eq txEq template.small
  have rebuilt := @Block.rebuildMerkleTree_eq sha256d
    { job.block with
      time := Submission.word submission.timebuf
      nonce := Submission.word submission.noncebuf
      tx := coinbaseWith script pubkey value :: others }
    (coinbaseWith script pubkey value) _ others rfl treeEq (by simpa [txEq] using template.small)
  -- the equation of `assemble` takes long to prove
  delta assemble
  simp only [buffer, readEq, txEq, List.set_cons_zero, List.tail_cons]
  rw [rebuilt]
  rfl

end Client

namespace Sample

theorem template_eq (sha256d : BinaryData → BinaryData) (bits : UInt32) :
    template sha256d bits =
      (work bits).withTree sha256d (createCoinbaseTX 277315 [2] 2500000000) others := by
  rw [template, Block.buildMerkleTree_eq rfl (by simp [work, others]), Option.getD_some]

theorem template_notifiable (sha256d : BinaryData → BinaryData) (bits : UInt32) :
    Notifiable sha256d (template sha256d bits) := by
  have built := @Block.buildMerkleTree_eq sha256d (work bits) _ others rfl
    (by simp [work, others])
  have fits : Fits (serialize (createCoinbaseTX 277315 [2] 2500000000)) :=
    fits_createCoinbaseTX 277315 2500000000 (by decide)
  rw [template_eq]
  exact ⟨Block.isTemplate_of_built rfl fits (by simp [work, others]) built, rfl⟩

end Sample

end Poolserver.Stratum
