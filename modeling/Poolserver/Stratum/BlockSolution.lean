import Poolserver.NetworkMgr.NetworkMgr
import Poolserver.Stratum.Invariants

/-!
# Block solutions

A hash that meets the target of the network is submitted as a block only if it meets
the target of the job as well, which is checked first. The block that is submitted is
the one whose header was hashed, and its encoding is decoded to the same block.
-/

namespace Poolserver.Stratum

open Poolserver.Bitcoin

variable {setting : Setting} {env : Env} {msg : JSON} {client : Client}

namespace Checked

/-- A verdict submits its block if the hash meets both targets. -/
theorem submitBlock_mem_verdict (checked : Checked setting env msg client) {block other : Block} :
    .submitBlock other ∈ (checked.verdict block).effects ↔
      other = block ∧
        ByteOrder.value (block.getHash setting.sha256d) ≤ checked.job.jobTarget ∧
        ByteOrder.value (block.getHash setting.sha256d) ≤ checked.job.blockTarget := by
  have unsent : .submitBlock other ∉ checked.sent :=
    fun sent => checked.unsolicited _ sent
  have jobTarget : checked.stored.jobTarget = checked.job.jobTarget := rfl
  have blockTarget : checked.stored.blockTarget = checked.job.blockTarget := rfl
  simp only [verdict, Outcome.after, Client.judge, jobTarget, blockTarget]
  split
  · rename_i above
    simp [Client.respond, unsent, not_le.mpr above]
  rename_i below
  split
  · rename_i candidate
    split <;> simp [Client.respond, unsent, not_lt.mp below, candidate]
  · rename_i above
    simp [Client.respond, unsent, above]

end Checked

/--
For a submission that passes every check before its block is assembled, a hash that
meets the block target leads to a submitted block exactly if it meets the job target.
-/
theorem submitBlock_called_iff (sized : ∀ data, (setting.sha256d data).length = 32)
    (checked : Checked setting env msg client) {block : Block}
    (assembled : checked.assembled = some (.ok block)) :
    ∃ outcome, client.onMiningSubmit setting env msg = some outcome ∧
      ((ByteOrder.value (block.getHash setting.sha256d) ≤ checked.job.blockTarget →
          .submitBlock block ∈ outcome.effects) ↔
        (ByteOrder.value (block.getHash setting.sha256d) ≤ checked.job.blockTarget →
          ByteOrder.value (block.getHash setting.sha256d) ≤ checked.job.jobTarget)) := by
  refine ⟨_, Client.onMiningSubmit_of_checked sized checked assembled, ?_⟩
  rw [checked.submitBlock_mem_verdict]
  constructor
  · intro called solves
    exact (called solves).2.1
  · intro meets solves
    exact ⟨rfl, meets solves, solves⟩

/-- A hash below both targets is submitted. -/
theorem submitBlock_called_sample :
    ∃ (checked : Checked (Sample.setting (Sample.hash 2)) (Sample.easyEnv 2)
        (Sample.submission "0") (Sample.worker 2)) (block : Block),
      checked.assembled = some (.ok block) ∧
      ∃ outcome, (Sample.worker 2).onMiningSubmit (Sample.setting (Sample.hash 2))
          (Sample.easyEnv 2) (Sample.submission "0") = some outcome ∧
        .submitBlock block ∈ outcome.effects := by
  have found : ∃ checked ∈ Checked.find? (Sample.setting (Sample.hash 2)) (Sample.easyEnv 2)
      (Sample.submission "0") (Sample.worker 2), ∃ assembled ∈ checked.assembled,
      ∃ block ∈ assembled.toOption,
        ByteOrder.value (block.getHash (Sample.hash 2)) ≤ checked.job.blockTarget ∧
          ByteOrder.value (block.getHash (Sample.hash 2)) ≤ checked.job.jobTarget := by
    decide +kernel
  rcases found with ⟨checked, _, assembled, assembledEq, block, blockEq, solves, meets⟩
  cases assembled with
  | error exception => simp [Except.toOption] at blockEq
  | ok built =>
      simp only [Except.toOption, Option.mem_def, Option.some.injEq] at blockEq
      subst blockEq
      rcases submitBlock_called_iff (Sample.length_hash 2) checked assembledEq with
        ⟨outcome, done, called⟩
      exact ⟨checked, built, assembledEq, outcome, done, called.mpr (fun _ => meets) solves⟩

/-- A hash between a lower job target and a higher block target is thrown away. -/
theorem exists_lost_solution :
    ∃ (checked : Checked (Sample.setting (Sample.hash 30)) (Sample.easyEnv 30)
        (Sample.submission "0") (Sample.worker 30)) (block : Block),
      checked.assembled = some (.ok block) ∧
      ByteOrder.value (block.getHash (Sample.hash 30)) ≤ checked.job.blockTarget ∧
      ∃ outcome, (Sample.worker 30).onMiningSubmit (Sample.setting (Sample.hash 30))
          (Sample.easyEnv 30) (Sample.submission "0") = some outcome ∧
        .submitBlock block ∉ outcome.effects := by
  have found : ∃ checked ∈ Checked.find? (Sample.setting (Sample.hash 30)) (Sample.easyEnv 30)
      (Sample.submission "0") (Sample.worker 30), ∃ assembled ∈ checked.assembled,
      ∃ block ∈ assembled.toOption,
        ByteOrder.value (block.getHash (Sample.hash 30)) ≤ checked.job.blockTarget ∧
          ¬ByteOrder.value (block.getHash (Sample.hash 30)) ≤ checked.job.jobTarget := by
    decide +kernel
  rcases found with ⟨checked, _, assembled, assembledEq, block, blockEq, solves, misses⟩
  cases assembled with
  | error exception => simp [Except.toOption] at blockEq
  | ok built =>
      simp only [Except.toOption, Option.mem_def, Option.some.injEq] at blockEq
      subst blockEq
      refine ⟨checked, built, assembledEq, solves, _,
        Client.onMiningSubmit_of_checked (Sample.length_hash 30) checked assembledEq, ?_⟩
      rw [checked.submitBlock_mem_verdict]
      exact fun submitted => misses submitted.2.1

/-! ## What is submitted -/

/-- The header takes the first eighty bytes of a serialized block. -/
theorem take_serialize_block {block : Block} (hashSized : block.HashSized) :
    (serialize block).take 80 = block.headerBuffer.vec := by
  rw [serialize_block, Block.headerBuffer_vec]
  apply List.take_left'
  simp [BlockHeader.bytes, length_serialize_scalar, Scalar.size, hashSized.prevBlockHash,
    hashSized.merkleRootHash]

/-- A work item whose hashes all have 32 bytes. -/
structure Submittable (sha256d : BinaryData → BinaryData) (work : Block) : Prop
    extends Notifiable sha256d work where
  tx : ∀ transaction ∈ work.tx, transaction.HashSized

open ByteBuffer (Fits) in
/--
The parameter of `submitblock` is the encoding of one block: the rebuilt coinbase in
front of the other transactions of the template, under a header with their merkle root,
with the submitted time and nonce, and with the hash that was compared.
-/
theorem submitted_block_decodes (sized : ∀ data, (setting.sha256d data).length = 32)
    {connection : Connection} {trace : List ClientEntry} {last : Client}
    (run : ClientRun setting connection trace last)
    (supplied : Supplied trace (Submittable setting.sha256d))
    {entry : ClientEntry} (entryMem : entry ∈ trace) {block : Block}
    (submitted : .submitBlock block ∈ entry.output.effects) (fits : Fits (serialize block))
    (target : Block) :
    ∃ (msg : JSON) (checked : Checked setting entry.event.env msg entry.before)
      (bytes : BinaryData) (decoded : Block) (rest : ByteBuffer) (coinbasetx : Transaction),
      entry.event.action = .message msg ∧
      HexText.decode? (NetworkMgr.submitBlockParam block) = some bytes ∧
      Block.read target (ByteBuffer.ofBinary bytes) = .ok (decoded, rest) ∧
      rest.pointer.toNat = bytes.length ∧
      decoded.tx = coinbasetx :: checked.job.block.tx.tail ∧
      serialize coinbasetx =
        checked.job.coinbase entry.before.extranonce checked.submission.extranonce2 ∧
      (∃ built, decoded.buildMerkleTree setting.sha256d = some built ∧
        built.merkleRootHash = decoded.merkleRootHash) ∧
      setting.sha256d (bytes.take 80) = block.getHash setting.sha256d ∧
      .getHash block ∈ entry.output.effects ∧
      ByteOrder.value (block.getHash setting.sha256d) ≤ checked.job.blockTarget ∧
      serialize decoded.time = checked.submission.timebuf ∧
      serialize decoded.nonce = checked.submission.noncebuf := by
  rcases run.before_of_mem entryMem with ⟨earlier, later, rfl, runBefore, stepped⟩
  rcases Client.verdict_of_step sized stepped submitted trivial with
    ⟨msg, actionEq, _, checked, judged, assembled, _, effectsEq⟩
  rw [effectsEq] at submitted
  rcases checked.submitBlock_mem_verdict.mp submitted with ⟨rfl, _, solves⟩
  rcases sound_of_run runBefore supplied.left (List.mem_of_getElem? checked.jobAt) with
    ⟨sound, suitable⟩
  rcases checked.assembled_eq sound suitable.template with
    ⟨coinbasetx, coinbaseSized, coinbaseEq, shape⟩
  rw [shape, Option.some.injEq, Except.ok.injEq] at assembled
  have txEq : block.tx = coinbasetx :: checked.job.block.tx.tail := by rw [← assembled]; rfl
  have small : block.tx.length < 2 ^ 30 := by
    rcases sound.cut with ⟨old, others, cutEq, _⟩
    have := suitable.template.small
    simp only [txEq, cutEq, List.length_cons, List.tail_cons] at this ⊢
    exact this
  have hashSized : block.HashSized := by
    rw [← assembled]
    refine ⟨suitable.prevBlockHash, Block.length_root sized (sized _) _, ?_⟩
    intro transaction transactionMem
    rcases List.mem_cons.mp transactionMem with rfl | other
    · exact coinbaseSized
    · exact suitable.tx transaction (List.mem_of_mem_tail other)
  have decodes := decodes_block hashSized target [] [] (by simpa using fits)
  simp only [ByteBuffer.atCursor, List.nil_append, List.append_nil] at decodes
  refine ⟨msg, checked, serialize block, _, _, coinbasetx, actionEq, ?_, decodes, ?_, txEq,
    coinbaseEq, ⟨_, Block.buildMerkleTree_eq txEq small, ?_⟩, ?_, ?_, solves, ?_, ?_⟩
  · rw [NetworkMgr.submitBlockParam, Util.binToASCII_eq_encode, HexText.decode?_encode]
  · exact @ByteBuffer.toNat_pointer _ [] (by simpa using fits)
  · rw [← assembled]
    rfl
  · rw [take_serialize_block hashSized]
    rfl
  · rw [effectsEq]
    simp [Checked.verdict, Outcome.after]
  · rw [← assembled]
    exact Submission.serialize_word checked.readFrom.timebuf.1
  · rw [← assembled]
    exact Submission.serialize_word checked.readFrom.noncebuf.1

theorem Sample.submittable (sha256d : BinaryData → BinaryData) (bits : UInt32) :
    Submittable sha256d (Sample.template sha256d bits) := by
  refine ⟨Sample.template_notifiable sha256d bits, ?_⟩
  intro transaction transactionMem
  rw [Sample.template_eq] at transactionMem
  have isCoinbase : ∀ transaction ∈ createCoinbaseTX 277315 [2] 2500000000 :: Sample.others,
      ∃ height pubkey value, transaction = createCoinbaseTX height pubkey value := by
    simp only [Sample.others, List.forall_mem_cons]
    exact ⟨⟨_, _, _, rfl⟩, ⟨_, _, _, rfl⟩, ⟨_, _, _, rfl⟩, by simp⟩
  rcases isCoinbase transaction transactionMem with ⟨height, pubkey, value, rfl⟩
  rw [createCoinbaseTX_eq]
  exact coinbaseWith_hashSized _ _ _

/-- The block of an effect that submits one. -/
def Effect.submitted? : Effect → Option Block
  | submitBlock block => some block
  | _ => none

theorem submitted_sample_decodes :
    ∃ (trace : List ClientEntry) (last : Client) (entry : ClientEntry) (block decoded : Block)
      (bytes : BinaryData) (rest : ByteBuffer),
      ClientRun (Sample.setting (Sample.hash 2)) Sample.connection trace last ∧ entry ∈ trace ∧
      .submitBlock block ∈ entry.output.effects ∧
      HexText.decode? (NetworkMgr.submitBlockParam block) = some bytes ∧
      Block.read block (ByteBuffer.ofBinary bytes) = .ok (decoded, rest) ∧
      rest.pointer.toNat = bytes.length := by
  have found : ∃ result ∈ RunTrace.replay (Client.step (Sample.setting (Sample.hash 2)))
      (Client.new Sample.config Sample.connection) (Sample.session (Sample.easyEnv 2)),
      ∃ entry ∈ result.1, ∃ effect ∈ entry.output.effects, ∃ block ∈ effect.submitted?,
        (serialize block).length < 2 ^ 64 := by
    decide +kernel
  rcases found with ⟨⟨trace, last⟩, replayed, entry, entryMem, effect, effectMem, block, blockEq, fits⟩
  have submitted : .submitBlock block ∈ entry.output.effects := by
    cases effect with
    | submitBlock other =>
        simp only [Effect.submitted?, Option.mem_def, Option.some.injEq] at blockEq
        rwa [← blockEq]
    | _ => simp [Effect.submitted?] at blockEq
  have run : ClientRun (Sample.setting (Sample.hash 2)) Sample.connection trace last :=
    .ofReplay replayed
  have supplied : Supplied trace (Submittable (Sample.hash 2)) := by
    refine supplied_of_replay ?_ replayed
    simp [Sample.session, Sample.easyEnv, Sample.env, Sample.submittable]
  rcases submitted_block_decodes (Sample.length_hash 2) run supplied entryMem submitted fits block
    with ⟨_, _, bytes, decoded, rest, _, _, bytesEq, readEq, ended, _⟩
  exact ⟨trace, last, entry, block, decoded, bytes, rest, run, entryMem, submitted, bytesEq,
    readEq, ended⟩

end Poolserver.Stratum
