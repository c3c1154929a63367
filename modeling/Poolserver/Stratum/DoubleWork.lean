import Poolserver.Stratum.Accounting

/-!
# Work that is paid twice

Within one job no pair of nonce and extranonce is accepted twice. Jobs do not know of
each other, so the same work can be paid under several jobs, and this is the only way.
-/

namespace Poolserver.Stratum

open Poolserver.Bitcoin RunTrace

/-! ## Roots without collisions -/

section Roots

variable {sha256d : BinaryData → BinaryData}

/-- What is hashed from a coinbase up to the merkle root. -/
def spineStrings (sha256d : BinaryData → BinaryData) (coinbase : BinaryData)
    (rest : List BinaryData) : Set BinaryData :=
  {data | data = coinbase ∨ ∃ pair ∈ MerkleSpine.spineSteps (merkleNode sha256d)
    (sha256d coinbase) (MerkleSpine.branch (merkleNode sha256d) rest), data = pair.1 ++ pair.2}

theorem length_of_mem_spineSteps (sized : ∀ data, (sha256d data).length = 32)
    {coinbase : BinaryData} {rest : List BinaryData} (restSized : ∀ data ∈ rest, data.length = 32)
    {pair : BinaryData × BinaryData}
    (pairMem : pair ∈ MerkleSpine.spineSteps (merkleNode sha256d) (sha256d coinbase)
      (MerkleSpine.branch (merkleNode sha256d) rest)) :
    pair.1.length = 32 ∧ pair.2.length = 32 := by
  rcases MerkleSpine.mem_spineSteps _ pairMem with ⟨left, sibling⟩
  constructor
  · rcases left with leaf | ⟨_, _, combined⟩
    · rw [leaf]
      exact sized _
    · rw [combined]
      exact sized _
  · rcases MerkleSpine.mem_branch _ sibling with leaf | ⟨_, _, combined⟩
    · exact restSized _ leaf
    · rw [combined]
      exact sized _

/-- Without collisions, a root determines the coinbase and the branch. -/
theorem coinbase_branch_of_root_eq (sized : ∀ data, (sha256d data).length = 32)
    {strings : Set BinaryData} (collisionFree : strings.InjOn sha256d)
    {left right : BinaryData} {leftRest rightRest : List BinaryData}
    (leftStrings : spineStrings sha256d left leftRest ⊆ strings)
    (rightStrings : spineStrings sha256d right rightRest ⊆ strings)
    (leftLong : 64 < left.length) (rightLong : 64 < right.length)
    (leftSized : ∀ data ∈ leftRest, data.length = 32)
    (rightSized : ∀ data ∈ rightRest, data.length = 32)
    (sameRoot : MerkleSpine.root (merkleNode sha256d) (sha256d left) leftRest =
      MerkleSpine.root (merkleNode sha256d) (sha256d right) rightRest) :
    left = right ∧ MerkleSpine.branch (merkleNode sha256d) leftRest =
      MerkleSpine.branch (merkleNode sha256d) rightRest := by
  let combined : Set (BinaryData × BinaryData) :=
    {pair | (pair.1.length = 32 ∧ pair.2.length = 32) ∧ pair.1 ++ pair.2 ∈ strings}
  have injective : combined.InjOn fun pair => merkleNode sha256d pair.1 pair.2 := by
    intro first firstIn second secondIn same
    have strings := collisionFree firstIn.2 secondIn.2 same
    rcases List.append_inj strings (firstIn.1.1.trans secondIn.1.1.symm) with ⟨lefts, rights⟩
    exact Prod.ext lefts rights
  have leafIn {coinbase : BinaryData} {rest : List BinaryData}
      (inside : spineStrings sha256d coinbase rest ⊆ strings) : coinbase ∈ strings :=
    inside (Or.inl rfl)
  -- a coinbase is longer than the two hashes of an inner node
  have notInner {coinbase : BinaryData} {pair : BinaryData × BinaryData}
      (coinbaseIn : coinbase ∈ strings) (long : 64 < coinbase.length) (pairIn : pair ∈ combined) :
      sha256d coinbase ≠ merkleNode sha256d pair.1 pair.2 := by
    intro same
    have equal := collisionFree coinbaseIn pairIn.2 same
    rw [equal, List.length_append, pairIn.1.1, pairIn.1.2] at long
    exact absurd long (by decide)
  have leftSteps : ∀ pair ∈ MerkleSpine.spineSteps (merkleNode sha256d) (sha256d left)
      (MerkleSpine.branch (merkleNode sha256d) leftRest), pair ∈ combined := fun pair pairMem =>
    ⟨length_of_mem_spineSteps sized leftSized pairMem, leftStrings (Or.inr ⟨pair, pairMem, rfl⟩)⟩
  have rightSteps : ∀ pair ∈ MerkleSpine.spineSteps (merkleNode sha256d) (sha256d right)
      (MerkleSpine.branch (merkleNode sha256d) rightRest), pair ∈ combined := fun pair pairMem =>
    ⟨length_of_mem_spineSteps sized rightSized pairMem, rightStrings (Or.inr ⟨pair, pairMem, rfl⟩)⟩
  rcases MerkleSpine.spine_injective injective leftSteps rightSteps sameRoot with
    ⟨leaves, siblings⟩ | ⟨pair, pairMem, inner⟩ | ⟨pair, pairMem, inner⟩
  · exact ⟨collisionFree (leafIn leftStrings) (leafIn rightStrings) leaves, siblings⟩
  · exact (notInner (leafIn leftStrings) leftLong (rightSteps pair pairMem) inner).elim
  · exact (notInner (leafIn rightStrings) rightLong (leftSteps pair pairMem) inner).elim

end Roots

/-! ## The property -/

variable {setting : Setting} {env : Env} {msg : JSON} {client : Client} {connection : Connection}
  {trace : List ClientEntry} {last : Client}

/-- Two jobs for one and the same work: their messages differ in the id, the time and the flag. -/
structure Job.SameWork (job other : Job) : Prop where
  version : job.block.version = other.block.version
  prevBlockHash : job.block.prevBlockHash = other.block.prevBlockHash
  bits : job.block.bits = other.block.bits
  coinbase1 : job.coinbase1 = other.coinbase1
  coinbase2 : job.coinbase2 = other.coinbase2
  branch : job.branch = other.branch

/-- The call hashes a block and records a valid share. -/
def Pays (entry : ClientEntry) (block : Block) : Prop :=
  .getHash block ∈ entry.output.effects ∧ credits entry.output.effects ≠ []

/-- No header is paid twice. -/
def PaidOnce (trace : List ClientEntry) : Prop :=
  ∀ first second, Before first second trace → ∀ firstBlock secondBlock,
    Pays first firstBlock → Pays second secondBlock →
    firstBlock.toBlockHeader ≠ secondBlock.toBlockHeader

/-- The header of a checked submission meets the target, and is no block the daemon refuses. -/
def Checked.Payable (checked : Checked setting env msg client) (block : Block) : Prop :=
  checked.assembled = some (.ok block) ∧
  ByteOrder.value (block.getHash setting.sha256d) ≤ checked.job.jobTarget ∧
  (ByteOrder.value (block.getHash setting.sha256d) ≤ checked.job.blockTarget →
    env.submitBlock block = true)

/--
The second call submits, for another job object of the same work, the extranonce, the
time and the nonce that the first one submitted, and both are to be paid.
-/
def Repeats (setting : Setting) (first second : ClientEntry) : Prop :=
  ∃ (firstMsg secondMsg : JSON)
    (firstChecked : Checked setting first.event.env firstMsg first.before)
    (secondChecked : Checked setting second.event.env secondMsg second.before)
    (firstBlock secondBlock : Block),
    Submits first firstMsg ∧ Submits second secondMsg ∧
    firstChecked.Payable firstBlock ∧ secondChecked.Payable secondBlock ∧
    firstChecked.addr ≠ secondChecked.addr ∧
    firstChecked.job.SameWork secondChecked.job ∧
    first.before.extranonce = second.before.extranonce ∧
    firstChecked.submission = secondChecked.submission

/-- The strings that are hashed into the root of a checked submission. -/
def Checked.strings (checked : Checked setting env msg client) : Set BinaryData :=
  spineStrings setting.sha256d
    (checked.job.coinbase client.extranonce checked.submission.extranonce2)
    (checked.job.block.tx.tail.map (Transaction.getHash setting.sha256d))

/-- The strings that are hashed into the roots of the checked submissions of a run. -/
def hashedStrings (setting : Setting) (trace : List ClientEntry) : Set BinaryData :=
  {data | ∃ entry ∈ trace, ∃ (msg : JSON)
    (checked : Checked setting entry.event.env msg entry.before),
    Submits entry msg ∧ data ∈ checked.strings}

namespace Checked

/-- A verdict hashes one block. -/
theorem getHash_mem_verdict (checked : Checked setting env msg client) {block other : Block}
    (hashed : .getHash other ∈ (checked.verdict block).effects) : other = block := by
  simp only [verdict, Outcome.after, List.mem_append] at hashed
  rcases hashed with sent | early | judged
  · exact (checked.unsolicited _ sent).elim
  · simpa using early
  · generalize judgedEq : Client.judge env msg _ _ _ _ _ _ = rest at judged
    cases Client.judge_ends judgedEq with
    | above above => simp [Client.respond] at judged
    | solved meets solves accepted => simp [Client.respond] at judged
    | unanswered meets solves refused => simp at judged
    | credited meets large => simp [Client.respond] at judged

theorem credits_verdict_iff (checked : Checked setting env msg client) {block : Block}
    (assembled : checked.assembled = some (.ok block)) (small : checked.job.diff.toNat < 2 ^ 32) :
    credits (checked.verdict block).effects ≠ [] ↔ checked.Payable block := by
  constructor
  · intro credited
    rcases List.exists_mem_of_ne_nil _ credited with ⟨⟨username, difficulty⟩, creditMem⟩
    refine ⟨assembled, (checked.of_credited small creditMem).1, fun solves => ?_⟩
    by_contra refuses
    exact credited (checked.verdict_refused (checked.of_credited small creditMem).1 solves
      (Bool.eq_false_iff.mpr refuses)).2
  · rintro ⟨_, meets, kept⟩
    simp [(checked.verdict_credited meets kept small).2]

theorem header_eq (checked : Checked setting env msg client) {block : Block}
    (sound : checked.job.Sound) (template : checked.job.block.IsTemplate setting.sha256d)
    (assembled : checked.assembled = some (.ok block)) :
    block.toBlockHeader =
      { version := checked.job.block.version
        prevBlockHash := checked.job.block.prevBlockHash
        merkleRootHash := checked.root
        time := Submission.word checked.submission.timebuf
        bits := checked.job.block.bits
        nonce := Submission.word checked.submission.noncebuf } := by
  rcases checked.assembled_eq sound template with ⟨coinbasetx, _, coinbaseEq, shape⟩
  rw [shape, Option.some.injEq, Except.ok.injEq] at assembled
  rw [← assembled]
  simp only [Block.withTree, Transaction.getHash, coinbaseEq, root]

/-- The same work with the same fields has the same header. -/
theorem root_eq_of_sameWork {otherEnv : Env} {otherMsg : JSON} {otherClient : Client}
    (checked : Checked setting env msg client)
    (other : Checked setting otherEnv otherMsg otherClient)
    (template : checked.job.block.IsTemplate setting.sha256d)
    (otherTemplate : other.job.block.IsTemplate setting.sha256d)
    (work : checked.job.SameWork other.job)
    (extranonce : client.extranonce = otherClient.extranonce)
    (submission : checked.submission = other.submission) : checked.root = other.root := by
  have branch := work.branch
  rw [Job.branch_eq template, Job.branch_eq otherTemplate, Option.some.injEq] at branch
  simp only [root, MerkleSpine.root, branch, Job.coinbase, work.coinbase1, work.coinbase2,
    extranonce, submission]

end Checked

theorem effects_of_submits (sized : ∀ data, (setting.sha256d data).length = 32)
    {entry : ClientEntry}
    (stepped : entry.before.step setting entry.event = some (entry.after, entry.output))
    (submits : Submits entry msg) (checked : Checked setting entry.event.env msg entry.before)
    {block : Block} (assembled : checked.assembled = some (.ok block)) :
    entry.output.effects = (checked.verdict block).effects := by
  rcases submits with ⟨actionEq, methodEq⟩
  simp only [Client.step, actionEq, Client.onMessage, methodEq, if_true,
    Client.onMiningSubmit_of_checked sized checked assembled, Option.bind_eq_bind,
    Option.bind_some, Option.pure_def, Option.some.injEq, Prod.mk.injEq] at stepped
  rw [← stepped.2]

/-- A call pays a block exactly if it is a payable submission of it. -/
theorem pays_iff (sized : ∀ data, (setting.sha256d data).length = 32) {entry : ClientEntry}
    (stepped : entry.before.step setting entry.event = some (entry.after, entry.output))
    (small : entry.before.DiffsSmall) {block : Block} :
    Pays entry block ↔
      ∃ (msg : JSON) (checked : Checked setting entry.event.env msg entry.before),
        Submits entry msg ∧ checked.Payable block := by
  constructor
  · rintro ⟨hashed, credited⟩
    rcases Client.verdict_of_step sized stepped hashed trivial with
      ⟨msg, actionEq, methodEq, checked, judged, assembled, _, effectsEq⟩
    rw [effectsEq] at hashed credited
    have same := checked.getHash_mem_verdict hashed
    subst same
    have smallJob := small.jobs checked.job (List.mem_of_getElem? checked.jobAt)
    exact ⟨msg, checked, ⟨actionEq, methodEq⟩,
      (checked.credits_verdict_iff assembled smallJob).mp credited⟩
  · rintro ⟨msg, checked, submits, payable⟩
    have effectsEq := effects_of_submits sized stepped submits checked payable.1
    have smallJob := small.jobs checked.job (List.mem_of_getElem? checked.jobAt)
    refine ⟨?_, ?_⟩
    · rw [effectsEq]
      simp [Checked.verdict, Outcome.after]
    · rw [effectsEq]
      exact (checked.credits_verdict_iff payable.1 smallJob).mpr payable

namespace Checked

theorem long_coinbase (checked : Checked setting env msg client) (sound : checked.job.Sound)
    (template : checked.job.block.IsTemplate setting.sha256d) :
    64 < (checked.job.coinbase client.extranonce checked.submission.extranonce2).length := by
  rcases sound.halves template with ⟨height, pubkey, value, others, _, _, first, second⟩
  have tail := length_coinbaseTail pubkey value
  simp only [Job.coinbase, first, second, List.length_append, length_coinbaseHead,
    length_serialize_scalar, Scalar.size, checked.readFrom.extranonce2.1]
  omega

/-- One header has one work, one extranonce and one set of fields behind it. -/
theorem sameWork_of_header_eq {otherEnv : Env} {otherMsg : JSON} {otherClient : Client}
    (sized : ∀ data, (setting.sha256d data).length = 32) {strings : Set BinaryData}
    (collisionFree : strings.InjOn setting.sha256d)
    {checked : Checked setting env msg client}
    {other : Checked setting otherEnv otherMsg otherClient}
    (sound : checked.job.Sound) (template : checked.job.block.IsTemplate setting.sha256d)
    (otherSound : other.job.Sound) (otherTemplate : other.job.block.IsTemplate setting.sha256d)
    (inside : checked.strings ⊆ strings) (otherInside : other.strings ⊆ strings)
    {block otherBlock : Block} (assembled : checked.assembled = some (.ok block))
    (otherAssembled : other.assembled = some (.ok otherBlock))
    (same : block.toBlockHeader = otherBlock.toBlockHeader) :
    checked.job.SameWork other.job ∧ client.extranonce = otherClient.extranonce ∧
      checked.submission = other.submission := by
  rw [checked.header_eq sound template assembled,
    other.header_eq otherSound otherTemplate otherAssembled] at same
  simp only [BlockHeader.mk.injEq] at same
  rcases same with ⟨version, prevBlockHash, roots, time, bits, nonce⟩
  have hashesSized : ∀ (rest : List Transaction),
      ∀ data ∈ rest.map (Transaction.getHash setting.sha256d), data.length = 32 := by
    intro rest data dataMem
    rcases List.mem_map.mp dataMem with ⟨transaction, _, rfl⟩
    exact sized _
  rcases coinbase_branch_of_root_eq sized collisionFree inside otherInside
    (checked.long_coinbase sound template) (other.long_coinbase otherSound otherTemplate)
    (hashesSized _) (hashesSized _) roots with ⟨coinbases, branches⟩
  rcases sound.halves template with ⟨_, _, _, _, _, _, first, _⟩
  rcases otherSound.halves otherTemplate with ⟨_, _, _, _, _, _, otherFirst, _⟩
  have firstLength : checked.job.coinbase1.length = other.job.coinbase1.length := by
    simp [first, otherFirst, length_serialize_scalar]
  have size := checked.readFrom.extranonce2.1
  have otherSize := other.readFrom.extranonce2.1
  simp only [Job.coinbase, List.append_assoc] at coinbases
  rcases List.append_inj coinbases firstLength with ⟨coinbase1, coinbases⟩
  rcases List.append_inj coinbases (by simp [length_serialize_scalar]) with
    ⟨extranonces, coinbases⟩
  rcases List.append_inj coinbases (size.trans otherSize.symm) with ⟨extranonce2, coinbase2⟩
  have timebuf : checked.submission.timebuf = other.submission.timebuf := by
    rw [← Submission.serialize_word checked.readFrom.timebuf.1, time,
      Submission.serialize_word other.readFrom.timebuf.1]
  have noncebuf : checked.submission.noncebuf = other.submission.noncebuf := by
    rw [← Submission.serialize_word checked.readFrom.noncebuf.1, nonce,
      Submission.serialize_word other.readFrom.noncebuf.1]
  refine ⟨⟨version, prevBlockHash, bits, coinbase1, coinbase2, ?_⟩,
    serialize_injective extranonces, ?_⟩
  · rw [Job.branch_eq template, Job.branch_eq otherTemplate, branches]
  · exact Submission.ext extranonce2 timebuf noncebuf

end Checked

/-! ## The result -/

/--
If no two of the strings hashed in a run collide, no header is paid twice exactly if no
submission to be paid is repeated for another job object of the same work.
-/
theorem paidOnce_iff (sized : ∀ data, (setting.sha256d data).length = 32)
    (run : ClientRun setting connection trace last)
    (supplied : Supplied trace (Block.IsTemplate setting.sha256d))
    (collisionFree : (hashedStrings setting trace).InjOn setting.sha256d) :
    PaidOnce trace ↔ ∀ first second, Before first second trace → ¬Repeats setting first second := by
  have suitable {history : List ClientEntry} {client : Client} {job : Job}
      (reached : ClientRun setting connection history client)
      (inside : ∃ later, trace = history ++ later) (jobMem : job ∈ client.heap) :
      job.Sound ∧ job.block.IsTemplate setting.sha256d := by
    rcases inside with ⟨later, rfl⟩
    exact sound_of_run reached supplied.left jobMem
  constructor
  · rintro once first second ⟨earlier, between, rest, rfl⟩ ⟨firstMsg, secondMsg, firstChecked,
      secondChecked, firstBlock, secondBlock, firstSubmits, secondSubmits, firstPayable,
      secondPayable, _, work, extranonce, submission⟩
    rcases run.split_two with ⟨⟨firstRun, firstStep⟩, secondRun, secondStep⟩
    rcases suitable firstRun ⟨_, rfl⟩ (List.mem_of_getElem? firstChecked.jobAt)
      with ⟨firstSound, firstTemplate⟩
    rcases suitable secondRun ⟨second :: rest, by simp⟩ (List.mem_of_getElem? secondChecked.jobAt)
      with ⟨secondSound, secondTemplate⟩
    have firstPays := (pays_iff sized firstStep (diffsSmall_of_run firstRun)).mpr
      ⟨firstMsg, firstChecked, firstSubmits, firstPayable⟩
    have secondPays := (pays_iff sized secondStep (diffsSmall_of_run secondRun)).mpr
      ⟨secondMsg, secondChecked, secondSubmits, secondPayable⟩
    refine once first second ⟨earlier, between, rest, rfl⟩ _ _ firstPays secondPays ?_
    rw [firstChecked.header_eq firstSound firstTemplate firstPayable.1,
      secondChecked.header_eq secondSound secondTemplate secondPayable.1, work.version,
      work.prevBlockHash, work.bits, submission,
      firstChecked.root_eq_of_sameWork secondChecked firstTemplate secondTemplate work extranonce
        submission]
  · rintro fresh first second ⟨earlier, between, rest, rfl⟩ firstBlock secondBlock firstPays
      secondPays same
    rcases run.split_two with ⟨⟨firstRun, firstStep⟩, secondRun, secondStep⟩
    rcases (pays_iff sized firstStep (diffsSmall_of_run firstRun)).mp firstPays with
      ⟨firstMsg, firstChecked, firstSubmits, firstPayable⟩
    rcases (pays_iff sized secondStep (diffsSmall_of_run secondRun)).mp secondPays with
      ⟨secondMsg, secondChecked, secondSubmits, secondPayable⟩
    rcases suitable firstRun ⟨_, rfl⟩ (List.mem_of_getElem? firstChecked.jobAt)
      with ⟨firstSound, firstTemplate⟩
    rcases suitable secondRun ⟨second :: rest, by simp⟩ (List.mem_of_getElem? secondChecked.jobAt)
      with ⟨secondSound, secondTemplate⟩
    have firstInside : firstChecked.strings ⊆ hashedStrings setting
        (earlier ++ first :: (between ++ second :: rest)) := fun data dataIn =>
      ⟨first, by simp, firstMsg, firstChecked, firstSubmits, dataIn⟩
    have secondInside : secondChecked.strings ⊆ hashedStrings setting
        (earlier ++ first :: (between ++ second :: rest)) := fun data dataIn =>
      ⟨second, by simp, secondMsg, secondChecked, secondSubmits, dataIn⟩
    rcases Checked.sameWork_of_header_eq sized collisionFree firstSound firstTemplate secondSound
      secondTemplate firstInside secondInside firstPayable.1 secondPayable.1 same with
      ⟨work, extranonce, submission⟩
    refine fresh first second ⟨earlier, between, rest, rfl⟩ ⟨firstMsg, secondMsg, firstChecked,
      secondChecked, firstBlock, secondBlock, firstSubmits, secondSubmits, firstPayable,
      secondPayable, ?_, work, extranonce, submission⟩
    -- within one job object the second submission would have been a duplicate
    intro sameJob
    have submitted : .submitShare secondChecked.addr firstChecked.submission.share ∈
        log (earlier ++ first :: between) := by
      refine List.mem_flatMap.mpr ⟨first, by simp, ?_⟩
      rw [effects_of_submits sized firstStep firstSubmits firstChecked firstPayable.1, ← sameJob]
      simp [Checked.verdict, Outcome.after]
    exact new_of_checked secondRun secondChecked submitted (by rw [submission])

/-! ## Samples -/

namespace Sample

/-- Keeps the eight bytes behind the block height of a coinbase, and the level in the merkle tree
that they come to, and sets one later bit. -/
def gapHash (data : BinaryData) : BinaryData :=
  let kept :=
    if data.length = 64 then data.take 8 ++ [data.getD 8 0 + 1]
    else (data.drop cbsplit).take 8
  (kept ++ List.replicate 20 0).take 20 ++ 1 :: List.replicate 11 0

theorem length_gapHash (data : BinaryData) : (gapHash data).length = 32 := by
  simp [gapHash]

/-- Work whose blocks are harder to find than any share. -/
def hardEnv : Env :=
  Sample.env (template gapHash 0x0d00ffff) true

/-- A submission of the worker with another second extranonce. -/
def otherSubmission : Action :=
  .message (request "mining.submit" ["alice", "0", "00000002", "52c35a80", "deadbeef"])

/-- Two different submissions on one job. -/
def onceEvents : List Event :=
  [⟨subscribe, hardEnv⟩, ⟨authorize, hardEnv⟩, ⟨submit "0", hardEnv⟩, ⟨otherSubmission, hardEnv⟩]

/-- One submission on two jobs that were sent for the same work. -/
def twiceEvents : List Event :=
  [⟨subscribe, hardEnv⟩, ⟨authorize, hardEnv⟩, ⟨.sendJob false, hardEnv⟩, ⟨submit "0", hardEnv⟩,
    ⟨submit "1", hardEnv⟩]

end Sample

/-- The block that a call hashes. -/
def Effect.hashed? : Effect → Option Block
  | getHash block => some block
  | _ => none

theorem Effect.mem_of_findSome?_hashed? {effects : List Effect} {block : Block}
    (found : effects.findSome? Effect.hashed? = some block) : .getHash block ∈ effects := by
  rcases List.exists_of_findSome?_eq_some found with ⟨effect, effectMem, hashed⟩
  cases effect with
  | getHash other =>
      simp only [Effect.hashed?, Option.some.injEq] at hashed
      rwa [← hashed]
  | _ => simp [Effect.hashed?] at hashed

/-- The node on the way up from the coinbase with that gap. -/
def Sample.spineNode (gap : BinaryData) (level : UInt8) : BinaryData :=
  gap ++ (level :: List.replicate 11 0 ++ 1 :: List.replicate 11 0)

theorem Sample.gapHash_coinbase {first gap second : BinaryData} (cut : first.length = cbsplit)
    (size : gap.length = 8) (long : 64 < (first ++ (gap ++ second)).length) :
    gapHash (first ++ (gap ++ second)) = spineNode gap 0 := by
  have kept : (gap ++ List.replicate 20 (0 : UInt8)).take 20 = gap ++ List.replicate 12 0 := by
    simp [List.take_append, size]
  rw [gapHash, if_neg (ne_of_gt long), List.drop_left' cut, List.take_left' size]
  simp only [kept, spineNode, List.append_assoc]
  rfl

theorem Sample.gapHash_spineNode {gap sibling : BinaryData} {level : UInt8}
    (size : gap.length = 8) (siblingSize : sibling.length = 32) :
    gapHash (spineNode gap level ++ sibling) = spineNode gap (level + 1) := by
  have whole : (spineNode gap level ++ sibling).length = 64 := by
    simp [spineNode, size, siblingSize]
  have byte : (spineNode gap level ++ sibling).getD 8 0 = level := by
    simp [spineNode, size, List.getD_eq_getElem?_getD]
  have front : (spineNode gap level ++ sibling).take 8 = gap := by
    rw [spineNode, List.append_assoc, List.take_left' size]
  have kept : (gap ++ [level + 1] ++ List.replicate 20 (0 : UInt8)).take 20 =
      gap ++ (level + 1) :: List.replicate 11 0 := by
    simp [List.take_append, size]
  rw [gapHash, if_pos whole, byte, front]
  simp only [kept, spineNode]
  simp

/-- The siblings of the coinbase in the sample work. -/
def Sample.siblings : List BinaryData :=
  MerkleSpine.branch (merkleNode gapHash) (others.map (Transaction.getHash gapHash))

theorem Sample.siblings_eq : ∃ first second, siblings = [first, second] ∧
    first.length = 32 ∧ second.length = 32 := by
  have shape : siblings.map List.length = [32, 32] := by
    decide +kernel
  rcases List.map_eq_cons_iff.mp shape with ⟨first, rest, siblingsEq, firstSize, shape⟩
  rcases List.map_eq_singleton_iff.mp shape with ⟨second, rfl, secondSize⟩
  exact ⟨first, second, siblingsEq, firstSize, secondSize⟩

/-- A string that is hashed into the root of a submission for the sample work. -/
theorem Sample.exists_gap {connection : Connection} {trace : List ClientEntry} {last : Client}
    (run : ClientRun (Sample.setting Sample.gapHash) connection trace last)
    (supplied : Supplied trace (· = Sample.template Sample.gapHash 0x0d00ffff))
    {data : BinaryData} (hashed : data ∈ hashedStrings (Sample.setting Sample.gapHash) trace) :
    ∃ gap : BinaryData, gap.length = 8 ∧
      data ∈ spineStrings Sample.gapHash
        ((serialize (createCoinbaseTX 277315 [2] 2500000000)).take cbsplit ++
          (gap ++ (serialize (createCoinbaseTX 277315 [2] 2500000000)).drop (cbsplit + 8)))
        (others.map (Transaction.getHash Sample.gapHash)) := by
  rcases hashed with ⟨entry, entryMem, msg, checked, _, dataIn⟩
  rcases run.before_of_mem entryMem with ⟨earlier, later, rfl, runBefore, _⟩
  rcases sound_of_run runBefore supplied.left (List.mem_of_getElem? checked.jobAt) with
    ⟨sound, blockEq⟩
  have txEq : checked.job.block.tx = createCoinbaseTX 277315 [2] 2500000000 :: others := by
    rw [blockEq, Sample.template_eq]
    rfl
  rcases sound.cut with ⟨coinbase, rest, cutEq, _, first, second⟩
  rw [txEq, List.cons.injEq] at cutEq
  rcases cutEq with ⟨rfl, _⟩
  refine ⟨serialize entry.before.extranonce ++ checked.submission.extranonce2, ?_, ?_⟩
  · simp [length_serialize_scalar, Scalar.size, checked.readFrom.extranonce2.1]
  · rw [Checked.strings, txEq, Job.coinbase, first, second] at dataIn
    simp only [List.append_assoc] at dataIn ⊢
    exact dataIn

/-- What is hashed for a gap, and the nodes that come out. -/
theorem Sample.gapHash_spineStrings {first second gap data : BinaryData}
    (siblingsEq : siblings = [first, second]) (firstSize : first.length = 32)
    (secondSize : second.length = 32) (size : gap.length = 8)
    (dataIn : data ∈ spineStrings Sample.gapHash
      ((serialize (createCoinbaseTX 277315 [2] 2500000000)).take cbsplit ++
        (gap ++ (serialize (createCoinbaseTX 277315 [2] 2500000000)).drop (cbsplit + 8)))
      (others.map (Transaction.getHash Sample.gapHash))) :
    (data = (serialize (createCoinbaseTX 277315 [2] 2500000000)).take cbsplit ++
        (gap ++ (serialize (createCoinbaseTX 277315 [2] 2500000000)).drop (cbsplit + 8)) ∧
      gapHash data = spineNode gap 0) ∨
    (data = spineNode gap 0 ++ first ∧ gapHash data = spineNode gap 1) ∨
    (data = spineNode gap 1 ++ second ∧ gapHash data = spineNode gap 2) := by
  have cut : ((serialize (createCoinbaseTX 277315 [2] 2500000000)).take cbsplit).length =
      cbsplit := by
    decide +kernel
  have rest : 64 < cbsplit + 8 +
      ((serialize (createCoinbaseTX 277315 [2] 2500000000)).drop (cbsplit + 8)).length := by
    decide +kernel
  have leaf := @gapHash_coinbase _ gap
    ((serialize (createCoinbaseTX 277315 [2] 2500000000)).drop (cbsplit + 8)) cut size
    (by rw [List.length_append, List.length_append]; omega)
  have node := @gapHash_spineNode gap first 0 size firstSize
  rcases dataIn with rfl | ⟨pair, pairMem, rfl⟩
  · exact .inl ⟨rfl, leaf⟩
  · have steps : MerkleSpine.spineSteps (merkleNode gapHash) (spineNode gap 0) siblings =
        [(spineNode gap 0, first), (spineNode gap 1, second)] := by
      rw [siblingsEq]
      simp only [MerkleSpine.spineSteps, merkleNode, Util.join, node]
      rfl
    rw [leaf] at pairMem
    change pair ∈ MerkleSpine.spineSteps (merkleNode gapHash) (spineNode gap 0) siblings at pairMem
    rw [steps] at pairMem
    rcases List.mem_pair.mp pairMem with rfl | rfl
    · exact .inr (.inl ⟨rfl, node⟩)
    · exact .inr (.inr ⟨rfl, gapHash_spineNode size secondSize⟩)

theorem Sample.spineNode_inj {gap other : BinaryData} {level otherLevel : UInt8}
    (size : gap.length = 8) (otherSize : other.length = 8)
    (same : spineNode gap level = spineNode other otherLevel) :
    gap = other ∧ level = otherLevel := by
  rcases List.append_inj same (size.trans otherSize.symm) with ⟨gapEq, behind⟩
  injection behind with levelEq _
  exact ⟨gapEq, levelEq⟩

/-- Only coinbases and the nodes above them are hashed, and what is kept tells them apart. -/
theorem Sample.collisionFree {connection : Connection} {trace : List ClientEntry} {last : Client}
    (run : ClientRun (Sample.setting Sample.gapHash) connection trace last)
    (supplied : Supplied trace (· = Sample.template Sample.gapHash 0x0d00ffff)) :
    (hashedStrings (Sample.setting Sample.gapHash) trace).InjOn Sample.gapHash := by
  intro left leftIn right rightIn same
  rcases Sample.siblings_eq with ⟨first, second, siblingsEq, firstSize, secondSize⟩
  rcases Sample.exists_gap run supplied leftIn with ⟨leftGap, leftSize, leftIn⟩
  rcases Sample.exists_gap run supplied rightIn with ⟨rightGap, rightSize, rightIn⟩
  rcases Sample.gapHash_spineStrings siblingsEq firstSize secondSize leftSize leftIn with
    ⟨leftEq, leftHash⟩ | ⟨leftEq, leftHash⟩ | ⟨leftEq, leftHash⟩
  all_goals
    rcases Sample.gapHash_spineStrings siblingsEq firstSize secondSize rightSize rightIn with
      ⟨rightEq, rightHash⟩ | ⟨rightEq, rightHash⟩ | ⟨rightEq, rightHash⟩
  all_goals
    rw [leftHash, rightHash] at same
    rcases Sample.spineNode_inj leftSize rightSize same with ⟨rfl, level⟩
    first
    | exact leftEq.trans rightEq.symm
    | exact absurd level (by decide)

/-- On one job, two different submissions are paid once each. -/
theorem paidOnce_sample :
    ∃ (trace : List ClientEntry) (last : Client),
      ClientRun (Sample.setting Sample.gapHash) Sample.connection trace last ∧
      (trace.map fun entry => (credits entry.output.effects).length) = [0, 0, 1, 1] ∧
      PaidOnce trace := by
  have found : ∃ result ∈ replay (Client.step (Sample.setting Sample.gapHash))
      (Client.new Sample.config Sample.connection) Sample.onceEvents,
      (result.1.map fun entry => (credits entry.output.effects).length) = [0, 0, 1, 1] ∧
        ∀ entry ∈ result.1, entry.before.heap.length ≤ 1 := by
    decide +kernel
  rcases found with ⟨⟨trace, last⟩, replayed, paid, oneJob⟩
  have run : ClientRun (Sample.setting Sample.gapHash) Sample.connection trace last :=
    .ofReplay replayed
  have supplied : Supplied trace (· = Sample.template Sample.gapHash 0x0d00ffff) := by
    refine supplied_of_replay ?_ replayed
    simp [Sample.onceEvents, Sample.hardEnv, Sample.env]
  have templates : Supplied trace (Block.IsTemplate Sample.gapHash) :=
    supplied.mono fun workEq => workEq ▸ (Sample.template_notifiable _ _).template
  refine ⟨trace, last, run, paid, (paidOnce_iff Sample.length_gapHash run templates
    (Sample.collisionFree run supplied)).mpr ?_⟩
  rintro first second ⟨earlier, between, rest, rfl⟩ ⟨_, _, firstChecked, secondChecked, _, _, _, _,
    _, _, otherJob, _⟩
  have firstOne := oneJob first (by simp)
  have secondOne := oneJob second (by simp)
  have firstInside := (List.getElem?_eq_some_iff.mp firstChecked.jobAt).1
  have secondInside := (List.getElem?_eq_some_iff.mp secondChecked.jobAt).1
  omega

/-- A miner who gets the same work as two jobs is paid twice for one header. -/
theorem exists_paid_twice :
    ∃ (trace : List ClientEntry) (last : Client) (first second : ClientEntry)
      (firstBlock secondBlock : Block),
      trace.map Entry.event = Sample.twiceEvents ∧
      ClientRun (Sample.setting Sample.gapHash) Sample.connection trace last ∧
      Before first second trace ∧
      Pays first firstBlock ∧ Pays second secondBlock ∧
      firstBlock.toBlockHeader = secondBlock.toBlockHeader := by
  have found : ∃ result : List ClientEntry × Client,
      result ∈ replay (Client.step (Sample.setting Sample.gapHash))
        (Client.new Sample.config Sample.connection) Sample.twiceEvents ∧
      ∃ first : ClientEntry, first ∈ result.1[3]? ∧
      ∃ second : ClientEntry, second ∈ result.1[4]? ∧
      ∃ firstBlock : Block, firstBlock ∈ first.output.effects.findSome? Effect.hashed? ∧
      ∃ secondBlock : Block, secondBlock ∈ second.output.effects.findSome? Effect.hashed? ∧
        credits first.output.effects ≠ [] ∧ credits second.output.effects ≠ [] ∧
          firstBlock.toBlockHeader = secondBlock.toBlockHeader := by
    decide +kernel
  rcases found with ⟨⟨trace, last⟩, replayed, first, firstAt, second, secondAt, firstBlock,
    firstHashed, secondBlock, secondHashed, firstPaid, secondPaid, same⟩
  exact ⟨trace, last, first, second, firstBlock, secondBlock, map_event_replay replayed,
    .ofReplay replayed, before_of_getElem? firstAt secondAt (by decide),
    ⟨Effect.mem_of_findSome?_hashed? firstHashed, firstPaid⟩,
    ⟨Effect.mem_of_findSome?_hashed? secondHashed, secondPaid⟩, same⟩

end Poolserver.Stratum
