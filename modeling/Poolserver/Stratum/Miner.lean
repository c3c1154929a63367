import Poolserver.Stratum.Invariants

/-!
# What a miner makes of a job

A Stratum miner sees strings only. From the strings of a notification, the string of
its extranonce and the strings it is going to submit, it builds eighty bytes; they are
the bytes the pool hashes when it gets the submission.
-/

namespace Poolserver.Stratum

open Poolserver.Bitcoin ByteBuffer RunTrace

/-! ## The miner -/

namespace Miner

/-- Turns every four bytes around. -/
def swapWords : BinaryData → BinaryData
  | a :: b :: c :: d :: rest => d :: c :: b :: a :: swapWords rest
  | rest => rest

/-- What a notification says about a header. -/
structure Notify where
  prevhash : BinaryData
  coinb1 : BinaryData
  coinb2 : BinaryData
  merkleBranch : List BinaryData
  version : ℕ
  nbits : ℕ

def readString : JSON → Option StdString
  | .string val => some val
  | _ => none

def readNotify (msg : JSON) : Option Notify :=
  match msg.member (ascii "params") with
  | .ok (.array [_, .string prevhash, .string coinb1, .string coinb2, .array merkleBranch,
      .string version, .string nbits, _, _]) => do
      let prevhash ← HexText.decode? prevhash
      return {
        prevhash := swapWords prevhash
        coinb1 := ← HexText.decode? coinb1
        coinb2 := ← HexText.decode? coinb2
        merkleBranch := ← (← merkleBranch.mapM readString).mapM HexText.decode?
        version := ← HexText.numeral? version
        nbits := ← HexText.numeral? nbits }
  | _ => none

/-- The header for a notification, the subscribed extranonce and the fields of a submission. -/
def header (sha256d : BinaryData → BinaryData) (msg : JSON)
    (extranonce1 extranonce2 ntime nonce : StdString) : Option BinaryData := do
  let notify ← readNotify msg
  let extranonce1 ← HexText.decode? extranonce1
  let extranonce2 ← HexText.decode? extranonce2
  let ntime ← HexText.numeral? ntime
  let nonce ← HexText.numeral? nonce
  let coinbase := notify.coinb1 ++ extranonce1 ++ extranonce2 ++ notify.coinb2
  let root := notify.merkleBranch.foldl (fun h b => sha256d (h ++ b)) (sha256d coinbase)
  return ByteOrder.littleEndian 4 notify.version ++ notify.prevhash ++ root ++
    ByteOrder.littleEndian 4 ntime ++ ByteOrder.littleEndian 4 notify.nbits ++
    ByteOrder.littleEndian 4 nonce

end Miner

/-! ## The previous block hash -/

/-- Words are read back in the order in which they were written. -/
theorem readWords_eq {words : List UInt32} {before : BinaryData}
    (fits : Fits (before ++ words.flatMap serialize)) :
    readWords words.length (ByteBuffer.atCursor before (words.flatMap serialize)) = words := by
  induction words generalizing before with
  | nil => rfl
  | cons word words ih =>
      simp only [List.flatMap_cons, ← List.append_assoc] at fits
      have decoded := decodes_scalar word before (words.flatMap serialize) fits
      simp only [ByteBuffer.read, Except.ok.injEq] at decoded
      rw [List.flatMap_cons, List.length_cons, readWords, decoded, ih fits]

/-- A byte string of so many words is the encoding of words. -/
theorem exists_words {data : BinaryData} {count : ℕ} (size : data.length = 4 * count) :
    ∃ words : List UInt32, words.length = count ∧ words.flatMap serialize = data := by
  induction count generalizing data with
  | zero => exact ⟨[], rfl, (List.length_eq_zero_iff.mp size).symm⟩
  | succ count ih =>
      have headSize : (data.take 4).length = 4 := by
        rw [List.length_take]
        omega
      rcases @ih (data.drop 4) (by rw [List.length_drop]; omega) with ⟨words, length, wordsEq⟩
      refine ⟨Submission.word (data.take 4) :: words, by simp [length], ?_⟩
      rw [List.flatMap_cons, Submission.serialize_word headSize, wordsEq, List.take_append_drop]

theorem Miner.swapWords_append {word : BinaryData} (size : word.length = 4) (rest : BinaryData) :
    Miner.swapWords (word ++ rest) = word.reverse ++ Miner.swapWords rest := by
  match word, size with
  | [a, b, c, d], _ => rfl

theorem Miner.swapWords_flatMap (words : List UInt32) :
    Miner.swapWords (words.flatMap serialize) = words.flatMap (List.reverse ∘ serialize) := by
  induction words with
  | nil => rfl
  | cons word words ih =>
      have size : (serialize word).length = 4 := length_serialize_scalar word
      rw [List.flatMap_cons, Miner.swapWords_append size, ih]
      rfl

/-- The miner restores the previous block hash from the words that are sent. -/
theorem Miner.swapWords_prevhashFixed {prevBlockHash : BinaryData}
    (size : prevBlockHash.length = 32) :
    Miner.swapWords (prevhashFixed prevBlockHash) = prevBlockHash := by
  rcases @exists_words (Util.reverse prevBlockHash) 8 (by simp [Util.reverse, size])
    with ⟨words, length, wordsEq⟩
  have fits : Fits ([] ++ words.flatMap serialize) := by
    simp [Fits, wordsEq, Util.reverse, size]
  have wordsRead : readWords 8 (ByteBuffer.ofBinary (Util.reverse prevBlockHash)) = words := by
    rw [← wordsEq, ← length]
    exact readWords_eq fits
  have written : prevhashFixed prevBlockHash = words.reverse.flatMap serialize := by
    simp only [prevhashFixed, wordsRead, foldl_shiftLeft, List.nil_append]
  rw [written, Miner.swapWords_flatMap, ← List.reverse_flatMap, wordsEq, Util.reverse,
    List.reverse_reverse]

/-! ## The header -/

/-- A number of four bytes is written back as the bytes it was read from, turned around. -/
theorem littleEndian_of_numeral? {text bytes : BinaryData} {number : ℕ}
    (decoded : HexText.decode? text = some bytes) (size : bytes.length = 4)
    (read : HexText.numeral? text = some number) :
    ByteOrder.littleEndian 4 number = bytes.reverse := by
  rw [HexText.numeral?_of_decode? decoded, Option.some.injEq] at read
  rw [← read, ← size, ← List.length_reverse, ByteOrder.littleEndian_value]

namespace Miner

theorem mapM_readString (branch : List BinaryData) :
    (branch.map fun sibling => JSON.string (Util.binToASCII sibling)).mapM readString =
      some (branch.map Util.binToASCII) := by
  induction branch with
  | nil => rfl
  | cons sibling siblings ih => simp [readString, ih]

theorem mapM_decode? (branch : List BinaryData) :
    (branch.map Util.binToASCII).mapM HexText.decode? = some branch := by
  induction branch with
  | nil => rfl
  | cons sibling siblings ih => simp [Util.binToASCII_eq_encode, ih]

/-- The miner reads what the pool put into a notification. -/
theorem readNotify_notifyMessage {jobid : UInt32} {job : Job} {branch : List BinaryData}
    {clean : Bool} (size : job.block.prevBlockHash.length = 32) :
    readNotify (Client.notifyMessage jobid job branch clean) =
      some {
        prevhash := job.block.prevBlockHash
        coinb1 := job.coinbase1
        coinb2 := job.coinbase2
        merkleBranch := branch
        version := ByteOrder.value (serialize job.block.version)
        nbits := ByteOrder.value (serialize job.block.bits) } := by
  have decoded : ∀ data, HexText.decode? (Util.binToASCII data) = some data := fun data => by
    rw [Util.binToASCII_eq_encode, HexText.decode?_encode]
  have numeral : ∀ data, HexText.numeral? (Util.binToASCII (Util.reverse data)) =
      some (ByteOrder.value data) := fun data => by
    rw [HexText.numeral?_of_decode? (decoded _), Util.reverse, List.reverse_reverse]
  have shape : readNotify (Client.notifyMessage jobid job branch clean) = (do
      let prevhash ← HexText.decode? (Util.binToASCII (prevhashFixed job.block.prevBlockHash))
      return {
        prevhash := swapWords prevhash
        coinb1 := ← HexText.decode? (Util.binToASCII job.coinbase1)
        coinb2 := ← HexText.decode? (Util.binToASCII job.coinbase2)
        merkleBranch := ← (← (branch.map fun sibling =>
          JSON.string (Util.binToASCII sibling)).mapM readString).mapM HexText.decode?
        version := ← HexText.numeral? (Util.binToASCII (Util.reverse (serialize job.block.version)))
        nbits := ← HexText.numeral? (Util.binToASCII (Util.reverse (serialize job.block.bits))) }) :=
    rfl
  simp only [shape, decoded, numeral, mapM_readString, mapM_decode?, Option.bind_eq_bind,
    Option.bind_some, swapWords_prevhashFixed size]
  rfl

/-- The header that the miner builds from a notification, in the words of the pool. -/
theorem header_notifyMessage {sha256d : BinaryData → BinaryData} {jobid : UInt32} {job : Job}
    {branch : List BinaryData} {clean : Bool} {extranonce extranonce2 : BinaryData}
    {text1 text2 ntime nonce : StdString} {time number : ℕ}
    (size : job.block.prevBlockHash.length = 32)
    (decoded1 : HexText.decode? text1 = some extranonce)
    (decoded2 : HexText.decode? text2 = some extranonce2)
    (timeRead : HexText.numeral? ntime = some time)
    (nonceRead : HexText.numeral? nonce = some number) :
    header sha256d (Client.notifyMessage jobid job branch clean) text1 text2 ntime nonce =
      some (serialize job.block.version ++ (job.block.prevBlockHash ++
        (branch.foldl (merkleNode sha256d)
            (sha256d (job.coinbase1 ++ extranonce ++ extranonce2 ++ job.coinbase2)) ++
          (ByteOrder.littleEndian 4 time ++
            (serialize job.block.bits ++ ByteOrder.littleEndian 4 number))))) := by
  have word : ∀ data : UInt32, ByteOrder.littleEndian 4 (ByteOrder.value (serialize data)) =
      serialize data := fun data => by
    have width : (serialize data).length = 4 := length_serialize_scalar data
    rw [← width, ByteOrder.littleEndian_value]
  simp only [header, readNotify_notifyMessage size, decoded1, decoded2, timeRead, nonceRead,
    Option.bind_eq_bind, Option.bind_some, word, List.append_assoc]
  rfl

end Miner

variable {setting : Setting} {connection : Connection} {trace : List ClientEntry} {last : Client}
  {env : Env} {msg : JSON}

/-- A field that is well-formed hexadecimal of four bytes, as the miner and as the pool read it. -/
theorem exists_field {params : JSON} (arrange : BinaryData → BinaryData) {position : ℕ}
    {text : StdString} {data : BinaryData}
    (read : data.length = 4 ∧ ∃ field, params.stringAt position = .ok field ∧
      data = arrange (Util.asciiToBin field))
    (textAt : params.stringAt position = .ok text) (hex : (HexText.decode? text).isSome) :
    ∃ bytes, HexText.decode? text = some bytes ∧ data = arrange bytes := by
  rcases read with ⟨_, field, fieldAt, dataEq⟩
  rcases Option.isSome_iff_exists.mp hex with ⟨bytes, decoded⟩
  rw [textAt, Except.ok.injEq] at fieldAt
  subst fieldAt
  exact ⟨bytes, decoded, by rw [dataEq, Util.asciiToBin_of_decode? decoded]⟩

/-- A time or a nonce is written into the header as it was submitted. -/
theorem exists_numeral {text bytes data : BinaryData} (decoded : HexText.decode? text = some bytes)
    (arranged : data = Util.reverse bytes) (size : data.length = 4) :
    ∃ number, HexText.numeral? text = some number ∧
      ByteOrder.littleEndian 4 number = serialize (Submission.word data) := by
  have numeral := HexText.numeral?_of_decode? decoded
  have bytesSize : bytes.length = 4 := by simpa [arranged, Util.reverse] using size
  refine ⟨_, numeral, ?_⟩
  rw [littleEndian_of_numeral? decoded bytesSize numeral, Submission.serialize_word size, arranged,
    Util.reverse]

/--
In any state a connection reaches, a submission that passes the checks is hashed, and
what is hashed are the eighty bytes that the miner builds from the last live message
under the job id it names, from the extranonce it was last told and from what it submits.
-/
theorem miner_agrees (sized : ∀ data, (setting.sha256d data).length = 32)
    (run : ClientRun setting connection trace last)
    (supplied : Supplied trace (Notifiable setting.sha256d))
    (checked : Checked setting env msg last)
    {username jobText extranonce1 extranonce2 ntime nonce : StdString}
    (told : lastExtranonce (log trace) = some extranonce1)
    (params : msg.member (ascii "params") = .ok (.array [.string username, .string jobText,
      .string extranonce2, .string ntime, .string nonce]))
    (hex : ∀ text ∈ [extranonce2, ntime, nonce], (HexText.decode? text).isSome) :
    ∃ (notify : JSON) (block : Block) (outcome : Outcome),
      announced (live (log trace))
        (Client.hexString (parseHex env.uninitialized jobText).toNat) = some notify ∧
      last.onMiningSubmit setting env msg = some outcome ∧
      .getHash block ∈ outcome.effects ∧
      Miner.header setting.sha256d notify extranonce1 extranonce2 ntime nonce =
        some block.headerBuffer.vec ∧
      block.headerBuffer.vec.length = 80 := by
  rcases handedOut_of_run run _ _ checked.jobFound with ⟨handout, covers⟩
  rcases covers.later with ⟨later, laterAt, shares, _, laterEq⟩
  rw [checked.jobAt, Option.some.injEq] at laterAt
  rw [← laterAt] at laterEq
  rcases sound_of_run run supplied (List.mem_of_getElem? checked.jobAt) with ⟨sound, notifiable⟩
  have paramsEq := checked.paramsEq
  rw [params, Except.ok.injEq] at paramsEq
  have jobTextEq : jobText = checked.jobText := by
    have found := checked.jobTextEq
    rw [← paramsEq] at found
    exact Except.ok.inj found
  have readFrom := checked.readFrom
  rw [← paramsEq] at readFrom
  have extranonce2At : JSON.stringAt (.array [.string username, .string jobText,
      .string extranonce2, .string ntime, .string nonce]) 2 = .ok extranonce2 := rfl
  have ntimeAt : JSON.stringAt (.array [.string username, .string jobText,
      .string extranonce2, .string ntime, .string nonce]) 3 = .ok ntime := rfl
  have nonceAt : JSON.stringAt (.array [.string username, .string jobText,
      .string extranonce2, .string ntime, .string nonce]) 4 = .ok nonce := rfl
  rcases exists_field id readFrom.extranonce2 extranonce2At (hex _ (by simp))
    with ⟨bytes2, decoded2, data2⟩
  rcases exists_field Util.reverse readFrom.timebuf ntimeAt (hex _ (by simp))
    with ⟨timeBytes, timeDecoded, timeEq⟩
  rcases exists_field Util.reverse readFrom.noncebuf nonceAt (hex _ (by simp))
    with ⟨nonceBytes, nonceDecoded, nonceEq⟩
  rcases exists_numeral timeDecoded timeEq readFrom.timebuf.1 with ⟨time, timeRead, timeWord⟩
  rcases exists_numeral nonceDecoded nonceEq readFrom.noncebuf.1 with ⟨number, nonceRead, nonceWord⟩
  rcases checked.exists_header sound notifiable.template with ⟨block, assembled, header⟩
  have blockEq : handout.job.block = checked.job.block := by rw [laterEq]
  have branchEq : handout.branch = MerkleSpine.branch (merkleNode setting.sha256d)
      (checked.job.block.tx.tail.map (Transaction.getHash setting.sha256d)) := by
    have sent := covers.branch
    rw [Job.branch_eq (by rw [blockEq]; exact notifiable.template), Option.some.injEq] at sent
    rw [← sent, blockEq]
  have coinbaseEq : handout.job.coinbase1 ++ serialize last.extranonce ++ bytes2 ++
      handout.job.coinbase2 =
      checked.job.coinbase last.extranonce checked.submission.extranonce2 := by
    rw [Job.coinbase, data2, laterEq]
    rfl
  have prevSize : handout.job.block.prevBlockHash.length = 32 := by
    rw [blockEq]
    exact notifiable.prevBlockHash
  have decoded1 : HexText.decode? extranonce1 = some (serialize last.extranonce) := by
    rw [extranonce_of_run run told, Util.binToASCII_eq_encode, HexText.decode?_encode]
  have jobidEq : (parseHex env.uninitialized checked.jobText) = handout.jobid := by
    exact UInt32.toUInt64_inj.mp covers.jobid
  refine ⟨handout.message, block, _, ?_,
    Client.onMiningSubmit_of_checked sized checked assembled, ?_, ?_, ?_⟩
  · rw [jobTextEq, jobidEq]
    exact covers.message
  · simp [Checked.verdict, Outcome.after]
  · rw [Handout.message,
      Miner.header_notifyMessage prevSize decoded1 decoded2 timeRead nonceRead, timeWord, nonceWord,
      Submission.serialize_word readFrom.timebuf.1, Submission.serialize_word readFrom.noncebuf.1,
      header, branchEq, blockEq, coinbaseEq]
    rfl
  · have rootSize : checked.root.length = 32 := Block.length_root sized (sized _) _
    simp [header, length_serialize_scalar, Scalar.size, notifiable.prevBlockHash, rootSize,
      readFrom.timebuf.1, readFrom.noncebuf.1]

/-- The header of a first submission. -/
theorem miner_agrees_sample :
    ∃ (trace : List ClientEntry) (last : Client) (notify : JSON) (block : Block)
      (outcome : Outcome),
      ClientRun (Sample.setting (Sample.hash 2)) Sample.connection trace last ∧
      announced (live (log trace)) (Client.hexString 0) = some notify ∧
      last.onMiningSubmit (Sample.setting (Sample.hash 2)) (Sample.easyEnv 2)
        (Sample.submission "0") = some outcome ∧
      .getHash block ∈ outcome.effects ∧
      Miner.header (Sample.hash 2) notify (ascii "05000000") (ascii "00000001")
        (ascii "52c35a80") (ascii "deadbeef") = some block.headerBuffer.vec := by
  have found : ∃ result ∈ replay (Client.step (Sample.setting (Sample.hash 2)))
      (Client.new Sample.config Sample.connection) Sample.opening,
      lastExtranonce (log result.1) = some (ascii "05000000") ∧
        (Checked.find? (Sample.setting (Sample.hash 2)) (Sample.easyEnv 2)
          (Sample.submission "0") result.2).isSome := by
    decide +kernel
  rcases found with ⟨⟨trace, last⟩, replayed, told, passes⟩
  rcases Option.isSome_iff_exists.mp passes with ⟨checked, _⟩
  have run : ClientRun (Sample.setting (Sample.hash 2)) Sample.connection trace last :=
    .ofReplay replayed
  have supplied := Sample.supplied_opening replayed
  have hex : ∀ text ∈ [ascii "00000001", ascii "52c35a80", ascii "deadbeef"],
      (HexText.decode? text).isSome := by decide
  rcases miner_agrees (Sample.length_hash 2) run supplied checked told rfl hex
    with ⟨notify, block, outcome, notified, done, hashed, header, _⟩
  exact ⟨trace, last, notify, block, outcome, run, notified, done, hashed, header⟩

end Poolserver.Stratum
