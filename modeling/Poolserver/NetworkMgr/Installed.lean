import Poolserver.NetworkMgr.Templates

/-!
# What an update installs

An update passes over the daemons that fail or lag behind. The block it stores is made
of the next daemon's reply alone, but for the height in the coinbase: that is
`_blockHeight`, the height of a chain, and the reply has the height of the block itself.
-/

namespace Poolserver.NetworkMgr

open Poolserver.Bitcoin RunTrace

variable {setting : Setting} {mgr next : NetworkMgr} {effects : List Effect} {trace : List Entry}
  {last : NetworkMgr} {miningAddress : StdString} {blockHeight : UInt32} {response : JSON}
  {block : Block} {daemon : Daemon} {allocate : ℕ → ByteBuffer → UInt64 → Except StdException Unit}

/-- The string under `data` in one of the transactions of a reply. -/
def dataAt (trans : JSON) (tidx : ℕ) : Except StdException StdString := do
  (← trans.index tidx).stringMember "data"

/-- The transaction is what the buffer made from that string is read as. -/
def ReadFrom (trans : JSON) (tidx : ℕ) (tx : Transaction) : Prop :=
  ∃ data a, dataAt trans tidx = .ok data ∧
    Transaction.read (ByteBuffer.ofBinary (Util.asciiToBin data)) = .ok (tx, a)

/-- The transactions of a block: the coinbase, then those of a reply in their order. -/
structure HasTransactions (miningAddress : StdString) (blockHeight : UInt32) (response : JSON)
    (tx : List Transaction) : Prop where
  coinbase : ∃ value, response.intMember "coinbasevalue" = .ok value ∧
    tx.head? = some (createCoinbaseTX blockHeight (Util.asciiToBin miningAddress) value)
  others : ∃ trans, response.member (ascii "transactions") = .ok trans ∧
    tx.length = trans.size + 1 ∧
    ∀ {tidx other}, tx[tidx + 1]? = some other → ReadFrom trans tidx other

/-- Every field that is assigned is the one of the reply. -/
structure Describes (miningAddress : StdString) (blockHeight : UInt32) (response : JSON)
    (block : Block) : Prop where
  version : ∃ version, response.intMember "version" = .ok version ∧
    block.version = version.toUInt64.toUInt32
  prevBlockHash : ∃ hash, response.stringMember "previousblockhash" = .ok hash ∧
    block.prevBlockHash = Util.reverse (Util.asciiToBin hash)
  time : ∃ time, response.intMember "curtime" = .ok time ∧
    block.time = time.toUInt64.toUInt32
  bits : ∃ bits, response.stringMember "bits" = .ok bits ∧
    block.bits = (ByteBuffer.readScalar UInt32
      (ByteBuffer.ofBinary (Util.reverse (Util.asciiToBin bits)))).1
  tx : HasTransactions miningAddress blockHeight response block.tx

/-- A block of one reply, with the merkle tree and the root of its transactions. -/
structure BuiltFrom (setting : Setting) (blockHeight : UInt32) (response : JSON)
    (block : Block) : Prop where
  describes : Describes setting.miningAddress blockHeight response block
  merkleTree : block.buildMerkleTree setting.sha256d = some block

/-- The daemon fails at some point, or its template is below `_blockHeight`. -/
def PassedOver (setting : Setting) (blockHeight : UInt32) (daemon : Daemon) : Prop :=
  (∃ exception, fetchTemplate setting blockHeight daemon = .error exception) ∨
  ∃ response height, daemon.reply = .ok response ∧ response.intMember "height" = .ok height ∧
    height.toInt < blockHeight.toNat

/-- Nothing is installed since no daemon is usable, or the template of the first usable one is. -/
inductive AllOrNothing (setting : Setting) (mgr : NetworkMgr) (daemons : List Daemon) :
    NetworkMgr → Prop where
  | nothing (passed : ∀ daemon ∈ daemons,
        PassedOver setting mgr.blockHeight daemon) :
      AllOrNothing setting mgr daemons mgr
  | all {passed others : List Daemon} {daemon : Daemon} {response : JSON} {block : Block}
      (order : daemons = passed ++ daemon :: others)
      (skipped : ∀ earlier ∈ passed, PassedOver setting mgr.blockHeight earlier)
      (used : ¬PassedOver setting mgr.blockHeight daemon)
      (reply : daemon.reply = .ok response)
      (built : BuiltFrom setting mgr.blockHeight response block) :
      AllOrNothing setting mgr daemons { mgr with curBlockTmpl := some block }

/-! ## Reading one reply -/

theorem readTransactions_eq_ok {trans : JSON} {others : List Transaction}
    (read : readTransactions allocate trans = .ok others) :
    others.length = trans.size ∧
      ∀ {tidx other}, others[tidx]? = some other → ReadFrom trans tidx other := by
  have turns := mapM_eq_ok read
  have length := turns.length_eq
  rw [List.length_range] at length
  refine ⟨length.symm, ?_⟩
  intro tidx other otherAt
  rcases List.getElem?_eq_some_iff.mp otherAt with ⟨inside, rfl⟩
  have turn := turns.get (by rw [List.length_range]; omega) inside
  simp only [List.get_eq_getElem, List.getElem_range, bind_eq_ok] at turn
  rcases turn with ⟨item, itemEq, data, dataEq, ⟨tx, a⟩, decoded, same⟩
  injection same with same
  rw [← same]
  refine ⟨data, a, ?_, within_transaction _ _ decoded⟩
  rw [dataAt, bind_eq_ok]
  exact ⟨item, itemEq, dataEq⟩

theorem readTemplate_eq_ok
    (read : readTemplate allocate miningAddress blockHeight response = .ok block) :
    Describes miningAddress blockHeight response block := by
  simp only [readTemplate, bind_eq_ok] at read
  rcases read with ⟨version, versionEq, hash, hashEq, time, timeEq, bits, bitsEq, value, valueEq,
    trans, transEq, others, othersEq, read⟩
  injection read with read
  subst read
  rcases readTransactions_eq_ok othersEq with ⟨length, readFrom⟩
  exact {
    version := ⟨version, versionEq, rfl⟩
    prevBlockHash := ⟨hash, hashEq, rfl⟩
    time := ⟨time, timeEq, rfl⟩
    bits := ⟨bits, bitsEq, rfl⟩
    tx := {
      coinbase := ⟨value, valueEq, rfl⟩
      others := ⟨trans, transEq, by rw [List.length_cons, length], readFrom⟩ } }

/-- Building the tree of a block assigns its last two fields, and does so once and for all. -/
theorem builtFrom_of_buildTemplate {built : Block}
    (describes : Describes setting.miningAddress blockHeight response block)
    (builds : buildTemplate setting block = .ok built) :
    BuiltFrom setting blockHeight response built := by
  unfold buildTemplate at builds
  split at builds
  swap
  · cases builds
  rename_i found buildsTree
  cases builds
  simp only [Block.buildMerkleTree, Option.bind_eq_bind, Option.bind_eq_some_iff] at buildsTree
  rcases buildsTree with ⟨merkleTree, levels, merkleRootHash, rootAt, buildsTree⟩
  injection buildsTree with builtEq
  subst builtEq
  refine ⟨⟨describes.version, describes.prevBlockHash, describes.time, describes.bits,
    describes.tx⟩, ?_⟩
  simp only [Block.buildMerkleTree, levels, rootAt, Option.bind_eq_bind, Option.bind_some]
  rfl

theorem fetchTemplate_eq_some
    (fetched : fetchTemplate setting blockHeight daemon = .ok (some block)) :
    ∃ response, daemon.reply = .ok response ∧ BuiltFrom setting blockHeight response block := by
  simp only [fetchTemplate, bind_eq_ok] at fetched
  rcases fetched with ⟨response, replyEq, height, heightEq, fetched⟩
  refine ⟨response, replyEq, ?_⟩
  split at fetched
  · injection fetched with fetched
    simp at fetched
  · simp only [bind_eq_ok] at fetched
    rcases fetched with ⟨bare, readEq, built, builds, fetched⟩
    injection fetched with fetched
    rw [Option.some.injEq] at fetched
    rw [← fetched]
    exact builtFrom_of_buildTemplate (readTemplate_eq_ok readEq) builds

theorem fetchTemplate_eq_none
    (fetched : fetchTemplate setting blockHeight daemon = .ok none) :
    PassedOver setting blockHeight daemon := by
  simp only [fetchTemplate, bind_eq_ok] at fetched
  rcases fetched with ⟨response, replyEq, height, heightEq, fetched⟩
  refine Or.inr ⟨response, height, replyEq, heightEq, ?_⟩
  by_contra high
  simp only [if_neg high, bind_eq_ok] at fetched
  rcases fetched with ⟨bare, _, built, _, fetched⟩
  injection fetched with fetched
  simp at fetched

theorem not_passedOver (fetched : fetchTemplate setting blockHeight daemon = .ok (some block)) :
    ¬PassedOver setting blockHeight daemon := by
  rcases height_of_fetchTemplate fetched with ⟨response, height, replyEq, heightEq, high⟩
  rintro (⟨exception, failed⟩ | ⟨other, low, otherEq, lowEq, less⟩)
  · rw [fetched] at failed
    injection failed
  · rw [replyEq, Except.ok.injEq] at otherEq
    subst otherEq
    rw [heightEq, Except.ok.injEq] at lowEq
    subst lowEq
    omega

/-! ## The loop over the daemons -/

theorem firstUsable_eq_none {daemons : List Daemon}
    (unusable : firstUsable setting blockHeight daemons = none) :
    ∀ daemon ∈ daemons, PassedOver setting blockHeight daemon := by
  induction daemons with
  | nil => simp
  | cons head daemons ih =>
      unfold firstUsable at unusable
      split at unusable
      · simp at unusable
      rename_i notFetched
      intro daemon daemonMem
      rcases List.mem_cons.mp daemonMem with rfl | later
      · cases fetched : fetchTemplate setting blockHeight daemon with
        | error exception => exact Or.inl ⟨exception, fetched⟩
        | ok result =>
            cases result with
            | none => exact fetchTemplate_eq_none fetched
            | some block => exact absurd fetched (notFetched block)
      · exact ih unusable daemon later

theorem firstUsable_eq_some {daemons : List Daemon}
    (usable : firstUsable setting blockHeight daemons = some (daemon, block)) :
    ∃ passed others, daemons = passed ++ daemon :: others ∧
      (∀ earlier ∈ passed, PassedOver setting blockHeight earlier) ∧
      fetchTemplate setting blockHeight daemon = .ok (some block) := by
  induction daemons with
  | nil => simp [firstUsable] at usable
  | cons head daemons ih =>
      cases fetched : fetchTemplate setting blockHeight head with
      | error exception =>
          simp only [firstUsable, fetched] at usable
          rcases ih usable with ⟨passed, others, order, skipped, used⟩
          refine ⟨head :: passed, others, by rw [order, List.cons_append], ?_, used⟩
          exact List.forall_mem_cons.mpr ⟨Or.inl ⟨exception, fetched⟩, skipped⟩
      | ok result =>
          cases result with
          | none =>
              simp only [firstUsable, fetched] at usable
              rcases ih usable with ⟨passed, others, order, skipped, used⟩
              refine ⟨head :: passed, others, by rw [order, List.cons_append], ?_, used⟩
              exact List.forall_mem_cons.mpr ⟨fetchTemplate_eq_none fetched, skipped⟩
          | some found =>
              simp only [firstUsable, fetched, Option.some.injEq, Prod.mk.injEq] at usable
              rcases usable with ⟨rfl, rfl⟩
              exact ⟨[], daemons, rfl, by simp, fetched⟩

/-- Where a stored template comes from. -/
theorem describes_of_store {daemons : List Daemon} {height : UInt32}
    (updated : updateBlockTemplate setting mgr daemons = (next, effects))
    (stored : .store height daemon block ∈ effects) :
    height = mgr.blockHeight ∧ ∃ response, daemon.reply = .ok response ∧
      Describes setting.miningAddress mgr.blockHeight response block := by
  rcases updateBlockTemplate_eq updated with ⟨_, _, rfl⟩ | ⟨other, built, usable, _, rfl⟩
  · simp at stored
  · simp only [List.mem_cons, reduceCtorEq, Effect.store.injEq, List.not_mem_nil, or_false,
      false_or] at stored
    rcases stored with ⟨rfl, rfl, rfl⟩
    rcases firstUsable_eq_some usable with ⟨_, _, _, _, fetched⟩
    rcases fetchTemplate_eq_some fetched with ⟨response, reply, builtFrom⟩
    exact ⟨rfl, response, reply, builtFrom.describes⟩

/-- The first transaction claims to have `2 ^ 64 - 1` inputs, for which there is no memory. -/
def Sample.hoarding : Daemon :=
  { Sample.carrying (ascii "01000000ffffffffffffffffff") with
    allocate := fun _ _ count =>
      if count.toNat < 4294967296 then .ok () else .error .lengthError }

/-- That daemon is passed over for the next one. -/
example : (firstUsable Sample.setting 100 [Sample.hoarding, Sample.daemon 101]).map
    (fun found => found.1.blocks) = some 101 := by
  decide +kernel

/-! ## The height in the coinbase -/

/-- The height in a template reply. -/
def Daemon.height (daemon : Daemon) : Option ℤ :=
  match daemon.reply with
  | .error _ => none
  | .ok response =>
      match response.intMember "height" with
      | .error _ => none
      | .ok height => some height.toInt

/-- The four bytes in front of the extranonce in the coinbase input script. -/
def heightBytes (block : Block) : BinaryData :=
  match block.tx with
  | [] => []
  | coinbase :: _ =>
      match coinbase.inputs with
      | [] => []
      | txin :: _ => txin.script.script.take 4

namespace Effect

/-- The coinbase of a stored template has the height of the reply it is made of. -/
def Commits : Effect → Prop
  | store _ daemon block =>
      (heightBytes block).length = 4 ∧
        daemon.height = some (ByteOrder.value (heightBytes block) : ℤ)
  | _ => True

/-- The reply a call uses has the height that `_blockHeight` has at that moment. -/
def AtHeight (setting : Setting) : Effect → Prop
  | update height daemons =>
      match firstUsable setting height daemons with
      | none => True
      | some (daemon, _) => daemon.height = some (height.toNat : ℤ)
  | _ => True

/-- The coinbase of a stored template has `_blockHeight`. -/
def WritesHeight : Effect → Prop
  | store height _ block =>
      heightBytes block = ByteOrder.littleEndian 4 height.toNat
  | _ => True

instance : DecidablePred Commits
  | store _ daemon block =>
      inferInstanceAs (Decidable ((heightBytes block).length = 4 ∧ daemon.height = some _))
  | raise _ => isTrue trivial
  | update _ _ => isTrue trivial
  | notify _ _ => isTrue trivial
  | submit _ => isTrue trivial

instance (setting : Setting) : DecidablePred (AtHeight setting)
  | update height daemons =>
      match usable : firstUsable setting height daemons with
      | none => isTrue (by simp [AtHeight, usable])
      | some (daemon, _) =>
          decidable_of_iff (daemon.height = some (height.toNat : ℤ)) (by simp [AtHeight, usable])
  | raise _ => isTrue trivial
  | store _ _ _ => isTrue trivial
  | notify _ _ => isTrue trivial
  | submit _ => isTrue trivial

end Effect

/-- What holds of the effects of every move holds of all effects of a run. -/
theorem forall_log_of_moves {Holds : Effect → Prop}
    (moves : ∀ {mgr next : NetworkMgr} {effects : List Effect}, Move setting mgr effects next →
      ∀ effect ∈ effects, Holds effect)
    (run : Run setting trace last) : ∀ effect ∈ log trace, Holds effect := by
  refine run.invariant (fun trace _ => ∀ effect ∈ log trace, Holds effect) (fun _ => True)
    (fun _ _ => trivial) (by simp [log]) ?_
  intro trace entry held _ stepped
  have path := (step_path stepped).invariant (fun log _ => ∀ effect ∈ log, Holds effect)
    (fun held move effect effectMem =>
      (List.mem_append.mp effectMem).elim (held effect) (moves move effect)) held
  simpa [log] using path

theorem heightBytes_of_hasTransactions
    (hasTransactions : HasTransactions miningAddress blockHeight response block.tx) :
    heightBytes block = ByteOrder.littleEndian 4 blockHeight.toNat := by
  rcases hasTransactions.coinbase with ⟨value, _, first⟩
  rw [List.head?_eq_some_iff] at first
  rcases first with ⟨others, txEq⟩
  have height : serialize blockHeight = ByteOrder.littleEndian 4 blockHeight.toNat :=
    serialize_scalar blockHeight
  rw [heightBytes, txEq, createCoinbaseTX_eq]
  simp only [coinbaseWith, height]
  exact List.take_left' (ByteOrder.length_littleEndian 4 _)

theorem writesHeight_of_move (move : Move setting mgr effects next) :
    ∀ effect ∈ effects, effect.WritesHeight := by
  intro effect effectMem
  cases effect with
  | store height daemon built =>
      cases move with
      | update daemons updated =>
          rcases describes_of_store updated effectMem with ⟨rfl, response, _, describes⟩
          exact heightBytes_of_hasTransactions describes.tx
      | raise higher => simp at effectMem
      | notify newBlock => simp [blockNotifySend] at effectMem
      | submit param => simp at effectMem
  | raise height => trivial
  | update height daemons => trivial
  | notify tmpl newBlock => trivial
  | submit param => trivial

theorem commits_iff {height : UInt32} {daemon : Daemon}
    (writes : (Effect.store height daemon block).WritesHeight) :
    (Effect.store height daemon block).Commits ↔ daemon.height = some (height.toNat : ℤ) := by
  have fits : height.toNat < 256 ^ 4 := height.toNat_lt
  simp only [Effect.WritesHeight] at writes
  simp only [Effect.Commits, writes, ByteOrder.length_littleEndian,
    ByteOrder.value_littleEndian_of_lt fits, true_and]

/--
The coinbases of a run commit to the heights of the replies exactly if every call uses a
reply whose height, the height of the next block, is `_blockHeight`, the height of the chain.
-/
theorem stored_commits_iff (run : Run setting trace last) :
    (∀ effect ∈ log trace, effect.Commits) ↔
      ∀ effect ∈ log trace, effect.AtHeight setting := by
  have writes := forall_log_of_moves writesHeight_of_move run
  apply (accounts_of_run run).forall_iff
  · intro effect noStore
    cases effect with
    | store height daemon block => exact absurd rfl (noStore height daemon block)
    | _ => trivial
  · intro effect unused
    cases effect with
    | update height daemons =>
        simp only [Effect.AtHeight]
        split
        · trivial
        · rename_i daemon block usable
          exact absurd usable (unused height daemons daemon block rfl)
    | _ => trivial
  · intro height daemons daemon block called usable stored
    simp only [commits_iff (writes _ stored), Effect.AtHeight, usable]

/-- A daemon that is one block behind has the template of the block at `_blockHeight`. -/
theorem stored_commits_sample :
    ∃ trace last, Run Sample.setting trace last ∧ log trace ≠ [] ∧
      ∀ effect ∈ log trace, effect.Commits := by
  have replayed : ∃ result ∈ replay (step Sample.setting) new
      [.blockCheck [⟨Sample.getinfo 100, [Sample.daemon 99]⟩]], log result.1 ≠ [] ∧
      ∀ effect ∈ log result.1, effect.AtHeight Sample.setting := by
    decide +kernel
  rcases replayed with ⟨⟨trace, last⟩, replayed, nonempty, atHeight⟩
  have run : Run Sample.setting trace last := .ofReplay replayed
  exact ⟨trace, last, run, nonempty, (stored_commits_iff run).mpr atHeight⟩

/-- Two daemons at height 100 have templates of height 101, and the coinbase says 100. -/
theorem exists_stored_not_commits :
    ∃ trace last, Run Sample.setting trace last ∧
      (∀ effect ∈ log trace, effect.Consistent) ∧ ¬∀ effect ∈ log trace, effect.Commits := by
  have replayed : ∃ result ∈ replay (step Sample.setting) new [Sample.check 100 100],
      (∀ effect ∈ log result.1, effect.Consistent) ∧
        ¬∀ effect ∈ log result.1, effect.Commits := by
    decide +kernel
  rcases replayed with ⟨⟨trace, last⟩, replayed, consistent, wrong⟩
  exact ⟨trace, last, .ofReplay replayed, consistent, wrong⟩

end Poolserver.NetworkMgr
