import Poolserver.Stratum.Work

/-!
# The exits of a submission

A submission that passes every check before the block is assembled is a `Checked`
value. `onMiningSubmit_exits` sorts the outcomes of the handler: a refusal with one
error response, an exception, or the verdict on a checked submission.
-/

namespace Poolserver.Stratum

open Poolserver.Bitcoin

variable {setting : Setting} {env : Env} {msg : JSON} {client : Client} {outcome : Outcome}

/-! ## Reading the fields -/

theorem readField_thrown {params : JSON} {arrange : BinaryData → BinaryData} {position : ℕ}
    {text : String} {exception : StdException}
    (failed : readField params arrange position text = .error (.thrown exception)) :
    params.stringAt position = .error exception := by
  unfold readField at failed
  split at failed
  · rename_i notString
    simp only [Except.error.injEq, Refusal.thrown.injEq] at failed
    rw [notString, failed]
  · dsimp only at failed
    split at failed <;> simp at failed

theorem readField_ok {params : JSON} {arrange : BinaryData → BinaryData} {position : ℕ}
    {text : String} {data : BinaryData} (fields : readField params arrange position text = .ok data) :
    data.length = 4 ∧ ∃ field, params.stringAt position = .ok field ∧
      data = arrange (Util.asciiToBin field) := by
  unfold readField at fields
  split at fields
  · simp at fields
  · rename_i field fieldEq
    dsimp only at fields
    split at fields
    · simp at fields
    · rename_i sized
      simp only [Except.ok.injEq] at fields
      subst fields
      exact ⟨not_not.mp sized, field, fieldEq, rfl⟩

/-- The fields of a submission have four bytes each, which are those of the parameters. -/
structure Submission.ReadFrom (params : JSON) (submission : Submission) : Prop where
  extranonce2 : submission.extranonce2.length = 4 ∧ ∃ field, params.stringAt 2 = .ok field ∧
    submission.extranonce2 = Util.asciiToBin field
  timebuf : submission.timebuf.length = 4 ∧ ∃ field, params.stringAt 3 = .ok field ∧
    submission.timebuf = Util.reverse (Util.asciiToBin field)
  noncebuf : submission.noncebuf.length = 4 ∧ ∃ field, params.stringAt 4 = .ok field ∧
    submission.noncebuf = Util.reverse (Util.asciiToBin field)

theorem readSubmission_ok {params : JSON} {submission : Submission}
    (fields : readSubmission params = .ok submission) : submission.ReadFrom params := by
  cases first : readExtranonce2 params with
  | error refusal =>
      simp only [readSubmission, first] at fields
      injection fields
  | ok extranonce2 =>
      cases second : readTimebuf params with
      | error refusal =>
          simp only [readSubmission, first, second] at fields
          injection fields
      | ok timebuf =>
          cases third : readNoncebuf params with
          | error refusal =>
              simp only [readSubmission, first, second, third] at fields
              injection fields
          | ok noncebuf =>
              simp only [readSubmission, first, second, third] at fields
              injection fields with submissionEq
              subst submissionEq
              exact ⟨readField_ok first, readField_ok second, readField_ok third⟩

/-- An exception while the fields are read comes from a field that is no string. -/
theorem readSubmission_thrown {params : JSON} {exception : StdException}
    (failed : readSubmission params = .error (.thrown exception)) :
    params.stringAt 2 = .error exception ∨ params.stringAt 3 = .error exception ∨
      params.stringAt 4 = .error exception := by
  cases first : readExtranonce2 params with
  | error refusal =>
      simp only [readSubmission, first] at failed
      injection failed with refusalEq
      subst refusalEq
      exact Or.inl (readField_thrown first)
  | ok extranonce2 =>
      cases second : readTimebuf params with
      | error refusal =>
          simp only [readSubmission, first, second] at failed
          injection failed with refusalEq
          subst refusalEq
          exact Or.inr (Or.inl (readField_thrown second))
      | ok timebuf =>
          cases third : readNoncebuf params with
          | error refusal =>
              simp only [readSubmission, first, second, third] at failed
              injection failed with refusalEq
              subst refusalEq
              exact Or.inr (Or.inr (readField_thrown third))
          | ok noncebuf =>
              simp only [readSubmission, first, second, third] at failed
              injection failed

/-- The parameters of a request are five strings. -/
def FiveStrings (msg : JSON) : Prop :=
  ∃ username jobText extranonce2 ntime nonce,
    msg.member (ascii "params") = .ok (.array [.string username, .string jobText,
      .string extranonce2, .string ntime, .string nonce])

/-- The parameters of a well-formed request are all read. -/
theorem FiveStrings.stringAt {params : JSON} (five : FiveStrings msg)
    (paramsEq : msg.member (ascii "params") = .ok params) {position : ℕ} (inside : position < 5)
    {exception : StdException} : params.stringAt position ≠ .error exception := by
  rcases five with ⟨username, jobText, extranonce2, ntime, nonce, arrayEq⟩
  rw [paramsEq, Except.ok.injEq] at arrayEq
  subst arrayEq
  have cases : position = 0 ∨ position = 1 ∨ position = 2 ∨ position = 3 ∨ position = 4 := by
    omega
  rcases cases with rfl | rfl | rfl | rfl | rfl <;> exact fun equal => by injection equal

/-! ## Checked submissions -/

/-- A submission of an authorized worker that the limiter, the field checks and the job accept. -/
structure Checked (setting : Setting) (env : Env) (msg : JSON) (client : Client) where
  params : JSON
  username : StdString
  jobText : StdString
  addr : ℕ
  job : Job
  limited : Client
  sent : List Effect
  submission : Submission
  paramsEq : msg.member (ascii "params") = .ok params
  usernameEq : params.stringAt 0 = .ok username
  authorized : username ∈ client.workers
  jobTextEq : params.stringAt 1 = .ok jobText
  jobFound : client.jobs (parseHex env.uninitialized jobText).toUInt64 = some addr
  jobAt : client.heap[addr]? = some job
  passed : client.limitShare setting.config setting.floating env job.diff =
    some (true, limited, sent)
  fields : readSubmission params = .ok submission
  fresh : submission.share ∉ job.shares

namespace Checked

variable (checked : Checked setting env msg client)

/-- The job with the share of the submission. -/
def stored : Job :=
  checked.job.withShare checked.submission.share

/-- The client when the block is assembled. -/
def holder : Client :=
  checked.limited.storeJob checked.addr checked.stored

def assembled : Option (Except StdException Block) :=
  checked.holder.assemble setting.sha256d checked.stored checked.submission

/-- The outcome once the block is assembled and hashed. -/
def verdict (block : Block) : Outcome :=
  let hash := block.getHash setting.sha256d
  let judged := Client.judge env msg checked.username checked.stored checked.holder block hash
    (ByteOrder.value hash)
  (judged.after [.submitShare checked.addr checked.submission.share, .getHash block]).after
    checked.sent

/-- The checked submission behind a request, if it passes the checks. -/
def find? (setting : Setting) (env : Env) (msg : JSON) (client : Client) :
    Option (Checked setting env msg client) :=
  match paramsEq : msg.member (ascii "params") with
  | .error _ => none
  | .ok params =>
      match usernameEq : params.stringAt 0, jobTextEq : params.stringAt 1 with
      | .ok username, .ok jobText =>
          match jobFound : client.jobs (parseHex env.uninitialized jobText).toUInt64 with
          | none => none
          | some addr =>
              match jobAt : client.heap[addr]? with
              | none => none
              | some job =>
                  match passed : client.limitShare setting.config setting.floating env job.diff,
                      fields : readSubmission params with
                  | some (true, limited, sent), .ok submission =>
                      if checks : username ∈ client.workers ∧ submission.share ∉ job.shares then
                        some { params, username, jobText, addr, job, limited, sent, submission,
                               paramsEq, usernameEq, authorized := checks.1, jobTextEq, jobFound,
                               jobAt, passed, fields, fresh := checks.2 }
                      else none
                  | _, _ => none
      | _, _ => none

theorem readFrom : checked.submission.ReadFrom checked.params :=
  readSubmission_ok checked.fields

theorem tuned : client.Tuned checked.limited :=
  Client.tuned_of_path (Client.limitShare_tunes checked.passed)

theorem unsolicited : ∀ effect ∈ checked.sent, effect.Unsolicited :=
  Client.unsolicited_of_path (Client.limitShare_tunes checked.passed)

theorem extranonce_holder : checked.holder.extranonce = client.extranonce :=
  checked.tuned.extranonce

theorem jobAt_limited : checked.limited.heap[checked.addr]? = some checked.job := by
  exact checked.tuned.jobAt checked.jobAt

theorem submitShare_eq : checked.job.submitShare checked.submission.share = some checked.stored := by
  rw [Job.submitShare, if_neg checked.fresh]
  rfl

/-- Around which coinbase transaction the block of a submission is assembled. -/
theorem assembled_eq (sound : checked.job.Sound)
    (template : checked.job.block.IsTemplate setting.sha256d) :
    ∃ coinbasetx,
      coinbasetx.HashSized ∧
      serialize coinbasetx =
        checked.job.coinbase client.extranonce checked.submission.extranonce2 ∧
      checked.assembled = some (.ok ({ checked.job.block with
        time := Submission.word checked.submission.timebuf
        nonce := Submission.word checked.submission.noncebuf }.withTree setting.sha256d coinbasetx
          checked.job.block.tx.tail)) := by
  have assembled := @Client.assemble_eq setting.sha256d checked.holder checked.stored
    checked.submission (sound.withShare _) template checked.readFrom.extranonce2.1
  rw [checked.extranonce_holder] at assembled
  exact assembled

/-- The merkle root of the block of a submission. -/
def root : BinaryData :=
  MerkleSpine.root (merkleNode setting.sha256d)
    (setting.sha256d (checked.job.coinbase client.extranonce checked.submission.extranonce2))
    (checked.job.block.tx.tail.map (Transaction.getHash setting.sha256d))

/-- The block of a submission and the bytes of its header. -/
theorem exists_header (sound : checked.job.Sound)
    (template : checked.job.block.IsTemplate setting.sha256d) :
    ∃ block,
      checked.assembled = some (.ok block) ∧
      block.headerBuffer.vec =
        serialize checked.job.block.version ++ (checked.job.block.prevBlockHash ++ (checked.root ++
          (checked.submission.timebuf ++
            (serialize checked.job.block.bits ++ checked.submission.noncebuf)))) := by
  rcases checked.assembled_eq sound template with ⟨coinbasetx, _, coinbaseEq, assembled⟩
  refine ⟨_, assembled, ?_⟩
  have time := Submission.serialize_word checked.readFrom.timebuf.1
  have nonce := Submission.serialize_word checked.readFrom.noncebuf.1
  rw [Block.headerBuffer_vec]
  simp only [BlockHeader.bytes, Block.withTree, Transaction.getHash, coinbaseEq, time, nonce, root]

end Checked

namespace Client

theorem bigIntFromHex_hash {sha256d : BinaryData → BinaryData}
    (sized : ∀ data, (sha256d data).length = 32) (block : Block) :
    Util.bigIntFromHex (Util.binToASCII (Util.reverse (block.getHash sha256d))) =
      .ok (ByteOrder.value (block.getHash sha256d)) := by
  refine Util.bigIntFromHex_binToASCII_reverse ?_
  have length : (block.getHash sha256d).length = 32 := sized _
  intro empty
  simp [empty] at length

/-- A checked submission is hashed and judged. -/
theorem onMiningSubmit_of_checked (sized : ∀ data, (setting.sha256d data).length = 32)
    (checked : Checked setting env msg client) {block : Block}
    (assembled : checked.assembled = some (.ok block)) :
    onMiningSubmit setting env msg client = some (checked.verdict block) := by
  have worked : submitWork setting env msg checked.username checked.addr checked.submission
      checked.limited = some ((judge env msg checked.username checked.stored checked.holder block
        (block.getHash setting.sha256d) (ByteOrder.value (block.getHash setting.sha256d))).after
          [.submitShare checked.addr checked.submission.share, .getHash block]) := by
    have assembledEq : (checked.limited.storeJob checked.addr checked.stored).assemble
        setting.sha256d checked.stored checked.submission = some (.ok block) := assembled
    simp only [submitWork, checked.jobAt_limited, checked.submitShare_eq, assembledEq,
      bigIntFromHex_hash sized, Option.bind_eq_bind, Option.bind_some]
    rfl
  simp only [onMiningSubmit, checked.paramsEq, checked.usernameEq, checked.authorized,
    not_true_eq_false, if_false, checked.jobTextEq, checked.jobFound, submitToJob, checked.jobAt,
    checked.passed, checked.fields, worked, Option.bind_eq_bind, Option.bind_some]
  rfl

end Client

/-! ## Sorting the outcomes -/

namespace Effect

/-- Effects of a submission before its block is hashed, or of a share found bad. -/
def Preliminary : Effect → Prop
  | sendMessage msg => isResponse msg = false
  | submitShare _ _ => True
  | push share => share.result = false
  | ban _ _ => True
  | disconnect => True
  | _ => False

theorem Unsolicited.preliminary {effect : Effect} (unsolicited : effect.Unsolicited) :
    effect.Preliminary := by
  cases effect with
  | sendMessage msg => exact unsolicited
  | ban ip time => trivial
  | disconnect => trivial
  | query username password found => exact unsolicited.elim
  | submitShare addr share => trivial
  | getHash block => exact unsolicited.elim
  | submitBlock block => exact unsolicited.elim
  | push share => exact unsolicited.elim
  | executeAsync insert => exact unsolicited.elim

/-- Effects that only a verdict has: a hash, a submitted block, a credited share. -/
def Verifies : Effect → Prop
  | getHash _ => True
  | submitBlock _ => True
  | executeAsync _ => True
  | push share => share.result = true
  | _ => False

theorem Preliminary.not_verifies {effect : Effect} (preliminary : effect.Preliminary) :
    ¬effect.Verifies := by
  cases effect with
  | push share =>
      simp only [Preliminary] at preliminary
      simp [Verifies, preliminary]
  | getHash block => exact preliminary.elim
  | submitBlock block => exact preliminary.elim
  | executeAsync insert => exact preliminary.elim
  | sendMessage msg => exact id
  | query username password found => exact id
  | submitShare addr share => exact id
  | ban ip time => exact id
  | disconnect => exact id

end Effect

/-- The handler ends with one error response, and nothing else is of consequence. -/
def Outcome.Refuses (msg : JSON) (outcome : Outcome) : Prop :=
  ∃ emitted code text, outcome.effects = emitted ++ [.sendMessage (errorResponse msg code text)] ∧
    ∀ effect ∈ emitted, effect.Preliminary

namespace Client

theorem refuses_respond {next : Client} {sent : List Effect} {code : Int64} {text : String}
    (preliminary : ∀ effect ∈ sent, effect.Preliminary) :
    (next.respond sent (errorResponse msg code text)).Refuses msg :=
  ⟨sent, code, text, rfl, preliminary⟩

theorem refuses_after {effects : List Effect} (refuses : outcome.Refuses msg)
    (preliminary : ∀ effect ∈ effects, effect.Preliminary) :
    (outcome.after effects).Refuses msg := by
  rcases refuses with ⟨emitted, code, text, effectsEq, rest⟩
  refine ⟨effects ++ emitted, code, text, by simp [Outcome.after, effectsEq], ?_⟩
  intro effect effectMem
  rcases List.mem_append.mp effectMem with early | late
  · exact preliminary effect early
  · exact rest effect late

/-- The handler ends by an exception before the block is hashed. -/
structure Aborts (setting : Setting) (env : Env) (msg : JSON) (client : Client)
    (outcome : Outcome) : Prop where
  thrown : outcome.thrown ≠ none
  preliminary : ∀ effect ∈ outcome.effects, effect.Preliminary
  cause : ¬FiveStrings msg ∨
    ∃ (checked : Checked setting env msg client) (exception : StdException),
      checked.assembled = some (.error exception)

theorem aborts_throws {next : Client} {effects : List Effect} {exception : StdException}
    (preliminary : ∀ effect ∈ effects, effect.Preliminary)
    (cause : ¬FiveStrings msg ∨
      ∃ (checked : Checked setting env msg client) (exception : StdException),
        checked.assembled = some (.error exception)) :
    Aborts setting env msg client (next.throws effects exception) :=
  ⟨by simp [throws], preliminary, cause⟩

/-- The last stage refuses a duplicate, fails to assemble the block, or judges it. -/
theorem submitWork_exits (sized : ∀ data, (setting.sha256d data).length = 32) {username : StdString}
    {addr : ℕ} {job : Job} {submission : Submission} (jobAt : client.heap[addr]? = some job)
    (worked : submitWork setting env msg username addr submission client = some outcome) :
    outcome.Refuses msg ∨ submission.share ∉ job.shares ∧
      ((∃ exception,
        (client.storeJob addr (job.withShare submission.share)).assemble setting.sha256d
          (job.withShare submission.share) submission = some (.error exception) ∧
        outcome = (client.storeJob addr (job.withShare submission.share)).throws
          [.submitShare addr submission.share] exception) ∨
      ∃ block,
        (client.storeJob addr (job.withShare submission.share)).assemble setting.sha256d
          (job.withShare submission.share) submission = some (.ok block) ∧
        outcome = (judge env msg username (job.withShare submission.share)
          (client.storeJob addr (job.withShare submission.share)) block
          (block.getHash setting.sha256d) (ByteOrder.value (block.getHash setting.sha256d))).after
            [.submitShare addr submission.share, .getHash block]) := by
  have same : ∀ {other : Job}, client.heap[addr]? = some other → other = job := by
    intro other otherAt
    exact Option.some.inj (otherAt.symm.trans jobAt)
  cases submitWork_ends worked with
  | duplicate otherAt known => exact Or.inl (refuses_respond (by simp [Effect.Preliminary, shareRecord]))
  | unassembled otherAt submitted assembles =>
      rcases Job.submitShare_eq_some submitted with ⟨fresh, rfl⟩
      rw [same otherAt] at fresh assembles ⊢
      exact Or.inr ⟨fresh, Or.inl ⟨_, assembles, rfl⟩⟩
  | unprinted otherAt submitted assembles prints =>
      rw [bigIntFromHex_hash sized] at prints
      cases prints
  | judged otherAt submitted assembles prints =>
      rcases Job.submitShare_eq_some submitted with ⟨fresh, rfl⟩
      rw [bigIntFromHex_hash sized, Except.ok.injEq] at prints
      subst prints
      rw [same otherAt] at fresh assembles ⊢
      exact Or.inr ⟨fresh, Or.inr ⟨_, assembles, rfl⟩⟩

/-- Every outcome is a refusal, an exception, or the verdict on a checked submission. -/
theorem onMiningSubmit_exits (sized : ∀ data, (setting.sha256d data).length = 32)
    (done : onMiningSubmit setting env msg client = some outcome) :
    outcome.Refuses msg ∨ Aborts setting env msg client outcome ∨
      ∃ (checked : Checked setting env msg client) (block : Block),
        checked.assembled = some (.ok block) ∧ outcome = checked.verdict block := by
  have noEffects : ∀ effect ∈ ([] : List Effect), effect.Preliminary := by simp
  cases onMiningSubmit_ends done with
  | noParams notObject =>
      refine Or.inr (Or.inl (aborts_throws noEffects (Or.inl ?_)))
      rintro ⟨_, _, _, _, _, arrayEq⟩
      rw [notObject] at arrayEq
      injection arrayEq
  | noUsername paramsEq notString =>
      exact Or.inr (Or.inl (aborts_throws noEffects
        (Or.inl fun five => five.stringAt paramsEq (by decide) notString)))
  | unauthorized paramsEq usernameEq unknown => exact Or.inl (refuses_respond noEffects)
  | noJobText paramsEq usernameEq authorized notString =>
      exact Or.inr (Or.inl (aborts_throws noEffects
        (Or.inl fun five => five.stringAt paramsEq (by decide) notString)))
  | jobNotFound paramsEq usernameEq authorized jobTextEq unknown =>
      exact Or.inl (refuses_respond (by simp [Effect.Preliminary, shareRecord]))
  | @reaches params username jobText addr _ paramsEq usernameEq authorized jobTextEq jobFound
      done =>
      rcases submitToJob_limits done with ⟨job, passed, limited, sent, jobAt, limiter, limits⟩
      have preliminary : ∀ effect ∈ sent, effect.Preliminary := fun effect effectMem =>
        (unsolicited_of_path (limitShare_tunes limiter) effect effectMem).preliminary
      cases limits with
      | blocked => exact Or.inl (refuses_respond preliminary)
      | unreadable notString =>
          refine Or.inr (Or.inl (aborts_throws preliminary (Or.inl fun five => ?_)))
          rcases readSubmission_thrown notString with failed | failed | failed
          · exact five.stringAt paramsEq (by decide) failed
          · exact five.stringAt paramsEq (by decide) failed
          · exact five.stringAt paramsEq (by decide) failed
      | wrongSize read => exact Or.inl (refuses_respond preliminary)
      | @verified submission rest fields worked =>
          have limitedJobAt := (tuned_of_path (limitShare_tunes limiter)).jobAt jobAt
          rcases submitWork_exits sized limitedJobAt worked with refused | ⟨fresh, exits⟩
          · exact Or.inl (refuses_after refused preliminary)
          right
          let checked : Checked setting env msg client :=
            { params, username, jobText, addr, job, limited, sent, submission, paramsEq,
              usernameEq, authorized, jobTextEq, jobFound, jobAt, passed := limiter, fields,
              fresh }
          rcases exits with ⟨exception, assembled, rfl⟩ | ⟨block, assembled, rfl⟩
          · refine Or.inl ⟨by simp [Outcome.after, throws], ?_, Or.inr ⟨checked, _, assembled⟩⟩
            intro effect effectMem
            rcases List.mem_append.mp effectMem with early | late
            · exact preliminary effect early
            · simp only [throws, List.mem_singleton] at late
              subst late
              trivial
          · exact Or.inr ⟨checked, block, assembled, rfl⟩

theorem subscribe_not_verifies {next : Client} {sent : List Effect} {extranonce : UInt32}
    {clean : Bool} (sends : client.sendJob env clean = some (next, sent)) :
    ∀ effect ∈ .sendMessage (subscribeResponse msg extranonce) :: sent, ¬effect.Verifies := by
  intro effect effectMem
  rcases List.mem_cons.mp effectMem with rfl | later
  · exact id
  · exact (unsolicited_of_path (sendJob_tunes sends) effect later).preliminary.not_verifies

theorem authorize_not_verifies {username password : StdString}
    (done : authorize env msg username password client = some outcome) :
    ∀ effect ∈ outcome.effects, ¬effect.Verifies := by
  rcases authorize_effects done with ⟨sent, effectsEq, messages⟩
  intro effect effectMem
  rw [effectsEq] at effectMem
  rcases List.mem_cons.mp effectMem with rfl | later
  · exact id
  · rcases messages effect later with ⟨response, rfl⟩ | unsolicited
    · exact id
    · exact unsolicited.preliminary.not_verifies

/-- The outcome of a call that verifies something is the verdict on a checked submission. -/
theorem verdict_of_step {event : Event} {next : Client} {output : Output} {effect : Effect}
    (sized : ∀ data, (setting.sha256d data).length = 32)
    (stepped : client.step setting event = some (next, output))
    (effectMem : effect ∈ output.effects) (verifies : effect.Verifies) :
    ∃ msg, event.action = .message msg ∧ msg.stringMember "method" = .ok (ascii "mining.submit") ∧
      ∃ (checked : Checked setting event.env msg client) (block : Block),
        checked.assembled = some (.ok block) ∧ next = (checked.verdict block).client ∧
        output.effects = (checked.verdict block).effects := by
  cases step_ends stepped with
  | sendJob actionEq sends =>
      have unsolicited := unsolicited_of_path (sendJob_tunes sends) effect effectMem
      exact (unsolicited.preliminary.not_verifies verifies).elim
  | @message msg outcome actionEq done =>
      cases onMessage_ends done with
      | noMethod methodEq => simp [throws] at effectMem
      | submit methodEq done =>
          refine ⟨msg, actionEq, methodEq, ?_⟩
          rcases onMiningSubmit_exits sized done with
            refused | aborted | ⟨checked, block, assembled, rfl⟩
          · rcases refused with ⟨emitted, code, text, effectsEq, preliminary⟩
            rw [effectsEq, List.mem_append, List.mem_singleton] at effectMem
            rcases effectMem with early | rfl
            · exact ((preliminary effect early).not_verifies verifies).elim
            · exact verifies.elim
          · exact ((aborted.preliminary effect effectMem).not_verifies verifies).elim
          · exact ⟨checked, block, assembled, rfl, rfl⟩
      | subscribe methodEq sends =>
          exact (subscribe_not_verifies sends effect effectMem verifies).elim
      | noCredentials methodEq unread => simp [throws] at effectMem
      | authorize methodEq credentials done =>
          exact (authorize_not_verifies done effect effectMem verifies).elim
      | ignored methodEq notSubmit notSubscribe notAuthorize => simp at effectMem

end Client

end Poolserver.Stratum
