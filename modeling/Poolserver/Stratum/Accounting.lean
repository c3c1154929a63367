import Poolserver.Stratum.Invariants

/-!
# Answers and records

A well-formed submission is answered by one response with its id, and credited by one
record exactly if the response has the result true. Two exits are different: the share
limiter can abort, and a block that the daemon refuses ends the handler in silence.
-/

namespace Poolserver.Stratum

open Poolserver.Bitcoin RunTrace

variable {setting : Setting} {env : Env} {msg : JSON} {client : Client} {outcome : Outcome}

/-! ## Responses and credits -/

namespace Effect

/-- The response that an effect sends. -/
def response? : Effect → Option JSON
  | sendMessage msg => if isResponse msg then some msg else none
  | _ => none

/-- The user and the difficulty of the valid share that an effect records. -/
def credit? : Effect → Option (StdString × ℕ)
  | push share => if share.result then some (share.username, share.diff.toNat) else none
  | executeAsync insert =>
      if insert.ourResult then some (insert.username, insert.difficulty.toNat) else none
  | _ => none

theorem verifies_of_credit? {effect : Effect} {credit : StdString × ℕ}
    (credited : effect.credit? = some credit) : effect.Verifies := by
  cases effect with
  | push share =>
      by_contra bad
      have result : ¬share.result = true := bad
      simp [credit?, result] at credited
  | executeAsync insert => trivial
  | _ => simp [credit?] at credited

theorem Preliminary.response?_eq_none {effect : Effect} (preliminary : effect.Preliminary) :
    effect.response? = none := by
  cases effect with
  | sendMessage msg =>
      have unsolicited : isResponse msg = false := preliminary
      simp [response?, unsolicited]
  | _ => rfl

theorem Preliminary.credit?_eq_none {effect : Effect} (preliminary : effect.Preliminary) :
    effect.credit? = none := by
  cases effect with
  | push share =>
      have bad : share.result = false := preliminary
      simp [credit?, bad]
  | executeAsync insert => exact preliminary.elim
  | _ => rfl

end Effect

/-- The responses among the messages that are sent. -/
def responses (effects : List Effect) : List JSON :=
  effects.filterMap Effect.response?

/-- The valid shares that are recorded, with users and difficulties. -/
def credits (effects : List Effect) : List (StdString × ℕ) :=
  effects.filterMap Effect.credit?

@[simp]
theorem responses_append (left right : List Effect) :
    responses (left ++ right) = responses left ++ responses right :=
  List.filterMap_append

@[simp]
theorem credits_append (left right : List Effect) :
    credits (left ++ right) = credits left ++ credits right :=
  List.filterMap_append

theorem responses_of_preliminary {effects : List Effect}
    (preliminary : ∀ effect ∈ effects, effect.Preliminary) : responses effects = [] := by
  simpa [responses, List.filterMap_eq_nil_iff] using
    fun effect effectMem => (preliminary effect effectMem).response?_eq_none

theorem credits_of_preliminary {effects : List Effect}
    (preliminary : ∀ effect ∈ effects, effect.Preliminary) : credits effects = [] := by
  simpa [credits, List.filterMap_eq_nil_iff] using
    fun effect effectMem => (preliminary effect effectMem).credit?_eq_none

/-- `response["result"]` is the value true. -/
def ResultTrue (response : JSON) : Prop :=
  response.member (ascii "result") = .ok (.bool true)

theorem resultTrue_trueResponse (msg : JSON) : ResultTrue (trueResponse msg) :=
  rfl

theorem not_resultTrue_errorResponse (msg : JSON) (code : Int64) (text : String) :
    ¬ResultTrue (errorResponse msg code text) := by
  intro same
  have null : (errorResponse msg code text).member (ascii "result") = .ok .null := rfl
  rw [ResultTrue, null] at same
  injection same with values
  injection values

/-! ## The property -/

/-- The user and the job that a submission names. -/
def Names (env : Env) (msg : JSON) (client : Client) (username : StdString) (job : Job) : Prop :=
  ∃ params text addr, msg.member (ascii "params") = .ok params ∧
    params.stringAt 0 = .ok username ∧ params.stringAt 1 = .ok text ∧
    client.jobs (parseHex env.uninitialized text).toUInt64 = some addr ∧
    client.heap[addr]? = some job

/-- A submission is answered once and credited as it is answered. -/
structure Accounted (setting : Setting) (env : Env) (msg : JSON) (client : Client)
    (outcome : Outcome) (response : JSON) : Prop where
  answered : responses outcome.effects = [response]
  id : response.member (ascii "id") = .ok (requestId msg)
  credited : ResultTrue response ↔ ∃ username job, Names env msg client username job ∧
    credits outcome.effects = [(username, job.diff.toNat)]
  accepted : ∀ (checked : Checked setting env msg client) (block : Block),
    checked.assembled = some (.ok block) →
    ByteOrder.value (block.getHash setting.sha256d) ≤ checked.job.jobTarget → ResultTrue response

/-- The share limiter comes to an end for the job that an authorized user names. -/
def LimiterReturns (setting : Setting) (env : Env) (msg : JSON) (client : Client) : Prop :=
  ∀ username job, Names env msg client username job → username ∈ client.workers →
    client.limitShare setting.config setting.floating env job.diff ≠ none

/-- The daemon refuses the block of a checked submission whose hash meets both targets. -/
def Refused (setting : Setting) (env : Env) (msg : JSON) (client : Client) : Prop :=
  ∃ (checked : Checked setting env msg client) (block : Block),
    checked.assembled = some (.ok block) ∧
    ByteOrder.value (block.getHash setting.sha256d) ≤ checked.job.jobTarget ∧
    ByteOrder.value (block.getHash setting.sha256d) ≤ checked.job.blockTarget ∧
    env.submitBlock block = false

/-! ## When the handler returns -/

theorem Checked.names (checked : Checked setting env msg client) :
    Names env msg client checked.username checked.job :=
  ⟨_, _, _, checked.paramsEq, checked.usernameEq, checked.jobTextEq, checked.jobFound,
    checked.jobAt⟩

theorem limiterReturns_of_done (done : client.onMiningSubmit setting env msg = some outcome) :
    LimiterReturns setting env msg client := by
  rintro username job ⟨params, text, addr, paramsEq, usernameEq, textEq, found, jobAt⟩ authorized
  simp only [Client.onMiningSubmit, paramsEq, usernameEq, authorized, not_true_eq_false, if_false,
    textEq, found, Client.submitToJob, jobAt, Option.bind_eq_bind, Option.bind_eq_some_iff] at done
  rcases done with ⟨_, sameJob, result, limited, _⟩
  rw [Option.some.inj sameJob, limited]
  exact Option.some_ne_none _

/-- Nothing but the share limiter can keep the handler from returning. -/
theorem exists_outcome (sized : ∀ data, (setting.sha256d data).length = 32)
    (returns : LimiterReturns setting env msg client)
    (pointers : ∀ id addr, client.jobs id = some addr → addr < client.heap.length)
    (templates : ∀ job ∈ client.heap, job.Sound ∧ job.block.IsTemplate setting.sha256d) :
    ∃ outcome, client.onMiningSubmit setting env msg = some outcome := by
  unfold Client.onMiningSubmit
  split
  · exact ⟨_, rfl⟩
  rename_i params paramsEq
  split
  · exact ⟨_, rfl⟩
  rename_i username usernameEq
  split
  · exact ⟨_, rfl⟩
  rename_i authorized
  split
  · exact ⟨_, rfl⟩
  rename_i text textEq
  split
  · exact ⟨_, rfl⟩
  rename_i addr found
  obtain ⟨job, jobAt⟩ : ∃ job, client.heap[addr]? = some job :=
    ⟨_, List.getElem?_eq_getElem (pointers _ addr found)⟩
  have named : Names env msg client username job :=
    ⟨params, text, addr, paramsEq, usernameEq, textEq, found, jobAt⟩
  rcases Option.ne_none_iff_exists'.mp (returns username job named (not_not.mp authorized))
    with ⟨⟨passed, limited, sent⟩, limiter⟩
  simp only [Client.submitToJob, jobAt, limiter, Option.bind_eq_bind, Option.bind_some]
  cases passed with
  | false => exact ⟨_, rfl⟩
  | true =>
      dsimp only
      split
      · exact ⟨_, rfl⟩
      · exact ⟨_, rfl⟩
      rename_i submission fields
      have tuned := Client.tuned_of_path (Client.limitShare_tunes limiter)
      simp only [Client.submitWork, tuned.jobAt jobAt, Option.bind_eq_bind, Option.bind_some]
      split
      · exact ⟨_, rfl⟩
      rename_i stored submitted
      rcases Job.submitShare_eq_some submitted with ⟨_, rfl⟩
      rcases templates job (List.mem_of_getElem? jobAt) with ⟨sound, template⟩
      have size := (readSubmission_ok fields).extranonce2.1
      rcases @Client.assemble_eq setting.sha256d
        (limited.storeJob addr (job.withShare submission.share)) _ submission
        (sound.withShare submission.share) template size with ⟨coinbasetx, _, _, assembled⟩
      have assembledEq : (limited.storeJob addr (job.withShare submission.share)).assemble
        setting.sha256d { job with shares := insert submission.share job.shares } submission = _ :=
        assembled
      have storedEq : job.withShare submission.share =
        { job with shares := insert submission.share job.shares } := rfl
      rw [storedEq] at assembledEq
      simp only [assembledEq, Client.bigIntFromHex_hash sized, Option.bind_some]
      exact ⟨_, rfl⟩

/-! ## Verdicts -/

namespace Checked

variable (checked : Checked setting env msg client) {block : Block}

theorem responses_sent : responses checked.sent = [] :=
  responses_of_preliminary fun effect effectMem =>
    (checked.unsolicited effect effectMem).preliminary

theorem credits_sent : credits checked.sent = [] :=
  credits_of_preliminary fun effect effectMem =>
    (checked.unsolicited effect effectMem).preliminary

theorem verdict_above
    (above : checked.job.jobTarget < ByteOrder.value (block.getHash setting.sha256d)) :
    responses (checked.verdict block).effects = [errorResponse msg 23 "Share above target"] ∧
      credits (checked.verdict block).effects = [] := by
  have target : checked.stored.jobTarget = checked.job.jobTarget := rfl
  simp only [verdict, Client.judge, target, if_pos above, Outcome.after, responses_append,
    credits_append, checked.responses_sent, checked.credits_sent]
  exact ⟨rfl, rfl⟩

/-- A hash that meets the target of the job, and is no refused block, is credited. -/
theorem verdict_credited
    (meets : ByteOrder.value (block.getHash setting.sha256d) ≤ checked.job.jobTarget)
    (kept : ByteOrder.value (block.getHash setting.sha256d) ≤ checked.job.blockTarget →
      env.submitBlock block = true)
    (small : checked.job.diff.toNat < 2 ^ 32) :
    responses (checked.verdict block).effects = [trueResponse msg] ∧
      credits (checked.verdict block).effects = [(checked.username, checked.job.diff.toNat)] := by
  have target : checked.stored.jobTarget = checked.job.jobTarget := rfl
  have blockTarget : checked.stored.blockTarget = checked.job.blockTarget := rfl
  have low : checked.job.diff.toUInt32.toNat = checked.job.diff.toNat := by
    rw [UInt64.toNat_toUInt32, Nat.mod_eq_of_lt small]
  simp only [verdict, Client.judge, target, blockTarget, if_neg (not_lt.mpr meets), Outcome.after,
    responses_append, credits_append, checked.responses_sent, checked.credits_sent]
  by_cases solves : ByteOrder.value (block.getHash setting.sha256d) ≤ checked.job.blockTarget
  · rw [if_pos solves, if_pos (kept solves)]
    refine ⟨rfl, ?_⟩
    change [(checked.username, checked.job.diff.toUInt32.toNat)] = _
    rw [low]
  · rw [if_neg solves]
    exact ⟨rfl, rfl⟩

/-- A block that the daemon refuses is neither answered nor credited. -/
theorem verdict_refused
    (meets : ByteOrder.value (block.getHash setting.sha256d) ≤ checked.job.jobTarget)
    (solves : ByteOrder.value (block.getHash setting.sha256d) ≤ checked.job.blockTarget)
    (refuses : env.submitBlock block = false) :
    responses (checked.verdict block).effects = [] ∧
      credits (checked.verdict block).effects = [] := by
  have target : checked.stored.jobTarget = checked.job.jobTarget := rfl
  have blockTarget : checked.stored.blockTarget = checked.job.blockTarget := rfl
  have silent : ¬env.submitBlock block = true := by simp [refuses]
  simp only [verdict, Client.judge, target, blockTarget, if_neg (not_lt.mpr meets),
    if_pos solves, if_neg silent, Outcome.after, responses_append, credits_append,
    checked.responses_sent, checked.credits_sent]
  exact ⟨rfl, rfl⟩

/-- What a verdict credits meets the target of its job. -/
theorem of_credited {username : StdString} {difficulty : ℕ}
    (small : checked.job.diff.toNat < 2 ^ 32)
    (credited : (username, difficulty) ∈ credits (checked.verdict block).effects) :
    ByteOrder.value (block.getHash setting.sha256d) ≤ checked.job.jobTarget ∧
      username = checked.username ∧ difficulty = checked.job.diff.toNat := by
  rcases lt_or_ge checked.job.jobTarget (ByteOrder.value (block.getHash setting.sha256d))
    with above | meets
  · simp [(checked.verdict_above above).2] at credited
  refine ⟨meets, ?_⟩
  by_cases kept : ByteOrder.value (block.getHash setting.sha256d) ≤ checked.job.blockTarget →
      env.submitBlock block = true
  · simpa [(checked.verdict_credited meets kept small).2] using credited
  · rcases Classical.not_imp.mp kept with ⟨solves, refuses⟩
    simp [(checked.verdict_refused meets solves (Bool.eq_false_iff.mpr refuses)).2] at credited

end Checked

/-! ## The result -/

/-- A refusal is one response that is no credit. -/
theorem Outcome.Refuses.shape (refuses : outcome.Refuses msg) :
    ∃ code text, responses outcome.effects = [errorResponse msg code text] ∧
      credits outcome.effects = [] := by
  rcases refuses with ⟨emitted, code, text, effectsEq, preliminary⟩
  refine ⟨code, text, ?_, ?_⟩
  · rw [effectsEq, responses_append, responses_of_preliminary preliminary]
    rfl
  · rw [effectsEq, credits_append, credits_of_preliminary preliminary]
    rfl

theorem accounted_of_error {code : Int64} {text : String}
    (answered : responses outcome.effects = [errorResponse msg code text])
    (uncredited : credits outcome.effects = [])
    (accepted : ∀ (checked : Checked setting env msg client) (block : Block),
      checked.assembled = some (.ok block) →
      ByteOrder.value (block.getHash setting.sha256d) ≤ checked.job.jobTarget →
      responses outcome.effects = [trueResponse msg]) :
    Accounted setting env msg client outcome (errorResponse msg code text) where
  answered := answered
  id := rfl
  credited := by
    constructor
    · exact fun result => (not_resultTrue_errorResponse msg code text result).elim
    · rintro ⟨username, job, _, credited⟩
      simp [uncredited] at credited
  accepted checked block assembled meets := by
    have same := accepted checked block assembled meets
    rw [answered, List.cons.injEq] at same
    rw [same.1]
    exact resultTrue_trueResponse msg

variable {connection : Connection} {trace : List ClientEntry} {last : Client}

/--
In every reachable state, a submission of five strings is answered by one response and
credited by one record exactly if its result is true, if and only if the share limiter
returns and no block of the submission is refused.
-/
theorem accounted_iff (sized : ∀ data, (setting.sha256d data).length = 32)
    (run : ClientRun setting connection trace last)
    (supplied : Supplied trace (Block.IsTemplate setting.sha256d)) (five : FiveStrings msg) :
    (∃ outcome response, last.onMiningSubmit setting env msg = some outcome ∧
      Accounted setting env msg last outcome response) ↔
    LimiterReturns setting env msg last ∧ ¬Refused setting env msg last := by
  constructor
  · rintro ⟨outcome, response, done, accounted⟩
    refine ⟨limiterReturns_of_done done, ?_⟩
    rintro ⟨checked, block, assembled, meets, solves, refuses⟩
    rw [Client.onMiningSubmit_of_checked sized checked assembled, Option.some.injEq] at done
    have answered := accounted.answered
    rw [← done, (checked.verdict_refused meets solves refuses).1] at answered
    simp at answered
  · rintro ⟨returns, kept⟩
    have templates := fun job (jobMem : job ∈ last.heap) => sound_of_run run supplied jobMem
    rcases exists_outcome sized returns (fun id addr => jobs_of_run run) templates
      with ⟨outcome, done⟩
    have credited : ∀ (checked : Checked setting env msg last) (block : Block),
        checked.assembled = some (.ok block) →
        ByteOrder.value (block.getHash setting.sha256d) ≤ checked.job.jobTarget →
        responses outcome.effects = [trueResponse msg] ∧
          credits outcome.effects = [(checked.username, checked.job.diff.toNat)] := by
      intro checked block assembled meets
      rw [Client.onMiningSubmit_of_checked sized checked assembled, Option.some.injEq] at done
      have small := (diffsSmall_of_run run).jobs checked.job (List.mem_of_getElem? checked.jobAt)
      have unrefused : ByteOrder.value (block.getHash setting.sha256d) ≤ checked.job.blockTarget →
          env.submitBlock block = true := by
        intro solves
        by_contra refuses
        exact kept ⟨checked, block, assembled, meets, solves, Bool.eq_false_iff.mpr refuses⟩
      rw [← done]
      exact checked.verdict_credited meets unrefused small
    have accepted := fun checked block assembled meets =>
      (credited checked block assembled meets).1
    rcases Client.onMiningSubmit_exits sized done with refuses | aborts | judged
    · rcases refuses.shape with ⟨code, text, answered, uncredited⟩
      exact ⟨outcome, _, done, accounted_of_error answered uncredited accepted⟩
    · rcases aborts.cause with notFive | ⟨checked, exception, failed⟩
      · exact (notFive five).elim
      · rcases templates checked.job (List.mem_of_getElem? checked.jobAt) with ⟨sound, template⟩
        rcases checked.assembled_eq sound template with ⟨_, _, _, assembled⟩
        simp [failed] at assembled
    · rcases judged with ⟨checked, block, assembled, rfl⟩
      by_cases meets : ByteOrder.value (block.getHash setting.sha256d) ≤ checked.job.jobTarget
      · rcases credited checked block assembled meets with ⟨answered, credit⟩
        refine ⟨_, trueResponse msg, done, answered, rfl, ?_, ?_⟩
        · exact ⟨fun _ => ⟨_, _, checked.names, credit⟩, fun _ => resultTrue_trueResponse msg⟩
        · exact fun _ _ _ _ => resultTrue_trueResponse msg
      · rcases checked.verdict_above (not_le.mp meets) with ⟨answered, uncredited⟩
        exact ⟨_, _, done, accounted_of_error answered uncredited accepted⟩

/-! ## Samples -/

namespace Sample

theorem fiveStrings : FiveStrings (submission "0") :=
  ⟨_, _, _, _, _, rfl⟩

/-- A daemon that refuses every block. -/
def refusingEnv : Env :=
  { easyEnv 2 with submitBlock := fun _ => false }

end Sample

/-- With a daemon that takes every block, the first submission is accounted for. -/
theorem accounted_sample :
    ∃ (trace : List ClientEntry) (last : Client) (outcome : Outcome) (response : JSON),
      ClientRun (Sample.setting (Sample.hash 2)) Sample.connection trace last ∧
      last.onMiningSubmit (Sample.setting (Sample.hash 2)) (Sample.easyEnv 2)
        (Sample.submission "0") = some outcome ∧
      Accounted (Sample.setting (Sample.hash 2)) (Sample.easyEnv 2) (Sample.submission "0") last
        outcome response := by
  have found : ∃ result ∈ replay (Client.step (Sample.setting (Sample.hash 2)))
      (Client.new Sample.config Sample.connection) Sample.opening,
      (result.2.onMiningSubmit (Sample.setting (Sample.hash 2)) (Sample.easyEnv 2)
        (Sample.submission "0")).isSome := by
    decide +kernel
  rcases found with ⟨⟨trace, last⟩, replayed, returns⟩
  rcases Option.isSome_iff_exists.mp returns with ⟨outcome, done⟩
  have run : ClientRun (Sample.setting (Sample.hash 2)) Sample.connection trace last :=
    .ofReplay replayed
  have supplied : Supplied trace (Block.IsTemplate (Sample.hash 2)) :=
    (Sample.supplied_opening replayed).mono Notifiable.template
  have kept : ¬Refused (Sample.setting (Sample.hash 2)) (Sample.easyEnv 2) (Sample.submission "0")
      last := by
    rintro ⟨_, _, _, _, _, refuses⟩
    simp [Sample.easyEnv, Sample.env] at refuses
  rcases (accounted_iff (Sample.length_hash 2) run supplied Sample.fiveStrings).mpr
    ⟨limiterReturns_of_done done, kept⟩ with ⟨outcome, response, done, accounted⟩
  exact ⟨trace, last, outcome, response, run, done, accounted⟩

/-- A share that meets the target of its job is neither answered nor recorded. -/
theorem exists_unanswered_share :
    ∃ (trace : List ClientEntry) (last : Client)
      (checked : Checked (Sample.setting (Sample.hash 2)) Sample.refusingEnv
        (Sample.submission "0") last) (block : Block) (outcome : Outcome),
      ClientRun (Sample.setting (Sample.hash 2)) Sample.connection trace last ∧
      FiveStrings (Sample.submission "0") ∧
      checked.assembled = some (.ok block) ∧
      ByteOrder.value (block.getHash (Sample.hash 2)) ≤ checked.job.jobTarget ∧
      last.onMiningSubmit (Sample.setting (Sample.hash 2)) Sample.refusingEnv
        (Sample.submission "0") = some outcome ∧
      responses outcome.effects = [] := by
  have found : ∃ result ∈ replay (Client.step (Sample.setting (Sample.hash 2)))
      (Client.new Sample.config Sample.connection) Sample.opening,
      ∃ checked ∈ Checked.find? (Sample.setting (Sample.hash 2)) Sample.refusingEnv
        (Sample.submission "0") result.2, ∃ assembled ∈ checked.assembled,
        ∃ block ∈ assembled.toOption,
          ByteOrder.value (block.getHash (Sample.hash 2)) ≤ checked.job.jobTarget ∧
            ByteOrder.value (block.getHash (Sample.hash 2)) ≤ checked.job.blockTarget := by
    decide +kernel
  rcases found with ⟨⟨trace, last⟩, replayed, checked, _, assembled, assembledEq, block, blockEq,
    meets, solves⟩
  cases assembled with
  | error exception => simp [Except.toOption] at blockEq
  | ok built =>
      simp only [Except.toOption, Option.mem_def, Option.some.injEq] at blockEq
      subst blockEq
      exact ⟨trace, last, checked, built, _, .ofReplay replayed, Sample.fiveStrings, assembledEq,
        meets, Client.onMiningSubmit_of_checked (Sample.length_hash 2) checked assembledEq,
        (checked.verdict_refused meets solves rfl).1⟩

end Poolserver.Stratum
