import Poolserver.Stratum.Accounting
import Poolserver.Stratum.Server

/-!
# Credit

Where a valid share comes from: an authorized worker, a job that was handed out and not
cleaned away, a pair of nonce and extranonce that is new on that job, and a hash that
meets the target of the recorded difficulty.
-/

namespace Poolserver.Stratum

open Poolserver.Bitcoin RunTrace

variable {setting : Setting} {env : Env} {msg : JSON} {client next : Client} {outcome : Outcome}
  {connection : Connection} {trace : List ClientEntry} {last : Client}

/-! ## Workers -/

/-- The database lookup of a call returned a row for the user. -/
def Accepts (entry : ClientEntry) (username : StdString) : Prop :=
  ∃ msg password, entry.event.action = .message msg ∧
    msg.stringMember "method" = .ok (ascii "mining.authorize") ∧
    Client.readCredentials msg = .ok (username, password) ∧
    entry.event.env.row username password ≠ none

theorem workers_of_move {effects : List Effect} (move : Client.Move env client effects next)
    {username : StdString} (authorized : username ∈ next.workers) :
    username ∈ client.workers ∨ ∃ password, .query username password true ∈ effects := by
  cases move with
  | adjust adjusts _ =>
      rw [adjusts.workers] at authorized
      exact Or.inl authorized
  | enlist name password found =>
      rcases Finset.mem_insert.mp authorized with rfl | old
      · exact Or.inr ⟨password, by simp⟩
      · exact Or.inl old
  | subscribe msg extranonce => exact Or.inl authorized
  | sendJob clean issued branchEq => cases clean <;> exact Or.inl authorized
  | submitShare share jobAt => exact Or.inl authorized

/-- Every worker was found by a query. -/
theorem workers_of_run (run : ClientRun setting connection trace last) {username : StdString}
    (authorized : username ∈ last.workers) :
    ∃ password, .query username password true ∈ log trace := by
  refine invariant_of_run (fun log client => ∀ username ∈ client.workers,
    ∃ password, .query username password true ∈ log) (fun _ => True) run (fun _ _ => trivial)
      (by simp [Client.new]) ?_ username authorized
  intro env emitted effects client next _ held move username authorized
  rcases workers_of_move move authorized with old | ⟨password, queried⟩
  · rcases held username old with ⟨password, queried⟩
    exact ⟨password, List.mem_append_left _ queried⟩
  · exact ⟨password, List.mem_append_right _ queried⟩

namespace Client

theorem submit_not_query (sized : ∀ data, (setting.sha256d data).length = 32)
    (done : onMiningSubmit setting env msg client = some outcome) {username password : StdString}
    {found : Bool} : .query username password found ∉ outcome.effects := by
  intro queried
  rcases onMiningSubmit_exits sized done with refuses | aborts | ⟨checked, block, _, rfl⟩
  · rcases refuses with ⟨emitted, code, text, effectsEq, preliminary⟩
    rw [effectsEq, List.mem_append, List.mem_singleton] at queried
    rcases queried with early | final
    · exact preliminary _ early
    · cases final
  · exact aborts.preliminary _ queried
  · simp only [Checked.verdict, Outcome.after, List.mem_append] at queried
    rcases queried with sent | late
    · exact checked.unsolicited _ sent
    rcases late with early | judged
    · simp at early
    · generalize judgedEq : judge env msg _ _ _ _ _ _ = rest at judged
      cases judge_ends judgedEq with
      | above above => simp [respond] at judged
      | solved meets solves accepted => simp [respond] at judged
      | unanswered meets solves refused => simp at judged
      | credited meets large => simp [respond] at judged

/-- A query that finds a worker is part of an authorization. -/
theorem accepts_of_step (sized : ∀ data, (setting.sha256d data).length = 32)
    {entry : ClientEntry}
    (stepped : entry.before.step setting entry.event = some (entry.after, entry.output))
    {username password : StdString}
    (queried : .query username password true ∈ entry.output.effects) : Accepts entry username := by
  have ends := step_ends stepped
  generalize entry.after = after, entry.output = output at ends queried
  cases ends with
  | sendJob actionEq sends =>
      exact (unsolicited_of_path (sendJob_tunes sends) _ queried).elim
  | @message msg outcome actionEq done =>
      cases onMessage_ends done with
      | noMethod methodEq => simp [throws] at queried
      | submit methodEq done => exact (submit_not_query sized done queried).elim
      | subscribe methodEq sends =>
          rcases List.mem_cons.mp queried with answer | early
          · cases answer
          · exact (unsolicited_of_path (sendJob_tunes sends) _ early).elim
      | noCredentials methodEq unread => simp [throws] at queried
      | authorize methodEq credentials done =>
          rcases authorize_effects done with ⟨sent, effectsEq, messages⟩
          rw [effectsEq] at queried
          rcases List.mem_cons.mp queried with first | later
          · simp only [Effect.query.injEq] at first
            rcases first with ⟨rfl, rfl, found⟩
            refine ⟨msg, password, actionEq, methodEq, credentials, ?_⟩
            exact Option.isSome_iff_ne_none.mp found.symm
          · rcases messages _ later with ⟨response, same⟩ | unsolicited
            · cases same
            · exact unsolicited.elim
      | ignored methodEq notSubmit notSubscribe notAuthorize => simp at queried

end Client

/-- Every worker was accepted by an authorization. -/
theorem accepted_of_run (sized : ∀ data, (setting.sha256d data).length = 32)
    (run : ClientRun setting connection trace last) {username : StdString}
    (authorized : username ∈ last.workers) : ∃ entry ∈ trace, Accepts entry username := by
  rcases workers_of_run run authorized with ⟨password, queried⟩
  rcases List.mem_flatMap.mp queried with ⟨entry, entryMem, queried⟩
  rcases run.before_of_mem entryMem with ⟨_, _, _, _, stepped⟩
  exact ⟨entry, entryMem, Client.accepts_of_step sized stepped queried⟩

/-! ## Valid shares -/

/--
Every valid share that any run of the server records was submitted by a user accepted
earlier on the same connection, under the id of a live message, with a pair of nonce and
extranonce that is new on the job of that message, and with a hash that meets the target
of the job's difficulty, which is the recorded one.
-/
theorem credit_sound (sized : ∀ data, (setting.sha256d data).length = 32)
    {trace : List Server.Entry} {server : Server} (run : Server.Run setting trace server)
    {entry : Server.Entry} (entryMem : entry ∈ trace) {id : ℕ} {clientEntry : ClientEntry}
    (called : entry.output = some (id, clientEntry)) {effect : Effect}
    (effectMem : effect ∈ clientEntry.output.effects) {username : StdString} {difficulty : ℕ}
    (credited : effect.credit? = some (username, difficulty)) :
    ∃ (earlier later : List Server.Entry) (history : List ClientEntry) (msg : JSON)
      (checked : Checked setting clientEntry.event.env msg clientEntry.before) (block : Block)
      (handout : Handout) (target : ℕ),
      trace = earlier ++ entry :: later ∧ history = Server.connectionTrace id earlier ∧
      clientEntry.event.action = .message msg ∧
      msg.stringMember "method" = .ok (ascii "mining.submit") ∧
      username = checked.username ∧
      (∃ authorization ∈ history, Accepts authorization username) ∧
      announced (live (log history)) (Client.hexString
        (parseHex clientEntry.event.env.uninitialized checked.jobText).toNat) =
          some handout.message ∧
      handout.job.Grows checked.job ∧
      (∀ submission : Submission, .submitShare checked.addr submission.share ∈ log history →
        (submission.noncebuf, submission.extranonce2) ≠
          (checked.submission.noncebuf, checked.submission.extranonce2)) ∧
      checked.assembled = some (.ok block) ∧ .getHash block ∈ clientEntry.output.effects ∧
      diffToTarget checked.job.diff.toNat = some target ∧
      ByteOrder.value (block.getHash setting.sha256d) ≤ target ∧
      difficulty = checked.job.diff.toNat := by
  rcases run.before_of_mem entryMem with ⟨earlier, later, traceEq, runBefore, stepped⟩
  rcases Server.step_cases stepped with ⟨caller, found, outputEq, callerAt, moves, _⟩ |
    ⟨outputEq, _⟩ | ⟨outputEq, _⟩
  · rw [called, Option.some.injEq, Prod.mk.injEq] at outputEq
    rcases outputEq with ⟨rfl, rfl⟩
    rcases Server.clientRun_of_run runBefore callerAt with ⟨connection, clientRun⟩
    rcases Client.verdict_of_step sized moves effectMem (Effect.verifies_of_credit? credited)
      with ⟨msg, actionEq, methodEq, checked, block, assembled, _, effectsEq⟩
    have jobMem := List.mem_of_getElem? checked.jobAt
    have small := (diffsSmall_of_run clientRun).jobs checked.job jobMem
    have creditMem : (username, difficulty) ∈ credits (checked.verdict block).effects :=
      List.mem_filterMap.mpr ⟨effect, by rwa [← effectsEq], credited⟩
    rcases checked.of_credited small creditMem with ⟨meets, usernameEq, difficultyEq⟩
    have nothing : Supplied (Server.connectionTrace id earlier) fun _ => True :=
      fun _ _ _ _ => trivial
    rcases sound_of_run clientRun nothing jobMem with ⟨sound, _⟩
    rcases handedOut_of_run clientRun _ _ checked.jobFound with ⟨handout, covers⟩
    have jobidEq : parseHex clientEntry.event.env.uninitialized checked.jobText = handout.jobid :=
      UInt32.toUInt64_inj.mp covers.jobid
    rcases covers.later with ⟨job, jobAt, grows⟩
    rw [checked.jobAt, Option.some.injEq] at jobAt
    have authorization := accepted_of_run sized clientRun checked.authorized
    refine ⟨earlier, later, _, msg, checked, block, handout, checked.job.jobTarget, traceEq, rfl,
      actionEq, methodEq, usernameEq, ?_, ?_, ?_, ?_, assembled, ?_, sound.jobTarget, meets,
      difficultyEq⟩
    · rw [usernameEq]
      exact authorization
    · rw [jobidEq]
      exact covers.message
    · rw [jobAt]
      exact grows
    · exact fun submission submitted => new_of_checked clientRun checked submitted
    · rw [effectsEq]
      simp [Checked.verdict, Outcome.after]
  · rw [called] at outputEq
    simp at outputEq
  · rw [called] at outputEq
    simp at outputEq

/-- The share is credited to the user who was accepted before. -/
theorem credit_sound_sample :
    ∃ (trace earlier : List Server.Entry) (server : Server) (entry : Server.Entry) (id : ℕ)
      (clientEntry : ClientEntry) (effect : Effect) (username : StdString) (difficulty : ℕ),
      Server.Run (Sample.setting (Sample.hash 2)) trace server ∧
      entry.output = some (id, clientEntry) ∧
      effect ∈ clientEntry.output.effects ∧
      effect.credit? = some (username, difficulty) ∧
      ∃ authorization ∈ Server.connectionTrace id earlier, Accepts authorization username := by
  have found : ∃ result ∈ replay (Server.step (Sample.setting (Sample.hash 2))) Server.new
      Sample.serverEvents, ∃ entry ∈ result.1, ∃ called ∈ entry.output,
      ∃ effect ∈ called.2.output.effects, effect.credit?.isSome := by
    decide +kernel
  rcases found with ⟨⟨trace, server⟩, replayed, entry, entryMem, ⟨id, clientEntry⟩, called, effect,
    effectMem, credits⟩
  rcases Option.isSome_iff_exists.mp credits with ⟨⟨username, difficulty⟩, credited⟩
  have run : Server.Run (Sample.setting (Sample.hash 2)) trace server := .ofReplay replayed
  rcases credit_sound (Sample.length_hash 2) run entryMem called effectMem credited with
    ⟨earlier, later, history, msg, checked, block, handout, target, _, rfl, _, _, _, accepted, _⟩
  exact ⟨trace, earlier, server, entry, id, clientEntry, effect, username, difficulty, run, called,
    effectMem, credited, accepted⟩

end Poolserver.Stratum
