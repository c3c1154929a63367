import Mathlib.Data.List.ReduceOption
import Poolserver.Stratum.Difficulty
import Poolserver.Stratum.Handled

/-!
# The job table

The keys of `_jobs` are the ids of the jobs that were announced since the last notification that
drops the earlier ones. An id is printed in hexadecimal and read back from the submissions.
-/

namespace Poolserver.Stratum

open RunTrace Client

/-! ## Ids as text -/

theorem digit_plain {number : ℕ} (small : number < 16) :
    isSpace (HexText.digit number) = false ∧ HexText.digit number ≠ 45 ∧
      HexText.digit number ≠ 43 ∧ HexText.digit number ≠ 120 ∧ HexText.digit number ≠ 88 := by
  have table : ∀ number : Fin 16, isSpace (HexText.digit number.val) = false ∧
      HexText.digit number.val ≠ 45 ∧ HexText.digit number.val ≠ 43 ∧
      HexText.digit number.val ≠ 120 ∧ HexText.digit number.val ≠ 88 := by
    decide
  exact table ⟨number, small⟩

theorem takeWhile_digits {digits : List ℕ} (small : ∀ number ∈ digits, number < 16) :
    (((digits.map HexText.digit).map HexText.digitValue?).takeWhile Option.isSome).reduceOption =
      digits := by
  induction digits with
  | nil => rfl
  | cons number digits ih =>
      rw [List.forall_mem_cons] at small
      simp only [List.map_cons, HexText.digitValue?_digit small.1, List.takeWhile_cons,
        Option.isSome_some, if_true, List.reduceOption_cons_of_some, ih small.2]

theorem hexMagnitude_digits {digits : List ℕ} (small : ∀ number ∈ digits, number < 16) :
    hexMagnitude (digits.map HexText.digit) = Nat.ofDigits 16 digits.reverse := by
  have second : ∀ first other rest, digits.map HexText.digit = first :: other :: rest →
      other ≠ 120 ∧ other ≠ 88 := by
    intro first other rest digitsEq
    cases digits with
    | nil => cases digitsEq
    | cons number digits =>
        cases digits with
        | nil => cases digitsEq
        | cons next digits =>
            simp only [List.map_cons, List.cons.injEq] at digitsEq
            rw [← digitsEq.2.1]
            exact (digit_plain (small next (by simp))).2.2.2
  unfold hexMagnitude
  split
  · rename_i textEq
    exact absurd rfl (second _ _ _ textEq).1
  · rename_i textEq
    exact absurd rfl (second _ _ _ textEq).2
  · dsimp only
    rw [takeWhile_digits small]

theorem parseHex_digits {digits : List ℕ} (uninitialized : UInt32)
    (small : ∀ number ∈ digits, number < 16) (nonempty : digits ≠ [])
    (fits : Nat.ofDigits 16 digits.reverse < 2 ^ 32) :
    parseHex uninitialized (digits.map HexText.digit) =
      UInt32.ofNat (Nat.ofDigits 16 digits.reverse) := by
  have magnitude := hexMagnitude_digits small
  cases digits with
  | nil => exact absurd rfl nonempty
  | cons number digits =>
      rcases digit_plain (small number (by simp)) with ⟨notSpace, notMinus, notPlus, _⟩
      rw [List.map_cons] at magnitude ⊢
      simp only [parseHex, List.dropWhile_cons, notSpace, Bool.false_eq_true, if_false]
      split
      · rename_i nothing
        cases nothing
      · rename_i minus
        injection minus with head _
        exact absurd head notMinus
      · rename_i plus
        injection plus with head _
        exact absurd head notPlus
      · rw [magnitude, if_neg (by omega)]

/-- A job id is read back as it was printed. -/
theorem parseHex_hexString (uninitialized jobid : UInt32) :
    parseHex uninitialized (hexString jobid.toNat) = jobid := by
  have bound := jobid.toNat_lt
  unfold hexString
  split
  · rename_i zero
    have jobidEq : jobid = 0 := UInt32.toNat_inj.mp zero
    rw [jobidEq]
    rfl
  · rename_i positive
    have value : Nat.ofDigits 16 (Nat.digits 16 jobid.toNat).reverse.reverse = jobid.toNat := by
      rw [List.reverse_reverse, Nat.ofDigits_digits]
    rw [parseHex_digits, value, UInt32.ofNat_toNat]
    · intro number numberMem
      exact Nat.digits_lt_base (by decide) (List.mem_reverse.mp numberMem)
    · rw [Ne, List.reverse_eq_nil_iff, Nat.digits_eq_nil_iff_eq_zero]
      exact positive
    · rw [value]
      exact bound

/-! ## The table and the notifications -/

/-- The notifications in and after the last that drops the earlier jobs. -/
def sinceClean (notes : List (StdString × Bool)) : List (StdString × Bool) :=
  notes.foldl (fun kept note => if note.2 then [note] else kept ++ [note]) []

/-- The job table is what was announced. -/
structure TableMatches (effects : List Effect) (client : Client) : Prop where
  keys : ∀ key, client.jobs key ≠ none ↔
    ∃ note ∈ sinceClean (notices effects), (parseHex 0 note.1).toUInt64 = key
  distinct : ((notices effects).map Prod.fst).Nodup
  /-- The job under a key is the one that was printed when its id was announced. -/
  stored : ∀ key addr, client.jobs key = some addr →
    ∃ (jobid : UInt32) (job : Job) (branch : List BinaryData) (clean : Bool),
      .sendMessage (notifyMessage jobid job branch clean) ∈ effects ∧ jobid.toUInt64 = key ∧
      client.heap[addr]? = some job ∧ job.branch = some branch

/-- The request is a submission of that worker under that job id. -/
structure Submitting (msg : JSON) (username text : StdString) : Prop where
  methodEq : msg.stringMember "method" = .ok (ascii "mining.submit")
  read : ∃ params, msg.member (ascii "params") = .ok params ∧ params.stringAt 0 = .ok username ∧
    params.stringAt 1 = .ok text

/-- A job that was announced before the earlier jobs were dropped is not found. -/
def Forgets (setting : Setting) (effects : List Effect) (client : Client) : Prop :=
  ∀ earlier clean later note, notices effects = earlier ++ clean :: later → clean.2 = true →
    note ∈ earlier → ∀ env msg username text, Submitting msg username text →
      parseHex env.uninitialized text = parseHex env.uninitialized note.1 →
      ∃ outcome, client.onMessage env setting msg = some outcome ∧
        outcome.client.heap = client.heap ∧
        (username ∈ client.workers →
          .sendMessage (errorResponse msg 21 "Job not found") ∈ outcome.effects)

theorem sinceClean_append (notes : List (StdString × Bool)) (note : StdString × Bool) :
    sinceClean (notes ++ [note]) = (if note.2 then [] else sinceClean notes) ++ [note] := by
  simp only [sinceClean, List.foldl_append, List.foldl_cons, List.foldl_nil]
  split
  · rfl
  · rfl

/-- What a notification that drops the earlier jobs leaves is behind it. -/
theorem mem_behind_clean {earlier later : List (StdString × Bool)} {clean note : StdString × Bool}
    (drops : clean.2 = true) (noteMem : note ∈ sinceClean (earlier ++ clean :: later)) :
    note ∈ clean :: later := by
  induction later using List.reverseRecOn with
  | nil =>
      rw [sinceClean_append, if_pos drops] at noteMem
      exact noteMem
  | append_singleton later last ih =>
      rw [← List.cons_append, ← List.append_assoc, sinceClean_append] at noteMem
      rw [← List.cons_append, List.mem_append]
      rcases List.mem_append.mp noteMem with old | new
      · split at old
        · cases old
        · exact Or.inl (ih old)
      · exact Or.inr new

namespace Client

variable {env : Env} {client next : Client} {effects emitted : List Effect}

/-- What neither changes the job table nor announces a job. -/
structure Idle (client : Client) (effects : List Effect) (next : Client) : Prop where
  jobs : next.jobs = client.jobs
  jobid : next.jobid = client.jobid
  noted : notices effects = []

/-- A move of the job table. -/
inductive TableMove (env : Env) : Client → List Effect → Client → Prop where
  | idle {client next : Client} {effects : List Effect} (idle : client.Idle effects next) :
      TableMove env client effects next
  | sendJob {client next : Client} {effects : List Effect}
      (sends : SendsJob env client effects next) : TableMove env client effects next

theorem Act.idle (act : Act env client effects next) : client.Idle effects next := by
  refine ⟨act.steady.jobs, ?_, act.steady.noted⟩
  cases act with
  | turn turns => cases turns <;> rfl
  | reply replies => rfl
  | perform plain => rfl
  | refuse bad => rfl
  | enlist username password found => rfl
  | setMinDiff minDiff => rfl
  | submitShare share jobAt => rfl

theorem ChangesDiff.idle (changes : ChangesDiff client effects next) :
    client.Idle effects next := by
  cases changes with
  | intro diff differs bound => exact ⟨rfl, rfl, rfl⟩

theorem Acts.tableMoves (acts : Acts env client effects next) :
    Path (TableMove env) client effects next :=
  acts.toPath (fun act => TableMove.idle act.idle) (fun changes => TableMove.idle changes.idle)
    TableMove.sendJob

theorem Handles.tableMoves {setting : Setting} {event : Event}
    (handles : Handles setting event client effects next) :
    Path (TableMove event.env) client effects next := by
  cases handles with
  | submission actionEq methodEq does =>
      rcases does with path | ⟨addr, _, limited⟩
      · exact path.mono fun act => TableMove.idle act.idle
      · exact limited.acts.tableMoves
  | @subscription msg sent _ actionEq methodEq sends =>
      have answers : client.Idle [.sendMessage (subscribeResponse msg event.env.extranonce)]
          { client with subscribed := true, extranonce := event.env.extranonce } :=
        ⟨rfl, rfl, rfl⟩
      exact (Path.single (TableMove.idle answers)).trans (.single (TableMove.sendJob sends))
  | other actionEq notSubmit notSubscribe authorizes => exact authorizes.acts.tableMoves
  | sendJob actionEq sends => exact .single (TableMove.sendJob sends)

end Client

/-! ## Runs -/

/-- Ids are given out one after the other, and the table has those that were not dropped. -/
structure Tabled (effects : List Effect) (client : Client) : Prop where
  jobid : client.jobid = UInt32.ofNat (notices effects).length
  ids : (notices effects).map Prod.fst = (List.range (notices effects).length).map fun position =>
    hexString (UInt32.ofNat position).toNat
  keys : ∀ key, client.jobs key ≠ none ↔
    ∃ note ∈ sinceClean (notices effects), (parseHex 0 note.1).toUInt64 = key

variable {setting : Setting} {connection : Connection} {trace : List ClientEntry} {last : Client}
  {env : Env} {client next : Client} {effects emitted : List Effect}

theorem tabled_of_sendsJob (tabled : Tabled emitted client)
    (sends : SendsJob env client effects next) : Tabled (emitted ++ effects) next := by
  cases sends with
  | @intro clean job branch issued branchEq =>
      have noted : notices (emitted ++
            [.sendMessage (notifyMessage client.jobid job branch clean)]) =
          notices emitted ++ [(hexString client.jobid.toNat, clean)] := by
        rw [notices_append]
        rfl
      refine ⟨?_, ?_, ?_⟩
      · have counted : ((if clean then client.cleanJobs else client).addJob job).jobid =
            client.jobid + 1 := by
          cases clean <;> rfl
        rw [counted, noted, List.length_append, List.length_singleton, tabled.jobid,
          UInt32.ofNat_add]
        rfl
      · rw [noted, List.map_append, List.length_append, List.length_singleton, List.range_succ,
          List.map_append, tabled.ids, List.map_singleton, List.map_singleton, tabled.jobid]
      · intro key
        have printed : parseHex 0 (hexString client.jobid.toNat) = client.jobid :=
          parseHex_hexString 0 client.jobid
        rw [noted, sinceClean_append]
        simp only [List.mem_append, List.mem_singleton, or_and_right, exists_or, exists_eq_left,
          printed]
        by_cases fresh : client.jobid.toUInt64 = key
        · refine iff_of_true ?_ (Or.inr fresh)
          cases clean <;> simp [addJob, cleanJobs, fresh]
        · rw [or_iff_left fresh]
          cases clean with
          | true =>
              simp [addJob, cleanJobs, Function.update_of_ne (Ne.symm fresh)]
          | false =>
              simp only [Bool.false_eq_true, if_false, addJob,
                Function.update_of_ne (Ne.symm fresh)]
              exact tabled.keys key

theorem tabled_of_tableMove (tabled : Tabled emitted client)
    (move : TableMove env client effects next) : Tabled (emitted ++ effects) next := by
  cases move with
  | idle idle =>
      have noted : notices (emitted ++ effects) = notices emitted := by
        rw [notices_append, idle.noted, List.append_nil]
      refine ⟨?_, ?_, ?_⟩
      · rw [idle.jobid, noted, tabled.jobid]
      · rw [noted, tabled.ids]
      · intro key
        rw [idle.jobs, noted]
        exact tabled.keys key
  | sendJob sends => exact tabled_of_sendsJob tabled sends

theorem tabled_of_run (run : ClientRun setting connection trace last) :
    Tabled (log trace) last := by
  refine run.invariant (fun trace client => Tabled (log trace) client) (fun _ => True)
    (fun _ _ => trivial) ?_ ?_
  · refine ⟨rfl, rfl, fun key => iff_of_false (by simp [Client.new]) ?_⟩
    simp [log, notices, sinceClean]
  intro trace entry held _ stepped
  rw [log_append]
  have path := (step_handles stepped).tableMoves
  simpa [log] using path.invariant Tabled tabled_of_tableMove held

/-- While the counter does not wrap, ids are distinct. -/
theorem Tabled.distinct (tabled : Tabled effects client)
    (few : (notices effects).length < 2 ^ 32) : ((notices effects).map Prod.fst).Nodup := by
  rw [tabled.ids]
  refine List.Nodup.map_on ?_ List.nodup_range
  intro position positionMem other otherMem same
  rw [List.mem_range] at positionMem otherMem
  have numbers := hexString_injective same
  rw [UInt32.toNat_ofNat', UInt32.toNat_ofNat', Nat.mod_eq_of_lt (by omega),
    Nat.mod_eq_of_lt (by omega)] at numbers
  exact numbers

theorem Tabled.printed (tabled : Tabled effects client) {note : StdString × Bool}
    (noteMem : note ∈ notices effects) : ∃ jobid : UInt32, note.1 = hexString jobid.toNat := by
  have idMem : note.1 ∈ (notices effects).map Prod.fst := List.mem_map_of_mem noteMem
  rw [tabled.ids] at idMem
  rcases List.mem_map.mp idMem with ⟨position, _, idEq⟩
  exact ⟨_, idEq.symm⟩

theorem mem_sinceClean {notes : List (StdString × Bool)} {note : StdString × Bool}
    (noteMem : note ∈ sinceClean notes) : note ∈ notes := by
  induction notes using List.reverseRecOn with
  | nil => exact noteMem
  | append_singleton notes last ih =>
      rw [sinceClean_append] at noteMem
      rw [List.mem_append]
      rcases List.mem_append.mp noteMem with old | new
      · split at old
        · cases old
        · exact Or.inl (ih old)
      · exact Or.inr new

/-- An id that was announced before the earlier jobs were dropped is no key. -/
theorem Tabled.dropped (tabled : Tabled effects client)
    (few : (notices effects).length < 2 ^ 32) {earlier later : List (StdString × Bool)}
    {clean note : StdString × Bool} (notesEq : notices effects = earlier ++ clean :: later)
    (drops : clean.2 = true) (noteMem : note ∈ earlier) :
    client.jobs (parseHex 0 note.1).toUInt64 = none := by
  by_contra present
  rcases (tabled.keys _).mp present with ⟨kept, keptMem, same⟩
  have keptBehind : kept ∈ clean :: later := by
    rw [notesEq] at keptMem
    exact mem_behind_clean drops keptMem
  have inNotes : note ∈ notices effects := by
    rw [notesEq]
    exact List.mem_append_left _ noteMem
  rcases tabled.printed inNotes with ⟨jobid, noteEq⟩
  rcases tabled.printed (mem_sinceClean keptMem) with ⟨keptId, keptEq⟩
  rw [noteEq, keptEq, parseHex_hexString, parseHex_hexString] at same
  have sameId : keptId = jobid := by
    apply UInt32.toNat_inj.mp
    rw [← UInt32.toNat_toUInt64, same, UInt32.toNat_toUInt64]
  have distinct := tabled.distinct few
  rw [notesEq, List.map_append] at distinct
  apply List.disjoint_of_nodup_append distinct (List.mem_map_of_mem noteMem)
  rw [noteEq, ← sameId, ← keptEq]
  exact List.mem_map_of_mem keptBehind

theorem onMessage_submitting {msg : JSON} {username text : StdString}
    (submitting : Submitting msg username text) :
    client.onMessage env setting msg = onMiningSubmit setting env msg client := by
  rw [onMessage, submitting.methodEq]
  exact if_pos rfl

theorem onMessage_of_unauthorized {msg : JSON} {username text : StdString}
    (submitting : Submitting msg username text) (unauthorized : username ∉ client.workers) :
    client.onMessage env setting msg =
      some (client.respond [] (errorResponse msg 24 "Unauthorized worker")) := by
  rcases submitting.read with ⟨params, paramsEq, usernameEq, _⟩
  rw [onMessage_submitting submitting]
  simp only [onMiningSubmit, paramsEq, usernameEq, unauthorized, not_false_iff, if_true]

/-- A submission without a job is answered without a look at any job. -/
theorem onMessage_of_unknown {msg : JSON} {username text : StdString}
    (submitting : Submitting msg username text)
    (unknown : client.jobs (parseHex env.uninitialized text).toUInt64 = none) :
    ∃ outcome, client.onMessage env setting msg = some outcome ∧
      outcome.client.heap = client.heap ∧
      (username ∈ client.workers →
        .sendMessage (errorResponse msg 21 "Job not found") ∈ outcome.effects) := by
  by_cases authorized : username ∈ client.workers
  · rcases submitting.read with ⟨params, paramsEq, usernameEq, textEq⟩
    refine ⟨client.logBad.respond
      [.push (client.shareRecord env username false "Job not found" 1)]
      (errorResponse msg 21 "Job not found"), ?_, rfl, fun _ => by simp [respond]⟩
    rw [onMessage_submitting submitting]
    simp only [onMiningSubmit, paramsEq, usernameEq, textEq, unknown, authorized, not_true,
      if_false]
  · exact ⟨_, onMessage_of_unauthorized submitting authorized, rfl,
      fun known => absurd known authorized⟩

theorem mem_of_mem_live {message : JSON} (messageMem : message ∈ live effects) :
    .sendMessage message ∈ effects := by
  induction effects using List.reverseRecOn with
  | nil => cases messageMem
  | append_singleton effects effect ih =>
      rw [live, List.foldl_append, List.foldl_cons, List.foldl_nil] at messageMem
      rw [List.mem_append, List.mem_singleton]
      cases effect with
      | sendMessage sent =>
          simp only [noteJob] at messageMem
          split at messageMem
          · rw [List.mem_singleton] at messageMem
            exact Or.inr (by rw [messageMem])
          · rcases List.mem_append.mp messageMem with old | new
            · exact Or.inl (ih old)
            · rw [List.mem_singleton] at new
              exact Or.inr (by rw [new])
          · exact Or.inl (ih messageMem)
      | _ => exact Or.inl (ih messageMem)

/-- The job under a key was printed in the message that announced it. -/
theorem printed_of_run (run : ClientRun setting connection trace last) {key : UInt64} {addr : ℕ}
    (pointer : last.jobs key = some addr) :
    ∃ (jobid : UInt32) (job : Job) (branch : List BinaryData) (clean : Bool),
      .sendMessage (notifyMessage jobid job branch clean) ∈ log trace ∧ jobid.toUInt64 = key ∧
      last.heap[addr]? = some job ∧ job.branch = some branch := by
  rcases handedOut_of_run run key addr pointer with ⟨handout, covers⟩
  rcases covers.later with ⟨later, laterAt, shares, _, rfl⟩
  have sent : handout.message ∈ live (log trace) :=
    List.mem_reverse.mp (List.mem_of_find?_eq_some covers.message)
  exact ⟨handout.jobid, { handout.job with shares }, handout.branch, handout.clean,
    mem_of_mem_live sent, covers.jobid.symm, laterAt, covers.branch⟩

/--
After a run with fewer than `2 ^ 32` announcements the job table is what was announced since the
last clean notification, and jobs from before it are not found.
-/
theorem jobTable_matches (run : ClientRun setting connection trace last)
    (few : (notices (log trace)).length < 2 ^ 32) :
    TableMatches (log trace) last ∧ Forgets setting (log trace) last := by
  have tabled := tabled_of_run run
  constructor
  · exact ⟨tabled.keys, tabled.distinct few, fun key addr => printed_of_run run⟩
  · intro earlier clean later note notesEq drops noteMem env msg username text submitting same
    apply onMessage_of_unknown submitting
    have inNotes : note ∈ notices (log trace) := by
      rw [notesEq]
      exact List.mem_append_left _ noteMem
    rcases tabled.printed inNotes with ⟨jobid, noteEq⟩
    rw [same, noteEq, parseHex_hexString, ← parseHex_hexString 0 jobid, ← noteEq]
    exact tabled.dropped few notesEq drops noteMem

/-- A worker with two jobs, the second of which drops the first. -/
def Sample.cleaned : List Event :=
  opening ++ [⟨.sendJob true, easyEnv 2⟩]

theorem jobTable_matches_sample :
    ∃ (trace : List ClientEntry) (last : Client),
      ClientRun (Sample.setting (Sample.hash 2)) Sample.connection trace last ∧
      notices (log trace) = [(ascii "0", false), (ascii "1", true)] ∧
      TableMatches (log trace) last ∧
      Forgets (Sample.setting (Sample.hash 2)) (log trace) last := by
  have found : ∃ result ∈ replay (Client.step (Sample.setting (Sample.hash 2)))
      (Client.new Sample.config Sample.connection) Sample.cleaned,
      notices (log result.1) = [(ascii "0", false), (ascii "1", true)] := by
    decide +kernel
  rcases found with ⟨⟨trace, last⟩, replayed, noted⟩
  have run := Run.ofReplay replayed
  have few : (notices (log trace)).length < 2 ^ 32 := by
    rw [noted]
    decide
  exact ⟨trace, last, run, noted, jobTable_matches run few⟩

/-- A worker that is not authorized is not told that its old job is not found. -/
theorem exists_unauthorized_answer :
    ∃ (trace : List ClientEntry) (last : Client) (outcome : Outcome),
      ClientRun (Sample.setting (Sample.hash 2)) Sample.connection trace last ∧
      notices (log trace) = [(ascii "0", false), (ascii "1", true)] ∧
      last.onMessage (Sample.easyEnv 2) (Sample.setting (Sample.hash 2))
        (Sample.submission "0") = some outcome ∧
      .sendMessage (errorResponse (Sample.submission "0") 21 "Job not found") ∉
        outcome.effects := by
  have found : ∃ result ∈ replay (Client.step (Sample.setting (Sample.hash 2)))
      (Client.new Sample.config Sample.connection)
      [⟨Sample.subscribe, Sample.easyEnv 2⟩, ⟨.sendJob true, Sample.easyEnv 2⟩],
      notices (log result.1) = [(ascii "0", false), (ascii "1", true)] ∧
        ascii "alice" ∉ result.2.workers := by
    decide +kernel
  rcases found with ⟨⟨trace, last⟩, replayed, noted, unknown⟩
  have submitting : Submitting (Sample.submission "0") (ascii "alice") (ascii "0") :=
    ⟨by decide, _, rfl, by decide, by decide⟩
  refine ⟨trace, last, _, .ofReplay replayed, noted,
    onMessage_of_unauthorized submitting unknown, ?_⟩
  intro notFound
  rw [respond, List.nil_append, List.mem_singleton, Effect.sendMessage.injEq] at notFound
  simp [errorResponse] at notFound

end Poolserver.Stratum
