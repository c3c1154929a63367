import Poolserver.Stratum.Invariants

/-!
# The difficulty a miner knows

A client is told its difficulty when it changes, at most once in a call and before the call
sends a job. The difficulty it starts with is not told.
-/

namespace Poolserver.Stratum

open Poolserver.Bitcoin RunTrace

/-! ## What a client is told -/

/-- The difficulty of a `mining.set_difficulty` message. -/
def announcedDiff (msg : JSON) : Option Int64 :=
  match msg.stringMember "method", msg.member (ascii "params") with
  | .ok method, .ok params =>
      if method = ascii "mining.set_difficulty" then
        match params.index 0 with
        | .ok (.integer diff) => some diff
        | _ => none
      else none
  | _, _ => none

namespace Effect

def toldDiff : Effect → Option Int64
  | sendMessage msg => announcedDiff msg
  | _ => none

def notice : Effect → Option (StdString × Bool)
  | sendMessage msg => announcement msg
  | _ => none

end Effect

/-- The difficulties that are told, in order. -/
def toldDiffs (effects : List Effect) : List Int64 :=
  effects.filterMap Effect.toldDiff

/-- The jobs that are announced, in order. -/
def notices (effects : List Effect) : List (StdString × Bool) :=
  effects.filterMap Effect.notice

@[simp]
theorem toldDiffs_append (left right : List Effect) :
    toldDiffs (left ++ right) = toldDiffs left ++ toldDiffs right :=
  List.filterMap_append

@[simp]
theorem notices_append (left right : List Effect) :
    notices (left ++ right) = notices left ++ notices right :=
  List.filterMap_append

namespace Client

variable {env : Env} {client middle next : Client} {effects emitted : List Effect}

/-- A job of that difficulty is registered under the id. -/
def Registered (client : Client) (text : StdString) (diff : UInt64) : Prop :=
  ∃ (jobid : UInt32) (addr : ℕ) (job : Job), text = hexString jobid.toNat ∧
    client.jobs jobid.toUInt64 = some addr ∧ client.heap[addr]? = some job ∧ job.diff = diff

/-- What neither changes or tells the difficulty nor announces a job. -/
structure Steady (client : Client) (effects : List Effect) (next : Client) : Prop where
  diff : next.diff = client.diff
  jobs : next.jobs = client.jobs
  later : client.Extends next
  told : toldDiffs effects = []
  noted : notices effects = []

theorem Steady.trans (first : Steady client emitted middle) (second : Steady middle effects next) :
    Steady client (emitted ++ effects) next where
  diff := second.diff.trans first.diff
  jobs := second.jobs.trans first.jobs
  later := first.later.trans second.later
  told := by rw [toldDiffs_append, first.told, second.told, List.append_nil]
  noted := by rw [notices_append, first.noted, second.noted, List.append_nil]

theorem Steady.ofPath (path : Path Steady client effects next) : Steady client effects next := by
  induction path with
  | refl => exact ⟨rfl, rfl, .refl client, rfl, rfl⟩
  | snoc _ moves ih => exact ih.trans moves

theorem Act.steady (act : Act env client effects next) : Steady client effects next := by
  have later : client.Extends next := extends_of_move act.toMove
  cases act with
  | turn turns =>
      cases turns with
      | count limiter total bad => exact ⟨rfl, rfl, later, rfl, rfl⟩
      | ban time => exact ⟨rfl, rfl, later, rfl, rfl⟩
  | reply replies =>
      refine ⟨rfl, rfl, later, ?_, ?_⟩
      · cases replies <;> rfl
      · cases replies <;> rfl
  | @perform effect plain =>
      cases effect with
      | sendMessage msg => exact plain.elim
      | _ => exact ⟨rfl, rfl, later, rfl, rfl⟩
  | refuse bad => exact ⟨rfl, rfl, later, rfl, rfl⟩
  | enlist username password found => exact ⟨rfl, rfl, later, rfl, rfl⟩
  | setMinDiff minDiff => exact ⟨rfl, rfl, later, rfl, rfl⟩
  | submitShare share jobAt => exact ⟨rfl, rfl, later, rfl, rfl⟩

theorem subscribe_steady (msg : JSON) (extranonce : UInt32) :
    Steady client [.sendMessage (subscribeResponse msg extranonce)]
      { client with subscribed := true, extranonce } :=
  ⟨rfl, rfl, Extends.refl client, rfl, rfl⟩

theorem SendsJob.registers (sends : SendsJob env client effects next) :
    next.diff = client.diff ∧ ∃ msg text clean, effects = [.sendMessage msg] ∧
      announcement msg = some (text, clean) ∧ announcedDiff msg = none ∧
      next.Registered text next.diff := by
  cases sends with
  | @intro clean job branch issued branchEq =>
      have same : ((if clean then client.cleanJobs else client).addJob job).diff = client.diff := by
        cases clean <;> rfl
      refine ⟨same, _, _, clean, rfl, announcement_notifyMessage _ job branch clean, rfl, ?_⟩
      refine ⟨client.jobid, client.heap.length, job, rfl, ?_, ?_, ?_⟩
      · cases clean <;> simp [addJob, cleanJobs]
      · cases clean <;> simp [addJob, cleanJobs]
      · rw [same, issued.diff]

/-! ## What a call tells -/

/-- A call whose acts are steady, with a change of the difficulty and a job among them. -/
abbrev Turns (env : Env) : Client → List Effect → Client → Prop :=
  Course env Steady

theorem Handles.turns {setting : Setting} {event : Event}
    (handles : Handles setting event client effects next) :
    Turns event.env client effects next := by
  cases handles with
  | submission actionEq methodEq does =>
      rcases does with path | ⟨addr, _, limited⟩
      · exact .ofPath (path.mono Act.steady)
      · exact limited.acts.mono Act.steady
  | @subscription msg sent _ actionEq methodEq sends =>
      have answers : Steady client [.sendMessage (subscribeResponse msg event.env.extranonce)]
          { client with subscribed := true, extranonce := event.env.extranonce } :=
        subscribe_steady msg event.env.extranonce
      have sendsJob : Turns event.env _ sent next := sends.acts.mono Act.steady
      exact .preceded (.single answers) sendsJob
  | other actionEq notSubmit notSubscribe authorizes =>
      exact authorizes.acts.mono Act.steady
  | sendJob actionEq sends => exact sends.acts.mono Act.steady

theorem ChangesDiff.tells (changes : ChangesDiff client effects next) :
    toldDiffs effects = [next.diff.toInt64] ∧ notices effects = [] ∧ next.diff ≠ client.diff := by
  cases changes with
  | intro diff differs bound => exact ⟨rfl, rfl, differs⟩

/-- A change of the difficulty is told, and nothing else is. -/
theorem tells_of_possibly (changes : Possibly ChangesDiff client effects next) :
    toldDiffs effects = (if next.diff = client.diff then [] else [next.diff.toInt64]) ∧
      notices effects = [] := by
  cases changes with
  | skip => exact ⟨by rw [if_pos rfl]; rfl, rfl⟩
  | take changes =>
      rcases changes.tells with ⟨told, noted, differs⟩
      exact ⟨by rw [if_neg differs, told], noted⟩

/-- A job that is announced in a call is registered with the difficulty after the call. -/
theorem Turns.notice (turns : Turns env client effects next) {sent rest : List Effect} {msg : JSON}
    {text : StdString} {clean : Bool} (split : effects = sent ++ .sendMessage msg :: rest)
    (notified : announcement msg = some (text, clean)) :
    toldDiffs sent = toldDiffs effects ∧ next.Registered text next.diff := by
  have noticeMem : (text, clean) ∈ notices effects := by
    rw [split, notices_append]
    exact List.mem_append_right _ (by simp [notices, Effect.notice, notified])
  cases turns with
  | @intro opened changed sender _ opening told jobs ending opens changes sends ends =>
      have before := Steady.ofPath opens
      have after := Steady.ofPath ends
      have tells := tells_of_possibly changes
      cases sends with
      | skip => simp [before.noted, tells.2, after.noted] at noticeMem
      | take sends =>
          rcases sends.registers with ⟨_, notify, jobText, jobClean, rfl, announces, silent,
            registered⟩
          have front : Effect.sendMessage msg ∉ opening ++ told := by
            intro early
            have noted : (text, clean) ∈ notices (opening ++ told) :=
              List.mem_filterMap.mpr ⟨_, early, notified⟩
            simp [before.noted, tells.2] at noted
          have back : Effect.sendMessage msg ∉ ending := by
            intro late
            have noted : (text, clean) ∈ notices ending :=
              List.mem_filterMap.mpr ⟨_, late, notified⟩
            simp [after.noted] at noted
          rw [List.append_assoc, List.singleton_append,
            List.append_cons_inj_of_notMem front back] at split
          rcases split with ⟨rfl, sameMsg, rfl⟩
          injection sameMsg with sameMsg
          subst sameMsg
          rw [notified, Option.some.injEq, Prod.mk.injEq] at announces
          rcases announces with ⟨rfl, rfl⟩
          have untold : toldDiffs [.sendMessage notify] = [] := by
            simp [toldDiffs, Effect.toldDiff, silent]
          refine ⟨?_, ?_⟩
          · rw [toldDiffs_append _ ending, toldDiffs_append _ [.sendMessage notify], untold,
              after.told, List.append_nil, List.append_nil]
          · rcases registered with ⟨jobid, addr, job, textEq, pointer, jobAt, diffEq⟩
            rcases after.later addr job jobAt with ⟨later, laterAt, shares, _, rfl⟩
            refine ⟨jobid, addr, _, textEq, ?_, laterAt, ?_⟩
            · rw [after.jobs, pointer]
            · rw [after.diff, ← diffEq]

/-- What a call tells: the difficulty after it, if it has changed. -/
theorem Turns.tells (turns : Turns env client effects next) :
    toldDiffs effects = if next.diff = client.diff then [] else [next.diff.toInt64] := by
  cases turns with
  | @intro opened changed sender _ opening told jobs ending opens changes sends ends =>
      have before := Steady.ofPath opens
      have after := Steady.ofPath ends
      have jobDiff : sender.diff = changed.diff ∧ toldDiffs jobs = [] := by
        cases sends with
        | skip => exact ⟨rfl, rfl⟩
        | take sends =>
            rcases sends.registers with ⟨same, notify, _, _, rfl, _, silent, _⟩
            exact ⟨same, by simp [toldDiffs, Effect.toldDiff, silent]⟩
      rw [toldDiffs_append, toldDiffs_append, toldDiffs_append, before.told, after.told,
        jobDiff.2, after.diff, jobDiff.1, ← before.diff, (tells_of_possibly changes).1]
      simp

/-! ## Submissions that send a job -/

/-- The difficulty that fits the client after a share, not below the minimum of its worker. -/
def fittedDiff (config : Config) (floating : FloatingPoint) (env : Env) (diff : UInt64)
    (client : Client) : UInt64 :=
  let curTime := env.limiterTime.toUInt64
  let limiter := (client.shareLimiter.count diff curTime).markRetarget curTime
  let newDiff := (limiter.dropOld config curTime).newDiff config floating curTime
  if newDiff < client.minDiff then client.minDiff else newDiff

theorem setDifficulty_diff {diff : UInt64} {resendJob : Bool}
    (moved : client.setDifficulty env diff resendJob = some (next, effects)) :
    next.diff = if diff < client.minDiff then client.minDiff else diff := by
  cases setDifficulty_ends moved with
  | unchanged same => exact same.symm
  | told differs quiet => rfl
  | resent differs resend sends => exact (sendJob_sends sends).registers.1

/-- The share limiter sends no job unless it has fitted the difficulty. -/
theorem limitShare_diff {config : Config} {floating : FloatingPoint} {passed : Bool}
    {diff : UInt64}
    (moved : client.limitShare config floating env diff = some (passed, next, effects)) :
    notices effects = [] ∨ next.diff = client.fittedDiff config floating env diff := by
  cases limitShare_ends moved with
  | early early => exact Or.inl rfl
  | banned late bad => exact Or.inl rfl
  | retargets late good done =>
      cases retarget_ends done with
      | steady small => exact Or.inl rfl
      | refused large slows sends =>
          have fitted := setDifficulty_diff slows
          exact Or.inr ((sendJob_sends sends).registers.1.trans fitted)
      | adjusted slows =>
          have fitted := setDifficulty_diff slows
          exact Or.inr fitted

end Client

/-- A submission on a job after which the share limiter fits another difficulty. -/
def Refits (setting : Setting) (entry : ClientEntry) : Prop :=
  ∃ msg addr job, Submits entry msg ∧ Client.Names entry.event.env msg entry.before addr ∧
    entry.before.heap[addr]? = some job ∧
    entry.before.fittedDiff setting.config setting.floating entry.event.env job.diff ≠
      entry.before.diff

/-- A call that sends a job changes the difficulty only as a submission. -/
theorem refits_iff {setting : Setting} {entry : ClientEntry}
    (stepped : entry.before.step setting entry.event = some (entry.after, entry.output))
    (notified : notices entry.output.effects ≠ []) :
    entry.after.diff ≠ entry.before.diff ↔ Refits setting entry := by
  have handles := Client.step_handles stepped
  generalize effectsEq : entry.output.effects = effects at handles notified
  have notSubmits : (∀ msg, ¬Submits entry msg) → ¬Refits setting entry := by
    rintro none ⟨msg, addr, job, submits, _⟩
    exact none msg submits
  cases handles with
  | @submission msg _ _ actionEq methodEq does =>
      have submits : ∀ {other}, Submits entry other → other = msg := by
        rintro other ⟨otherEq, _⟩
        rw [actionEq] at otherEq
        injection otherEq with same
        exact same.symm
      rcases does with path | ⟨addr, names, job, passed, limited, sent, rest, jobAt, limiter, path,
        rfl⟩
      · have steady := Client.Steady.ofPath (path.mono Client.Act.steady)
        exact absurd steady.noted notified
      · have steady := Client.Steady.ofPath (path.mono Client.Act.steady)
        rw [notices_append, steady.noted, List.append_nil] at notified
        have fitted := (Client.limitShare_diff limiter).resolve_left notified
        rw [steady.diff, fitted]
        constructor
        · intro differs
          exact ⟨msg, addr, job, ⟨actionEq, methodEq⟩, names, jobAt, differs⟩
        · rintro ⟨other, otherAddr, otherJob, submitsOther, otherNames, otherAt, differs⟩
          have sameMsg := submits submitsOther
          subst sameMsg
          rcases names with ⟨params, jobText, paramsEq, jobTextEq, found⟩
          rcases otherNames with ⟨otherParams, otherText, otherParamsEq, otherTextEq, otherFound⟩
          rw [paramsEq, Except.ok.injEq] at otherParamsEq
          subst otherParamsEq
          rw [jobTextEq, Except.ok.injEq] at otherTextEq
          subst otherTextEq
          rw [found, Option.some.injEq] at otherFound
          subst otherFound
          rw [jobAt, Option.some.injEq] at otherAt
          rwa [otherAt]
  | @subscription msg sent _ actionEq methodEq sends =>
      refine iff_of_false (not_not.mpr sends.registers.1) (notSubmits ?_)
      rintro other ⟨otherEq, otherMethod⟩
      rw [actionEq] at otherEq
      injection otherEq with same
      rw [← same, methodEq] at otherMethod
      exact absurd otherMethod (by decide)
  | @other msg _ _ actionEq notSubmit notSubscribe authorizes =>
      rcases authorizes with ⟨opened, changed, opening, told, ending, opens, changes, ends, rfl⟩
      have before := Client.Steady.ofPath (opens.mono Client.Act.steady)
      have after := Client.Steady.ofPath (ends.mono Client.Act.steady)
      refine absurd ?_ notified
      rw [notices_append, notices_append, before.noted, after.noted,
        (Client.tells_of_possibly changes).2]
      rfl
  | @sendJob clean sent _ actionEq sends =>
      refine iff_of_false (not_not.mpr sends.registers.1) (notSubmits ?_)
      rintro msg ⟨messageEq, _⟩
      rw [actionEq] at messageEq
      cases messageEq

/-! ## The difficulty of every job -/

/-- The difficulty of the last `mining.set_difficulty` message. -/
def lastDiff (effects : List Effect) : Option Int64 :=
  (toldDiffs effects).getLast?

/--
When a job is announced, the last difficulty that was told before is that of the job
registered under the announced id.
-/
def DifficultyTold (trace : List ClientEntry) : Prop :=
  ∀ earlier entry later, trace = earlier ++ entry :: later →
    ∀ sent msg rest text clean, entry.output.effects = sent ++ .sendMessage msg :: rest →
      announcement msg = some (text, clean) →
      ∃ diff told, entry.after.Registered text diff ∧ lastDiff (log earlier ++ sent) = some told ∧
        told.toInt = diff.toNat

/-- No job is sent while the client has only ever had the difficulty it started with. -/
def DiffChanged (setting : Setting) (trace : List ClientEntry) : Prop :=
  ∀ earlier entry later, trace = earlier ++ entry :: later → notices entry.output.effects ≠ [] →
    (∃ past ∈ earlier ++ [entry],
      past.before.diff ≠ setting.config.retargetStartingDiff.toUInt64) ∨ Refits setting entry

variable {setting : Setting} {connection : Connection} {trace : List ClientEntry} {last : Client}

theorem toldDiffs_of_step {entry : ClientEntry}
    (stepped : entry.before.step setting entry.event = some (entry.after, entry.output)) :
    toldDiffs entry.output.effects =
      if entry.after.diff = entry.before.diff then [] else [entry.after.diff.toInt64] :=
  (Client.step_handles stepped).turns.tells

/-- The last difficulty that was told is the current one, and there is one once it changed. -/
theorem lastDiff_of_run (run : ClientRun setting connection trace last) :
    (∀ told ∈ lastDiff (log trace), told = last.diff.toInt64) ∧
    (lastDiff (log trace) = none ↔
      (∀ past ∈ trace, past.before.diff = setting.config.retargetStartingDiff.toUInt64) ∧
        last.diff = setting.config.retargetStartingDiff.toUInt64) := by
  refine run.invariant (fun trace client =>
    (∀ told ∈ lastDiff (log trace), told = client.diff.toInt64) ∧
    (lastDiff (log trace) = none ↔
      (∀ past ∈ trace, past.before.diff = setting.config.retargetStartingDiff.toUInt64) ∧
        client.diff = setting.config.retargetStartingDiff.toUInt64))
    (fun _ => True) (fun _ _ => trivial) ⟨by simp [lastDiff, toldDiffs, log], ?_⟩ ?_
  · exact iff_of_true rfl ⟨by simp, rfl⟩
  intro trace entry held _ stepped
  rcases held with ⟨current, unchanged⟩
  have tells := toldDiffs_of_step stepped
  have logEq : toldDiffs (log (trace ++ [entry])) =
      toldDiffs (log trace) ++ toldDiffs entry.output.effects := by
    simp [log]
  have members : (∀ past ∈ trace ++ [entry],
      past.before.diff = setting.config.retargetStartingDiff.toUInt64) ↔
      (∀ past ∈ trace, past.before.diff = setting.config.retargetStartingDiff.toUInt64) ∧
        entry.before.diff = setting.config.retargetStartingDiff.toUInt64 := by
    simp [or_imp, forall_and]
  rw [lastDiff, logEq, members, tells]
  split
  · rename_i same
    rw [List.append_nil, same]
    refine ⟨current, ?_⟩
    rw [and_assoc, and_self]
    exact unchanged
  · rename_i differs
    rw [List.getLast?_concat]
    constructor
    · intro told toldEq
      exact (Option.some.inj toldEq).symm
    · apply iff_of_false (by simp)
      rintro ⟨⟨_, before⟩, after⟩
      exact differs (after.trans before.symm)

theorem toInt_toInt64 {diff : UInt64} (small : diff.toNat < 2 ^ 32) :
    diff.toInt64.toInt = diff.toNat := by
  have bits : diff.toInt64.toBitVec = diff.toBitVec := rfl
  rw [Int64.toInt, bits, BitVec.toInt_eq_toNat_of_lt]
  · rfl
  · have : diff.toBitVec.toNat = diff.toNat := rfl
    omega

theorem exists_notice {effects : List Effect} (notified : notices effects ≠ []) :
    ∃ sent msg rest text clean, effects = sent ++ .sendMessage msg :: rest ∧
      announcement msg = some (text, clean) := by
  rcases List.exists_mem_of_ne_nil _ notified with ⟨⟨text, clean⟩, noticeMem⟩
  rcases List.mem_filterMap.mp noticeMem with ⟨effect, effectMem, noticeEq⟩
  rcases List.append_of_mem effectMem with ⟨sent, rest, split⟩
  cases effect with
  | sendMessage msg => exact ⟨sent, msg, rest, text, clean, split, noticeEq⟩
  | _ => cases noticeEq

/-- When a call announces a job, all that it tells has been told. -/
theorem lastDiff_of_notice {earlier : List ClientEntry} {entry : ClientEntry}
    (stepped : entry.before.step setting entry.event = some (entry.after, entry.output))
    {sent rest : List Effect} {msg : JSON} {text : StdString} {clean : Bool}
    (split : entry.output.effects = sent ++ .sendMessage msg :: rest)
    (notified : announcement msg = some (text, clean)) :
    lastDiff (log earlier ++ sent) = lastDiff (log (earlier ++ [entry])) ∧
      entry.after.Registered text entry.after.diff := by
  rcases (Client.step_handles stepped).turns.notice split notified with ⟨told, registered⟩
  refine ⟨?_, registered⟩
  rw [lastDiff, lastDiff, toldDiffs_append, told, ← toldDiffs_append]
  simp [log]

/--
Whenever a job is announced the miner has been told its difficulty, exactly if every job is
announced after the difficulty has changed. Otherwise he has been told none.
-/
theorem difficultyTold_iff (run : ClientRun setting connection trace last) :
    DifficultyTold trace ↔ DiffChanged setting trace := by
  have known : ∀ {earlier later : List ClientEntry} {entry : ClientEntry},
      trace = earlier ++ entry :: later → notices entry.output.effects ≠ [] →
      (lastDiff (log (earlier ++ [entry])) ≠ none ↔
        (∃ past ∈ earlier ++ [entry],
          past.before.diff ≠ setting.config.retargetStartingDiff.toUInt64) ∨
        Refits setting entry) := by
    intro earlier later entry traceEq notified
    subst traceEq
    rcases run.split with ⟨runBefore, stepped⟩
    have runAfter : ClientRun setting connection (earlier ++ [entry]) entry.after :=
      runBefore.snoc stepped
    rw [← refits_iff stepped notified, ne_eq, (lastDiff_of_run runAfter).2]
    constructor
    · intro changed
      by_contra neither
      push Not at neither
      refine changed ⟨neither.1, ?_⟩
      rw [neither.2]
      exact neither.1 entry (by simp)
    · rintro changed ⟨before, after⟩
      rcases changed with ⟨past, pastMem, differs⟩ | differs
      · exact differs (before past pastMem)
      · exact differs (after.trans (before entry (by simp)).symm)
  constructor
  · intro told earlier entry later traceEq notified
    refine (known traceEq notified).mp ?_
    rcases exists_notice notified with ⟨sent, msg, rest, text, clean, split, announces⟩
    rcases told earlier entry later traceEq sent msg rest text clean split announces with
      ⟨diff, value, _, lastEq, _⟩
    subst traceEq
    rcases lastDiff_of_notice run.split.2 split announces with ⟨same, _⟩
    rw [← same, lastEq]
    simp
  · intro changed earlier entry later traceEq sent msg rest text clean split announces
    have notified : notices entry.output.effects ≠ [] := by
      rw [split, notices_append]
      simp [notices, Effect.notice, announces]
    have nonempty := (known traceEq notified).mpr (changed earlier entry later traceEq notified)
    subst traceEq
    rcases run.split with ⟨runBefore, stepped⟩
    have runAfter : ClientRun setting connection (earlier ++ [entry]) entry.after :=
      runBefore.snoc stepped
    rcases lastDiff_of_notice stepped split announces with ⟨same, registered⟩
    rcases Option.ne_none_iff_exists'.mp nonempty with ⟨told, toldEq⟩
    have current := (lastDiff_of_run runAfter).1 told toldEq
    refine ⟨entry.after.diff, told, registered, same.trans toldEq, ?_⟩
    rw [current]
    exact toInt_toInt64 (diffsSmall_of_run runAfter).diff

/-! ## A miner who is told his difficulty, and one who is not -/

namespace Sample

/-- An environment whose workers have a minimum above the starting difficulty. -/
def slowEnv : Env :=
  { easyEnv 2 with row := fun _ _ => some (.ok 32) }

/-- A worker is authorized before the client subscribes. -/
def authorizedFirst : List Event :=
  [⟨authorize, slowEnv⟩, ⟨subscribe, slowEnv⟩]

end Sample

theorem difficultyTold_sample :
    ∃ (trace : List ClientEntry) (client : Client),
      ClientRun (Sample.setting (Sample.hash 2)) Sample.connection trace client ∧
      trace.map Entry.event = Sample.authorizedFirst ∧ DifficultyTold trace := by
  have found : ∃ result ∈ replay (Client.step (Sample.setting (Sample.hash 2)))
      (Client.new Sample.config Sample.connection) Sample.authorizedFirst,
      ∀ entry ∈ result.1, notices entry.output.effects = [] ∨ entry.before.diff ≠ 16 := by
    decide +kernel
  rcases found with ⟨⟨trace, client⟩, replayed, changed⟩
  have run : ClientRun (Sample.setting (Sample.hash 2)) Sample.connection trace client :=
    .ofReplay replayed
  refine ⟨trace, client, run, map_event_replay replayed, (difficultyTold_iff run).mpr ?_⟩
  intro earlier entry later traceEq notified
  have differs := (changed entry (by simp [traceEq])).resolve_left notified
  exact Or.inl ⟨entry, by simp, differs⟩

/-- A client that subscribes is sent a job, and has not been told a difficulty. -/
theorem exists_untold_difficulty :
    ∃ (trace : List ClientEntry) (client : Client),
      ClientRun (Sample.setting (Sample.hash 2)) Sample.connection trace client ∧
      trace.map Entry.event = [⟨Sample.subscribe, Sample.easyEnv 2⟩] ∧ ¬DifficultyTold trace := by
  have found : ∃ result ∈ replay (Client.step (Sample.setting (Sample.hash 2)))
      (Client.new Sample.config Sample.connection) [⟨Sample.subscribe, Sample.easyEnv 2⟩],
      ∃ entry ∈ result.1, notices entry.output.effects ≠ [] ∧
        toldDiffs (log result.1) = [] := by
    decide +kernel
  rcases found with ⟨⟨trace, client⟩, replayed, entry, entryMem, notified, untold⟩
  have run : ClientRun (Sample.setting (Sample.hash 2)) Sample.connection trace client :=
    .ofReplay replayed
  refine ⟨trace, client, run, map_event_replay replayed, ?_⟩
  intro told
  rcases List.append_of_mem entryMem with ⟨earlier, later, traceEq⟩
  rcases exists_notice notified with ⟨sent, msg, rest, text, clean, split, announces⟩
  rcases told earlier entry later traceEq sent msg rest text clean split announces with
    ⟨diff, value, _, lastEq, _⟩
  subst traceEq
  rw [(lastDiff_of_notice run.split.2 split announces).1] at lastEq
  have nothing : toldDiffs (log (earlier ++ [entry])) = [] := by
    rw [← List.singleton_append, ← List.append_assoc, log_append, toldDiffs_append] at untold
    exact (List.append_eq_nil_iff.mp untold).1
  rw [lastDiff, nothing] at lastEq
  cases lastEq

end Poolserver.Stratum
