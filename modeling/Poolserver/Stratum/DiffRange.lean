import Mathlib.Order.Bounds.Basic
import Poolserver.Stratum.JobCalls
import Poolserver.Stratum.LimiterCalls

/-!
# The range of the difficulty

The difficulty of a client stays between its floor and the largest of the configured difficulties
and the minimum difficulties that were loaded for its workers, so that nothing divides by zero.
The floor is the minimum that was loaded last. It respects every worker as long as no
authorization loads less than was loaded for another one.
-/

namespace Poolserver.Stratum

open Poolserver.Bitcoin RunTrace

/-- The user and the minimum difficulty that a call loads. -/
def entryLoad? (entry : ClientEntry) : Option (StdString × UInt32) :=
  match entry.event.action with
  | .message msg => Client.loaded? entry.event.env msg
  | .sendJob _ => none

/-- The minimum difficulties that were loaded in a run, with their users. -/
def loads (trace : List ClientEntry) : List (StdString × UInt32) :=
  trace.filterMap entryLoad?

@[simp]
theorem loads_append (earlier later : List ClientEntry) :
    loads (earlier ++ later) = loads earlier ++ loads later :=
  List.filterMap_append

/-- The largest of the configured and the loaded difficulties. -/
def highestDiff (config : Config) (trace : List ClientEntry) : ℕ :=
  ((loads trace).map fun load => load.2.toNat).foldl max
    (max config.retargetStartingDiff.toNat
      (max config.retargetMaxDiff.toNat config.retargetMinDiff.toNat))

variable {setting : Setting} {connection : Connection} {trace : List ClientEntry} {last : Client}

theorem highestDiff_snoc_of_none {config : Config} {entry : ClientEntry}
    (unloaded : entryLoad? entry = none) :
    highestDiff config (trace ++ [entry]) = highestDiff config trace := by
  simp [highestDiff, loads, unloaded]

theorem highestDiff_snoc {config : Config} {entry : ClientEntry} {username : StdString}
    {mindiff : UInt32} (loaded : entryLoad? entry = some (username, mindiff)) :
    highestDiff config (trace ++ [entry]) = max (highestDiff config trace) mindiff.toNat := by
  simp [highestDiff, loads, loaded]

theorem le_highestDiff (config : Config) (trace : List ClientEntry) :
    config.retargetStartingDiff.toNat ≤ highestDiff config trace ∧
      config.retargetMaxDiff.toNat ≤ highestDiff config trace ∧
      config.retargetMinDiff.toNat ≤ highestDiff config trace := by
  induction trace using List.reverseRecOn with
  | nil =>
      simp only [highestDiff, loads, List.filterMap_nil, List.map_nil, List.foldl_nil]
      omega
  | append_singleton trace entry ih =>
      cases loadedEq : entryLoad? entry with
      | none => rwa [highestDiff_snoc_of_none loadedEq]
      | some load =>
          rw [highestDiff_snoc loadedEq]
          omega

/-! ## What a call does to the floor -/

/-- A call that loads nothing keeps the floor, and keeps or fits the difficulty. -/
inductive Floors (setting : Setting) (entry : ClientEntry) : Prop where
  | loads {username : StdString} {mindiff : UInt32}
      (loaded : entryLoad? entry = some (username, mindiff))
      (workers : entry.after.workers = insert username entry.before.workers)
      (minDiff : entry.after.minDiff.toNat = mindiff.toNat)
      (diff : entry.after.diff.toNat = max entry.before.diff.toNat mindiff.toNat)
  | keeps (unloaded : entryLoad? entry = none)
      (minDiff : entry.after.minDiff = entry.before.minDiff)
      (fits : entry.before.Fits setting.config setting.floating entry.after)

theorem floors_of_step {entry : ClientEntry}
    (stepped : entry.before.step setting entry.event = some (entry.after, entry.output)) :
    Floors setting entry := by
  have tallies := Client.step_tallies stepped
  generalize effectsEq : entry.output.effects = effects at tallies
  generalize afterEq : entry.after = after at tallies
  cases tallies with
  | @submits msg _ _ _ _ limited _ _ _ actionEq reaches jobAt limits logs =>
      have unloaded : entryLoad? entry = none := by
        simp only [entryLoad?, actionEq]
        exact Client.loaded?_of_method reaches.methodEq (by decide)
      refine .keeps unloaded (afterEq ▸ logs.minDiff.trans limits.minDiff) ?_
      rw [Client.Fits, afterEq, logs.diff]
      exact limits.fits
  | @loads msg username mindiff _ _ actionEq loaded loads =>
      have loadedEq : entryLoad? entry = some (username, mindiff) := by
        simp only [entryLoad?, actionEq]
        exact loaded
      refine .loads loadedEq (afterEq ▸ loads.workers) ?_ (afterEq ▸ loads.diff)
      rw [afterEq, loads.minDiff, UInt32.toNat_toUInt64]
  | rests unasked unloaded logs =>
      have unloadedEq : entryLoad? entry = none := by
        unfold entryLoad?
        split
        · rename_i msg actionEq
          exact unloaded msg actionEq
        · rfl
      exact .keeps unloadedEq (afterEq ▸ logs.minDiff) (Or.inl (afterEq ▸ logs.diff))

/-! ## The range -/

/-- The difficulty a client has is positive, and within its floor and the largest difficulty. -/
structure InRange (config : Config) (trace : List ClientEntry) (client : Client) : Prop where
  positive : 1 ≤ client.diff.toNat
  floor : client.minDiff.toNat ≤ client.diff.toNat
  highest : client.diff.toNat ≤ highestDiff config trace

/-- What the settings of the share limiter are supposed to be. -/
structure Config.Ordered (config : Config) : Prop where
  positive : 1 ≤ config.retargetMinDiff.toNat
  starts : config.retargetMinDiff.toNat ≤ config.retargetStartingDiff.toNat
  limits : config.retargetMinDiff.toNat ≤ config.retargetMaxDiff.toNat

theorem newDiff_range {config : Config} (ordered : config.Ordered) (floating : FloatingPoint)
    (limiter : ShareLimiter) (curTime : UInt64) :
    config.retargetMinDiff.toNat ≤ (limiter.newDiff config floating curTime).toNat ∧
      (limiter.newDiff config floating curTime).toNat ≤ config.retargetMaxDiff.toNat := by
  have limits := ordered.limits
  unfold ShareLimiter.newDiff
  dsimp only
  generalize floating.newDiff _ _ = fitted
  simp only [UInt64.lt_iff_toNat_lt]
  split
  · split
    · simp only [UInt32.toNat_toUInt64] at *
      omega
    · simp only [UInt32.toNat_toUInt64] at *
      omega
  · split
    · simp only [UInt32.toNat_toUInt64] at *
      omega
    · simp only [UInt32.toNat_toUInt64] at *
      omega

theorem inRange_of_step {entry : ClientEntry} (ordered : setting.config.Ordered)
    (held : InRange setting.config trace entry.before ∧
      entry.before.minDiff.toNat ≤ highestDiff setting.config trace)
    (stepped : entry.before.step setting entry.event = some (entry.after, entry.output)) :
    InRange setting.config (trace ++ [entry]) entry.after ∧
      entry.after.minDiff.toNat ≤ highestDiff setting.config (trace ++ [entry]) := by
  rcases held with ⟨⟨positive, floor, highest⟩, floorHighest⟩
  cases floors_of_step stepped with
  | loads loaded workers minDiff diff =>
      have highestEq := @highestDiff_snoc trace setting.config entry _ _ loaded
      exact ⟨⟨by omega, by omega, by omega⟩, by omega⟩
  | keeps unloaded minDiff fits =>
      have highestEq := @highestDiff_snoc_of_none trace setting.config entry unloaded
      rw [← minDiff] at floor floorHighest
      refine ⟨?_, by omega⟩
      rcases fits with kept | ⟨limiter, curTime, fitted⟩
      · rw [← kept] at positive floor highest
        exact ⟨positive, floor, by omega⟩
      · have range := newDiff_range ordered setting.floating limiter curTime
        have settings := le_highestDiff setting.config trace
        have lowest := ordered.positive
        rw [← minDiff] at fitted
        exact ⟨by omega, by omega, by omega⟩

theorem inRange_of_run (ordered : setting.config.Ordered)
    (run : ClientRun setting connection trace last) : InRange setting.config trace last := by
  have both : InRange setting.config trace last ∧
      last.minDiff.toNat ≤ highestDiff setting.config trace := by
    refine run.invariant (fun trace client => InRange setting.config trace client ∧
      client.minDiff.toNat ≤ highestDiff setting.config trace) (fun _ => True) (fun _ _ => trivial)
        ?_ (fun _ _ held _ stepped => inRange_of_step ordered held stepped)
    have settings := le_highestDiff setting.config []
    have starting : (Client.new setting.config connection).diff.toNat =
        setting.config.retargetStartingDiff.toNat := UInt32.toNat_toUInt64 _
    have lowest : (Client.new setting.config connection).minDiff.toNat =
        setting.config.retargetMinDiff.toNat := UInt32.toNat_toUInt64 _
    have positive := ordered.positive
    have starts := ordered.starts
    exact ⟨⟨by omega, by omega, by omega⟩, by omega⟩
  exact both.1

/-! ## Divisions -/

namespace Client

variable {env : Env} {client : Client}

/-- The difficulties by which a call divides, for the target of a job or for the variance. -/
inductive DividesBy (setting : Setting) (env : Env) (client : Client) : Action → UInt64 → Prop where
  | sendJob (clean : Bool) : DividesBy setting env client (.sendJob clean) client.diff
  | subscribes {msg : JSON}
      (methodEq : msg.stringMember "method" = .ok (ascii "mining.subscribe")) :
      DividesBy setting env client (.message msg) client.diff
  | variance {msg params : JSON} {username : StdString} {addr : ℕ} {job : Job}
      (reaches : ReachesLimiter env msg client params username addr)
      (jobAt : client.heap[addr]? = some job)
      (late : ¬(client.shareLimiter.count job.diff env.limiterTime.toUInt64).Early setting.config
        env.limiterTime.toUInt64)
      (good : ¬BansMiner setting env client) :
      DividesBy setting env client (.message msg) client.diff
  | retargets {msg params : JSON} {username : StdString} {addr : ℕ} {job : Job}
      (reaches : ReachesLimiter env msg client params username addr)
      (jobAt : client.heap[addr]? = some job)
      (sends : client.LimiterSends setting env job.diff) :
      DividesBy setting env client (.message msg)
        (client.fittedDiff setting.config setting.floating env job.diff)

theorem sendJob_of_zero (zero : client.diff = 0) (clean : Bool) :
    client.sendJob env clean = none := by
  have divides : diffToTarget client.diff.toNat = none := by
    rw [zero]
    rfl
  cases workEq : env.work with
  | none => cases clean <;> simp [sendJob, getJob, workEq]
  | some work => cases clean <;> simp [sendJob, getJob, workEq, cleanJobs, divides]

theorem retarget_of_zero {config : Config} {floating : FloatingPoint}
    (resends : client.Resends config floating env)
    (zero : client.raised
      (client.shareLimiter.newDiff config floating env.limiterTime.toUInt64) = 0) :
    client.retarget config floating env = none := by
  have nonzero := resends.nonzero
  unfold retarget
  dsimp only
  rw [if_neg nonzero, if_neg resends.moves]
  unfold raised at zero
  unfold setDifficulty
  dsimp only
  rw [zero, if_neg (Ne.symm nonzero), if_neg (Ne.symm nonzero), if_pos rfl]
  split
  · have unsent : sendJob env true { client with diff := 0 } = none := sendJob_of_zero rfl true
    simp [unsent]
  · have unsent : sendJob env false { client with diff := 0 } = none := sendJob_of_zero rfl false
    simp [unsent]

theorem limitShare_of_retarget {diff : UInt64}
    (late : ¬(client.shareLimiter.count diff env.limiterTime.toUInt64).Early setting.config
      env.limiterTime.toUInt64)
    (good : ¬BansMiner setting env client)
    (undefined : (client.counted setting.config env diff).retarget setting.config setting.floating
      env = none) :
    client.limitShare setting.config setting.floating env diff = none := by
  unfold limitShare
  dsimp only
  rw [if_neg late, if_neg]
  · exact undefined
  · exact fun bad => good ⟨late, bad⟩

theorem step_of_limitShare {msg params : JSON} {username : StdString} {addr : ℕ} {job : Job}
    (reaches : ReachesLimiter env msg client params username addr)
    (jobAt : client.heap[addr]? = some job)
    (undefined : client.limitShare setting.config setting.floating env job.diff = none) :
    client.step setting ⟨.message msg, env⟩ = none := by
  simp only [step, onMessage_of_reaches reaches, submitToJob, jobAt, Option.bind_eq_bind,
    Option.bind_some, undefined, Option.bind_none]

/-- A call that divides by zero does not return. -/
theorem step_of_dividesBy_zero {action : Action} (divides : DividesBy setting env client action 0) :
    client.step setting ⟨action, env⟩ = none := by
  generalize zero : (0 : UInt64) = divisor at divides
  cases divides with
  | sendJob clean =>
      simp only [step, sendJob_of_zero zero.symm]
      rfl
  | subscribes methodEq =>
      have differs : ascii "mining.subscribe" ≠ ascii "mining.submit" := by decide
      have subscribedZero :
          { client with subscribed := true, extranonce := env.extranonce }.diff = 0 := zero.symm
      simp only [step, onMessage, methodEq, differs, if_false, if_true, onMiningSubscribe,
        sendJob_of_zero subscribedZero]
      rfl
  | @variance msg params username addr job reaches jobAt late good =>
      refine step_of_limitShare reaches jobAt (limitShare_of_retarget late good ?_)
      have undefined : (client.counted setting.config env job.diff).diff = 0 := zero.symm
      unfold retarget
      dsimp only
      rw [if_pos undefined]
  | @retargets msg params username addr job reaches jobAt sends =>
      refine step_of_limitShare reaches jobAt (limitShare_of_retarget sends.late sends.good ?_)
      exact retarget_of_zero sends.resends zero.symm

end Client

/--
The difficulty stays between its floor and the largest of the configured and the loaded
difficulties, it is positive, and no call divides by zero.
-/
theorem diff_in_range (ordered : setting.config.Ordered)
    (run : ClientRun setting connection trace last) :
    InRange setting.config trace last ∧
      ∀ env action divisor, last.DividesBy setting env action divisor → divisor ≠ 0 := by
  have range := inRange_of_run ordered run
  have nonzero : last.diff ≠ 0 := by
    intro zero
    have positive := range.positive
    rw [zero] at positive
    exact absurd positive (by decide)
  refine ⟨range, ?_⟩
  intro env action divisor divides
  cases divides with
  | sendJob clean => exact nonzero
  | subscribes methodEq => exact nonzero
  | variance reaches jobAt late good => exact nonzero
  | @retargets msg params username addr job reaches jobAt sends =>
      have lowest := ordered.positive
      have fitted := newDiff_range ordered setting.floating
        (last.counted setting.config env job.diff).shareLimiter env.limiterTime.toUInt64
      have fittedEq : last.fittedDiff setting.config setting.floating env job.diff =
          last.raised ((last.counted setting.config env job.diff).shareLimiter.newDiff
            setting.config setting.floating env.limiterTime.toUInt64) := rfl
      intro zero
      have raisedTo := last.raised_toNat ((last.counted setting.config env job.diff).shareLimiter.newDiff
        setting.config setting.floating env.limiterTime.toUInt64)
      rw [← fittedEq, zero, UInt64.toNat_zero] at raisedTo
      omega

namespace Sample

/-- Surroundings in which every worker has that minimum difficulty. -/
def floorEnv (mindiff : UInt32) : Env :=
  { easyEnv 2 with row := fun _ _ => some (.ok mindiff) }

def authorizeAs (username : String) : Action :=
  .message (request "mining.authorize" [username, "secret"])

/-- A pool that starts above its least difficulty. -/
def highSetting : Setting :=
  { Sample.setting (hash 2) with config := { config with retargetStartingDiff := 64 } }

/-- A worker with a minimum difficulty submits the first share after a minute, and gets a job. -/
def lateEvents : List Event :=
  [⟨authorizeAs "alice", floorEnv 20⟩, ⟨subscribe, floorEnv 20⟩,
    ⟨submit "0", { floorEnv 20 with limiterTime := 1388534460 }⟩, ⟨.sendJob false, floorEnv 20⟩]

end Sample

/-- The share limiter lowers the difficulty down to the minimum of the worker. -/
theorem diff_in_range_sample :
    ∃ (trace : List ClientEntry) (last : Client),
      ClientRun Sample.highSetting Sample.connection trace last ∧
      trace.map Entry.event = Sample.lateEvents ∧ last.diff = 20 ∧
      InRange Sample.highSetting.config trace last ∧
      ∀ env action divisor, last.DividesBy Sample.highSetting env action divisor →
        divisor ≠ 0 := by
  have found : ∃ result ∈ replay (Client.step Sample.highSetting)
      (Client.new Sample.highSetting.config Sample.connection) Sample.lateEvents,
      result.2.diff = 20 := by
    decide +kernel
  rcases found with ⟨⟨trace, last⟩, replayed, diff⟩
  have run : ClientRun Sample.highSetting Sample.connection trace last := .ofReplay replayed
  have ordered : Sample.highSetting.config.Ordered := ⟨by decide, by decide, by decide⟩
  rcases diff_in_range ordered run with ⟨range, divides⟩
  exact ⟨trace, last, run, map_event_replay replayed, diff, range, divides⟩

/-! ## The workers behind the floor -/

/-- The minimum difficulty that was last loaded for a user. -/
def minDiffOf? (trace : List ClientEntry) (username : StdString) : Option UInt32 :=
  (loads trace).reverse.lookup username

theorem minDiffOf?_snoc_of_none {entry : ClientEntry} (unloaded : entryLoad? entry = none)
    (username : StdString) : minDiffOf? (trace ++ [entry]) username = minDiffOf? trace username := by
  simp [minDiffOf?, loads, unloaded]

theorem minDiffOf?_snoc {entry : ClientEntry} {username : StdString} {mindiff : UInt32}
    (loaded : entryLoad? entry = some (username, mindiff)) (other : StdString) :
    minDiffOf? (trace ++ [entry]) other =
      if other = username then some mindiff else minDiffOf? trace other := by
  simp only [minDiffOf?, loads, List.filterMap_append, List.filterMap_cons, loaded,
    List.filterMap_nil, List.reverse_append, List.reverse_singleton, List.singleton_append,
    List.lookup_cons]
  split
  · rename_i same
    rw [if_pos (by simpa using same)]
  · rename_i differs
    rw [if_neg (by simpa using differs)]

/-- The minimum difficulties of the authorized workers. -/
def workerDiffs (trace : List ClientEntry) (client : Client) : Set ℕ :=
  {diff | ∃ username ∈ client.workers, ∃ mindiff,
    minDiffOf? trace username = some mindiff ∧ diff = mindiff.toNat}

/-- The difficulty is no worker's too low, and the floor is the largest minimum of a worker. -/
structure Respects (trace : List ClientEntry) (client : Client) : Prop where
  diff : client.diff.toNat ∈ upperBounds (workerDiffs trace client)
  floor : (workerDiffs trace client).Nonempty →
    IsGreatest (workerDiffs trace client) client.minDiff.toNat

/-- The floor depends on the workers and their minimum difficulties, and on nothing else. -/
theorem Respects.sameFloor {other : List ClientEntry} {client next : Client}
    (respects : Respects trace client) (respectsToo : Respects other next)
    (same : workerDiffs trace client = workerDiffs other next)
    (nonempty : (workerDiffs trace client).Nonempty) : client.minDiff = next.minDiff := by
  have floor := respects.floor nonempty
  have floorToo := respectsToo.floor (same ▸ nonempty)
  rw [← same] at floorToo
  exact UInt64.toNat_inj.mp (floor.unique floorToo)

/-- An authorization loads no less than what was loaded last for any other worker. -/
def LoadsEnough (trace : List ClientEntry) (entry : ClientEntry) : Prop :=
  ∀ username mindiff, entryLoad? entry = some (username, mindiff) →
    ∀ other ∈ entry.before.workers, other ≠ username →
      ∀ theirs, minDiffOf? trace other = some theirs → theirs ≤ mindiff

/-- What holds of the floor whatever is loaded. -/
structure Attains (trace : List ClientEntry) (client : Client) : Prop where
  workers : ∀ username, minDiffOf? trace username ≠ none → username ∈ client.workers
  floor : loads trace ≠ [] → client.minDiff.toNat ≤ client.diff.toNat ∧
    client.minDiff.toNat ∈ workerDiffs trace client

/-- No worker is dropped from a client. -/
def KeepsWorkers (client next : Client) : Prop :=
  client.workers ⊆ next.workers

theorem workers_subset_of_step {entry : ClientEntry}
    (stepped : entry.before.step setting entry.event = some (entry.after, entry.output)) :
    KeepsWorkers entry.before entry.after := by
  refine (Client.step_moves stepped).related (fun client => subset_rfl)
    (fun first second => first.trans second) ?_
  intro client effects next move
  cases move with
  | adjust adjusts silent => exact adjusts.workers.symm.subset
  | enlist username password found => exact Finset.subset_insert _ _
  | subscribe msg extranonce => exact subset_rfl
  | sendJob clean issued branchEq => cases clean <;> exact subset_rfl
  | submitShare share jobAt => exact subset_rfl

theorem mem_workerDiffs {client : Client} (attains : Attains trace client) {diff : ℕ} :
    diff ∈ workerDiffs trace client ↔
      ∃ username mindiff, minDiffOf? trace username = some mindiff ∧ diff = mindiff.toNat := by
  constructor
  · rintro ⟨username, _, mindiff, loaded, diffEq⟩
    exact ⟨username, mindiff, loaded, diffEq⟩
  · rintro ⟨username, mindiff, loaded, diffEq⟩
    have enlisted := attains.workers username (by simp [loaded])
    exact ⟨username, enlisted, mindiff, loaded, diffEq⟩

theorem attains_of_step {entry : ClientEntry} (attains : Attains trace entry.before)
    (stepped : entry.before.step setting entry.event = some (entry.after, entry.output)) :
    Attains (trace ++ [entry]) entry.after := by
  have subset := workers_subset_of_step stepped
  cases floors_of_step stepped with
  | @loads username mindiff loaded workers minDiff diff =>
      refine ⟨?_, fun _ => ⟨by omega, username, ?_, mindiff, ?_, minDiff⟩⟩
      · intro other known
        rw [minDiffOf?_snoc loaded] at known
        rw [workers, Finset.mem_insert]
        by_cases same : other = username
        · exact Or.inl same
        · rw [if_neg same] at known
          exact Or.inr (attains.workers other known)
      · rw [workers]
        exact Finset.mem_insert_self _ _
      · rw [minDiffOf?_snoc loaded, if_pos rfl]
  | keeps unloaded minDiff fits =>
      have sameLoads : loads (trace ++ [entry]) = loads trace := by simp [loads, unloaded]
      refine ⟨?_, ?_⟩
      · intro other known
        rw [minDiffOf?_snoc_of_none unloaded] at known
        exact subset (attains.workers other known)
      · intro someLoad
        rw [sameLoads] at someLoad
        rcases attains.floor someLoad with ⟨below, username, enlisted, mindiff, loaded, minDiffEq⟩
        rw [← minDiffOf?_snoc_of_none unloaded] at loaded
        rw [minDiff]
        refine ⟨?_, username, subset enlisted, mindiff, loaded, minDiffEq⟩
        rcases fits with kept | ⟨limiter, curTime, fitted⟩
        · rwa [kept]
        · omega

theorem attains_of_run (run : ClientRun setting connection trace last) : Attains trace last := by
  refine run.invariant Attains (fun _ => True) (fun _ _ => trivial) ⟨?_, ?_⟩
    (fun _ _ held _ stepped => attains_of_step held stepped)
  · intro username known
    exact absurd rfl known
  · intro someLoad
    exact absurd rfl someLoad

/-- A floor that respects every worker goes on to do so when enough is loaded. -/
theorem floor_of_step {entry : ClientEntry} (attains : Attains trace entry.before)
    (bound : entry.before.minDiff.toNat ∈ upperBounds (workerDiffs trace entry.before))
    (enough : LoadsEnough trace entry)
    (stepped : entry.before.step setting entry.event = some (entry.after, entry.output)) :
    entry.after.minDiff.toNat ∈ upperBounds (workerDiffs (trace ++ [entry]) entry.after) := by
  have attainsNext := attains_of_step attains stepped
  intro diff diffMem
  rcases (mem_workerDiffs attainsNext).mp diffMem with ⟨other, theirs, loadedTheirs, rfl⟩
  cases floors_of_step stepped with
  | @loads username mindiff loaded workers minDiff diff =>
      rw [minDiffOf?_snoc loaded] at loadedTheirs
      rw [minDiff]
      by_cases same : other = username
      · rw [if_pos same, Option.some.injEq] at loadedTheirs
        rw [loadedTheirs]
      · rw [if_neg same] at loadedTheirs
        have enlisted := attains.workers other (by simp [loadedTheirs])
        exact enough username mindiff loaded other enlisted same theirs loadedTheirs
  | keeps unloaded minDiff fits =>
      rw [minDiffOf?_snoc_of_none unloaded] at loadedTheirs
      rw [minDiff]
      exact bound ((mem_workerDiffs attains).mpr ⟨other, theirs, loadedTheirs, rfl⟩)

theorem floor_of_run (run : ClientRun setting connection trace last)
    (enough : ∀ earlier entry later, trace = earlier ++ entry :: later →
      LoadsEnough earlier entry) :
    last.minDiff.toNat ∈ upperBounds (workerDiffs trace last) := by
  induction run with
  | nil =>
      rintro diff ⟨username, _, mindiff, loaded, _⟩
      cases loaded
  | @snoc trace entry run stepped ih =>
      refine floor_of_step (attains_of_run run) (ih ?_) (enough trace entry [] rfl) stepped
      intro earlier other later split
      apply enough earlier other (later ++ [entry])
      rw [split]
      simp

theorem respects_of_floor (attains : Attains trace last)
    (bound : last.minDiff.toNat ∈ upperBounds (workerDiffs trace last)) : Respects trace last := by
  have known : (workerDiffs trace last).Nonempty → loads trace ≠ [] := by
    rintro ⟨diff, username, _, mindiff, loaded, _⟩ none
    simp [minDiffOf?, none] at loaded
  constructor
  · intro diff diffMem
    have below := (attains.floor (known ⟨diff, diffMem⟩)).1
    exact (bound diffMem).trans below
  · exact fun nonempty => ⟨(attains.floor (known nonempty)).2, bound⟩

/--
In a run, every state respects the minimum difficulties of its workers just when no authorization
loads less than was loaded last for another worker.
-/
theorem respects_iff (run : ClientRun setting connection trace last) :
    (∀ earlier later state, trace = earlier ++ later → ClientRun setting connection earlier state →
      Respects earlier state) ↔
    ∀ earlier entry later, trace = earlier ++ entry :: later → LoadsEnough earlier entry := by
  constructor
  · intro respects earlier entry later split username mindiff loaded other enlisted differs theirs
      loadedTheirs
    rw [split] at run
    rcases run.split with ⟨runBefore, stepped⟩
    have respected := respects (earlier ++ [entry]) later entry.after (by simp [split])
      (runBefore.snoc stepped)
    have theirsMem : theirs.toNat ∈ workerDiffs (earlier ++ [entry]) entry.after := by
      refine ⟨other, workers_subset_of_step stepped enlisted, theirs, ?_, rfl⟩
      rw [minDiffOf?_snoc loaded, if_neg differs, loadedTheirs]
    have floor := (respected.floor ⟨_, theirsMem⟩).2 theirsMem
    cases floors_of_step stepped with
    | loads loadedToo workers minDiff diff =>
        rw [loaded, Option.some.injEq, Prod.mk.injEq] at loadedToo
        rw [minDiff, ← loadedToo.2] at floor
        exact floor
    | keeps unloaded minDiff fits => simp [loaded] at unloaded
  · intro enough earlier later state split runEarlier
    refine respects_of_floor (attains_of_run runEarlier) (floor_of_run runEarlier ?_)
    intro before entry after splitEarlier
    apply enough before entry (after ++ later)
    rw [split, splitEarlier]
    simp

namespace Sample

/-- Two workers, the second of whom has the larger minimum. -/
def risingFloors : List Event :=
  [⟨authorizeAs "alice", floorEnv 8⟩, ⟨authorizeAs "bob", floorEnv 64⟩]

/-- Two workers, the second of whom lowers the floor, and a share that is due for a retarget. -/
def fallingFloors : List Event :=
  [⟨subscribe, easyEnv 2⟩, ⟨authorizeAs "alice", floorEnv 64⟩, ⟨authorizeAs "bob", floorEnv 1⟩,
    ⟨submit "0", { easyEnv 2 with limiterTime := 1388534500 }⟩]

end Sample

theorem respects_sample :
    ∃ (trace : List ClientEntry) (last : Client),
      ClientRun (Sample.setting (Sample.hash 2)) Sample.connection trace last ∧
      trace.map Entry.event = Sample.risingFloors ∧
      ∀ earlier later state, trace = earlier ++ later →
        ClientRun (Sample.setting (Sample.hash 2)) Sample.connection earlier state →
        Respects earlier state := by
  have found : ∃ result ∈ replay (Client.step (Sample.setting (Sample.hash 2)))
      (Client.new Sample.config Sample.connection) Sample.risingFloors,
      result.1.map entryLoad? = [some (ascii "alice", 8), some (ascii "bob", 64)] := by
    decide +kernel
  rcases found with ⟨⟨trace, last⟩, replayed, loaded⟩
  have run : ClientRun (Sample.setting (Sample.hash 2)) Sample.connection trace last :=
    .ofReplay replayed
  refine ⟨trace, last, run, map_event_replay replayed, (respects_iff run).mpr ?_⟩
  intro earlier entry later split username mindiff loads other _ _ theirs loadedTheirs
  rw [split, List.map_append, List.map_cons] at loaded
  rcases earlier with _ | ⟨first, _ | ⟨second, rest⟩⟩
  · cases loadedTheirs
  · simp only [List.map_cons, List.map_nil, List.cons_append, List.nil_append,
      List.cons.injEq] at loaded
    rw [loads, Option.some.injEq, Prod.mk.injEq] at loaded
    have theirsEq : theirs = 8 := by
      simp only [minDiffOf?, Stratum.loads, List.filterMap_cons, loaded.1, List.filterMap_nil,
        List.reverse_singleton, List.lookup_cons, List.lookup_nil] at loadedTheirs
      split at loadedTheirs
      · exact (Option.some.inj loadedTheirs).symm
      · cases loadedTheirs
    rw [theirsEq, loaded.2.1.2]
    decide
  · simp at loaded

/-- A second worker lowers the floor, and the next retarget goes below the first one's minimum. -/
theorem exists_below_minimum :
    ∃ (trace : List ClientEntry) (last : Client),
      ClientRun (Sample.setting (Sample.hash 2)) Sample.connection trace last ∧
      trace.map Entry.event = Sample.fallingFloors ∧
      ascii "alice" ∈ last.workers ∧ minDiffOf? trace (ascii "alice") = some 64 ∧
      last.diff = 16 ∧ ¬Respects trace last := by
  have found : ∃ result ∈ replay (Client.step (Sample.setting (Sample.hash 2)))
      (Client.new Sample.config Sample.connection) Sample.fallingFloors,
      ascii "alice" ∈ result.2.workers ∧ minDiffOf? result.1 (ascii "alice") = some 64 ∧
        result.2.diff = 16 := by
    decide +kernel
  rcases found with ⟨⟨trace, last⟩, replayed, enlisted, loaded, diff⟩
  refine ⟨trace, last, .ofReplay replayed, map_event_replay replayed, enlisted, loaded, diff, ?_⟩
  intro respects
  have bound := respects.diff ⟨_, enlisted, 64, loaded, rfl⟩
  rw [diff] at bound
  exact absurd bound (by decide)

end Poolserver.Stratum
