import Poolserver.Stratum.Handled

/-!
# Where jobs are made

`GetJob` dereferences the current work, and it is all that looks at the work. It runs for a
posted `SendJob`, for a subscription, and for a submission at which the share limiter
resends the job: without work each of these calls is undefined.
-/

namespace Poolserver.Stratum

open Poolserver.Bitcoin RunTrace

/-- The same surroundings with other work. -/
def Env.withWork (env : Env) (work : Option Block) : Env :=
  { env with work }

namespace Client

variable {setting : Setting} {env : Env} {msg : JSON} {client : Client}

/-- `SetDifficulty` changes the difficulty when it is called with that value. -/
def Changes (client : Client) (diff : UInt64) : Prop :=
  (if diff < client.minDiff then client.minDiff else diff) ≠ client.diff

/-- The end of `ShareLimiter::Submit` sends a job. -/
structure Resends (config : Config) (floating : FloatingPoint) (env : Env) (client : Client) :
    Prop where
  nonzero : client.diff ≠ 0
  moves : ¬ShareLimiter.variance
    (client.shareLimiter.newDiff config floating env.limiterTime.toUInt64) client.diff <
      config.retargetVariance
  resends : 2000 < ShareLimiter.variance
      (client.shareLimiter.newDiff config floating env.limiterTime.toUInt64) client.diff ∨
    client.Changes (client.shareLimiter.newDiff config floating env.limiterTime.toUInt64)

/-- The client after the share limiter has counted a share and marked the retarget. -/
def counted (config : Config) (env : Env) (diff : UInt64) (client : Client) : Client :=
  let curTime := env.limiterTime.toUInt64
  { client with
    shareLimiter := ((client.shareLimiter.count diff curTime).markRetarget curTime).dropOld
      config curTime }

/-- A call of `ShareLimiter::Submit` sends a job. -/
structure LimiterSends (setting : Setting) (env : Env) (diff : UInt64) (client : Client) :
    Prop where
  late : ¬(client.shareLimiter.count diff env.limiterTime.toUInt64).Early setting.config
    env.limiterTime.toUInt64
  good : ¬BansMiner setting env client
  resends : (client.counted setting.config env diff).Resends setting.config setting.floating env

/-- The calls that run `GetJob`. -/
inductive GetsJob (setting : Setting) (env : Env) (client : Client) : Action → Prop where
  | sendJob (clean : Bool) : GetsJob setting env client (.sendJob clean)
  | subscribes {msg : JSON}
      (methodEq : msg.stringMember "method" = .ok (ascii "mining.subscribe")) :
      GetsJob setting env client (.message msg)
  | retargets {msg params : JSON} {username : StdString} {addr : ℕ} {job : Job}
      (reaches : ReachesLimiter env msg client params username addr)
      (jobAt : client.heap[addr]? = some job)
      (sends : client.LimiterSends setting env job.diff) :
      GetsJob setting env client (.message msg)

/-! ## Without work -/

theorem sendJob_of_null (clean : Bool) : client.sendJob (env.withWork none) clean = none := by
  rfl

theorem setDifficulty_of_null {diff : UInt64} (changes : client.Changes diff) :
    client.setDifficulty (env.withWork none) diff true = none := by
  unfold setDifficulty
  dsimp only
  rw [if_neg changes, if_pos rfl, sendJob_of_null]
  rfl

theorem retarget_of_null {config : Config} {floating : FloatingPoint}
    (resends : client.Resends config floating env) :
    client.retarget config floating (env.withWork none) = none := by
  unfold retarget
  dsimp only [Env.withWork]
  rw [if_neg resends.nonzero, if_neg resends.moves]
  split
  · have unsent : ∀ (slowed : Client) (clean : Bool),
        slowed.sendJob { env with work := none } clean = none := fun _ _ => rfl
    simp [unsent]
  · rename_i small
    have changes := resends.resends.resolve_left small
    have unsent : client.setDifficulty (env.withWork none) _ true = none :=
      setDifficulty_of_null changes
    simp only [Env.withWork] at unsent
    rw [unsent]
    rfl

theorem limitShare_of_null {diff : UInt64} (sends : client.LimiterSends setting env diff) :
    client.limitShare setting.config setting.floating (env.withWork none) diff = none := by
  unfold limitShare
  dsimp only [Env.withWork]
  rw [if_neg sends.late, if_neg]
  · exact retarget_of_null sends.resends
  · intro bad
    exact sends.good ⟨sends.late, bad⟩

theorem onMessage_of_reaches {params : JSON} {username : StdString} {addr : ℕ}
    (reaches : ReachesLimiter env msg client params username addr) :
    client.onMessage env setting msg = submitToJob setting env msg params username addr client := by
  rcases reaches.jobFound with ⟨text, textEq, found⟩
  have known : ¬username ∉ client.workers := not_not.mpr reaches.authorized
  simp only [onMessage, reaches.methodEq, if_true, onMiningSubmit, reaches.paramsEq,
    reaches.usernameEq, known, if_false, textEq, found]

/-- Without work, every call that runs `GetJob` is undefined. -/
theorem step_of_null {action : Action} (gets : client.GetsJob setting env action) :
    client.step setting ⟨action, env.withWork none⟩ = none := by
  cases gets with
  | sendJob clean => rfl
  | @subscribes msg methodEq =>
      have differs : ascii "mining.subscribe" ≠ ascii "mining.submit" := by decide
      simp only [step, onMessage, methodEq, differs, if_false, if_true, onMiningSubscribe,
        sendJob_of_null]
      rfl
  | @retargets msg params username addr job reaches jobAt sends =>
      have reachesAgain : ReachesLimiter (env.withWork none) msg client params username addr :=
        ⟨reaches.methodEq, reaches.paramsEq, reaches.usernameEq, reaches.authorized,
          reaches.jobFound⟩
      simp only [step, onMessage_of_reaches reachesAgain, submitToJob, jobAt,
        Option.bind_eq_bind, Option.bind_some, limitShare_of_null sends, Option.bind_none]

end Client

end Poolserver.Stratum
