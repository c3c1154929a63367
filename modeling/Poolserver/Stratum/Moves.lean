import Poolserver.Stratum.Acts

/-!
# What a call can do to the jobs

For the jobs, the workers and the extranonce, the acts of a handler are moves of five
kinds: it adjusts state that no job depends on, enlists a worker, takes an extranonce,
sends a job, or submits a share to a job. A property of these is proved for the moves;
`step_moves` carries it over to the calls and from there to whole runs.
-/

namespace Poolserver.Stratum

open Poolserver.Bitcoin RunTrace

/-! ## Moves -/

/-- The job id and the clean flag of a `mining.notify` message. -/
def announcement (msg : JSON) : Option (StdString × Bool) :=
  match msg.stringMember "method", msg.member (ascii "params") with
  | .ok method, .ok params =>
      if method = ascii "mining.notify" then
        match params.index 0, params.index 8 with
        | .ok (.string jobid), .ok (.bool clean) => some (jobid, clean)
        | _, _ => none
      else none
  | _, _ => none

/-- The extranonce in the response to a subscription. -/
def announcedExtranonce (msg : JSON) : Option StdString :=
  match msg.member (ascii "result") with
  | .ok (.array [.array _, .string text, .integer _]) => some text
  | _ => none

/-- A message that announces neither a job nor an extranonce. -/
def Quiet (msg : JSON) : Prop :=
  announcement msg = none ∧ announcedExtranonce msg = none

/-- A message with a result answers a request. -/
def isResponse : JSON → Bool
  | .object members => (members.lookup (ascii "result")).isSome
  | _ => false

namespace Effect

/-- Effects that announce nothing, submit no share and find no worker. -/
def Silent : Effect → Prop
  | sendMessage msg => Quiet msg
  | query _ _ found => found = false
  | submitShare _ _ => False
  | _ => True

/-- Effects that answer no request and take part in no verification of a share. -/
def Unsolicited : Effect → Prop
  | sendMessage msg => isResponse msg = false
  | ban _ _ => True
  | disconnect => True
  | _ => False

end Effect

namespace Client

/-- The change of a client that keeps its jobs, its workers and its extranonce. -/
structure Adjusts (client next : Client) : Prop where
  extranonce : next.extranonce = client.extranonce
  heap : next.heap = client.heap
  jobs : next.jobs = client.jobs
  workers : next.workers = client.workers
  diff : next.diff = client.diff ∨ next.diff = client.minDiff ∨ next.diff.toNat < 2 ^ 32
  minDiff : next.minDiff = client.minDiff ∨ next.minDiff.toNat < 2 ^ 32

/-- One move of a handler, with its effects. -/
inductive Move (env : Env) : Client → List Effect → Client → Prop where
  | adjust {client next : Client} {effects : List Effect} (adjusts : client.Adjusts next)
      (silent : ∀ effect ∈ effects, effect.Silent) : Move env client effects next
  | enlist (client : Client) (username password : StdString)
      (found : env.row username password ≠ none) :
      Move env client [.query username password true]
        { client with workers := insert username client.workers }
  | subscribe (client : Client) (msg : JSON) (extranonce : UInt32) :
      Move env client [.sendMessage (subscribeResponse msg extranonce)]
        { client with subscribed := true, extranonce }
  | sendJob (client : Client) (clean : Bool) {job : Job} {branch : List BinaryData}
      (issued : job.Issued env.work client.diff) (branchEq : job.branch = some branch) :
      Move env client [.sendMessage (notifyMessage client.jobid job branch clean)]
        ((if clean then client.cleanJobs else client).addJob job)
  | submitShare (client : Client) (share : UInt64) {addr : ℕ} {job : Job}
      (jobAt : client.heap[addr]? = some job) :
      Move env client [.submitShare addr share] (client.storeJob addr (job.withShare share))

/-- The moves of `SendJob`, `SetDifficulty` and the share limiter. -/
inductive Tuning (env : Env) : Client → List Effect → Client → Prop where
  | adjust {client next : Client} {effects : List Effect} (adjusts : client.Adjusts next)
      (ip : next.ip = client.ip)
      (unsolicited : ∀ effect ∈ effects, effect.Silent ∧ effect.Unsolicited) :
      Tuning env client effects next
  | sendJob (client : Client) (clean : Bool) {job : Job} {branch : List BinaryData}
      (issued : job.Issued env.work client.diff) (branchEq : job.branch = some branch) :
      Tuning env client [.sendMessage (notifyMessage client.jobid job branch clean)]
        ((if clean then client.cleanJobs else client).addJob job)

/-- A sequence of moves. -/
abbrev Moves (env : Env) : Client → List Effect → Client → Prop :=
  Path (Move env)

variable {env : Env} {client next : Client} {effects : List Effect}

theorem Adjusts.refl (client : Client) : client.Adjusts client :=
  ⟨rfl, rfl, rfl, rfl, Or.inl rfl, Or.inl rfl⟩

theorem Tuning.toMove (tuning : Tuning env client effects next) : Move env client effects next := by
  cases tuning with
  | adjust adjusts _ unsolicited =>
      exact .adjust adjusts fun effect effectMem => (unsolicited effect effectMem).1
  | sendJob clean issued branchEq => exact .sendJob client clean issued branchEq

/-! ## The share limiter -/

theorem Turn.toTuning (turns : Turn client effects next) : Tuning env client effects next := by
  cases turns with
  | count limiter total bad =>
      exact .adjust ⟨rfl, rfl, rfl, rfl, Or.inl rfl, Or.inl rfl⟩ rfl (by simp)
  | ban time =>
      refine .adjust (.refl client) rfl ?_
      simp [Client.ban, Effect.Silent, Effect.Unsolicited]

theorem ChangesDiff.toTuning (changes : ChangesDiff client effects next) :
    Tuning env client effects next := by
  cases changes with
  | intro diff differs bound =>
      refine .adjust ⟨rfl, rfl, rfl, rfl, Or.inr bound, Or.inl rfl⟩ rfl ?_
      intro effect effectMem
      rw [List.mem_singleton] at effectMem
      subst effectMem
      exact ⟨⟨rfl, rfl⟩, rfl⟩

theorem SendsJob.toTuning (sends : SendsJob env client effects next) :
    Tuning env client effects next := by
  cases sends with
  | intro clean issued branchEq => exact .sendJob client clean issued branchEq

theorem sendJob_tunes {clean : Bool} (sent : client.sendJob env clean = some (next, effects)) :
    Path (Tuning env) client effects next :=
  .single (sendJob_sends sent).toTuning

theorem raiseDiff_tunes (raised : client.raiseDiff env = some (next, effects)) :
    Path (Tuning env) client effects next :=
  (raiseDiff_changes raised).toPath.mono ChangesDiff.toTuning

theorem limitShare_tunes {config : Config} {floating : FloatingPoint} {passed : Bool}
    {diff : UInt64}
    (moved : client.limitShare config floating env diff = some (passed, next, effects)) :
    Path (Tuning env) client effects next :=
  (limitShare_course moved).toPath Turn.toTuning ChangesDiff.toTuning SendsJob.toTuning

/-- What the share limiter leaves alone, whether or not it sends jobs. -/
structure Tuned (client next : Client) : Prop where
  extranonce : next.extranonce = client.extranonce
  ip : next.ip = client.ip
  workers : next.workers = client.workers
  heap : ∃ created, next.heap = client.heap ++ created

theorem Tuned.jobAt {addr : ℕ} {job : Job} (tuned : client.Tuned next)
    (jobAt : client.heap[addr]? = some job) : next.heap[addr]? = some job := by
  rcases tuned.heap with ⟨created, heapEq⟩
  rw [heapEq, List.getElem?_append_left (List.getElem?_eq_some_iff.mp jobAt).1, jobAt]

theorem tuned_of_path (path : Path (Tuning env) client effects next) : client.Tuned next := by
  refine path.related (fun client => ⟨rfl, rfl, rfl, [], by simp⟩) ?_ ?_
  · intro left middle right first second
    rcases first.heap with ⟨created, firstHeap⟩
    rcases second.heap with ⟨more, secondHeap⟩
    exact ⟨second.extranonce.trans first.extranonce, second.ip.trans first.ip,
      second.workers.trans first.workers, created ++ more, by simp [secondHeap, firstHeap]⟩
  · intro state labels next tuning
    cases tuning with
    | adjust adjusts ip _ =>
        exact ⟨adjusts.extranonce, ip, adjusts.workers, [], by simp [adjusts.heap]⟩
    | sendJob clean issued branchEq => cases clean <;> exact ⟨rfl, rfl, rfl, _, rfl⟩

theorem unsolicited_of_path (path : Path (Tuning env) client effects next) :
    ∀ effect ∈ effects, effect.Unsolicited := by
  have nothing : ∀ effect ∈ ([] : List Effect), effect.Unsolicited := by simp
  refine path.invariant (fun log _ => ∀ effect ∈ log, effect.Unsolicited) ?_ nothing
  intro log labels state next logged tuning effect effectMem
  rcases List.mem_append.mp effectMem with old | fresh
  · exact logged effect old
  · cases tuning with
    | adjust _ _ unsolicited => exact (unsolicited effect fresh).2
    | sendJob clean issued branchEq =>
        simp only [List.mem_singleton] at fresh
        subst fresh
        rfl

/-! ## The handlers -/

theorem quiet_of_reply {response : JSON} (replies : Reply response) : Quiet response := by
  cases replies with
  | error msg code text => exact ⟨rfl, rfl⟩
  | accepted msg => exact ⟨rfl, rfl⟩
  | authorized msg => exact ⟨rfl, rfl⟩
  | unauthenticated msg => exact ⟨rfl, rfl⟩

theorem silent_of_plain {effect : Effect} (plain : effect.Plain) : effect.Silent := by
  cases effect with
  | sendMessage msg => exact plain.elim
  | query username password found => exact plain
  | submitShare addr share => exact plain.elim
  | _ => trivial

theorem Act.toMove (act : Act env client effects next) : Move env client effects next := by
  have silently : ∀ {effect : Effect}, effect.Silent → ∀ other ∈ [effect], other.Silent := by
    intro effect silent other otherMem
    rw [List.mem_singleton] at otherMem
    rwa [otherMem]
  cases act with
  | turn turns => exact turns.toTuning.toMove
  | reply replies => exact .adjust (.refl client) (silently (quiet_of_reply replies))
  | perform plain => exact .adjust (.refl client) (silently (silent_of_plain plain))
  | refuse bad =>
      exact .adjust ⟨rfl, rfl, rfl, rfl, Or.inl rfl, Or.inl rfl⟩ (silently trivial)
  | enlist username password found => exact .enlist client username password found
  | setMinDiff minDiff =>
      refine .adjust ⟨rfl, rfl, rfl, rfl, Or.inl rfl, Or.inr ?_⟩ (by simp)
      simpa using minDiff.toNat_lt
  | submitShare share jobAt => exact .submitShare client share jobAt

variable {setting : Setting} {msg : JSON} {outcome : Outcome}

/-- An authorization queries the database once and then only sends messages. -/
theorem authorize_effects {username password : StdString}
    (done : authorize env msg username password client = some outcome) :
    ∃ sent, outcome.effects =
        .query username password (env.row username password).isSome :: sent ∧
      ∀ effect ∈ sent, (∃ response, effect = .sendMessage response) ∨ effect.Unsolicited := by
  cases authorize_ends done with
  | noRow absent => exact ⟨_, by rw [absent]; rfl, by simp⟩
  | unreadable row => exact ⟨[], by rw [row]; rfl, by simp⟩
  | @authorized mindiff raised told row raises =>
      refine ⟨told ++ [.sendMessage (authorizedResponse msg)], by rw [row]; simp [respond], ?_⟩
      intro effect effectMem
      rcases List.mem_append.mp effectMem with early | late
      · exact Or.inr (unsolicited_of_path (raiseDiff_tunes raises) effect early)
      · exact Or.inl ⟨_, List.mem_singleton.mp late⟩

theorem Acts.moves (acts : Acts env client effects next) : Moves env client effects next :=
  acts.toPath Act.toMove (fun changes => changes.toTuning.toMove)
    (fun sends => sends.toTuning.toMove)

theorem Handles.moves {event : Event} (handles : Handles setting event client effects next) :
    Moves event.env client effects next := by
  cases handles with
  | submission actionEq methodEq does =>
      rcases does with path | ⟨addr, _, limited⟩
      · exact path.mono Act.toMove
      · exact limited.acts.moves
  | @subscription msg sent _ actionEq methodEq sends =>
      have answers : Moves event.env client
          [.sendMessage (subscribeResponse msg event.env.extranonce)]
          { client with subscribed := true, extranonce := event.env.extranonce } :=
        .single (.subscribe client msg event.env.extranonce)
      exact answers.snoc sends.toTuning.toMove
  | other actionEq notSubmit notSubscribe authorizes => exact authorizes.acts.moves
  | sendJob actionEq sends => exact sends.acts.moves

theorem step_moves {event : Event} {output : Output}
    (stepped : client.step setting event = some (next, output)) :
    Moves event.env client output.effects next :=
  (step_handles stepped).moves

end Client

end Poolserver.Stratum
