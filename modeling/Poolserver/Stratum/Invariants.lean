import Poolserver.Stratum.Verification

/-!
# Invariants of a connection

What holds in every state a connection reaches: pointers lead to jobs, jobs are as
`GetJob` made them from the work they were supplied with, and objects stay where they
are, gaining shares only. Each is proved for the moves of a handler.
-/

namespace Poolserver.Stratum

open Poolserver.Bitcoin RunTrace
open Client (addJob cleanJobs)

variable {setting : Setting} {connection : Connection} {trace : List ClientEntry} {last : Client}
  {env : Env} {msg : JSON}

/-- The effects of a run in the order in which they happened. -/
def log (trace : List ClientEntry) : List Effect :=
  trace.flatMap fun entry => entry.output.effects

@[simp]
theorem log_append (earlier later : List ClientEntry) :
    log (earlier ++ later) = log earlier ++ log later :=
  List.flatMap_append

/-- What holds of a new client and is preserved by every move holds after every run. -/
theorem invariant_of_run (Holds : List Effect → Client → Prop) (Supplied : Env → Prop)
    (run : ClientRun setting connection trace last)
    (supplied : ∀ entry ∈ trace, Supplied entry.event.env)
    (initial : Holds [] (Client.new setting.config connection))
    (preserved : ∀ {env emitted effects client next}, Supplied env → Holds emitted client →
      Client.Move env client effects next → Holds (emitted ++ effects) next) :
    Holds (log trace) last := by
  refine run.invariant (fun trace client => Holds (log trace) client)
    (fun entry => Supplied entry.event.env) supplied initial ?_
  intro trace entry held supplied stepped
  rw [log_append]
  have path := Client.step_moves stepped
  simpa [log] using path.invariant Holds (preserved supplied) held

/-! ## Jobs -/

/-- A property of blocks holds of all work a run is supplied with. -/
def Supplied (trace : List ClientEntry) (Suitable : Block → Prop) : Prop :=
  ∀ entry ∈ trace, ∀ work, entry.event.env.work = some work → Suitable work

theorem Supplied.left {earlier later : List ClientEntry} {Suitable : Block → Prop}
    (supplied : Supplied (earlier ++ later) Suitable) : Supplied earlier Suitable :=
  fun entry entryMem => supplied entry (List.mem_append_left _ entryMem)

theorem Supplied.mono {Suitable Weaker : Block → Prop} (supplied : Supplied trace Suitable)
    (weaker : ∀ {work}, Suitable work → Weaker work) : Supplied trace Weaker :=
  fun entry entryMem work workEq => weaker (supplied entry entryMem work workEq)

theorem supplied_of_replay {Suitable : Block → Prop} {client : Client} {events : List Event}
    (suitable : ∀ event ∈ events, ∀ work, event.env.work = some work → Suitable work)
    (replayed : replay (Client.step setting) client events = some (trace, last)) :
    Supplied trace Suitable := by
  intro entry entryMem
  have eventMem := List.mem_map_of_mem (f := Entry.event) entryMem
  rw [map_event_replay replayed] at eventMem
  exact suitable entry.event eventMem

theorem mem_heap_of_move {env : Env} {effects : List Effect} {client next : Client} {job : Job}
    (move : Client.Move env client effects next) (jobMem : job ∈ next.heap) :
    job ∈ client.heap ∨ (∃ old ∈ client.heap, ∃ share, job = old.withShare share) ∨
      job.Issued env.work client.diff := by
  cases move with
  | adjust adjusts _ =>
      rw [adjusts.heap] at jobMem
      exact Or.inl jobMem
  | enlist username password found => exact Or.inl jobMem
  | subscribe msg extranonce => exact Or.inl jobMem
  | @sendJob clean fresh branch issued branchEq =>
      have shape : job ∈ client.heap ++ [fresh] := by cases clean <;> exact jobMem
      rcases List.mem_append.mp shape with old | new
      · exact Or.inl old
      · rw [List.mem_singleton] at new
        subst new
        exact Or.inr (Or.inr issued)
  | @submitShare share addr old jobAt =>
      rcases List.mem_or_eq_of_mem_set jobMem with kept | rfl
      · exact Or.inl kept
      · exact Or.inr (Or.inl ⟨old, List.mem_of_getElem? jobAt, share, rfl⟩)

/-- Every job is as `GetJob` made it, from work the run was supplied with. -/
theorem sound_of_run {Suitable : Block → Prop} (run : ClientRun setting connection trace last)
    (supplied : Supplied trace Suitable) {job : Job} (jobMem : job ∈ last.heap) :
    job.Sound ∧ Suitable job.block := by
  refine invariant_of_run (fun _ client => ∀ job ∈ client.heap,
    job.Sound ∧ Suitable job.block) (fun env => ∀ work, env.work = some work →
      Suitable work) run supplied (by simp [Client.new]) ?_ job jobMem
  intro env emitted effects client next suitable held move job jobMem
  rcases mem_heap_of_move move jobMem with old | ⟨old, oldMem, share, rfl⟩ | issued
  · exact held job old
  · exact ⟨(held old oldMem).1.withShare share, (held old oldMem).2⟩
  · exact ⟨issued.toSound, suitable _ issued.work⟩

/-- Every pointer leads to a job. -/
theorem jobs_of_run (run : ClientRun setting connection trace last) {id : UInt64} {addr : ℕ}
    (pointer : last.jobs id = some addr) : addr < last.heap.length := by
  refine invariant_of_run (fun _ client => ∀ id addr, client.jobs id = some addr →
    addr < client.heap.length) (fun _ => True) run (fun _ _ => trivial)
      (by simp [Client.new]) ?_ id addr pointer
  intro env emitted effects client next _ held move id addr pointer
  cases move with
  | adjust adjusts _ =>
      rw [adjusts.jobs] at pointer
      rw [adjusts.heap]
      exact held id addr pointer
  | enlist username password found => exact held id addr pointer
  | subscribe msg extranonce => exact held id addr pointer
  | @sendJob clean fresh branch issued branchEq =>
      have placed : addr = client.heap.length ∨ client.jobs id = some addr := by
        cases clean with
        | true =>
            simp only [addJob, cleanJobs, if_true, Function.update_apply] at pointer
            split at pointer
            · exact Or.inl (Option.some.inj pointer).symm
            · simp at pointer
        | false =>
            simp only [addJob, Bool.false_eq_true, if_false, Function.update_apply] at pointer
            split at pointer
            · exact Or.inl (Option.some.inj pointer).symm
            · exact Or.inr pointer
      have grown : ((if clean then client.cleanJobs else client).addJob fresh).heap.length =
          client.heap.length + 1 := by
        cases clean <;> simp [addJob, cleanJobs]
      rw [grown]
      rcases placed with rfl | old
      · exact Nat.lt_succ_self _
      · exact Nat.lt_succ_of_lt (held id addr old)
  | submitShare share jobAt =>
      simpa [Client.storeJob] using held id addr pointer

/-- Difficulties stay within 32 bits. -/
structure Client.DiffsSmall (client : Client) : Prop where
  diff : client.diff.toNat < 2 ^ 32
  minDiff : client.minDiff.toNat < 2 ^ 32
  jobs : ∀ job ∈ client.heap, job.diff.toNat < 2 ^ 32

theorem diffsSmall_of_move {env : Env} {effects : List Effect} {client next : Client}
    (small : client.DiffsSmall) (move : Client.Move env client effects next) :
    next.DiffsSmall := by
  have jobs : ∀ job ∈ next.heap, job.diff.toNat < 2 ^ 32 := by
    intro job jobMem
    rcases mem_heap_of_move move jobMem with old | ⟨old, oldMem, share, rfl⟩ | issued
    · exact small.jobs job old
    · exact small.jobs old oldMem
    · rw [issued.diff]
      exact small.diff
  cases move with
  | adjust adjusts _ =>
      refine ⟨?_, ?_, jobs⟩
      · rcases adjusts.diff with same | same | bound
        · rw [same]
          exact small.diff
        · rw [same]
          exact small.minDiff
        · exact bound
      · rcases adjusts.minDiff with same | bound
        · rw [same]
          exact small.minDiff
        · exact bound
  | enlist username password found => exact ⟨small.diff, small.minDiff, jobs⟩
  | subscribe msg extranonce => exact ⟨small.diff, small.minDiff, jobs⟩
  | sendJob clean issued branchEq => cases clean <;> exact ⟨small.diff, small.minDiff, jobs⟩
  | submitShare share jobAt => exact ⟨small.diff, small.minDiff, jobs⟩

theorem diffsSmall_of_run (run : ClientRun setting connection trace last) : last.DiffsSmall := by
  refine invariant_of_run (fun _ client => client.DiffsSmall) (fun _ => True)
    run (fun _ _ => trivial) ⟨?_, ?_, by simp [Client.new]⟩
    (fun _ small move => diffsSmall_of_move small move)
  · simpa [Client.new] using setting.config.retargetStartingDiff.toNat_lt
  · simpa [Client.new] using setting.config.retargetMinDiff.toNat_lt

/-! ## Objects and their shares -/

/-- The same job at a later time. -/
def Job.Grows (job later : Job) : Prop :=
  ∃ shares, job.shares ⊆ shares ∧ later = { job with shares }

/-- Every object is still in its place. -/
def Client.Extends (client next : Client) : Prop :=
  ∀ (addr : ℕ) (job : Job), client.heap[addr]? = some job →
    ∃ later, next.heap[addr]? = some later ∧ job.Grows later

theorem Job.Grows.refl (job : Job) : job.Grows job :=
  ⟨job.shares, subset_rfl, rfl⟩

theorem Job.Grows.trans {job middle later : Job} (first : job.Grows middle)
    (second : middle.Grows later) : job.Grows later := by
  rcases first with ⟨shares, sharesSubset, rfl⟩
  rcases second with ⟨more, moreSubset, rfl⟩
  exact ⟨more, sharesSubset.trans moreSubset, rfl⟩

theorem Client.Extends.refl (client : Client) : client.Extends client :=
  fun _ job jobAt => ⟨job, jobAt, .refl job⟩

theorem Client.Extends.trans {client middle next : Client} (first : client.Extends middle)
    (second : middle.Extends next) : client.Extends next := by
  intro addr job jobAt
  rcases first addr job jobAt with ⟨between, betweenAt, grows⟩
  rcases second addr between betweenAt with ⟨later, laterAt, growsMore⟩
  exact ⟨later, laterAt, grows.trans growsMore⟩

theorem extends_of_move {env : Env} {effects : List Effect} {client next : Client}
    (move : Client.Move env client effects next) : client.Extends next := by
  intro addr job jobAt
  cases move with
  | adjust adjusts _ => exact ⟨job, by rw [adjusts.heap, jobAt], .refl job⟩
  | enlist username password found => exact ⟨job, jobAt, .refl job⟩
  | subscribe msg extranonce => exact ⟨job, jobAt, .refl job⟩
  | @sendJob clean fresh branch issued branchEq =>
      have kept : (client.heap ++ [fresh])[addr]? = some job := by
        rw [List.getElem?_append_left (List.getElem?_eq_some_iff.mp jobAt).1, jobAt]
      exact ⟨job, by cases clean <;> exact kept, .refl job⟩
  | @submitShare share target old oldAt =>
      by_cases same : addr = target
      · subst same
        rw [oldAt, Option.some.injEq] at jobAt
        subst jobAt
        refine ⟨old.withShare share, ?_, ⟨_, Finset.subset_insert share old.shares, rfl⟩⟩
        rw [Client.storeJob, List.getElem?_set_self (List.getElem?_eq_some_iff.mp oldAt).1]
      · refine ⟨job, ?_, .refl job⟩
        rw [Client.storeJob, List.getElem?_set_ne (Ne.symm same), jobAt]

/-- A submitted share is found in its job from then on. -/
theorem submitted_of_move {env : Env} {effects : List Effect} {client next : Client} {addr : ℕ}
    {share : UInt64} (move : Client.Move env client effects next)
    (submitted : .submitShare addr share ∈ effects) :
    ∃ job, next.heap[addr]? = some job ∧ share ∈ job.shares := by
  cases move with
  | adjust adjusts silent => exact (silent _ submitted).elim
  | enlist username password found => simp at submitted
  | subscribe msg extranonce => simp at submitted
  | sendJob clean issued branchEq => simp at submitted
  | @submitShare fresh target job jobAt =>
      simp only [List.mem_singleton, Effect.submitShare.injEq] at submitted
      rcases submitted with ⟨rfl, rfl⟩
      refine ⟨job.withShare share, ?_, Finset.mem_insert_self share job.shares⟩
      rw [Client.storeJob, List.getElem?_set_self (List.getElem?_eq_some_iff.mp jobAt).1]

/-- The shares that a log submits to an object are among the shares of the object. -/
def Client.Remembers (effects : List Effect) (client : Client) : Prop :=
  ∀ addr share, .submitShare addr share ∈ effects →
    ∃ job, client.heap[addr]? = some job ∧ share ∈ job.shares

theorem remembers_of_move {env : Env} {emitted effects : List Effect} {client next : Client}
    (remembers : client.Remembers emitted) (move : Client.Move env client effects next) :
    next.Remembers (emitted ++ effects) := by
  intro addr share submitted
  rcases List.mem_append.mp submitted with old | fresh
  · rcases remembers addr share old with ⟨job, jobAt, shareMem⟩
    rcases extends_of_move move addr job jobAt with ⟨later, laterAt, shares, subset, rfl⟩
    exact ⟨_, laterAt, subset shareMem⟩
  · exact submitted_of_move move fresh

theorem remembers_of_run (run : ClientRun setting connection trace last) :
    last.Remembers (log trace) :=
  invariant_of_run (fun log client => client.Remembers log) (fun _ => True)
    run (fun _ _ => trivial) (by simp [Client.Remembers])
    (fun _ remembers move => remembers_of_move remembers move)

/-- A checked submission brings a pair that was not submitted on its job before. -/
theorem new_of_checked (run : ClientRun setting connection trace last)
    (checked : Checked setting env msg last) {submission : Submission}
    (submitted : .submitShare checked.addr submission.share ∈ log trace) :
    (submission.noncebuf, submission.extranonce2) ≠
      (checked.submission.noncebuf, checked.submission.extranonce2) := by
  intro same
  simp only [Prod.mk.injEq] at same
  have sameShare : submission.share = checked.submission.share := by
    rw [Submission.share, Submission.share, same.1, same.2]
  rcases remembers_of_run run _ _ submitted with ⟨job, jobAt, shareMem⟩
  rw [checked.jobAt, Option.some.injEq] at jobAt
  rw [← jobAt, sameShare] at shareMem
  exact checked.fresh shareMem

/-! ## Messages -/

/-- The job messages sent since the last clean one, which is among them. -/
def noteJob (messages : List JSON) : Effect → List JSON
  | .sendMessage msg =>
      match announcement msg with
      | some (_, true) => [msg]
      | some (_, false) => messages ++ [msg]
      | none => messages
  | _ => messages

/-- The job messages of a log that are not superseded by a clean one. -/
def live (effects : List Effect) : List JSON :=
  effects.foldl noteJob []

/-- The last of the messages that announces a job under that id. -/
def announced (messages : List JSON) (jobid : StdString) : Option JSON :=
  messages.reverse.find? fun msg => (announcement msg).any (·.1 = jobid)

/-- The extranonce of the last subscription. -/
def noteExtranonce (noted : Option StdString) : Effect → Option StdString
  | .sendMessage msg => (announcedExtranonce msg).or noted
  | _ => noted

/-- The extranonce that the last response to a subscription carries. -/
def lastExtranonce (effects : List Effect) : Option StdString :=
  effects.foldl noteExtranonce none

theorem live_append_of_silent {emitted effects : List Effect}
    (silent : ∀ effect ∈ effects, effect.Silent) : live (emitted ++ effects) = live emitted := by
  rw [live, List.foldl_append]
  apply List.foldlRecOn effects noteJob (motive := (· = live emitted)) rfl
  rintro messages rfl effect effectMem
  have quiet := silent effect effectMem
  cases effect with
  | sendMessage msg => simp only [noteJob, quiet.1]
  | _ => rfl

theorem lastExtranonce_append_of_silent {emitted effects : List Effect}
    (silent : ∀ effect ∈ effects, effect.Silent) :
    lastExtranonce (emitted ++ effects) = lastExtranonce emitted := by
  rw [lastExtranonce, List.foldl_append]
  apply List.foldlRecOn effects noteExtranonce (motive := (· = lastExtranonce emitted)) rfl
  rintro noted rfl effect effectMem
  have quiet := silent effect effectMem
  cases effect with
  | sendMessage msg => simp only [noteExtranonce, quiet.2, Option.none_or]
  | _ => rfl

/-- The message that hands out a job. -/
structure Handout where
  jobid : UInt32
  job : Job
  branch : List BinaryData
  clean : Bool

def Handout.message (handout : Handout) : JSON :=
  Client.notifyMessage handout.jobid handout.job handout.branch handout.clean

/-- The job under an id is the job of the last live message with that id. -/
structure Handout.Covers (effects : List Effect) (client : Client) (id : UInt64) (addr : ℕ)
    (handout : Handout) : Prop where
  message : announced (live effects) (Client.hexString handout.jobid.toNat) = some handout.message
  jobid : id = handout.jobid.toUInt64
  sound : handout.job.Sound
  branch : handout.job.branch = some handout.branch
  later : ∃ later, client.heap[addr]? = some later ∧ handout.job.Grows later

/-- Every job that can be submitted to was handed out by a live message. -/
def Client.HandedOut (effects : List Effect) (client : Client) : Prop :=
  ∀ id addr, client.jobs id = some addr →
    ∃ handout : Handout, handout.Covers effects client id addr

theorem Handout.Covers.of_extends {emitted effects : List Effect} {client next : Client}
    {id : UInt64} {addr : ℕ} {handout : Handout} (covers : handout.Covers emitted client id addr)
    (extended : client.Extends next)
    (kept : announced (live effects) (Client.hexString handout.jobid.toNat) =
      announced (live emitted) (Client.hexString handout.jobid.toNat)) :
    handout.Covers effects next id addr := by
  rcases covers.later with ⟨later, laterAt, grows⟩
  rcases extended addr later laterAt with ⟨latest, latestAt, growsMore⟩
  exact ⟨kept.trans covers.message, covers.jobid, covers.sound, covers.branch,
    latest, latestAt, grows.trans growsMore⟩

theorem announcement_notifyMessage (jobid : UInt32) (job : Job) (branch : List BinaryData)
    (clean : Bool) :
    announcement (Client.notifyMessage jobid job branch clean) =
      some (Client.hexString jobid.toNat, clean) :=
  rfl

/-- Ids are written differently. -/
theorem hexString_injective {left right : ℕ}
    (same : Client.hexString left = Client.hexString right) : left = right := by
  have numeral : ∀ number, HexText.numeral? (Client.hexString number) = some number := by
    intro number
    unfold Client.hexString
    split
    · rename_i zero
      subst zero
      rfl
    · rw [HexText.numeral?_map_digit, List.reverse_reverse, Nat.ofDigits_digits]
      intro digit digitMem
      exact Nat.digits_lt_base (by decide) (List.mem_reverse.mp digitMem)
  have numbers := numeral left
  rw [same, numeral right, Option.some.injEq] at numbers
  exact numbers.symm

theorem live_append_notify (emitted : List Effect) (jobid : UInt32) (job : Job)
    (branch : List BinaryData) (clean : Bool) :
    live (emitted ++ [.sendMessage (Client.notifyMessage jobid job branch clean)]) =
      (if clean then [] else live emitted) ++ [Client.notifyMessage jobid job branch clean] := by
  simp only [live, List.foldl_append, List.foldl_cons, List.foldl_nil, noteJob,
    announcement_notifyMessage]
  cases clean <;> rfl

theorem announced_append_notify (messages : List JSON) (jobid : UInt32) (job : Job)
    (branch : List BinaryData) (clean : Bool) (id : StdString) :
    announced (messages ++ [Client.notifyMessage jobid job branch clean]) id =
      if Client.hexString jobid.toNat = id then some (Client.notifyMessage jobid job branch clean)
      else announced messages id := by
  simp only [announced, List.reverse_append, List.reverse_singleton, List.singleton_append,
    List.find?_cons, announcement_notifyMessage, Option.any_some]
  by_cases same : Client.hexString jobid.toNat = id
  · simp [same]
  · simp [same]

/-- The job under a fresh id is handed out by the message that announces it. -/
theorem handedOut_of_sendJob {env : Env} {emitted : List Effect} {client : Client} {clean : Bool}
    {job : Job} {branch : List BinaryData} (handedOut : client.HandedOut emitted)
    (issued : job.Issued env.work client.diff) (branchEq : job.branch = some branch) :
    ((if clean then client.cleanJobs else client).addJob job).HandedOut
      (emitted ++ [.sendMessage (Client.notifyMessage client.jobid job branch clean)]) := by
  have kept := extends_of_move (.sendJob client clean issued branchEq)
  intro id addr pointer
  by_cases fresh : id = client.jobid.toUInt64
  · have placed : addr = client.heap.length := by
      cases clean <;>
        simpa [addJob, cleanJobs, fresh, eq_comm] using pointer
    have jobAt : ((if clean then client.cleanJobs else client).addJob job).heap[addr]? =
        some job := by
      cases clean <;> simp [addJob, cleanJobs, placed]
    refine ⟨⟨client.jobid, job, branch, clean⟩, ?_, fresh, issued.toSound, branchEq,
      job, jobAt, .refl job⟩
    rw [live_append_notify, announced_append_notify, if_pos rfl]
    rfl
  · cases clean with
    | true => simp [addJob, cleanJobs, fresh] at pointer
    | false =>
        rw [if_neg (by decide)] at pointer
        simp only [addJob, Function.update_of_ne fresh] at pointer
        rcases handedOut id addr pointer with ⟨handout, covers⟩
        refine ⟨handout, covers.of_extends kept ?_⟩
        have other : Client.hexString client.jobid.toNat ≠
            Client.hexString handout.jobid.toNat := by
          intro same
          apply fresh
          rw [covers.jobid, UInt32.toNat_inj.mp (hexString_injective same)]
        rw [live_append_notify, announced_append_notify, if_neg other]
        rfl

theorem handedOut_of_move {env : Env} {emitted effects : List Effect} {client next : Client}
    (handedOut : client.HandedOut emitted) (move : Client.Move env client effects next) :
    next.HandedOut (emitted ++ effects) := by
  have kept := extends_of_move move
  intro id addr pointer
  cases move with
  | adjust adjusts silent =>
      rw [adjusts.jobs] at pointer
      rcases handedOut id addr pointer with ⟨handout, covers⟩
      exact ⟨handout, covers.of_extends kept (by simp [live_append_of_silent silent])⟩
  | enlist username password found =>
      rcases handedOut id addr pointer with ⟨handout, covers⟩
      exact ⟨handout, covers.of_extends kept (by simp [live, noteJob])⟩
  | subscribe msg extranonce =>
      rcases handedOut id addr pointer with ⟨handout, covers⟩
      have quiet : announcement (Client.subscribeResponse msg extranonce) = none := rfl
      exact ⟨handout, covers.of_extends kept (by simp [live, noteJob, quiet])⟩
  | sendJob clean issued branchEq =>
      exact handedOut_of_sendJob handedOut issued branchEq id addr pointer
  | submitShare share jobAt =>
      rcases handedOut id addr pointer with ⟨handout, covers⟩
      exact ⟨handout, covers.of_extends kept (by simp [live, noteJob])⟩

theorem handedOut_of_run (run : ClientRun setting connection trace last) :
    last.HandedOut (log trace) :=
  invariant_of_run (fun log client => client.HandedOut log) (fun _ => True)
    run (fun _ _ => trivial) (by simp [Client.HandedOut, Client.new])
    (fun _ handedOut move => handedOut_of_move handedOut move)

/-- The client has the extranonce it was last told. -/
theorem extranonce_of_run (run : ClientRun setting connection trace last) {text : StdString}
    (told : lastExtranonce (log trace) = some text) :
    text = Util.binToASCII (serialize last.extranonce) := by
  refine invariant_of_run (fun log client => ∀ text, lastExtranonce log = some text →
    text = Util.binToASCII (serialize client.extranonce)) (fun _ => True) run (fun _ _ => trivial)
      (by simp [lastExtranonce]) ?_ text told
  intro env emitted effects client next _ held move text told
  cases move with
  | adjust adjusts silent =>
      rw [lastExtranonce_append_of_silent silent] at told
      rw [adjusts.extranonce]
      exact held text told
  | enlist username password found =>
      exact held text (by simpa [lastExtranonce, noteExtranonce] using told)
  | subscribe msg extranonce =>
      have announced : announcedExtranonce (Client.subscribeResponse msg extranonce) =
        some (Util.binToASCII (serialize extranonce)) := rfl
      simp [lastExtranonce, noteExtranonce, announced] at told
      exact told.symm
  | @sendJob clean job branch issued branchEq =>
      have quiet : announcedExtranonce (Client.notifyMessage client.jobid job branch clean) = none :=
        rfl
      have toldBefore : lastExtranonce emitted = some text := by
        simpa [lastExtranonce, noteExtranonce, quiet] using told
      have same : ((if clean then client.cleanJobs else client).addJob job).extranonce =
          client.extranonce := by
        cases clean <;> rfl
      rw [same]
      exact held text toldBefore
  | submitShare share jobAt =>
      exact held text (by simpa [lastExtranonce, noteExtranonce] using told)

theorem Sample.supplied_opening {trace : List ClientEntry} {last : Client}
    (replayed : replay (Client.step (Sample.setting (Sample.hash 2)))
      (Client.new Sample.config Sample.connection) Sample.opening = some (trace, last)) :
    Supplied trace (Notifiable (Sample.hash 2)) := by
  refine supplied_of_replay ?_ replayed
  simp [Sample.opening, Sample.easyEnv, Sample.env, Sample.template_notifiable]

end Poolserver.Stratum
