import Poolserver.NetworkMgr.NetworkMgr

/-!
# Which templates are stored

A template of height `h` extends a chain of height `h - 1`. `UpdateBlockTemplate`
compares that `h` with `_blockHeight`, which is the height of a chain, and so lets the
template of a daemon through that is one block behind.
-/

namespace Poolserver.NetworkMgr

open Poolserver.Bitcoin RunTrace

variable {setting : Setting} {mgr next : NetworkMgr} {effects : List Effect} {trace : List Entry}
  {last : NetworkMgr}

/-- The effects of a run in the order in which they happened. -/
def log (trace : List Entry) : List Effect :=
  trace.flatMap fun entry => entry.output

/-! ## What a call can do -/

/-- One move of a call. -/
inductive Move (setting : Setting) : NetworkMgr → List Effect → NetworkMgr → Prop where
  | update {mgr next : NetworkMgr} {effects : List Effect} (daemons : List Daemon)
      (updated : updateBlockTemplate setting mgr daemons = (next, effects)) :
      Move setting mgr effects next
  | raise {mgr : NetworkMgr} {height : UInt32} (higher : mgr.blockHeight < height) :
      Move setting mgr [.raise height] { mgr with blockHeight := height }
  | notify (mgr : NetworkMgr) (newBlock : Bool) :
      Move setting mgr [mgr.blockNotifySend newBlock] mgr
  | submit (mgr : NetworkMgr) (param : StdString) : Move setting mgr [.submit param] mgr

/-- A call of `UpdateBlockTemplate` leaves everything as it is, or stores a usable template. -/
theorem updateBlockTemplate_eq {daemons : List Daemon}
    (updated : updateBlockTemplate setting mgr daemons = (next, effects)) :
    (firstUsable setting mgr.blockHeight daemons = none ∧ next = mgr ∧
      effects = [.update mgr.blockHeight daemons]) ∨
    ∃ daemon block,
      firstUsable setting mgr.blockHeight daemons = some (daemon, block) ∧
      next = { mgr with curBlockTmpl := some block } ∧
      effects = [.update mgr.blockHeight daemons, .store mgr.blockHeight daemon block] := by
  unfold updateBlockTemplate at updated
  cases used : firstUsable setting mgr.blockHeight daemons with
  | none =>
      simp only [used, Prod.mk.injEq] at updated
      exact Or.inl ⟨rfl, updated.1.symm, updated.2.symm⟩
  | some found =>
      rcases found with ⟨daemon, block⟩
      simp only [used, Prod.mk.injEq] at updated
      exact Or.inr ⟨daemon, block, rfl, updated.1.symm, updated.2.symm⟩

/-- A turn of `BlockCheck` does nothing, or raises, updates and notifies. -/
theorem checkDaemon_eq {poll : Poll}
    (checked : checkDaemon setting mgr poll = (next, effects)) :
    (next = mgr ∧ effects = [] ∧
      ∀ height, readBlocks poll.getinfo = .ok height → ¬mgr.blockHeight < height) ∨
    ∃ height updated,
      readBlocks poll.getinfo = .ok height ∧ mgr.blockHeight < height ∧
      updateBlockTemplate setting { mgr with blockHeight := height } poll.daemons =
        (next, updated) ∧
      effects = .raise height :: updated ++ [next.blockNotifySend true] := by
  unfold checkDaemon at checked
  split at checked
  · rename_i failed
    simp only [Prod.mk.injEq] at checked
    exact Or.inl ⟨checked.1.symm, checked.2.symm, by simp [failed]⟩
  · rename_i height heightEq
    split at checked
    · rename_i higher
      simp only [Prod.mk.injEq] at checked
      rcases checked with ⟨rfl, rfl⟩
      exact Or.inr ⟨height, _, heightEq, higher, rfl, rfl⟩
    · rename_i known
      simp only [Prod.mk.injEq] at checked
      refine Or.inl ⟨checked.1.symm, checked.2.symm, ?_⟩
      intro other otherEq
      rw [heightEq, Except.ok.injEq] at otherEq
      rwa [← otherEq]

theorem checkDaemon_path {poll : Poll}
    (checked : checkDaemon setting mgr poll = (next, effects)) :
    Path (Move setting) mgr effects next := by
  rcases checkDaemon_eq checked with
    ⟨rfl, rfl, _⟩ | ⟨height, updated, _, higher, updates, rfl⟩
  · exact .refl next
  · have raises : Path (Move setting) mgr [.raise height] _ := .single (.raise higher)
    exact (raises.snoc (.update poll.daemons updates)).snoc (.notify next true)

theorem blockCheck_path {polls : List Poll}
    (checked : blockCheck setting mgr polls = (next, effects)) :
    Path (Move setting) mgr effects next := by
  induction polls generalizing mgr next effects with
  | nil =>
      simp only [blockCheck, Prod.mk.injEq] at checked
      rcases checked with ⟨rfl, rfl⟩
      exact .refl mgr
  | cons poll polls ih =>
      simp only [blockCheck, Prod.mk.injEq] at checked
      rcases checked with ⟨rfl, rfl⟩
      exact (checkDaemon_path rfl).trans (ih rfl)

theorem submitBlock_path {block : Block} {replies : List (Reply × List Poll)} {result : Bool}
    (submitted : submitBlock setting mgr block replies = (result, next, effects)) :
    Path (Move setting) mgr effects next := by
  induction replies generalizing result next effects with
  | nil =>
      simp only [submitBlock, Prod.mk.injEq] at submitted
      rcases submitted with ⟨_, rfl, rfl⟩
      exact .refl mgr
  | cons head replies ih =>
      rcases head with ⟨reply, polls⟩
      have asked : Path (Move setting) mgr [.submit (submitBlockParam block)] mgr :=
        .single (.submit mgr _)
      unfold submitBlock at submitted
      split at submitted
      · simp only [Prod.mk.injEq] at submitted
        rcases submitted with ⟨_, rfl, rfl⟩
        exact asked.trans (blockCheck_path rfl)
      · simp only [Prod.mk.injEq] at submitted
        rcases submitted with ⟨_, rfl, rfl⟩
        exact asked.trans (ih rfl)

theorem step_path {event : Event} (stepped : step setting mgr event = some (next, effects)) :
    Path (Move setting) mgr effects next := by
  cases event with
  | blockCheck polls => exact blockCheck_path (Option.some.inj stepped)
  | blockNotifyTimerExpired daemons =>
      simp only [step, blockNotifyTimerExpired, Option.some.injEq, Prod.mk.injEq] at stepped
      rcases stepped with ⟨rfl, rfl⟩
      have called : Path (Move setting) mgr _ _ := .single (.update daemons rfl)
      exact called.snoc (.notify _ false)
  | updateBlockTemplate daemons => exact .single (.update daemons (Option.some.inj stepped))
  | submitBlock block replies =>
      have submitted := Option.some.inj stepped
      exact submitBlock_path (Prod.ext rfl submitted)

/-! ## Stored templates -/

/-- A daemon's template has the height of the block that extends the daemon's chain. -/
def Daemon.Consistent (daemon : Daemon) : Prop :=
  match daemon.reply with
  | .error _ => True
  | .ok response =>
      match response.intMember "height" with
      | .error _ => True
      | .ok height => height.toInt = daemon.blocks + 1

instance : DecidablePred Daemon.Consistent
  | ⟨_, .error _, _⟩ => isTrue trivial
  | ⟨blocks, .ok response, _⟩ =>
      match heightEq : response.intMember "height" with
      | .error _ => isTrue (by simp [Daemon.Consistent, heightEq])
      | .ok height =>
          decidable_of_iff (height.toInt = blocks + 1) (by simp [Daemon.Consistent, heightEq])

namespace Effect

/-- All daemons asked for a template are consistent. -/
def Consistent : Effect → Prop
  | update _ daemons => ∀ daemon ∈ daemons, daemon.Consistent
  | _ => True

/-- A stored template extends a chain at least as high as `_blockHeight`. -/
def Fresh : Effect → Prop
  | store height daemon _ => (height.toNat : ℤ) ≤ daemon.blocks
  | _ => True

/-- The daemon whose template a call uses is not exactly one block behind `_blockHeight`. -/
def NotOneBehind (setting : Setting) : Effect → Prop
  | update height daemons =>
      match firstUsable setting height daemons with
      | none => True
      | some (daemon, _) => daemon.blocks + 1 ≠ height.toNat
  | _ => True

instance : DecidablePred Consistent
  | update _ daemons => inferInstanceAs (Decidable (∀ daemon ∈ daemons, daemon.Consistent))
  | raise _ => isTrue trivial
  | store _ _ _ => isTrue trivial
  | notify _ _ => isTrue trivial
  | submit _ => isTrue trivial

instance : DecidablePred Fresh
  | store height daemon _ => inferInstanceAs (Decidable ((height.toNat : ℤ) ≤ daemon.blocks))
  | raise _ => isTrue trivial
  | update _ _ => isTrue trivial
  | notify _ _ => isTrue trivial
  | submit _ => isTrue trivial

instance (setting : Setting) : DecidablePred (NotOneBehind setting)
  | update height daemons =>
      match usable : firstUsable setting height daemons with
      | none => isTrue (by simp [NotOneBehind, usable])
      | some (daemon, _) =>
          decidable_of_iff (daemon.blocks + 1 ≠ height.toNat) (by simp [NotOneBehind, usable])
  | raise _ => isTrue trivial
  | store _ _ _ => isTrue trivial
  | notify _ _ => isTrue trivial
  | submit _ => isTrue trivial

end Effect

/-- The stored templates of a log are those that its calls found usable. -/
structure Accounts (setting : Setting) (effects : List Effect) : Prop where
  stored : ∀ {height daemon block}, .store height daemon block ∈ effects →
    ∃ daemons, .update height daemons ∈ effects ∧
      firstUsable setting height daemons = some (daemon, block)
  used : ∀ {height daemons daemon block}, .update height daemons ∈ effects →
    firstUsable setting height daemons = some (daemon, block) →
    .store height daemon block ∈ effects

theorem Accounts.append {earlier later : List Effect} (first : Accounts setting earlier)
    (second : Accounts setting later) : Accounts setting (earlier ++ later) := by
  constructor
  · intro height daemon block stored
    rcases List.mem_append.mp stored with old | new
    · rcases first.stored old with ⟨daemons, update, usable⟩
      exact ⟨daemons, List.mem_append_left _ update, usable⟩
    · rcases second.stored new with ⟨daemons, update, usable⟩
      exact ⟨daemons, List.mem_append_right _ update, usable⟩
  · intro height daemons daemon block update usable
    rcases List.mem_append.mp update with old | new
    · exact List.mem_append_left _ (first.used old usable)
    · exact List.mem_append_right _ (second.used new usable)

/-- What is said of stored templates and what is said of the calls that store them come to the same. -/
theorem Accounts.forall_iff (accounts : Accounts setting effects)
    {Holds Allows : Effect → Prop}
    (elsewhere : ∀ effect, (∀ height daemon block, effect ≠ .store height daemon block) →
      Holds effect)
    (otherwise : ∀ effect, (∀ height daemons daemon block, effect = .update height daemons →
      firstUsable setting height daemons ≠ some (daemon, block)) → Allows effect)
    (agree : ∀ {height daemons daemon block}, .update height daemons ∈ effects →
      firstUsable setting height daemons = some (daemon, block) →
      .store height daemon block ∈ effects →
      (Holds (.store height daemon block) ↔ Allows (.update height daemons))) :
    (∀ effect ∈ effects, Holds effect) ↔ ∀ effect ∈ effects, Allows effect := by
  constructor
  · intro holds effect effectMem
    by_cases uses : ∃ height daemons daemon block, effect = .update height daemons ∧
        firstUsable setting height daemons = some (daemon, block)
    · rcases uses with ⟨height, daemons, daemon, block, rfl, usable⟩
      have stored := accounts.used effectMem usable
      exact (agree effectMem usable stored).mp (holds _ stored)
    · apply otherwise
      intro height daemons daemon block isUpdate usable
      exact uses ⟨height, daemons, daemon, block, isUpdate, usable⟩
  · intro allows effect effectMem
    by_cases stores : ∃ height daemon block, effect = .store height daemon block
    · rcases stores with ⟨height, daemon, block, rfl⟩
      rcases accounts.stored effectMem with ⟨daemons, called, usable⟩
      exact (agree called usable effectMem).mpr (allows _ called)
    · apply elsewhere
      intro height daemon block isStore
      exact stores ⟨height, daemon, block, isStore⟩

theorem accounts_of_move (move : Move setting mgr effects next) :
    Accounts setting effects := by
  cases move with
  | update daemons updated =>
      rcases updateBlockTemplate_eq updated with
        ⟨unusable, _, rfl⟩ | ⟨daemon, block, usable, _, rfl⟩
      · constructor
        · simp
        · intro height others daemon block called usable
          simp only [List.mem_singleton, Effect.update.injEq] at called
          rcases called with ⟨rfl, rfl⟩
          rw [unusable] at usable
          simp at usable
      · constructor
        · intro height other stored storedMem
          simp only [List.mem_cons, reduceCtorEq, Effect.store.injEq, List.not_mem_nil, or_false,
            false_or] at storedMem
          rcases storedMem with ⟨rfl, rfl, rfl⟩
          exact ⟨daemons, by simp, usable⟩
        · intro height others other otherBlock called otherUsable
          simp only [List.mem_cons, Effect.update.injEq, reduceCtorEq, List.not_mem_nil,
            or_false] at called
          rcases called with ⟨rfl, rfl⟩
          rw [usable, Option.some.injEq, Prod.mk.injEq] at otherUsable
          rcases otherUsable with ⟨rfl, rfl⟩
          simp
  | raise higher => exact ⟨by simp, by simp⟩
  | notify newBlock => exact ⟨by simp [blockNotifySend], by simp [blockNotifySend]⟩
  | submit param => exact ⟨by simp, by simp⟩

theorem accounts_of_run (run : Run setting trace last) :
    Accounts setting (log trace) := by
  refine run.invariant (fun trace _ => Accounts setting (log trace))
    (fun _ => True) (fun _ _ => trivial) ⟨by simp [log], by simp [log]⟩ ?_
  intro trace entry held _ stepped
  have path := (step_path stepped).invariant (fun log _ =>
    Accounts setting log) (fun held move => held.append (accounts_of_move move)) held
  simpa [log] using path

/-- A template that is not skipped is not below `_blockHeight`. -/
theorem height_of_fetchTemplate {blockHeight : UInt32} {daemon : Daemon} {block : Block}
    (fetched : fetchTemplate setting blockHeight daemon = .ok (some block)) :
    ∃ response height, daemon.reply = .ok response ∧ response.intMember "height" = .ok height ∧
      (blockHeight.toNat : ℤ) ≤ height.toInt := by
  simp only [fetchTemplate, bind_eq_ok] at fetched
  rcases fetched with ⟨response, replyEq, height, heightEq, fetched⟩
  refine ⟨response, height, replyEq, heightEq, ?_⟩
  by_contra low
  rw [if_pos (not_le.mp low)] at fetched
  injection fetched with skipped
  simp at skipped

theorem height_of_firstUsable {blockHeight : UInt32} {daemons : List Daemon} {daemon : Daemon}
    {block : Block} (usable : firstUsable setting blockHeight daemons = some (daemon, block)) :
    daemon ∈ daemons ∧ ∃ response height, daemon.reply = .ok response ∧
      response.intMember "height" = .ok height ∧ (blockHeight.toNat : ℤ) ≤ height.toInt := by
  induction daemons with
  | nil => simp [firstUsable] at usable
  | cons head daemons ih =>
      unfold firstUsable at usable
      split at usable
      · rename_i fetched
        simp only [Option.some.injEq, Prod.mk.injEq] at usable
        rcases usable with ⟨rfl, rfl⟩
        exact ⟨by simp, height_of_fetchTemplate fetched⟩
      · rcases ih usable with ⟨daemonMem, rest⟩
        exact ⟨List.mem_cons_of_mem _ daemonMem, rest⟩

/--
Along every run whose daemons are consistent, every stored template extends a chain at
least as high as `_blockHeight` exactly if no call uses the template of a daemon that is
one block behind.
-/
theorem stored_fresh_iff (run : Run setting trace last)
    (consistent : ∀ effect ∈ log trace, effect.Consistent) :
    (∀ effect ∈ log trace, effect.Fresh) ↔
      ∀ effect ∈ log trace, effect.NotOneBehind setting := by
  have accounts := accounts_of_run run
  have behind : ∀ {height daemons daemon block}, .update height daemons ∈ log trace →
      firstUsable setting height daemons = some (daemon, block) →
      (height.toNat : ℤ) ≤ daemon.blocks + 1 := by
    intro height daemons daemon block called usable
    rcases height_of_firstUsable usable with ⟨daemonMem, response, reported, replyEq, heightEq, high⟩
    have exact := consistent _ called daemon daemonMem
    simp only [Daemon.Consistent, replyEq, heightEq] at exact
    omega
  apply accounts.forall_iff
  · intro effect noStore
    cases effect with
    | store height daemon block => exact absurd rfl (noStore height daemon block)
    | _ => trivial
  · intro effect unused
    cases effect with
    | update height daemons =>
        simp only [Effect.NotOneBehind]
        split
        · trivial
        · rename_i daemon block usable
          exact absurd usable (unused height daemons daemon block rfl)
    | _ => trivial
  · intro height daemons daemon block called usable stored
    have high := behind called usable
    simp only [Effect.Fresh, Effect.NotOneBehind, usable]
    omega

/-- Two daemons, first at one height and then both one block further. -/
theorem stored_fresh_sample :
    ∃ trace last, Run Sample.setting trace last ∧ log trace ≠ [] ∧
      ∀ effect ∈ log trace, effect.Fresh := by
  have replayed : ∃ result ∈ replay (step Sample.setting) new
      [Sample.check 100 100, Sample.check 101 101], log result.1 ≠ [] ∧
      (∀ effect ∈ log result.1, effect.Consistent) ∧
        ∀ effect ∈ log result.1, effect.NotOneBehind Sample.setting := by
    decide +kernel
  rcases replayed with ⟨⟨trace, last⟩, replayed, nonempty, consistent, notBehind⟩
  have run : Run Sample.setting trace last := .ofReplay replayed
  exact ⟨trace, last, run, nonempty, (stored_fresh_iff run consistent).mpr notBehind⟩

/-- The second daemon reports a new block, and the template is fetched from the first one. -/
theorem exists_stale_store :
    ∃ trace last, Run Sample.setting trace last ∧
      (∀ effect ∈ log trace, effect.Consistent) ∧ ¬∀ effect ∈ log trace, effect.Fresh := by
  have replayed : ∃ result ∈ replay (step Sample.setting) new [Sample.check 100 101],
      (∀ effect ∈ log result.1, effect.Consistent) ∧
        ¬∀ effect ∈ log result.1, effect.Fresh := by
    decide +kernel
  rcases replayed with ⟨⟨trace, last⟩, replayed, consistent, stale⟩
  exact ⟨trace, last, .ofReplay replayed, consistent, stale⟩

end Poolserver.NetworkMgr
