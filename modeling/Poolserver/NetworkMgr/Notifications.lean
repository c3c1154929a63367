import Poolserver.NetworkMgr.Templates

/-!
# New-block notifications

`BlockCheck` advances `_blockHeight` before it fetches a template. Where the fetch
finds no usable reply, the notification that follows carries the previous template,
and no later check takes the new height for news again.
-/

namespace Poolserver.NetworkMgr

open Poolserver.Bitcoin RunTrace

variable {setting : Setting} {mgr next : NetworkMgr} {effects : List Effect} {trace : List Entry}
  {last : NetworkMgr}

/-- The template stored since the last time the height was raised. -/
def storedSinceRaise (stored : Option Block) : Effect → Option Block
  | .raise _ => none
  | .store _ _ block => some block
  | _ => stored

/--
Every notification of a new block carries a template, the one stored since the height
was last raised; `stored` is that template in front of the effects.
-/
def NotifiesFresh (stored : Option Block) : List Effect → Prop
  | [] => True
  | effect :: effects =>
      (∀ tmpl, effect = .notify tmpl true → tmpl.isSome ∧ tmpl = stored) ∧
        NotifiesFresh (storedSinceRaise stored effect) effects

/-- Deciding is running over the effects. -/
def NotifiesFresh.decide :
    (effects : List Effect) → (stored : Option Block) → Decidable (NotifiesFresh stored effects)
  | [], _ => isTrue trivial
  | effect :: effects, stored =>
      let _ : Decidable (∀ tmpl, effect = .notify tmpl true → tmpl.isSome ∧ tmpl = stored) :=
        match effect with
        | .notify tmpl true => decidable_of_iff (tmpl.isSome ∧ tmpl = stored) (by simp)
        | .notify _ false => isTrue (by simp)
        | .raise _ => isTrue (by simp)
        | .update _ _ => isTrue (by simp)
        | .store _ _ _ => isTrue (by simp)
        | .submit _ => isTrue (by simp)
      let _ := NotifiesFresh.decide effects (storedSinceRaise stored effect)
      inferInstanceAs (Decidable (_ ∧ _))

instance (stored : Option Block) (effects : List Effect) :
    Decidable (NotifiesFresh stored effects) :=
  NotifiesFresh.decide effects stored

/-- The new height was announced although no template was stored for it. -/
def Loses (effects : List Effect) (height : UInt32) : Prop :=
  ∃ earlier daemons tmpl later,
    effects = earlier ++ .raise height :: .update height daemons :: .notify tmpl true :: later

namespace Event

/-- The polls of the check that a call makes. -/
def polls : Event → List Poll
  | blockCheck polls => polls
  | blockNotifyTimerExpired _ => []
  | updateBlockTemplate _ => []
  | submitBlock _ replies =>
      match replies.find? fun reply => accepts reply.1 with
      | none => []
      | some (_, polls) => polls

/-- A check in which a daemon at that height has a usable template. -/
def Works (setting : Setting) (height : UInt32) (event : Event) : Prop :=
  ∃ poll ∈ event.polls, readBlocks poll.getinfo = .ok height ∧
    firstUsable setting height poll.daemons ≠ none

instance (setting : Setting) (height : UInt32) :
    DecidablePred (Works setting height) :=
  fun event => inferInstanceAs (Decidable (∃ poll ∈ event.polls, _ ∧ _))

end Event

/-- Along the polls of a check, every new height comes with a usable template. -/
def Delivers (setting : Setting) (blockHeight : UInt32) : List Poll → Prop
  | [] => True
  | poll :: polls =>
      match readBlocks poll.getinfo with
      | .error _ => Delivers setting blockHeight polls
      | .ok height =>
          if blockHeight < height then
            firstUsable setting height poll.daemons ≠ none ∧
              Delivers setting height polls
          else Delivers setting blockHeight polls

def Delivers.decide (setting : Setting) :
    (polls : List Poll) → (blockHeight : UInt32) →
      Decidable (Delivers setting blockHeight polls)
  | [], _ => isTrue trivial
  | poll :: polls, blockHeight =>
      match heightEq : readBlocks poll.getinfo with
      | .error _ =>
          let _ := Delivers.decide setting polls blockHeight
          decidable_of_iff (Delivers setting blockHeight polls)
            (by simp [Delivers, heightEq])
      | .ok height =>
          let _ := Delivers.decide setting polls blockHeight
          let _ := Delivers.decide setting polls height
          decidable_of_iff
            (if blockHeight < height then
              firstUsable setting height poll.daemons ≠ none ∧
                Delivers setting height polls
            else Delivers setting blockHeight polls)
            (by simp [Delivers, heightEq])

instance (setting : Setting) (blockHeight : UInt32) (polls : List Poll) :
    Decidable (Delivers setting blockHeight polls) :=
  Delivers.decide setting polls blockHeight

/-- Every call of a run delivers the templates of the new heights it finds. -/
def AlwaysDelivers (setting : Setting) (trace : List Entry) : Prop :=
  ∀ entry ∈ trace,
    Delivers setting entry.before.blockHeight entry.event.polls

/--
No new-block notification is lost: each carries a template stored after the height was
raised, and a height announced without one is announced again by a later check that
finds a working daemon.
-/
structure KeepsNotifications (setting : Setting) (trace : List Entry) : Prop where
  fresh : ∀ entry ∈ trace, NotifiesFresh none entry.output
  repeated : ∀ {earlier entry between working later height},
    trace = earlier ++ entry :: (between ++ working :: later) → Loses entry.output height →
    working.before.blockHeight = height →
    working.event.Works setting height →
    ∃ again ∈ between ++ [working], ∃ block, .notify (some block) true ∈ again.output

theorem blockHeight_of_update {daemons : List Daemon}
    (updated : updateBlockTemplate setting mgr daemons = (next, effects)) :
    next.blockHeight = mgr.blockHeight := by
  rcases updateBlockTemplate_eq updated with ⟨_, rfl, _⟩ | ⟨_, _, _, rfl, _⟩ <;> rfl

theorem notifiesFresh_append {stored : Option Block} {left right : List Effect} :
    NotifiesFresh stored (left ++ right) ↔
      NotifiesFresh stored left ∧ NotifiesFresh (left.foldl storedSinceRaise stored) right := by
  induction left generalizing stored with
  | nil => simp [NotifiesFresh]
  | cons effect left ih =>
      rw [List.cons_append, NotifiesFresh, ih, NotifiesFresh, and_assoc, List.foldl_cons]

/-- Where every notification is fresh, no height is announced without a template. -/
theorem not_loses_of_notifiesFresh {stored : Option Block} {height : UInt32}
    (fresh : NotifiesFresh stored effects) : ¬Loses effects height := by
  rintro ⟨earlier, daemons, tmpl, later, rfl⟩
  rw [notifiesFresh_append] at fresh
  rcases fresh with ⟨_, _, _, notified, _⟩
  rcases notified tmpl rfl with ⟨present, absent⟩
  simp [absent, storedSinceRaise] at present

/-! ## Checks -/

/-- A turn that raises the height, in front of the turns after it. -/
theorem notifiesFresh_turn {daemons : List Daemon} {height : UInt32} {stored : Option Block}
    {updated rest : List Effect}
    (updates : updateBlockTemplate setting { mgr with blockHeight := height } daemons =
      (next, updated)) :
    NotifiesFresh stored ((.raise height :: updated ++ [next.blockNotifySend true]) ++ rest) ↔
      firstUsable setting height daemons ≠ none ∧
        NotifiesFresh next.curBlockTmpl rest := by
  rcases updateBlockTemplate_eq updates with
    ⟨unusable, rfl, rfl⟩ | ⟨daemon, block, usable, rfl, rfl⟩
  · have lost : ∀ tmpl : Option Block, ¬(tmpl.isSome ∧ tmpl = none) := by
      rintro tmpl ⟨present, rfl⟩
      simp at present
    simp only [List.cons_append, List.nil_append, NotifiesFresh, storedSinceRaise, unusable,
      blockNotifySend, Effect.notify.injEq, and_true, forall_eq', reduceCtorEq, false_imp_iff,
      implies_true, true_and, ne_eq, not_true_eq_false, false_and, iff_false, not_and]
    intro fresh
    exact (lost _ fresh).elim
  · simp [NotifiesFresh, storedSinceRaise, usable, blockNotifySend]

theorem notifiesFresh_blockCheck {polls : List Poll} {stored : Option Block}
    (checked : blockCheck setting mgr polls = (next, effects)) :
    NotifiesFresh stored effects ↔ Delivers setting mgr.blockHeight polls := by
  induction polls generalizing mgr next effects stored with
  | nil =>
      simp only [blockCheck, Prod.mk.injEq] at checked
      rcases checked with ⟨_, rfl⟩
      simp [NotifiesFresh, Delivers]
  | cons poll polls ih =>
      simp only [blockCheck] at checked
      generalize turn : checkDaemon setting mgr poll = checkedOne at checked
      rcases checkedOne with ⟨middle, first⟩
      simp only [Prod.mk.injEq] at checked
      rcases checked with ⟨rfl, rfl⟩
      rcases checkDaemon_eq turn with
        ⟨rfl, rfl, known⟩ | ⟨height, updated, heightEq, higher, updates, rfl⟩
      · rw [List.nil_append, ih rfl, Delivers]
        split
        · rfl
        · rename_i height heightEq
          rw [if_neg (known height heightEq)]
      · rw [notifiesFresh_turn updates, ih rfl, blockHeight_of_update updates]
        simp only [Delivers, heightEq, if_pos higher]

/-- Calls without a check announce no new block. -/
theorem notifiesFresh_update {daemons : List Daemon} {stored : Option Block} {rest : List Effect}
    (updated : updateBlockTemplate setting mgr daemons = (next, effects))
    (quiet : ∀ stored, NotifiesFresh stored rest) : NotifiesFresh stored (effects ++ rest) := by
  rcases updateBlockTemplate_eq updated with ⟨_, _, rfl⟩ | ⟨daemon, block, _, _, rfl⟩
  · simp [NotifiesFresh, quiet]
  · simp [NotifiesFresh, quiet]

theorem notifiesFresh_submitBlock {block : Block} {replies : List (Reply × List Poll)}
    {result : Bool} {stored : Option Block}
    (submitted : submitBlock setting mgr block replies = (result, next, effects)) :
    NotifiesFresh stored effects ↔
      Delivers setting mgr.blockHeight (Event.submitBlock block replies).polls := by
  induction replies generalizing result next effects stored with
  | nil =>
      simp only [submitBlock, Prod.mk.injEq] at submitted
      rcases submitted with ⟨_, _, rfl⟩
      simp [NotifiesFresh, Delivers, Event.polls]
  | cons head replies ih =>
      rcases head with ⟨reply, polls⟩
      unfold submitBlock at submitted
      split at submitted
      · rename_i accepted
        simp only [Prod.mk.injEq] at submitted
        rcases submitted with ⟨_, _, rfl⟩
        have fresh := @notifiesFresh_blockCheck setting mgr _ _ polls (storedSinceRaise stored
          (.submit (submitBlockParam block))) rfl
        simp [NotifiesFresh, fresh, Event.polls, accepted]
      · rename_i refused
        simp only [Prod.mk.injEq] at submitted
        rcases submitted with ⟨_, _, rfl⟩
        have fresh := @ih _ _ _ (storedSinceRaise stored (.submit (submitBlockParam block))) rfl
        simpa [NotifiesFresh, Event.polls, refused] using fresh

theorem notifiesFresh_step {event : Event}
    (stepped : step setting mgr event = some (next, effects)) :
    NotifiesFresh none effects ↔ Delivers setting mgr.blockHeight event.polls := by
  cases event with
  | blockCheck polls => exact notifiesFresh_blockCheck (Option.some.inj stepped)
  | blockNotifyTimerExpired daemons =>
      simp only [step, blockNotifyTimerExpired, Option.some.injEq, Prod.mk.injEq] at stepped
      rcases stepped with ⟨_, rfl⟩
      simp only [Event.polls, Delivers, iff_true]
      exact notifiesFresh_update rfl (by simp [NotifiesFresh, blockNotifySend])
  | updateBlockTemplate daemons =>
      have quiet : ∀ stored, NotifiesFresh stored [] := fun _ => trivial
      simpa [Event.polls, Delivers] using notifiesFresh_update (Option.some.inj stepped) quiet
  | submitBlock block replies =>
      have submitted := Option.some.inj stepped
      exact notifiesFresh_submitBlock (Prod.ext rfl submitted)

/--
Along every run, the notifications of new blocks are kept exactly if every call that
finds a new height also finds a usable template for it.
-/
theorem keepsNotifications_iff (run : Run setting trace last) :
    KeepsNotifications setting trace ↔ AlwaysDelivers setting trace := by
  have perEntry : ∀ entry ∈ trace, NotifiesFresh none entry.output ↔
      Delivers setting entry.before.blockHeight entry.event.polls := by
    intro entry entryMem
    rcases run.before_of_mem entryMem with ⟨_, _, _, _, stepped⟩
    exact notifiesFresh_step stepped
  constructor
  · intro keeps entry entryMem
    exact (perEntry entry entryMem).mp (keeps.fresh entry entryMem)
  · intro delivers
    have fresh : ∀ entry ∈ trace, NotifiesFresh none entry.output :=
      fun entry entryMem => (perEntry entry entryMem).mpr (delivers entry entryMem)
    refine ⟨fresh, ?_⟩
    intro earlier entry between working later height traceEq loses
    exact (not_loses_of_notifiesFresh (fresh entry (by simp [traceEq])) loses).elim

theorem keepsNotifications_sample :
    ∃ trace last, Run Sample.setting trace last ∧ log trace ≠ [] ∧
      KeepsNotifications Sample.setting trace := by
  have replayed : ∃ result ∈ replay (step Sample.setting) new
      [Sample.check 100 100, Sample.check 101 101], log result.1 ≠ [] ∧
        ∀ entry ∈ result.1, Delivers Sample.setting entry.before.blockHeight
          entry.event.polls := by
    decide +kernel
  rcases replayed with ⟨⟨trace, last⟩, replayed, nonempty, delivers⟩
  have run : Run Sample.setting trace last := .ofReplay replayed
  exact ⟨trace, last, run, nonempty, (keepsNotifications_iff run).mpr delivers⟩

/-- A check finds a new block on a daemon that cannot deliver a template; the next check can. -/
theorem exists_lost_notification :
    ∃ trace last, Run Sample.setting trace last ∧ ¬KeepsNotifications Sample.setting trace ∧
      ∃ working ∈ trace, working.event.Works Sample.setting 101 ∧
        working.before.blockHeight = 101 ∧ working.output = [] := by
  have replayed : ∃ result ∈ replay (step Sample.setting) new
      [Sample.check 100 100, Sample.failingCheck 101, Sample.check 101 101],
      (¬∀ entry ∈ result.1, NotifiesFresh none entry.output) ∧
        ∃ working ∈ result.1, working.event.Works Sample.setting 101 ∧
          working.before.blockHeight = 101 ∧ working.output = [] := by
    decide +kernel
  rcases replayed with ⟨⟨trace, last⟩, replayed, stale, ignored⟩
  exact ⟨trace, last, .ofReplay replayed, fun keeps => stale keeps.fresh, ignored⟩

end Poolserver.NetworkMgr
