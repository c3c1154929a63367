import Poolserver.Lib.CursorReader

/-!
# Computations with a log

A computation that fails or returns is run with a log of what it did on the way, so that facts can
be stated about each step of it. The log is kept where the computation fails. Forgetting the log
turns it into the computation without one; the rules below carry facts about the entries through a
sequence of computations.
-/

universe u v w

/-- A result or a failure, and what was done until then. -/
structure Logged (ω : Type u) (ε : Type v) (α : Type w) where
  log : List ω
  result : Except ε α

namespace Logged

variable {ω : Type u} {ε : Type v} {α β σ : Type w}

instance : Monad (Logged ω ε) where
  pure value := ⟨[], .ok value⟩
  bind first next :=
    match first.result with
    | .ok value => ⟨first.log ++ (next value).log, (next value).result⟩
    | .error exception => ⟨first.log, .error exception⟩

/-- One entry in the log. -/
def note (entry : ω) : Logged ω ε PUnit :=
  ⟨[entry], .ok ⟨⟩⟩

def fail (exception : ε) : Logged ω ε α :=
  ⟨[], .error exception⟩

theorem result_bind (first : Logged ω ε α) (next : α → Logged ω ε β) :
    (first >>= next).result = first.result >>= fun value => (next value).result := by
  rcases first with ⟨log, exception | value⟩ <;> rfl

theorem log_bind_of_ok {first : Logged ω ε α} {value : α} (returns : first.result = .ok value)
    (next : α → Logged ω ε β) : (first >>= next).log = first.log ++ (next value).log := by
  rcases first with ⟨log, exception | found⟩
  · simp at returns
  · rw [Except.ok.inj returns]
    rfl

theorem bind_of_error {first : Logged ω ε α} {exception : ε}
    (fails : first.result = .error exception) (next : α → Logged ω ε β) :
    first >>= next = ⟨first.log, .error exception⟩ := by
  rcases first with ⟨log, failed | value⟩
  · rw [Except.error.inj fails]
    rfl
  · simp at fails

/-! ## Computations that return -/

/-- The computation returns this value, and every entry of its log is good. -/
structure Returns (Good : ω → Prop) (computation : Logged ω ε α) (value : α) : Prop where
  result : computation.result = .ok value
  good : ∀ entry ∈ computation.log, Good entry

variable {Good : ω → Prop}

theorem Returns.pure (value : α) : Returns Good (Pure.pure value : Logged ω ε α) value :=
  ⟨rfl, fun _ entryMem => absurd entryMem List.not_mem_nil⟩

theorem Returns.note {entry : ω} (good : Good entry) :
    Returns Good (Logged.note entry : Logged ω ε PUnit) ⟨⟩ := by
  refine ⟨rfl, ?_⟩
  intro other otherMem
  rw [List.mem_singleton.mp otherMem]
  exact good

theorem Returns.bind {first : Logged ω ε α} {next : α → Logged ω ε β} {value : α} {result : β}
    (returnsFirst : Returns Good first value) (returnsNext : Returns Good (next value) result) :
    Returns Good (first >>= next) result := by
  refine ⟨?_, ?_⟩
  · rw [result_bind, returnsFirst.result]
    exact returnsNext.result
  · intro entry entryMem
    rw [log_bind_of_ok returnsFirst.result, List.mem_append] at entryMem
    rcases entryMem with before | behind
    · exact returnsFirst.good entry before
    · exact returnsNext.good entry behind

/-! ## Computations on a state -/

/-- The computation without its log. -/
def erase (computation : StateT σ (Logged ω ε) α) : StateT σ (Except ε) α :=
  fun state => (computation state).result

theorem erase_pure (value : α) :
    erase (Pure.pure value : StateT σ (Logged ω ε) α) = Pure.pure value := rfl

theorem erase_bind (first : StateT σ (Logged ω ε) α) (next : α → StateT σ (Logged ω ε) β) :
    erase (first >>= next) = erase first >>= fun value => erase (next value) := by
  funext state
  exact result_bind (first state) fun found => next found.1 found.2

/-- Run a computation a fixed number of times and collect the results in order. -/
def times (computation : StateT σ (Logged ω ε) α) : ℕ → StateT σ (Logged ω ε) (List α)
  | 0 => Pure.pure []
  | count + 1 => do
      let value ← computation
      let values ← times computation count
      Pure.pure (value :: values)

theorem erase_times (computation : StateT σ (Logged ω ε) α) (count : ℕ) :
    erase (times computation count) = CursorReader.readMany (erase computation) count := by
  induction count with
  | zero => rfl
  | succ count ih =>
      simp only [times, CursorReader.readMany, erase_bind, ih]
      rfl

/-! ## Computations that fail more often than others -/

/-- What the first computation returns, the second one returns as well. -/
def Within (first second : StateT σ (Except ε) α) : Prop :=
  ∀ state found, first state = .ok found → second state = .ok found

theorem Within.refl (computation : StateT σ (Except ε) α) : Within computation computation :=
  fun _ _ returns => returns

theorem Within.bind {first second : StateT σ (Except ε) α} {next other : α → StateT σ (Except ε) β}
    (within : Within first second) (withinNext : ∀ value, Within (next value) (other value)) :
    Within (first >>= next) (second >>= other) := by
  intro state found returns
  change (first state >>= fun step => next step.1 step.2) = .ok found at returns
  change (second state >>= fun step => other step.1 step.2) = .ok found
  cases ends : first state with
  | error exception =>
      rw [ends] at returns
      cases returns
  | ok step =>
      rw [ends] at returns
      rw [within state step ends]
      exact withinNext step.1 step.2 found returns

theorem Within.readMany {first second : StateT σ (Except ε) α} (within : Within first second)
    (count : ℕ) : Within (CursorReader.readMany first count) (CursorReader.readMany second count) := by
  induction count with
  | zero => exact .refl _
  | succ count ih => exact .bind within fun value => .bind ih fun values => .refl _

/-! ## What holds between a state, a log and the state it leads to -/

/-- A relation that can be carried through a sequence; a failure leads to no state. -/
structure Composes (Link : σ → List ω → Option σ → Prop) : Prop where
  nil : ∀ state, Link state [] (some state)
  append : ∀ {state middle : σ} {log rest : List ω} {last : Option σ},
    Link state log (some middle) → Link middle rest last → Link state (log ++ rest) last

/-- The relation holds of the run of the computation from this state. -/
def FollowsAt (Link : σ → List ω → Option σ → Prop) (computation : StateT σ (Logged ω ε) α)
    (state : σ) : Prop :=
  Link state (computation state).log ((computation state).result.toOption.map Prod.snd)

/-- The relation holds of every run of the computation. -/
def Follows (Link : σ → List ω → Option σ → Prop) (computation : StateT σ (Logged ω ε) α) : Prop :=
  ∀ state, FollowsAt Link computation state

variable {Link : σ → List ω → Option σ → Prop}

theorem Follows.pure (composes : Composes Link) (value : α) :
    Follows Link (Pure.pure value : StateT σ (Logged ω ε) α) :=
  fun state => composes.nil state

theorem FollowsAt.bind (composes : Composes Link) {first : StateT σ (Logged ω ε) α}
    {next : α → StateT σ (Logged ω ε) β} {state : σ} (followsFirst : FollowsAt Link first state)
    (followsNext : ∀ value middle, erase first state = .ok (value, middle) →
      FollowsAt Link (next value) middle) : FollowsAt Link (first >>= next) state := by
  unfold FollowsAt at followsFirst
  change Link state ((first state >>= fun found => next found.1 found.2)).log
    ((first state >>= fun found => next found.1 found.2).result.toOption.map Prod.snd)
  cases ends : (first state).result with
  | error exception =>
      rw [ends] at followsFirst
      rw [bind_of_error ends]
      exact followsFirst
  | ok found =>
      rcases found with ⟨value, middle⟩
      rw [ends] at followsFirst
      rw [log_bind_of_ok ends, result_bind, ends]
      exact composes.append followsFirst (followsNext value middle ends)

theorem Follows.bind (composes : Composes Link) {first : StateT σ (Logged ω ε) α}
    {next : α → StateT σ (Logged ω ε) β} (followsFirst : Follows Link first)
    (followsNext : ∀ value, Follows Link (next value)) : Follows Link (first >>= next) :=
  fun state => (followsFirst state).bind composes fun value middle _ => followsNext value middle

theorem Follows.times (composes : Composes Link) {computation : StateT σ (Logged ω ε) α}
    (follows : Follows Link computation) (count : ℕ) : Follows Link (times computation count) := by
  induction count with
  | zero => exact .pure composes []
  | succ count ih =>
      refine .bind composes follows fun value => ?_
      exact .bind composes ih fun values => .pure composes (value :: values)

end Logged
