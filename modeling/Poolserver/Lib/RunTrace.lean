import Mathlib.Data.List.Basic
import Mathlib.Tactic

/-!
# Runs of partial labelled steps

A step takes a state and an event to a next state and an output, or to nothing
when the event ends the system. A run lists its entries in order, each with the
states before and after, the event and the output, so that properties of a run
can speak about what happened before. `Run.invariant` is the induction rule for
invariants that depend on the history; `Run.split` recovers the step behind any
entry together with the run that led to it, and `Run.split_two` those behind two
entries, one `Before` the other.

A step that is itself a sequence of smaller moves is a `Path`: what each move
preserves, with the labels emitted so far as history, the step preserves.
-/

namespace RunTrace

universe u v w

/-- One step of a run. -/
structure Entry (σ : Type u) (ε : Type v) (ω : Type w) where
  before : σ
  event : ε
  output : ω
  after : σ

variable {σ : Type u} {ε : Type v} {ω : Type w} {step : σ → ε → Option (σ × ω)} {start : σ}

/-- The runs of a partial step function from a start state. -/
inductive Run (step : σ → ε → Option (σ × ω)) (start : σ) : List (Entry σ ε ω) → σ → Prop where
  | nil : Run step start [] start
  | snoc {trace : List (Entry σ ε ω)} {entry : Entry σ ε ω}
      (run : Run step start trace entry.before)
      (moves : step entry.before entry.event = some (entry.after, entry.output)) :
      Run step start (trace ++ [entry]) entry.after

theorem Run.extend {trace : List (Entry σ ε ω)} {state next : σ} {event : ε} {output : ω}
    (run : Run step start trace state) (moves : step state event = some (next, output)) :
    Run step start (trace ++ [⟨state, event, output, next⟩]) next :=
  @Run.snoc σ ε ω step start trace ⟨state, event, output, next⟩ run moves

/-- The run over a list of events, if every step of it is defined. -/
def replay (step : σ → ε → Option (σ × ω)) : σ → List ε → Option (List (Entry σ ε ω) × σ)
  | state, [] => some ([], state)
  | state, event :: events =>
      match step state event with
      | none => none
      | some (next, output) =>
          (replay step next events).map fun (trace, last) =>
            (⟨state, event, output, next⟩ :: trace, last)

theorem replay_cons {state last : σ} {event : ε} {events : List ε} {trace : List (Entry σ ε ω)}
    (replayed : replay step state (event :: events) = some (trace, last)) :
    ∃ next output later, step state event = some (next, output) ∧
      replay step next events = some (later, last) ∧ trace = ⟨state, event, output, next⟩ :: later := by
  unfold replay at replayed
  split at replayed
  · simp at replayed
  rename_i next output stepped
  rw [Option.map_eq_some_iff] at replayed
  rcases replayed with ⟨⟨later, final⟩, rest, replayed⟩
  simp only [Prod.mk.injEq] at replayed
  rcases replayed with ⟨rfl, rfl⟩
  exact ⟨next, output, later, stepped, rest, rfl⟩

/-- A replay goes through the events it is given. -/
theorem map_event_replay {state last : σ} {events : List ε} {trace : List (Entry σ ε ω)}
    (replayed : replay step state events = some (trace, last)) :
    trace.map Entry.event = events := by
  induction events generalizing state trace with
  | nil =>
      simp only [replay, Option.some.injEq, Prod.mk.injEq] at replayed
      rcases replayed with ⟨rfl, _⟩
      rfl
  | cons event events ih =>
      rcases replay_cons replayed with ⟨next, output, later, _, rest, rfl⟩
      rw [List.map_cons, ih rest]

/-- Two replays one after the other. -/
theorem replay_append {state middle last : σ} {events more : List ε}
    {earlier later : List (Entry σ ε ω)}
    (first : replay step state events = some (earlier, middle))
    (second : replay step middle more = some (later, last)) :
    replay step state (events ++ more) = some (earlier ++ later, last) := by
  induction events generalizing state earlier with
  | nil =>
      simp only [replay, Option.some.injEq, Prod.mk.injEq] at first
      rcases first with ⟨rfl, rfl⟩
      exact second
  | cons event events ih =>
      rcases replay_cons first with ⟨next, output, trace, stepped, rest, rfl⟩
      rw [List.cons_append, replay, stepped]
      simp only [ih rest, Option.map_some, List.cons_append]

theorem Run.append {middle last : σ} {earlier : List (Entry σ ε ω)} {events : List ε}
    {later : List (Entry σ ε ω)} (run : Run step start earlier middle)
    (replayed : replay step middle events = some (later, last)) :
    Run step start (earlier ++ later) last := by
  induction events generalizing middle earlier later with
  | nil =>
      simp only [replay, Option.some.injEq, Prod.mk.injEq] at replayed
      rcases replayed with ⟨rfl, rfl⟩
      simpa using run
  | cons event events ih =>
      rcases replay_cons replayed with ⟨next, output, trace, stepped, rest, rfl⟩
      simpa using ih (run.extend stepped) rest

theorem Run.ofReplay {last : σ} {events : List ε} {trace : List (Entry σ ε ω)}
    (replayed : replay step start events = some (trace, last)) : Run step start trace last := by
  simpa using Run.nil.append replayed

/-- What holds initially and is preserved by every step of a run holds after the run. -/
theorem Run.invariant (Holds : List (Entry σ ε ω) → σ → Prop) (Allowed : Entry σ ε ω → Prop)
    {trace : List (Entry σ ε ω)} {state : σ}
    (run : Run step start trace state)
    (allowed : ∀ entry ∈ trace, Allowed entry)
    (initial : Holds [] start)
    (preserved : ∀ trace entry, Holds trace entry.before → Allowed entry →
      step entry.before entry.event = some (entry.after, entry.output) →
      Holds (trace ++ [entry]) entry.after) :
    Holds trace state := by
  induction run with
  | nil => exact initial
  | @snoc trace entry run moves ih =>
      have heldBefore := ih (fun earlier earlierMem =>
        allowed earlier (List.mem_append_left _ earlierMem))
      exact preserved trace entry heldBefore (allowed entry (by simp)) moves

/-- Every entry of a run is a step taken from the end of the run before it. -/
theorem Run.split {earlier later : List (Entry σ ε ω)} {entry : Entry σ ε ω} {state : σ}
    (run : Run step start (earlier ++ entry :: later) state) :
    Run step start earlier entry.before ∧
      step entry.before entry.event = some (entry.after, entry.output) := by
  induction later using List.reverseRecOn generalizing state with
  | nil =>
      generalize traceEq : earlier ++ [entry] = trace at run
      cases run with
      | nil => simp at traceEq
      | snoc run moves =>
          rcases List.append_inj' traceEq rfl with ⟨rfl, lastEq⟩
          simp only [List.cons.injEq, and_true] at lastEq
          subst lastEq
          exact ⟨run, moves⟩
  | append_singleton later last ih =>
      generalize traceEq : earlier ++ entry :: (later ++ [last]) = trace at run
      cases run with
      | nil => simp at traceEq
      | @snoc trace final run moves =>
          rw [← List.cons_append, ← List.append_assoc] at traceEq
          rcases List.append_inj' traceEq rfl with ⟨rfl, _⟩
          exact ih run

theorem Run.after_concat {trace : List (Entry σ ε ω)} {entry : Entry σ ε ω} {state : σ}
    (run : Run step start (trace ++ [entry]) state) : state = entry.after := by
  generalize traceEq : trace ++ [entry] = whole at run
  cases run with
  | nil => simp at traceEq
  | snoc run moves =>
      rcases List.append_inj' traceEq rfl with ⟨_, lastEq⟩
      simp only [List.cons.injEq, and_true] at lastEq
      rw [lastEq]

/-- A run is cut in two anywhere. -/
theorem Run.cut {earlier later : List (Entry σ ε ω)} {last : σ}
    (run : Run step start (earlier ++ later) last) :
    ∃ middle, Run step start earlier middle ∧ Run step middle later last := by
  induction later using List.reverseRecOn generalizing last with
  | nil =>
      rw [List.append_nil] at run
      exact ⟨last, run, .nil⟩
  | append_singleton later entry ih =>
      rw [← List.append_assoc] at run
      have lastEq := run.after_concat
      rcases run.split with ⟨before, moves⟩
      rcases ih before with ⟨middle, first, second⟩
      rw [lastEq]
      exact ⟨middle, first, second.snoc moves⟩

/-- Every entry of a run has a run in front of it, whose entries are entries of the whole run. -/
theorem Run.before_of_mem {trace : List (Entry σ ε ω)} {entry : Entry σ ε ω} {state : σ}
    (run : Run step start trace state) (entryMem : entry ∈ trace) :
    ∃ earlier later, trace = earlier ++ entry :: later ∧ Run step start earlier entry.before ∧
      step entry.before entry.event = some (entry.after, entry.output) := by
  rcases List.append_of_mem entryMem with ⟨earlier, later, rfl⟩
  exact ⟨earlier, later, rfl, run.split⟩

/-- One entry of a trace comes before another one. -/
def Before (first second : Entry σ ε ω) (trace : List (Entry σ ε ω)) : Prop :=
  ∃ earlier between rest, trace = earlier ++ first :: (between ++ second :: rest)

theorem before_of_getElem? {entries : List (Entry σ ε ω)} {first second : Entry σ ε ω} {i j : ℕ}
    (firstAt : entries[i]? = some first) (secondAt : entries[j]? = some second) (order : i < j) :
    Before first second entries := by
  rcases List.getElem?_eq_some_iff.mp firstAt with ⟨firstInside, rfl⟩
  rcases List.getElem?_eq_some_iff.mp secondAt with ⟨secondInside, rfl⟩
  have secondMem : entries[j] ∈ entries.drop (i + 1) := by
    rw [List.mem_drop_iff_getElem]
    exact ⟨j - (i + 1), by omega, by congr 1; omega⟩
  rcases List.append_of_mem secondMem with ⟨between, rest, dropEq⟩
  refine ⟨entries.take i, between, rest, ?_⟩
  rw [← dropEq, List.getElem_cons_drop, List.take_append_drop]

/-- The steps behind two entries, one after the other, and the runs that led to them. -/
theorem Run.split_two {earlier between rest : List (Entry σ ε ω)} {first second : Entry σ ε ω}
    {state : σ} (run : Run step start (earlier ++ first :: (between ++ second :: rest)) state) :
    (Run step start earlier first.before ∧
      step first.before first.event = some (first.after, first.output)) ∧
    Run step start (earlier ++ first :: between) second.before ∧
      step second.before second.event = some (second.after, second.output) := by
  have shape : earlier ++ first :: (between ++ second :: rest) =
      (earlier ++ first :: between) ++ second :: rest := by simp
  refine ⟨run.split, ?_⟩
  rw [shape] at run
  exact run.split

section Paths

variable {move : σ → List ω → σ → Prop}

/-- Sequences of moves with the labels they emit. -/
inductive Path (move : σ → List ω → σ → Prop) : σ → List ω → σ → Prop where
  | refl (state : σ) : Path move state [] state
  | snoc {first middle last : σ} {emitted labels : List ω}
      (path : Path move first emitted middle) (moves : move middle labels last) :
      Path move first (emitted ++ labels) last

theorem Path.single {first last : σ} {labels : List ω} (moves : move first labels last) :
    Path move first labels last := by
  simpa using (Path.refl first).snoc moves

theorem Path.trans {first middle last : σ} {emitted labels : List ω}
    (left : Path move first emitted middle) (right : Path move middle labels last) :
    Path move first (emitted ++ labels) last := by
  induction right with
  | refl => simpa using left
  | snoc _ moves ih =>
      rw [← List.append_assoc]
      exact ih.snoc moves

theorem Path.mono {wider : σ → List ω → σ → Prop} {first last : σ} {labels : List ω}
    (embeds : ∀ {state labels next}, move state labels next → wider state labels next)
    (path : Path move first labels last) : Path wider first labels last := by
  induction path with
  | refl => exact .refl _
  | snoc _ moves ih => exact ih.snoc (embeds moves)

/-- What every move preserves, a path preserves. -/
theorem Path.invariant (Holds : List ω → σ → Prop) {first last : σ} {labels : List ω}
    (preserved : ∀ {log labels state next}, Holds log state → move state labels next →
      Holds (log ++ labels) next)
    (path : Path move first labels last) {log : List ω} (initial : Holds log first) :
    Holds (log ++ labels) last := by
  induction path with
  | refl => simpa using initial
  | snoc _ moves ih =>
      rw [← List.append_assoc]
      exact preserved ih moves

/-- A preorder that contains every move relates the ends of a path. -/
theorem Path.related {Related : σ → σ → Prop} {first last : σ} {labels : List ω}
    (refl : ∀ state, Related state state)
    (trans : ∀ {left middle right}, Related left middle → Related middle right →
      Related left right)
    (moves : ∀ {state labels next}, move state labels next → Related state next)
    (path : Path move first labels last) : Related first last := by
  induction path with
  | refl => exact refl _
  | snoc _ moved ih => exact trans ih (moves moved)

/-- A move or none. -/
inductive Possibly (move : σ → List ω → σ → Prop) : σ → List ω → σ → Prop where
  | skip (state : σ) : Possibly move state [] state
  | take {first last : σ} {labels : List ω} (moves : move first labels last) :
      Possibly move first labels last

theorem Possibly.toPath {first last : σ} {labels : List ω}
    (possibly : Possibly move first labels last) : Path move first labels last := by
  cases possibly with
  | skip => exact .refl first
  | take moves => exact .single moves

end Paths

end RunTrace
