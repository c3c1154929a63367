import Mathlib.Data.List.GetD
import Mathlib.Data.Nat.Notation
import Mathlib.Order.Basic
import Mathlib.Order.Lattice
import Mathlib.Order.Nat
import Mathlib.Logic.Function.Basic
import Mathlib.Logic.Relation

/-!
# Threads that take locks

The code of a procedure is reduced to what it does with locks: regions in which a lock is held,
calls, exceptions and their handlers, loops, and branches that locks do not decide. Threads
interleave, and a thread that wants a lock waits until a lock that it may take is free. A lock
that is held by a scope is released when an exception passes the scope; one that is unlocked by
a statement of its own is not, and stays taken for ever.

A `Discipline` gives every lock a rank and every procedure the least rank that it may ask for, so
that inside a region only locks of higher ranks are taken, and tells which procedures let no
exception out, so that an exception leaves a region without a scope only where its lock may be
left behind. Then no other lock is left behind, and where none is, nobody waits for ever on account
of locks: whoever waits, waits for a thread that can move, possibly through others.
-/

namespace Locking

variable {L P ι : Type}

/-- A procedure with locks `L` and procedures `P`. -/
inductive Code (L P : Type) where
  | skip
  | fails
  | call (procedure : P)
  /-- A region that begins when one of the candidates is free. -/
  | acquire (scope : Bool) (candidate : ℕ → L) (inside : Code L P)
  | seq (first second : Code L P)
  | choose (branch : ℕ → Code L P)
  | repeats (body : Code L P)
  | guarded (body handler : Code L P)

namespace Code

def block (statements : List (Code L P)) : Code L P :=
  statements.foldr seq skip

/-- A lock that is released with its scope. -/
@[simp]
def locked (lock : L) (inside : Code L P) : Code L P :=
  acquire true (fun _ => lock) inside

/-- Statements between a `lock` and an `unlock`. -/
@[simp]
def between (lock : L) (inside : Code L P) : Code L P :=
  acquire false (fun _ => lock) inside

/-- One of the branches, whichever it is. -/
def oneOf (branches : List (Code L P)) : Code L P :=
  choose fun index => branches.getD index (branches.headD skip)

end Code

/-- What is left to do on the stack of a thread. -/
inductive Frame (L P : Type) where
  | code (code : Code L P)
  | release (scope : Bool) (lock : L)
  | handler (handler : Code L P)

structure Thread (L P : Type) where
  raising : Bool
  frames : List (Frame L P)
  /-- The locks that exceptions have left behind. -/
  leaked : List L

/-- The moves of a thread while the locks are free or not. -/
inductive Moves (body : P → Code L P) (free : L → Prop) : Thread L P → Thread L P → Prop where
  | skip {rest : List (Frame L P)} {leaked : List L} :
      Moves body free ⟨false, .code .skip :: rest, leaked⟩ ⟨false, rest, leaked⟩
  | fails {rest : List (Frame L P)} {leaked : List L} :
      Moves body free ⟨false, .code .fails :: rest, leaked⟩ ⟨true, rest, leaked⟩
  | call {procedure : P} {rest : List (Frame L P)} {leaked : List L} :
      Moves body free ⟨false, .code (.call procedure) :: rest, leaked⟩
        ⟨false, .code (body procedure) :: rest, leaked⟩
  | acquire {scope : Bool} {candidate : ℕ → L} {inside : Code L P} {rest : List (Frame L P)}
      {leaked : List L} (index : ℕ) (isFree : free (candidate index)) :
      Moves body free ⟨false, .code (.acquire scope candidate inside) :: rest, leaked⟩
        ⟨false, .code inside :: .release scope (candidate index) :: rest, leaked⟩
  | seq {first second : Code L P} {rest : List (Frame L P)} {leaked : List L} :
      Moves body free ⟨false, .code (.seq first second) :: rest, leaked⟩
        ⟨false, .code first :: .code second :: rest, leaked⟩
  | choose {branch : ℕ → Code L P} {rest : List (Frame L P)} {leaked : List L} (index : ℕ) :
      Moves body free ⟨false, .code (.choose branch) :: rest, leaked⟩
        ⟨false, .code (branch index) :: rest, leaked⟩
  | again {inside : Code L P} {rest : List (Frame L P)} {leaked : List L} :
      Moves body free ⟨false, .code (.repeats inside) :: rest, leaked⟩
        ⟨false, .code inside :: .code (.repeats inside) :: rest, leaked⟩
  | leave {inside : Code L P} {rest : List (Frame L P)} {leaked : List L} :
      Moves body free ⟨false, .code (.repeats inside) :: rest, leaked⟩ ⟨false, rest, leaked⟩
  | guarded {inside handler : Code L P} {rest : List (Frame L P)} {leaked : List L} :
      Moves body free ⟨false, .code (.guarded inside handler) :: rest, leaked⟩
        ⟨false, .code inside :: .handler handler :: rest, leaked⟩
  | release {scope : Bool} {lock : L} {rest : List (Frame L P)} {leaked : List L} :
      Moves body free ⟨false, .release scope lock :: rest, leaked⟩ ⟨false, rest, leaked⟩
  | pass {handler : Code L P} {rest : List (Frame L P)} {leaked : List L} :
      Moves body free ⟨false, .handler handler :: rest, leaked⟩ ⟨false, rest, leaked⟩
  | unwind {code : Code L P} {rest : List (Frame L P)} {leaked : List L} :
      Moves body free ⟨true, .code code :: rest, leaked⟩ ⟨true, rest, leaked⟩
  | catches {handler : Code L P} {rest : List (Frame L P)} {leaked : List L} :
      Moves body free ⟨true, .handler handler :: rest, leaked⟩
        ⟨false, .code handler :: rest, leaked⟩
  | close {lock : L} {rest : List (Frame L P)} {leaked : List L} :
      Moves body free ⟨true, .release true lock :: rest, leaked⟩ ⟨true, rest, leaked⟩
  | leak {lock : L} {rest : List (Frame L P)} {leaked : List L} :
      Moves body free ⟨true, .release false lock :: rest, leaked⟩ ⟨true, rest, lock :: leaked⟩

namespace Thread

def start (code : Code L P) : Thread L P :=
  ⟨false, [.code code], []⟩

def Holds (thread : Thread L P) (lock : L) : Prop :=
  (∃ scope, .release scope lock ∈ thread.frames) ∨ lock ∈ thread.leaked

def Finished (thread : Thread L P) : Prop :=
  thread.frames = []

/-- The thread is about to take one of the locks. -/
def Wants (thread : Thread L P) (candidate : ℕ → L) : Prop :=
  ∃ scope inside rest leaked,
    thread = ⟨false, .code (.acquire scope candidate inside) :: rest, leaked⟩

def Calls (thread : Thread L P) (procedure : P) : Prop :=
  ∃ rest leaked, thread = ⟨false, .code (.call procedure) :: rest, leaked⟩

theorem unfinished_of_mem {thread : Thread L P} {frame : Frame L P}
    (inFrames : frame ∈ thread.frames) : ¬thread.Finished := by
  intro finished
  rw [finished] at inFrames
  cases inFrames

end Thread

section System

variable (body : P → Code L P)

def Held (state : ι → Thread L P) (lock : L) : Prop :=
  ∃ thread, (state thread).Holds lock

/-- One of the threads moves. -/
inductive Step (state : ι → Thread L P) : (ι → Thread L P) → Prop where
  | move [DecidableEq ι] (thread : ι) {next : Thread L P}
      (moves : Moves body (fun lock => ¬Held state lock) (state thread) next) :
      Step state (Function.update state thread next)

/-- The states that threads come to. -/
def Reachable (initial : ι → Thread L P) : (ι → Thread L P) → Prop :=
  Relation.ReflTransGen (Step body) initial

variable {body} in
theorem Reachable.move [DecidableEq ι] {initial state : ι → Thread L P}
    (reachable : Reachable body initial state) (thread : ι) {before next : Thread L P}
    (stateEq : state thread = before)
    (moves : Moves body (fun lock => ¬Held state lock) before next) :
    Reachable body initial (Function.update state thread next) := by
  subst stateEq
  exact .tail reachable (.move thread moves)

def CanMove (state : ι → Thread L P) (thread : ι) : Prop :=
  ∃ next, Moves body (fun lock => ¬Held state lock) (state thread) next

end System

/-- All locks that the thread may take are held, one of them by the other thread. -/
def WaitsFor (state : ι → Thread L P) (thread other : ι) : Prop :=
  ∃ candidate, (state thread).Wants candidate ∧ (∀ index, Held state (candidate index)) ∧
    ∃ index, (state other).Holds (candidate index)

/-! ## Disciplines -/

namespace Code

/-- The code asks for locks of at least the rank, and inside a region for higher ones only. -/
@[simp]
def Above (rank : L → ℕ) (entry : P → ℕ) : ℕ → Code L P → Prop
  | _, .skip => True
  | _, .fails => True
  | floor, .call procedure => floor ≤ entry procedure
  | floor, .acquire _ candidate inside =>
      ∀ index, floor ≤ rank (candidate index) ∧ inside.Above rank entry (rank (candidate index) + 1)
  | floor, .seq first second => first.Above rank entry floor ∧ second.Above rank entry floor
  | floor, .choose branch => ∀ index, (branch index).Above rank entry floor
  | floor, .repeats body => body.Above rank entry floor
  | floor, .guarded body handler => body.Above rank entry floor ∧ handler.Above rank entry floor

/-- The code lets no exception out. -/
@[simp]
def Quiet (quiet : P → Prop) : Code L P → Prop
  | .skip => True
  | .fails => False
  | .call procedure => quiet procedure
  | .acquire _ _ inside => inside.Quiet quiet
  | .seq first second => first.Quiet quiet ∧ second.Quiet quiet
  | .choose branch => ∀ index, (branch index).Quiet quiet
  | .repeats body => body.Quiet quiet
  | .guarded _ handler => handler.Quiet quiet

/-- An exception leaves a region that has no scope only if its lock may be left behind. -/
@[simp]
def Closed (quiet : P → Prop) (spills : L → Prop) : Code L P → Prop
  | .skip => True
  | .fails => True
  | .call _ => True
  | .acquire scope candidate inside => inside.Closed quiet spills ∧
      (scope = false → inside.Quiet quiet ∨ ∀ index, spills (candidate index))
  | .seq first second => first.Closed quiet spills ∧ second.Closed quiet spills
  | .choose branch => ∀ index, (branch index).Closed quiet spills
  | .repeats body => body.Closed quiet spills
  | .guarded body handler => body.Closed quiet spills ∧ handler.Closed quiet spills

end Code

structure Discipline (body : P → Code L P) where
  rank : L → ℕ
  entry : P → ℕ
  quiet : P → Prop
  /-- The locks that an exception may leave behind. -/
  spills : L → Prop
  above : ∀ procedure, (body procedure).Above rank entry (entry procedure)
  keepsQuiet : ∀ procedure, quiet procedure → (body procedure).Quiet quiet
  closed : ∀ procedure, (body procedure).Closed quiet spills

namespace Code

section Checks

variable {rank : L → ℕ} {entry : P → ℕ} {quiet : P → Prop} {spills : L → Prop} {floor : ℕ}

@[simp]
theorem above_block (statements : List (Code L P)) :
    (block statements).Above rank entry floor ↔
      ∀ statement ∈ statements, statement.Above rank entry floor := by
  induction statements with
  | nil => simp [block]
  | cons statement statements ih =>
      rw [List.forall_mem_cons, ← ih]
      rfl

@[simp]
theorem quiet_block (statements : List (Code L P)) :
    (block statements).Quiet quiet ↔ ∀ statement ∈ statements, statement.Quiet quiet := by
  induction statements with
  | nil => simp [block]
  | cons statement statements ih =>
      rw [List.forall_mem_cons, ← ih]
      rfl

@[simp]
theorem closed_block (statements : List (Code L P)) :
    (block statements).Closed quiet spills ↔
      ∀ statement ∈ statements, statement.Closed quiet spills := by
  induction statements with
  | nil => simp [block]
  | cons statement statements ih =>
      rw [List.forall_mem_cons, ← ih]
      rfl

theorem forall_oneOf {property : Code L P → Prop} (skips : property skip)
    {branches : List (Code L P)} :
    (∀ index, property (branches.getD index (branches.headD skip))) ↔
      ∀ branch ∈ branches, property branch := by
  constructor
  · intro all branch branchMem
    rcases List.getElem_of_mem branchMem with ⟨index, inside, rfl⟩
    have found := all index
    rwa [List.getD_eq_getElem _ _ inside] at found
  · intro all index
    rcases lt_or_ge index branches.length with inside | outside
    · rw [List.getD_eq_getElem _ _ inside]
      exact all _ (List.getElem_mem inside)
    · rw [List.getD_eq_default _ _ outside]
      cases branches with
      | nil => exact skips
      | cons branch branches => exact all branch List.mem_cons_self

@[simp]
theorem above_oneOf (branches : List (Code L P)) :
    (oneOf branches).Above rank entry floor ↔
      ∀ branch ∈ branches, branch.Above rank entry floor :=
  forall_oneOf trivial

@[simp]
theorem quiet_oneOf (branches : List (Code L P)) :
    (oneOf branches).Quiet quiet ↔ ∀ branch ∈ branches, branch.Quiet quiet :=
  forall_oneOf trivial

@[simp]
theorem closed_oneOf (branches : List (Code L P)) :
    (oneOf branches).Closed quiet spills ↔ ∀ branch ∈ branches, branch.Closed quiet spills :=
  forall_oneOf trivial

theorem Above.mono {code : Code L P} {lower : ℕ} (above : code.Above rank entry floor)
    (le : lower ≤ floor) : code.Above rank entry lower := by
  induction code generalizing floor lower with
  | skip => trivial
  | fails => trivial
  | call procedure => exact le_trans le above
  | acquire scope candidate inside ih =>
      intro index
      exact ⟨le_trans le (above index).1, (above index).2⟩
  | seq first second ihFirst ihSecond => exact ⟨ihFirst above.1 le, ihSecond above.2 le⟩
  | choose branch ih =>
      intro index
      exact ih index (above index) le
  | repeats body ih => exact ih above le
  | guarded body handler ihBody ihHandler => exact ⟨ihBody above.1 le, ihHandler above.2 le⟩

end Checks

end Code

/-- An exception on top of the frames leaves no lock behind but those that may be. -/
def Transparent (spills : L → Prop) : List (Frame L P) → Prop
  | [] => True
  | .code _ :: rest => Transparent spills rest
  | .release true _ :: rest => Transparent spills rest
  | .release false lock :: rest => spills lock ∧ Transparent spills rest
  | .handler _ :: _ => True

variable {body : P → Code L P}

namespace Discipline

section Frames

variable (discipline : Discipline body)

/-- The rank that a lock needs so that it may be taken on top of the stack. -/
def floor : List (Frame L P) → ℕ
  | [] => 0
  | .release _ lock :: rest => max (discipline.rank lock + 1) (floor rest)
  | .code _ :: rest => floor rest
  | .handler _ :: rest => floor rest

/-- What the code needs to run on top of the frames. -/
structure Fits (code : Code L P) (rest : List (Frame L P)) : Prop where
  above : code.Above discipline.rank discipline.entry (discipline.floor rest)
  closed : code.Closed discipline.quiet discipline.spills
  contained : code.Quiet discipline.quiet ∨ Transparent discipline.spills rest

/-- Whatever is on the stack keeps to the discipline. -/
def Ordered : List (Frame L P) → Prop
  | [] => True
  | .code code :: rest => discipline.Fits code rest ∧ Ordered rest
  | .handler handler :: rest => discipline.Fits handler rest ∧ Ordered rest
  | .release _ lock :: rest => discipline.floor rest ≤ discipline.rank lock ∧ Ordered rest

/-- The invariant of a thread. -/
structure Keeps (thread : Thread L P) : Prop where
  ordered : discipline.Ordered thread.frames
  transparent : thread.raising = true → Transparent discipline.spills thread.frames
  leaked : ∀ lock ∈ thread.leaked, discipline.spills lock

end Frames

variable {discipline : Discipline body}

theorem lt_floor {frames : List (Frame L P)} {scope : Bool} {lock : L}
    (holds : .release scope lock ∈ frames) : discipline.rank lock < discipline.floor frames := by
  induction frames with
  | nil => cases holds
  | cons frame rest ih =>
      rcases List.mem_cons.mp holds with rfl | below
      · exact lt_of_lt_of_le (Nat.lt_succ_self _) (le_max_left _ _)
      · cases frame with
        | code code => exact ih below
        | release scope other => exact lt_of_lt_of_le (ih below) (le_max_right _ _)
        | handler code => exact ih below

theorem fits_call {procedure : P} {rest : List (Frame L P)}
    (fits : discipline.Fits (.call procedure) rest) : discipline.Fits (body procedure) rest where
  above := (discipline.above procedure).mono fits.above
  closed := discipline.closed procedure
  contained := fits.contained.imp_left (discipline.keepsQuiet procedure)

theorem fits_inside {scope : Bool} {candidate : ℕ → L} {inside : Code L P}
    {rest : List (Frame L P)} (fits : discipline.Fits (.acquire scope candidate inside) rest)
    (index : ℕ) : discipline.Fits inside (.release scope (candidate index) :: rest) where
  above := by
    have floorEq : discipline.floor (.release scope (candidate index) :: rest) =
        discipline.rank (candidate index) + 1 :=
      max_eq_left (Nat.le_succ_of_le (fits.above index).1)
    rw [floorEq]
    exact (fits.above index).2
  closed := fits.closed.1
  contained := by
    cases scope with
    | true => exact fits.contained
    | false =>
        rcases fits.closed.2 rfl with quiet | spills
        · exact .inl quiet
        · exact fits.contained.imp_right fun below => ⟨spills index, below⟩

theorem fits_seq {first second : Code L P} {rest : List (Frame L P)}
    (fits : discipline.Fits (.seq first second) rest) :
    discipline.Fits first (.code second :: rest) ∧ discipline.Fits second rest := by
  refine ⟨⟨fits.above.1, fits.closed.1, ?_⟩, ⟨fits.above.2, fits.closed.2, ?_⟩⟩
  · exact fits.contained.imp_left And.left
  · exact fits.contained.imp_left And.right

theorem fits_guarded {inside handler : Code L P} {rest : List (Frame L P)}
    (fits : discipline.Fits (.guarded inside handler) rest) :
    discipline.Fits inside (.handler handler :: rest) ∧ discipline.Fits handler rest := by
  refine ⟨⟨fits.above.1, fits.closed.1, ?_⟩, ⟨fits.above.2, fits.closed.2, fits.contained⟩⟩
  exact .inr trivial

theorem keeps_of_moves {free : L → Prop} {thread next : Thread L P}
    (moves : Moves body free thread next) (keeps : discipline.Keeps thread) :
    discipline.Keeps next := by
  rcases keeps with ⟨ordered, transparent, leaked⟩
  have calm {frames : List (Frame L P)} :
      (false = true → Transparent discipline.spills frames) := nofun
  cases moves with
  | skip => exact ⟨ordered.2, calm, leaked⟩
  | fails => exact ⟨ordered.2, fun _ => ordered.1.contained.resolve_left id, leaked⟩
  | call => exact ⟨⟨fits_call ordered.1, ordered.2⟩, calm, leaked⟩
  | acquire index isFree =>
      exact ⟨⟨fits_inside ordered.1 index, (ordered.1.above index).1, ordered.2⟩, calm, leaked⟩
  | seq =>
      rcases fits_seq ordered.1 with ⟨first, second⟩
      exact ⟨⟨first, second, ordered.2⟩, calm, leaked⟩
  | choose index =>
      rcases ordered.1 with ⟨above, closed, contained⟩
      have contained := contained.imp_left fun quiet => quiet index
      exact ⟨⟨⟨above index, closed index, contained⟩, ordered.2⟩, calm, leaked⟩
  | again =>
      rcases ordered.1 with ⟨above, closed, contained⟩
      exact ⟨⟨⟨above, closed, contained⟩, ⟨above, closed, contained⟩, ordered.2⟩, calm, leaked⟩
  | leave => exact ⟨ordered.2, calm, leaked⟩
  | guarded =>
      rcases fits_guarded ordered.1 with ⟨inside, handler⟩
      exact ⟨⟨inside, handler, ordered.2⟩, calm, leaked⟩
  | release => exact ⟨ordered.2, calm, leaked⟩
  | pass => exact ⟨ordered.2, calm, leaked⟩
  | unwind => exact ⟨ordered.2, transparent, leaked⟩
  | catches => exact ⟨ordered, calm, leaked⟩
  | close => exact ⟨ordered.2, transparent, leaked⟩
  | leak =>
      rcases transparent rfl with ⟨spills, below⟩
      exact ⟨ordered.2, fun _ => below, List.forall_mem_cons.mpr ⟨spills, leaked⟩⟩

theorem keeps_of_step {state next : ι → Thread L P} (step : Step body state next)
    (keeps : ∀ thread, discipline.Keeps (state thread)) :
    ∀ thread, discipline.Keeps (next thread) := by
  cases step with
  | move mover moves =>
      intro thread
      by_cases same : thread = mover
      · subst same
        rw [Function.update_self]
        exact keeps_of_moves moves (keeps thread)
      · rw [Function.update_of_ne same]
        exact keeps thread

theorem keeps_of_reachable {initial state : ι → Thread L P}
    (reachable : Reachable body initial state)
    (keeps : ∀ thread, discipline.Keeps (initial thread)) :
    ∀ thread, discipline.Keeps (state thread) := by
  induction reachable with
  | refl => exact keeps
  | tail _ step ih => exact keeps_of_step step ih

theorem keeps_start {procedure : P} : discipline.Keeps (Thread.start (.call procedure)) where
  ordered := ⟨⟨Nat.zero_le _, trivial, .inr trivial⟩, trivial⟩
  transparent := nofun
  leaked := by simp [Thread.start]

/-- A lock that may not be left behind is held by a region. -/
theorem Keeps.inFrames {thread : Thread L P} (keeps : discipline.Keeps thread) {lock : L}
    (holds : thread.Holds lock) (kept : ¬discipline.spills lock) :
    ∃ scope, .release scope lock ∈ thread.frames :=
  holds.resolve_right fun leaked => kept (keeps.leaked lock leaked)

/-- A thread in a region of a lock asks for higher ones only. -/
theorem Keeps.lt_wanted {thread : Thread L P} (keeps : discipline.Keeps thread) {scope : Bool}
    {lock : L} (inFrames : .release scope lock ∈ thread.frames) {candidate : ℕ → L}
    (wants : thread.Wants candidate) (index : ℕ) :
    discipline.rank lock < discipline.rank (candidate index) := by
  rcases wants with ⟨manner, inside, rest, leaked, rfl⟩
  rcases List.mem_cons.mp inFrames with same | below
  · cases same
  · exact lt_of_lt_of_le (lt_floor below) (keeps.ordered.1.above index).1

end Discipline

/-! ## Waiting -/

/-- A thread that has not finished moves, or all locks that it may take are held. -/
theorem moves_or_waits {free : L → Prop} {thread : Thread L P} (unfinished : ¬thread.Finished) :
    (∃ next, Moves body free thread next) ∨
      ∃ candidate, thread.Wants candidate ∧ ∀ index, ¬free (candidate index) := by
  rcases thread with ⟨raising, frames, leaked⟩
  cases frames with
  | nil => exact absurd rfl unfinished
  | cons frame rest =>
      cases raising with
      | true =>
          cases frame with
          | code code => exact .inl ⟨_, .unwind⟩
          | handler code => exact .inl ⟨_, .catches⟩
          | release scope lock =>
              cases scope with
              | true => exact .inl ⟨_, .close⟩
              | false => exact .inl ⟨_, .leak⟩
      | false =>
          cases frame with
          | handler code => exact .inl ⟨_, .pass⟩
          | release scope lock => exact .inl ⟨_, .release⟩
          | code code =>
              cases code with
              | skip => exact .inl ⟨_, .skip⟩
              | fails => exact .inl ⟨_, .fails⟩
              | call procedure => exact .inl ⟨_, .call⟩
              | acquire scope candidate inside =>
                  by_cases some : ∃ index, free (candidate index)
                  · rcases some with ⟨index, isFree⟩
                    exact .inl ⟨_, .acquire index isFree⟩
                  · exact .inr ⟨candidate, ⟨_, _, _, _, rfl⟩, not_exists.mp some⟩
              | seq first second => exact .inl ⟨_, .seq⟩
              | choose branch => exact .inl ⟨_, .choose 0⟩
              | repeats inside => exact .inl ⟨_, .leave⟩
              | guarded inside handler => exact .inl ⟨_, .guarded⟩

section Waiting

variable {discipline : Discipline body} {state : ι → Thread L P}

theorem canMove_or_waits {thread : ι} (unfinished : ¬(state thread).Finished) :
    CanMove body state thread ∨
      ∃ candidate, (state thread).Wants candidate ∧ ∀ index, Held state (candidate index) := by
  rcases moves_or_waits unfinished with moves | ⟨candidate, wants, taken⟩
  · exact .inl moves
  · exact .inr ⟨candidate, wants, fun index => not_not.mp (taken index)⟩

/-- The chain of threads that wait for each other goes up in the ranks. -/
theorem exists_mover_of_wanted {bound : ℕ} (keeps : ∀ thread, discipline.Keeps (state thread))
    (bounded : ∀ lock, discipline.rank lock ≤ bound) (kept : ∀ lock, ¬discipline.spills lock)
    (distance : ℕ) {thread : ι}
    {candidate : ℕ → L} (wants : (state thread).Wants candidate)
    (held : ∀ index, Held state (candidate index))
    (near : bound ≤ discipline.rank (candidate 0) + distance) :
    ∃ mover, Relation.ReflTransGen (WaitsFor state) thread mover ∧ CanMove body state mover := by
  induction distance generalizing thread candidate with
  | zero =>
      rcases held 0 with ⟨holder, holds⟩
      have waitsFor : WaitsFor state thread holder := ⟨candidate, wants, held, 0, holds⟩
      rcases (keeps holder).inFrames holds (kept _) with ⟨scope, inFrames⟩
      rcases canMove_or_waits (Thread.unfinished_of_mem inFrames) with
        moves | ⟨next, wantsNext, _⟩
      · exact ⟨holder, .single waitsFor, moves⟩
      · have higher := (keeps holder).lt_wanted inFrames wantsNext 0
        exact absurd (bounded (next 0)) (not_le.mpr (lt_of_le_of_lt near higher))
  | succ distance ih =>
      rcases held 0 with ⟨holder, holds⟩
      have waitsFor : WaitsFor state thread holder := ⟨candidate, wants, held, 0, holds⟩
      rcases (keeps holder).inFrames holds (kept _) with ⟨scope, inFrames⟩
      rcases canMove_or_waits (Thread.unfinished_of_mem inFrames) with
        moves | ⟨next, wantsNext, heldNext⟩
      · exact ⟨holder, .single waitsFor, moves⟩
      · have higher := (keeps holder).lt_wanted inFrames wantsNext 0
        rcases ih wantsNext heldNext (by omega) with ⟨mover, through, moves⟩
        exact ⟨mover, .head waitsFor through, moves⟩

/-- Where no lock is left behind, whoever waits, waits for someone who can move, possibly through
others. -/
theorem exists_mover {bound : ℕ} (keeps : ∀ thread, discipline.Keeps (state thread))
    (bounded : ∀ lock, discipline.rank lock ≤ bound) (kept : ∀ lock, ¬discipline.spills lock)
    {thread : ι}
    (unfinished : ¬(state thread).Finished) :
    ∃ mover, Relation.ReflTransGen (WaitsFor state) thread mover ∧ CanMove body state mover := by
  rcases canMove_or_waits unfinished with moves | ⟨candidate, wants, held⟩
  · exact ⟨thread, .refl, moves⟩
  · exact exists_mover_of_wanted keeps bounded kept bound wants held (Nat.le_add_left _ _)

end Waiting

end Locking
