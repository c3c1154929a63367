import Poolserver.Lib.RunTrace

/-!
# The synchronous connections of the worker pool

`Execute`, `Query` and `Escape` of `DatabaseWorkerPool` search for a connection whose mutex they
can lock, use it and unlock it. Any number of threads do so at once. The search counts in 32 bits
and takes the count modulo the number of connections, which it has read into 8 bits.
-/

namespace Poolserver.MySQL

open RunTrace

/-- Where a thread is in one of these functions. -/
inductive Caller where
  | idle
  /-- In `GetSyncConnection`, with the value of `i`. -/
  | seeking (i : UInt32)
  /-- Between `LockIfReady` and `Unlock` of a connection. -/
  | holding (index : ℕ)
  deriving DecidableEq

structure SyncPool where
  /-- The caller that has locked the mutex of a connection. -/
  holder : ℕ → Option ℕ
  callers : ℕ → Caller

inductive SyncEvent where
  | call (caller : ℕ)
  | tryLock (caller : ℕ)
  /-- `Execute`, `Query` or `Escape` of the connection. -/
  | query (caller : ℕ)
  | unlock (caller : ℕ)
  deriving DecidableEq

namespace SyncPool

def new : SyncPool where
  holder _ := none
  callers _ := .idle

def move (state : SyncPool) (caller : ℕ) (next : Caller) : SyncPool :=
  { state with callers := Function.update state.callers caller next }

def setHolder (state : SyncPool) (index : ℕ) (holder : Option ℕ) : SyncPool :=
  { state with holder := Function.update state.holder index holder }

@[simp]
theorem move_holder (state : SyncPool) (caller : ℕ) (next : Caller) :
    (state.move caller next).holder = state.holder := rfl

@[simp]
theorem move_callers (state : SyncPool) (caller : ℕ) (next : Caller) :
    (state.move caller next).callers = Function.update state.callers caller next := rfl

@[simp]
theorem setHolder_holder (state : SyncPool) (index : ℕ) (holder : Option ℕ) :
    (state.setHolder index holder).holder = Function.update state.holder index holder := rfl

@[simp]
theorem setHolder_callers (state : SyncPool) (index : ℕ) (holder : Option ℕ) :
    (state.setHolder index holder).callers = state.callers := rfl

/-- `conn_size`. -/
def connSize (connections : ℕ) : UInt8 :=
  UInt8.ofNat connections

/-- A step with the connection that it is about; with no connections the search divides by zero. -/
def step (connections : ℕ) (state : SyncPool) : SyncEvent → Option (SyncPool × Option ℕ)
  | .call caller =>
      if state.callers caller = .idle then some (state.move caller (.seeking 0), none) else none
  | .tryLock caller =>
      match state.callers caller with
      | .seeking i =>
          if connSize connections = 0 then none
          else
            let index := ((i + 1) % (connSize connections).toUInt32).toNat
            if state.holder index = none then
              some ((state.move caller (.holding index)).setHolder index (some caller), some index)
            else some (state.move caller (.seeking (i + 1)), some index)
      | _ => none
  | .query caller =>
      match state.callers caller with
      | .holding index => some (state, some index)
      | _ => none
  | .unlock caller =>
      match state.callers caller with
      | .holding index => some ((state.move caller .idle).setHolder index none, some index)
      | _ => none

end SyncPool

abbrev SyncEntry := Entry SyncPool SyncEvent (Option ℕ)

/-- The runs of the synchronous connections. -/
abbrev SyncRun (connections : ℕ) : List SyncEntry → SyncPool → Prop :=
  Run (SyncPool.step connections) SyncPool.new

variable {connections : ℕ} {trace : List SyncEntry} {state : SyncPool}

/-- What a step does. -/
inductive SyncMoves (connections : ℕ) (before : SyncPool) :
    SyncEvent → Option ℕ → SyncPool → Prop where
  | call {caller : ℕ} (idle : before.callers caller = .idle) :
      SyncMoves connections before (.call caller) none (before.move caller (.seeking 0))
  | locks {caller index : ℕ} {i : UInt32} (seeks : before.callers caller = .seeking i)
      (indexEq : index = (i + 1).toNat % (SyncPool.connSize connections).toNat)
      (inside : index < (SyncPool.connSize connections).toNat)
      (free : before.holder index = none) :
      SyncMoves connections before (.tryLock caller) (some index)
        ((before.move caller (.holding index)).setHolder index (some caller))
  | fails {caller index : ℕ} {i : UInt32} (seeks : before.callers caller = .seeking i)
      (indexEq : index = (i + 1).toNat % (SyncPool.connSize connections).toNat)
      (taken : before.holder index ≠ none) :
      SyncMoves connections before (.tryLock caller) (some index)
        (before.move caller (.seeking (i + 1)))
  | query {caller index : ℕ} (holds : before.callers caller = .holding index) :
      SyncMoves connections before (.query caller) (some index) before
  | unlock {caller index : ℕ} (holds : before.callers caller = .holding index) :
      SyncMoves connections before (.unlock caller) (some index)
        ((before.move caller .idle).setHolder index none)

theorem syncMoves_of_step {before after : SyncPool} {event : SyncEvent} {output : Option ℕ}
    (stepped : SyncPool.step connections before event = some (after, output)) :
    SyncMoves connections before event output after := by
  cases event with
  | call caller =>
      simp only [SyncPool.step, Option.ite_none_right_eq_some, Option.some.injEq,
        Prod.mk.injEq] at stepped
      rcases stepped with ⟨idle, rfl, rfl⟩
      exact .call idle
  | tryLock caller =>
      simp only [SyncPool.step] at stepped
      split at stepped
      · rename_i i seeks
        rw [Option.ite_none_left_eq_some] at stepped
        rcases stepped with ⟨nonzero, stepped⟩
        have positive : 0 < (SyncPool.connSize connections).toNat := by
          rw [Nat.pos_iff_ne_zero]
          intro zero
          exact nonzero (UInt8.toNat_inj.mp zero)
        have indexEq : ((i + 1) % (SyncPool.connSize connections).toUInt32).toNat =
            (i + 1).toNat % (SyncPool.connSize connections).toNat := by
          rw [UInt32.toNat_mod, UInt8.toNat_toUInt32]
        split at stepped
        · rename_i free
          simp only [Option.some.injEq, Prod.mk.injEq] at stepped
          rcases stepped with ⟨rfl, rfl⟩
          exact .locks seeks indexEq (indexEq ▸ Nat.mod_lt _ positive) free
        · rename_i taken
          simp only [Option.some.injEq, Prod.mk.injEq] at stepped
          rcases stepped with ⟨rfl, rfl⟩
          exact .fails seeks indexEq taken
      · cases stepped
  | query caller =>
      simp only [SyncPool.step] at stepped
      split at stepped
      · rename_i index holds
        simp only [Option.some.injEq, Prod.mk.injEq] at stepped
        rcases stepped with ⟨rfl, rfl⟩
        exact .query holds
      · cases stepped
  | unlock caller =>
      simp only [SyncPool.step] at stepped
      split at stepped
      · rename_i index holds
        simp only [Option.some.injEq, Prod.mk.injEq] at stepped
        rcases stepped with ⟨rfl, rfl⟩
        exact .unlock holds
      · cases stepped

/-! ## Exclusion -/

/-- The mutexes are locked by those who use the connections. -/
structure Locked (connections : ℕ) (state : SyncPool) : Prop where
  holder_iff : ∀ index caller, state.holder index = some caller ↔
    state.callers caller = .holding index
  inside : ∀ caller index, state.callers caller = .holding index →
    index < (SyncPool.connSize connections).toNat

section Locked

variable {before : SyncPool} {caller index : ℕ}

theorem Locked.moveAway (locked : Locked connections before) {next : Caller}
    (outside : ∀ index, before.callers caller ≠ .holding index)
    (stays : ∀ index, next ≠ .holding index) : Locked connections (before.move caller next) := by
  constructor
  · intro place other
    rw [SyncPool.move_holder, locked.holder_iff, SyncPool.move_callers]
    by_cases same : other = caller
    · subst same
      rw [Function.update_self]
      exact iff_of_false (outside place) (stays place)
    · rw [Function.update_of_ne same]
  · intro other place holds
    rw [SyncPool.move_callers] at holds
    by_cases same : other = caller
    · subst same
      rw [Function.update_self] at holds
      exact absurd holds (stays place)
    · rw [Function.update_of_ne same] at holds
      exact locked.inside other place holds

theorem Locked.lock (locked : Locked connections before)
    (outside : ∀ index, before.callers caller ≠ .holding index)
    (inside : index < (SyncPool.connSize connections).toNat) (free : before.holder index = none) :
    Locked connections ((before.move caller (.holding index)).setHolder index (some caller)) := by
  constructor
  · intro place other
    rw [SyncPool.setHolder_holder, SyncPool.setHolder_callers, SyncPool.move_callers,
      SyncPool.move_holder]
    by_cases same : other = caller
    · subst same
      rw [Function.update_self, Caller.holding.injEq]
      by_cases here : place = index
      · subst here
        simp
      · rw [Function.update_of_ne here, locked.holder_iff]
        exact iff_of_false (outside place) (Ne.symm here)
    · rw [Function.update_of_ne same]
      by_cases here : place = index
      · subst here
        rw [Function.update_self, ← locked.holder_iff, free, Option.some.injEq]
        exact iff_of_false (Ne.symm same) nofun
      · rw [Function.update_of_ne here]
        exact locked.holder_iff place other
  · intro other place holds
    rw [SyncPool.setHolder_callers, SyncPool.move_callers] at holds
    by_cases same : other = caller
    · subst same
      rw [Function.update_self, Caller.holding.injEq] at holds
      exact holds ▸ inside
    · rw [Function.update_of_ne same] at holds
      exact locked.inside other place holds

theorem Locked.unlock (locked : Locked connections before)
    (holds : before.callers caller = .holding index) :
    Locked connections ((before.move caller .idle).setHolder index none) := by
  have held := (locked.holder_iff index caller).mpr holds
  constructor
  · intro place other
    rw [SyncPool.setHolder_holder, SyncPool.setHolder_callers, SyncPool.move_callers,
      SyncPool.move_holder]
    by_cases same : other = caller
    · subst same
      rw [Function.update_self]
      by_cases here : place = index
      · subst here
        rw [Function.update_self]
        exact iff_of_false nofun nofun
      · rw [Function.update_of_ne here, locked.holder_iff, holds, Caller.holding.injEq]
        exact iff_of_false (Ne.symm here) nofun
    · rw [Function.update_of_ne same]
      by_cases here : place = index
      · subst here
        rw [Function.update_self, ← locked.holder_iff, held, Option.some.injEq]
        exact iff_of_false nofun (Ne.symm same)
      · rw [Function.update_of_ne here]
        exact locked.holder_iff place other
  · intro other place phase
    rw [SyncPool.setHolder_callers, SyncPool.move_callers] at phase
    by_cases same : other = caller
    · subst same
      rw [Function.update_self] at phase
      cases phase
    · rw [Function.update_of_ne same] at phase
      exact locked.inside other place phase

theorem locked_of_moves {after : SyncPool} {event : SyncEvent} {output : Option ℕ}
    (locked : Locked connections before)
    (moves : SyncMoves connections before event output after) : Locked connections after := by
  cases moves with
  | call idle => exact locked.moveAway (by simp [idle]) (by simp)
  | locks seeks indexEq inside free => exact locked.lock (by simp [seeks]) inside free
  | fails seeks indexEq taken => exact locked.moveAway (by simp [seeks]) (by simp)
  | query holds => exact locked
  | unlock holds => exact locked.unlock holds

end Locked

theorem locked_of_run (run : SyncRun connections trace state) : Locked connections state := by
  refine run.invariant (fun _ state => Locked connections state) (fun _ => True)
    (fun _ _ => trivial) ?_ ?_
  · exact ⟨by simp [SyncPool.new], by simp [SyncPool.new]⟩
  · intro _ _ locked _ stepped
    exact locked_of_moves locked (syncMoves_of_step stepped)

/-- A connection changes hands only when its holder unlocks it. -/
theorem holder_of_moves {before after : SyncPool} {event : SyncEvent} {output : Option ℕ}
    (locked : Locked connections before) (moves : SyncMoves connections before event output after)
    {caller index : ℕ} (held : before.holder index = some caller)
    (keeps : ¬(event = .unlock caller ∧ output = some index)) :
    after.holder index = some caller := by
  cases moves with
  | call idle => exact held
  | @locks other place i seeks indexEq inside free =>
      have elsewhere : index ≠ place := by
        rintro rfl
        rw [free] at held
        cases held
      rw [SyncPool.setHolder_holder, Function.update_of_ne elsewhere]
      exact held
  | fails seeks indexEq taken => exact held
  | query holds => exact held
  | @unlock other place holds =>
      have elsewhere : index ≠ place := by
        rintro rfl
        have otherHeld := (locked.holder_iff index other).mpr holds
        rw [held, Option.some.injEq] at otherHeld
        exact keeps ⟨otherHeld ▸ rfl, rfl⟩
      rw [SyncPool.setHolder_holder, Function.update_of_ne elsewhere]
      exact held

theorem holder_of_run {start : SyncPool} (locked : Locked connections start)
    (run : Run (SyncPool.step connections) start trace state) {caller index : ℕ}
    (held : start.holder index = some caller)
    (keeps : ∀ entry ∈ trace, ¬(entry.event = .unlock caller ∧ entry.output = some index)) :
    state.holder index = some caller := by
  have both : Locked connections state ∧ state.holder index = some caller := by
    refine run.invariant (fun _ state => Locked connections state ∧ state.holder index = some caller)
      (fun entry => ¬(entry.event = .unlock caller ∧ entry.output = some index)) keeps
      ⟨locked, held⟩ ?_
    intro _ entry both allowed stepped
    have moves := syncMoves_of_step stepped
    exact ⟨locked_of_moves both.1 moves, holder_of_moves both.1 moves both.2 allowed⟩
  exact both.2

theorem holds_of_query {entry : SyncEntry} {caller index : ℕ}
    (stepped : SyncPool.step connections entry.before entry.event =
      some (entry.after, entry.output))
    (queries : entry.event = .query caller) (on : entry.output = some index) :
    entry.before.callers caller = .holding index ∧ entry.after = entry.before := by
  have moves := syncMoves_of_step stepped
  rcases entry with ⟨before, event, output, after⟩
  subst queries on
  cases moves with
  | query holds => exact ⟨holds, rfl⟩

/--
A connection is used by one caller at a time: its mutex is locked just while a caller uses it,
and between the queries of two callers on it the first one unlocks it.
-/
theorem queries_separated (run : SyncRun connections trace state) :
    (∀ index caller, state.holder index = some caller ↔
      state.callers caller = .holding index) ∧
    (∀ caller index, state.callers caller = .holding index →
      index < (SyncPool.connSize connections).toNat) ∧
    ∀ earlier between later first second caller other index,
      trace = earlier ++ first :: (between ++ second :: later) →
      first.event = .query caller → first.output = some index →
      second.event = .query other → second.output = some index → caller ≠ other →
      ∃ entry ∈ between, entry.event = .unlock caller ∧ entry.output = some index := by
  have locked := locked_of_run run
  refine ⟨locked.holder_iff, locked.inside, ?_⟩
  intro earlier between later first second caller other index traceEq firstQueries firstOn
    secondQueries secondOn differ
  rw [traceEq] at run
  rcases run.split_two with ⟨⟨before, firstStepped⟩, upToSecond, secondStepped⟩
  rcases holds_of_query firstStepped firstQueries firstOn with ⟨firstHolds, unchanged⟩
  rcases holds_of_query secondStepped secondQueries secondOn with ⟨secondHolds, _⟩
  have shape : earlier ++ first :: between = (earlier ++ [first]) ++ between := by
    simp
  have lockedSecond := locked_of_run upToSecond
  rw [shape] at upToSecond
  rcases upToSecond.cut with ⟨middle, upToFirst, meanwhile⟩
  have middleEq : middle = first.before := upToFirst.after_concat.trans unchanged
  have lockedFirst := locked_of_run before
  have held : middle.holder index = some caller := by
    rw [middleEq]
    exact (lockedFirst.holder_iff index caller).mpr firstHolds
  by_contra kept
  have keeps : ∀ entry ∈ between, ¬(entry.event = .unlock caller ∧ entry.output = some index) :=
    fun entry entryMem unlocks => kept ⟨entry, entryMem, unlocks⟩
  have stillHeld := holder_of_run (middleEq ▸ lockedFirst) meanwhile held keeps
  have otherHeld := (lockedSecond.holder_iff index other).mpr secondHolds
  rw [stillHeld, Option.some.injEq] at otherHeld
  exact differ otherHeld

/-! ## The search -/

/-- Counting on from anywhere, with a wrap, comes past every residue in less than two rounds. -/
theorem exists_residue {modulus size start index : ℕ} (below : start < modulus)
    (fits : size ≤ modulus) (inside : index < size) :
    ∃ turn, turn + 1 < 2 * size ∧ (start + turn) % modulus % size = index := by
  have positive : 0 < size := Nat.zero_lt_of_lt inside
  have residue := Nat.mod_lt start positive
  -- the turns up to the next number with the residue
  let turn := (index + size - start % size) % size
  have near : turn < size := Nat.mod_lt _ positive
  by_cases wraps : start + turn < modulus
  · refine ⟨turn, by omega, ?_⟩
    have sumEq : start % size + (index + size - start % size) = index + size := by omega
    rw [Nat.mod_eq_of_lt wraps, ← Nat.mod_add_mod, Nat.add_mod_mod, sumEq, Nat.add_mod_right,
      Nat.mod_eq_of_lt inside]
  · -- the count begins again at zero
    refine ⟨modulus - start + index, by omega, ?_⟩
    have sumEq : start + (modulus - start + index) = modulus + index := by omega
    rw [sumEq, Nat.add_mod_left, Nat.mod_eq_of_lt (lt_of_lt_of_le inside fits),
      Nat.mod_eq_of_lt inside]

def SyncPool.Seeks (state : SyncPool) (caller : ℕ) : Prop :=
  ∃ i, state.callers caller = .seeking i

instance (state : SyncPool) (caller : ℕ) : Decidable (state.Seeks caller) :=
  match phaseEq : state.callers caller with
  | .seeking i => isTrue ⟨i, phaseEq⟩
  | .idle => isFalse fun ⟨_, seeks⟩ => by
      rw [phaseEq] at seeks
      cases seeks
  | .holding _ => isFalse fun ⟨_, seeks⟩ => by
      rw [phaseEq] at seeks
      cases seeks

/-- The turns of a caller's search. -/
def tries (caller : ℕ) (trace : List SyncEntry) : List SyncEntry :=
  trace.filter fun entry => entry.event = .tryLock caller

theorem tries_concat (caller : ℕ) (trace : List SyncEntry) (entry : SyncEntry) :
    tries caller (trace ++ [entry]) =
      tries caller trace ++ if entry.event = .tryLock caller then [entry] else [] := by
  rw [tries, List.filter_append, List.filter_singleton]
  simp [tries]

/-- A turn of a search that goes on. -/
structure Turns (connections : ℕ) (caller : ℕ) (i : UInt32) (entry : SyncEntry) : Prop where
  output : entry.output = some ((i + 1).toNat % (SyncPool.connSize connections).toNat)
  taken : ∃ other, other ≠ caller ∧ entry.before.callers other =
    .holding ((i + 1).toNat % (SyncPool.connSize connections).toNat)

/-- While a caller seeks, a step counts on just when it is a turn of its search. -/
theorem seeks_of_moves {entry : SyncEntry} {caller : ℕ} {i : UInt32}
    (locked : Locked connections entry.before) (seeks : entry.before.callers caller = .seeking i)
    (goesOn : entry.after.Seeks caller)
    (moves : SyncMoves connections entry.before entry.event entry.output entry.after) :
    (entry.event = .tryLock caller ∧ entry.after.callers caller = .seeking (i + 1) ∧
      Turns connections caller i entry) ∨
    (entry.event ≠ .tryLock caller ∧ entry.after.callers caller = .seeking i) := by
  rcases entry with ⟨before, event, output, after⟩
  simp only at locked seeks goesOn moves
  have bystander {other : ℕ} {phase next : Caller} (phaseEq : before.callers other = phase)
      (differs : phase ≠ .seeking i) :
      Function.update before.callers other next caller = .seeking i := by
    have elsewhere : caller ≠ other := by
      rintro rfl
      exact differs (phaseEq.symm.trans seeks)
    rw [Function.update_of_ne elsewhere]
    exact seeks
  cases moves with
  | call idle => exact .inr ⟨nofun, bystander idle nofun⟩
  | @locks other index j otherSeeks indexEq inside free =>
      by_cases same : caller = other
      · subst same
        rcases goesOn with ⟨k, still⟩
        simp at still
      · refine .inr ⟨?_, ?_⟩
        · intro event
          injection event with otherEq
          exact same otherEq.symm
        · exact (Function.update_of_ne same _ _).trans seeks
  | @fails other index j otherSeeks indexEq taken =>
      by_cases same : caller = other
      · subst same
        have countEq : j = i := by
          rw [otherSeeks, Caller.seeking.injEq] at seeks
          exact seeks
        subst countEq
        rcases Option.ne_none_iff_exists'.mp taken with ⟨holder, held⟩
        have uses := (locked.holder_iff index holder).mp held
        refine .inl ⟨rfl, Function.update_self _ _ _, ⟨by rw [indexEq], holder, ?_, ?_⟩⟩
        · rintro rfl
          rw [otherSeeks] at uses
          cases uses
        · rw [← indexEq]
          exact uses
      · refine .inr ⟨?_, ?_⟩
        · intro event
          injection event with otherEq
          exact same otherEq.symm
        · exact (Function.update_of_ne same _ _).trans seeks
  | query holds => exact .inr ⟨nofun, seeks⟩
  | unlock holds => exact .inr ⟨nofun, bystander holds nofun⟩

/-- The turns of a search that goes on count up. -/
theorem turns_of_run {start : SyncPool} {caller : ℕ} {i : UInt32}
    (locked : Locked connections start) (seeks : start.callers caller = .seeking i)
    (run : Run (SyncPool.step connections) start trace state)
    (goesOn : ∀ entry ∈ trace, entry.after.Seeks caller) :
    Locked connections state ∧
      state.callers caller = .seeking (i + UInt32.ofNat (tries caller trace).length) ∧
      ∀ turn entry, (tries caller trace)[turn]? = some entry →
        Turns connections caller (i + UInt32.ofNat turn) entry := by
  refine run.invariant (fun trace state => Locked connections state ∧
    state.callers caller = .seeking (i + UInt32.ofNat (tries caller trace).length) ∧
    ∀ turn entry, (tries caller trace)[turn]? = some entry →
      Turns connections caller (i + UInt32.ofNat turn) entry) _ goesOn ?_ ?_
  · exact ⟨locked, by simp [tries, seeks], by simp [tries]⟩
  · intro trace entry before still stepped
    rcases before with ⟨locked, seeks, turns⟩
    have moves := syncMoves_of_step stepped
    refine ⟨locked_of_moves locked moves, ?_⟩
    rw [tries_concat]
    rcases seeks_of_moves locked seeks still moves with
      ⟨isTry, next, turn⟩ | ⟨notTry, same⟩
    · rw [if_pos isTry]
      refine ⟨?_, ?_⟩
      · rw [next, List.length_append, List.length_singleton, UInt32.ofNat_add, ← UInt32.add_assoc]
        rfl
      · intro count other found
        rcases Nat.lt_or_ge count (tries caller trace).length with earlier | last
        · rw [List.getElem?_append_left earlier] at found
          exact turns count other found
        · rw [List.getElem?_append_right last, List.getElem?_singleton] at found
          split at found
          · rename_i countEq
            injection found with entryEq
            have countEq : count = (tries caller trace).length := by omega
            rw [countEq, ← entryEq]
            exact turn
          · cases found
    · rw [if_neg notTry, List.append_nil]
      exact ⟨same, turns⟩

/--
A search that goes on for two rounds less one turn has come past every connection, and has found
each in use by another caller: a connection that stays free is found.
-/
theorem search_covers {earlier : List SyncEntry} {middle : SyncPool} {caller index : ℕ}
    (run : SyncRun connections earlier middle)
    (meanwhile : Run (SyncPool.step connections) middle trace state)
    (begun : middle.Seeks caller) (goesOn : ∀ entry ∈ trace, entry.after.Seeks caller)
    (long : 2 * (SyncPool.connSize connections).toNat ≤ (tries caller trace).length + 1)
    (inside : index < (SyncPool.connSize connections).toNat) :
    ∃ entry ∈ trace, entry.event = .tryLock caller ∧ entry.output = some index ∧
      ∃ other, other ≠ caller ∧ entry.before.callers other = .holding index := by
  rcases begun with ⟨i, seeks⟩
  rcases turns_of_run (locked_of_run run) seeks meanwhile goesOn with ⟨_, _, turns⟩
  have fits : (SyncPool.connSize connections).toNat ≤ 2 ^ 32 :=
    le_trans (UInt8.toNat_lt _).le (by norm_num)
  rcases exists_residue (UInt32.toNat_lt (i + 1)) fits inside with ⟨turn, soon, residue⟩
  have made : turn < (tries caller trace).length := by omega
  have found := List.getElem?_eq_getElem made
  have turned := turns turn _ found
  have indexEq : (i + UInt32.ofNat turn + 1).toNat % (SyncPool.connSize connections).toNat =
      index := by
    have countEq : i + UInt32.ofNat turn + 1 = i + 1 + UInt32.ofNat turn := by
      rw [UInt32.add_assoc, UInt32.add_comm (UInt32.ofNat turn), ← UInt32.add_assoc]
    rw [← residue, countEq, UInt32.toNat_add, UInt32.toNat_ofNat', Nat.add_mod_mod]
  have entryMem := List.mem_filter.mp (List.getElem_mem made)
  refine ⟨_, entryMem.1, of_decide_eq_true entryMem.2, ?_, ?_⟩
  · rw [turned.output, indexEq]
  · rcases turned.taken with ⟨other, differs, uses⟩
    exact ⟨other, differs, indexEq ▸ uses⟩

/-! ## A sample run -/

namespace Sample

/-- Two callers lock the two connections, and a third one begins its search. -/
def busy : List SyncEvent :=
  [.call 0, .tryLock 0, .query 0, .call 1, .tryLock 1, .tryLock 1, .query 1, .call 2]

def searching : List SyncEvent :=
  [.tryLock 2, .query 0, .tryLock 2, .tryLock 2]

/-- The first caller is done, and the third one finds its connection. -/
def handover : List SyncEvent :=
  [.unlock 0, .tryLock 2, .query 2]

end Sample

theorem search_covers_sample :
    ∃ (earlier trace : List SyncEntry) (middle state : SyncPool),
      earlier.map Entry.event = Sample.busy ∧ trace.map Entry.event = Sample.searching ∧
      SyncRun 2 earlier middle ∧ Run (SyncPool.step 2) middle trace state ∧
      ∃ entry ∈ trace, entry.event = .tryLock 2 ∧ entry.output = some 1 ∧
        ∃ other, other ≠ 2 ∧ entry.before.callers other = .holding 1 := by
  have found : ∃ result ∈ replay (SyncPool.step 2) SyncPool.new Sample.busy,
      ∃ later ∈ replay (SyncPool.step 2) result.2 Sample.searching,
        result.2.Seeks 2 ∧ (∀ entry ∈ later.1, entry.after.Seeks 2) ∧
        (tries 2 later.1).length = 3 := by
    decide +kernel
  rcases found with ⟨⟨earlier, middle⟩, busy, ⟨trace, state⟩, searching, begun, goesOn, turns⟩
  have run : SyncRun 2 earlier middle := .ofReplay busy
  have meanwhile : Run (SyncPool.step 2) middle trace state := .ofReplay searching
  have long : 2 * (SyncPool.connSize 2).toNat ≤ (tries 2 trace).length + 1 := by
    rw [turns]
    decide
  exact ⟨earlier, trace, middle, state, map_event_replay busy, map_event_replay searching, run,
    meanwhile, search_covers run meanwhile begun goesOn long (by decide)⟩

theorem queries_separated_sample :
    ∃ (trace : List SyncEntry) (state : SyncPool),
      trace.map Entry.event = Sample.busy ++ Sample.handover ∧
      state.callers 2 = .holding 1 ∧ state.holder 1 = some 2 := by
  have found : ∃ result ∈ replay (SyncPool.step 2) SyncPool.new (Sample.busy ++ Sample.handover),
      result.2.callers 2 = .holding 1 := by
    decide +kernel
  rcases found with ⟨⟨trace, state⟩, replayed, holds⟩
  have separated := queries_separated (Run.ofReplay replayed)
  exact ⟨trace, state, map_event_replay replayed, holds, (separated.1 1 2).mpr holds⟩

end Poolserver.MySQL
