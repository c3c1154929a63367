import Mathlib.Data.List.TakeWhile
import Mathlib.Order.Lattice

/-!
# Sliding windows

Records with nondecreasing keys are appended to a queue, whose front is now and then pruned of the
records up to a cutoff. As long as no cutoff is smaller than an earlier one, the queue that was
just pruned holds the records of the whole log behind the cutoff.
-/

namespace SlidingWindow

universe u v

variable {α : Type u} {κ : Type v} [LinearOrder κ]

/-- The queue is the end of the log, and nothing behind the cutoff is missing. -/
def Covers (key : α → κ) (cutoff : κ) (log queue : List α) : Prop :=
  ∃ old, log = old ++ queue ∧ ∀ record ∈ old, key record ≤ cutoff

/-- Drops the records up to a cutoff from the front. -/
def prune (key : α → κ) (cutoff : κ) (queue : List α) : List α :=
  queue.dropWhile fun record => key record ≤ cutoff

variable {key : α → κ} {cutoff later : κ} {log queue : List α}

theorem Covers.nil (key : α → κ) (cutoff : κ) : Covers key cutoff [] [] :=
  ⟨[], rfl, by simp⟩

theorem Covers.push (covers : Covers key cutoff log queue) (record : α) :
    Covers key cutoff (log ++ [record]) (queue ++ [record]) := by
  rcases covers with ⟨old, rfl, dropped⟩
  exact ⟨old, List.append_assoc .., dropped⟩

theorem Covers.mono (covers : Covers key cutoff log queue) (order : cutoff ≤ later) :
    Covers key later log queue := by
  rcases covers with ⟨old, logEq, dropped⟩
  exact ⟨old, logEq, fun record recordMem => (dropped record recordMem).trans order⟩

theorem Covers.prune (covers : Covers key cutoff log queue) :
    Covers key cutoff log (prune key cutoff queue) := by
  rcases covers with ⟨old, rfl, dropped⟩
  refine ⟨old ++ queue.takeWhile fun record => key record ≤ cutoff, ?_, ?_⟩
  · rw [List.append_assoc, SlidingWindow.prune, List.takeWhile_append_dropWhile]
  · intro record recordMem
    rcases List.mem_append.mp recordMem with early | late
    · exact dropped record early
    · simpa using List.mem_takeWhile_imp late

/-- From ordered records, the front up to a cutoff and all records up to it are the same. -/
theorem prune_eq_filter (sorted : queue.Pairwise fun first second => key first ≤ key second) :
    prune key cutoff queue = queue.filter fun record => cutoff < key record := by
  induction queue with
  | nil => rfl
  | cons head queue ih =>
      rw [List.pairwise_cons] at sorted
      by_cases old : key head ≤ cutoff
      · rw [prune, List.dropWhile_cons_of_pos (by simpa using old),
          List.filter_cons_of_neg (by simpa using old)]
        exact ih sorted.2
      · have kept : ∀ record ∈ head :: queue, cutoff < key record := by
          rw [not_le] at old
          intro record recordMem
          rcases List.mem_cons.mp recordMem with rfl | behind
          · exact old
          · exact old.trans_le (sorted.1 record behind)
        rw [prune, List.dropWhile_cons_of_neg (by simpa using old)]
        exact (List.filter_eq_self.mpr (by simpa using kept)).symm

/-- A pruned queue holds the records of the log behind the cutoff. -/
theorem Covers.prune_eq (covers : Covers key cutoff log queue)
    (sorted : log.Pairwise fun first second => key first ≤ key second) :
    SlidingWindow.prune key cutoff queue = log.filter fun record => cutoff < key record := by
  rcases covers with ⟨old, rfl, dropped⟩
  have nothing : (old.filter fun record => cutoff < key record) = [] := by
    rw [List.filter_eq_nil_iff]
    intro record recordMem
    simpa using dropped record recordMem
  rw [List.filter_append, nothing, List.nil_append]
  exact prune_eq_filter (List.pairwise_append.mp sorted).2.1

end SlidingWindow
