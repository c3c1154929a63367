import Mathlib.Data.List.Basic
import Mathlib.Tactic

/-!
# Maps that remember their order

A map is kept as a list of entries beside the list of its keys in the order in which they
came. Storing pairs one after the other leaves every key at its first place with its last
value.
-/

namespace OrderedMap

universe u v

variable {κ : Type u} {α : Type v} [BEq κ]

/-- Sets the value of a key from its old value. -/
def update (key : κ) (f : Option α → α) : List (κ × α) → List (κ × α)
  | [] => [(key, f none)]
  | (other, value) :: entries =>
      if key == other then (other, f (some value)) :: entries
      else (other, value) :: update key f entries

/-- The keys with a new one, if it is not known yet. -/
def track (known : Bool) (key : κ) (order : List κ) : List κ :=
  if known then order else order ++ [key]

/-- Pairs that are stored one after the other. -/
def collapse (pairs : List (κ × α)) : List (κ × α) :=
  (pairs.map Prod.fst).eraseDups.filterMap fun key =>
    (pairs.reverse.lookup key).map fun value => (key, value)

theorem lookup_map {β : Type v} (g : α → β) (entries : List (κ × α)) (key : κ) :
    (entries.map fun entry => (entry.1, g entry.2)).lookup key = (entries.lookup key).map g := by
  induction entries with
  | nil => rfl
  | cons entry entries ih =>
      rcases entry with ⟨first, value⟩
      simp only [List.map_cons, List.lookup_cons, ih]
      cases key == first <;> rfl

theorem mem_update {key : κ} {f : Option α → α} {entries : List (κ × α)} {entry : κ × α}
    (entryMem : entry ∈ update key f entries) :
    entry ∈ entries ∨ entry.2 = f (entries.lookup key) := by
  induction entries with
  | nil =>
      rw [update, List.mem_singleton] at entryMem
      right
      rw [entryMem]
      rfl
  | cons first entries ih =>
      rcases first with ⟨name, value⟩
      unfold update at entryMem
      split at entryMem
      · rename_i here
        rcases List.mem_cons.mp entryMem with rfl | inRest
        · right
          rw [List.lookup_cons, here]
        · exact .inl (List.mem_cons_of_mem _ inRest)
      · rename_i other
        rcases List.mem_cons.mp entryMem with rfl | inRest
        · exact .inl List.mem_cons_self
        · rcases ih inRest with old | new
          · exact .inl (List.mem_cons_of_mem _ old)
          · right
            rw [List.lookup_cons, Bool.eq_false_iff.mpr other]
            exact new

variable [LawfulBEq κ]

theorem lookup_update (key other : κ) (f : Option α → α) (entries : List (κ × α)) :
    (update key f entries).lookup other =
      if other == key then some (f (entries.lookup key)) else entries.lookup other := by
  induction entries with
  | nil =>
      simp only [update, List.lookup_cons, List.lookup_nil]
      cases other == key <;> rfl
  | cons entry entries ih =>
      rcases entry with ⟨first, value⟩
      unfold update
      by_cases here : key = first
      · subst here
        simp only [beq_self_eq_true, if_true, List.lookup_cons]
        cases other == key <;> rfl
      · have keyBeq : (key == first) = false := beq_eq_false_iff_ne.mpr here
        simp only [keyBeq, Bool.false_eq_true, if_false, List.lookup_cons, ih]
        by_cases there : other = first
        · subst there
          have otherBeq : (other == key) = false := beq_eq_false_iff_ne.mpr (Ne.symm here)
          simp [otherBeq]
        · have otherBeq : (other == first) = false := beq_eq_false_iff_ne.mpr there
          simp only [otherBeq]

theorem mem_of_lookup {entries : List (κ × α)} {key : κ} {value : α}
    (found : entries.lookup key = some value) : (key, value) ∈ entries := by
  rcases List.lookup_eq_some_iff.mp found with ⟨before, behind, split, _⟩
  rw [split]
  simp

theorem eraseDups_track (key : κ) (keys : List κ) {known : Bool}
    (knows : known = true ↔ key ∈ keys) :
    (keys ++ [key]).eraseDups = track known key keys.eraseDups := by
  rw [List.eraseDups_append]
  unfold track
  cases known with
  | true =>
      have present : key ∈ keys := knows.mp rfl
      have nothing : [key].removeAll keys = [] := by
        simp [List.removeAll, present]
      simp [nothing]
  | false =>
      have absent : key ∉ keys := fun present => Bool.false_ne_true (knows.mpr present)
      have itself : [key].removeAll keys = [key] := by
        simp [List.removeAll, absent]
      simp [itself, List.eraseDups_cons]

theorem nodup_eraseDups (keys : List κ) : keys.eraseDups.Nodup := by
  induction keys using List.reverseRecOn with
  | nil => exact List.nodup_nil
  | append_singleton keys key ih =>
      rw [eraseDups_track key keys List.contains_iff_mem]
      unfold track
      split
      · exact ih
      · rename_i unknown
        rw [List.nodup_append_comm, List.singleton_append, List.nodup_cons, List.mem_eraseDups]
        exact ⟨fun keyMem => unknown (List.contains_iff_mem.mpr keyMem), ih⟩

theorem lookup_isSome_iff_mem (pairs : List (κ × α)) (key : κ) :
    (pairs.lookup key).isSome = true ↔ key ∈ pairs.map Prod.fst := by
  rw [List.lookup_isSome_iff]
  simp only [List.mem_map]
  constructor
  · rintro ⟨pair, pairMem, same⟩
    exact ⟨pair, pairMem, (eq_of_beq same).symm⟩
  · rintro ⟨pair, pairMem, rfl⟩
    exact ⟨pair, pairMem, beq_self_eq_true _⟩

/-- Every key has a value, so that no default is taken. -/
theorem collapse_eq_map (default : α) (pairs : List (κ × α)) :
    collapse pairs = (pairs.map Prod.fst).eraseDups.map fun key =>
      (key, (pairs.reverse.lookup key).getD default) := by
  unfold collapse
  generalize keysEq : (pairs.map Prod.fst).eraseDups = keys
  rw [← List.filterMap_eq_map]
  apply List.filterMap_congr
  intro key keyMem
  have known : (pairs.reverse.lookup key).isSome = true := by
    rw [lookup_isSome_iff_mem, List.map_reverse, List.mem_reverse]
    rw [← keysEq] at keyMem
    exact List.mem_eraseDups.mp keyMem
  rcases Option.isSome_iff_exists.mp known with ⟨value, found⟩
  simp [found]

/-- Nothing new comes in. -/
theorem collapse_subset {pairs : List (κ × α)} : collapse pairs ⊆ pairs := by
  intro pair pairMem
  rcases List.mem_filterMap.mp pairMem with ⟨key, _, found⟩
  rcases Option.map_eq_some_iff.mp found with ⟨value, lookupEq, rfl⟩
  exact List.mem_reverse.mp (mem_of_lookup lookupEq)

theorem eraseDups_of_nodup {keys : List κ} (nodup : keys.Nodup) : keys.eraseDups = keys := by
  induction keys with
  | nil => rfl
  | cons key keys ih =>
      rw [List.nodup_cons] at nodup
      rw [List.eraseDups_cons]
      have others : keys.filter (fun other => !other == key) = keys := by
        apply List.filter_eq_self.mpr
        intro other otherMem
        have differs : other ≠ key := fun same => nodup.1 (same ▸ otherMem)
        simp [differs]
      rw [others, ih nodup.2]

theorem lookup_of_nodup {pairs : List (κ × α)} (nodup : (pairs.map Prod.fst).Nodup)
    {key : κ} {value : α} (pairMem : (key, value) ∈ pairs) : pairs.lookup key = some value := by
  induction pairs with
  | nil => simp at pairMem
  | cons pair pairs ih =>
      rcases pair with ⟨first, firstValue⟩
      rw [List.map_cons, List.nodup_cons] at nodup
      rw [List.lookup_cons]
      rcases List.mem_cons.mp pairMem with same | inRest
      · injection same with keyEq valueEq
        rw [keyEq, valueEq, beq_self_eq_true]
      · have differs : key ≠ first := by
          rintro rfl
          exact nodup.1 (List.mem_map.mpr ⟨_, inRest, rfl⟩)
        rw [beq_eq_false_iff_ne.mpr differs]
        exact ih nodup.2 inRest

/-- Pairs with different keys are all kept. -/
theorem collapse_of_nodup {pairs : List (κ × α)} (nodup : (pairs.map Prod.fst).Nodup) :
    collapse pairs = pairs := by
  have reversed : (pairs.reverse.map Prod.fst).Nodup := by
    rw [List.map_reverse]
    exact List.nodup_reverse.mpr nodup
  unfold collapse
  rw [eraseDups_of_nodup nodup, List.filterMap_map]
  have same : ∀ pair ∈ pairs,
      ((fun key => (pairs.reverse.lookup key).map fun value => (key, value)) ∘ Prod.fst) pair =
        some pair := by
    intro pair pairMem
    have found := lookup_of_nodup reversed (List.mem_reverse.mpr pairMem)
    rw [Function.comp_apply, found]
    rfl
  rw [List.filterMap_congr same, List.filterMap_some]

end OrderedMap
