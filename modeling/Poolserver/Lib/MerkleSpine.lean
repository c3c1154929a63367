import Mathlib.Data.List.Basic
import Mathlib.Data.Set.Function
import Mathlib.Tactic

/-!
# Merkle levels and the left spine

A level of a Merkle tree is reduced to the next one by combining consecutive
nodes, the last node of an odd level with itself. Along the left spine a level
is kept as its first node and the rest: the rest of the next level does not
depend on the first node, so the siblings on the path of the first leaf (its
`branch`) and the shape of the whole tree are functions of the other leaves
alone. Everything is stated for an arbitrary combining function.
-/

namespace MerkleSpine

universe u

variable {α : Type u} (node : α → α → α)

/-- Combine consecutive nodes; the last node of an odd level is combined with itself. -/
def nextLevel : List α → List α
  | left :: right :: rest => node left right :: nextLevel rest
  | [last] => [node last last]
  | [] => []

@[simp]
theorem length_nextLevel (level : List α) :
    (nextLevel node level).length = (level.length + 1) / 2 := by
  induction level using nextLevel.induct with
  | case1 left right rest ih =>
      simp only [nextLevel, List.length_cons, ih]
      omega
  | case2 last => simp [nextLevel]
  | case3 => simp [nextLevel]

/-- The siblings of the left spine, for a level without its first node. -/
def branch : List α → List α
  | [] => []
  | sibling :: others => sibling :: branch (nextLevel node others)
termination_by level => level.length
decreasing_by
  simp only [length_nextLevel, List.length_cons]
  omega

/-- All levels of the tree in order, for a first level given as its first node and the rest. -/
def tree (first : α) : List α → List α
  | [] => [first]
  | sibling :: others =>
      first :: sibling :: others ++ tree (node first sibling) (nextLevel node others)
termination_by level => level.length
decreasing_by
  simp only [length_nextLevel, List.length_cons]
  omega

/-- The root is reached from the first leaf through its branch. -/
def root (first : α) (rest : List α) : α :=
  (branch node rest).foldl node first

@[simp]
theorem branch_nil : branch node [] = [] := by
  rw [branch]

theorem branch_cons (sibling : α) (others : List α) :
    branch node (sibling :: others) = sibling :: branch node (nextLevel node others) := by
  rw [branch]

@[simp]
theorem tree_nil (first : α) : tree node first [] = [first] := by
  rw [tree]

theorem tree_cons (first sibling : α) (others : List α) :
    tree node first (sibling :: others) =
      first :: sibling :: others ++
        tree node (node first sibling) (nextLevel node others) := by
  rw [tree]

theorem root_cons (first sibling : α) (others : List α) :
    root node first (sibling :: others) =
      root node (node first sibling) (nextLevel node others) := by
  simp [root, branch_cons]

/-- A tree starts with its first level. -/
theorem tree_eq_append (first : α) (rest : List α) :
    ∃ above, tree node first rest = first :: rest ++ above := by
  cases rest with
  | nil => exact ⟨[], by simp⟩
  | cons sibling others => exact ⟨_, tree_cons node first sibling others⟩

/-- The last node of a tree is its root. -/
theorem getLast?_tree (first : α) (rest : List α) :
    (tree node first rest).getLast? = some (root node first rest) := by
  induction rest using branch.induct node generalizing first with
  | case1 => simp [root]
  | case2 sibling others ih =>
      rw [tree_cons, List.getLast?_append, ih, root_cons]
      rfl

theorem length_tree_le (first : α) (rest : List α) :
    (tree node first rest).length ≤ 3 * (rest.length + 1) := by
  induction rest using branch.induct node generalizing first with
  | case1 => simp
  | case2 sibling others ih =>
      have above := ih (node first sibling)
      rw [length_nextLevel] at above
      simp only [tree_cons, List.length_append, List.length_cons]
      -- a level of two or three nodes leaves no slack for the rounding of the next one
      cases others with
      | nil => simp [nextLevel]
      | cons other others =>
          simp only [List.length_cons] at above ⊢
          omega

/-- Nodes above the first level are combined ones. -/
theorem mem_nextLevel {level : List α} {item : α} (itemMem : item ∈ nextLevel node level) :
    ∃ left right, item = node left right := by
  induction level using nextLevel.induct with
  | case1 left right rest ih =>
      rcases List.mem_cons.mp itemMem with rfl | above
      · exact ⟨left, right, rfl⟩
      · exact ih above
  | case2 last => exact ⟨last, last, List.mem_singleton.mp itemMem⟩
  | case3 => simp [nextLevel] at itemMem

/-- A sibling is a leaf or a combined node. -/
theorem mem_branch {rest : List α} {item : α} (itemMem : item ∈ branch node rest) :
    item ∈ rest ∨ ∃ left right, item = node left right := by
  induction rest using branch.induct node with
  | case1 => simp at itemMem
  | case2 sibling others ih =>
      rw [branch_cons] at itemMem
      rcases List.mem_cons.mp itemMem with rfl | above
      · exact Or.inl (by simp)
      · rcases ih above with level | combined
        · exact Or.inr (mem_nextLevel node level)
        · exact Or.inr combined

/-- The pairs that are combined on the way from the first leaf to the root. -/
def spineSteps (first : α) : List α → List (α × α)
  | [] => []
  | sibling :: siblings => (first, sibling) :: spineSteps (node first sibling) siblings

/-- On the left is the first leaf or a combined node, on the right a sibling. -/
theorem mem_spineSteps {first : α} {siblings : List α} {pair : α × α}
    (pairMem : pair ∈ spineSteps node first siblings) :
    (pair.1 = first ∨ ∃ left right, pair.1 = node left right) ∧ pair.2 ∈ siblings := by
  induction siblings generalizing first with
  | nil => simp [spineSteps] at pairMem
  | cons sibling siblings ih =>
      rcases List.mem_cons.mp pairMem with rfl | above
      · exact ⟨Or.inl rfl, by simp⟩
      · rcases ih above with ⟨left, right⟩
        refine ⟨Or.inr ?_, List.mem_cons_of_mem _ right⟩
        rcases left with combined | combined
        · exact ⟨first, sibling, combined⟩
        · exact combined

theorem spineSteps_append_singleton (first : α) (siblings : List α) (last : α) :
    spineSteps node first (siblings ++ [last]) =
      spineSteps node first siblings ++ [(siblings.foldl node first, last)] := by
  induction siblings generalizing first with
  | nil => rfl
  | cons sibling siblings ih => simp [spineSteps, ih]

variable {node}

/--
Where the combining function has no collision, two spines with one root start at the
same leaf and pass the same siblings, or the leaf of one of them is an inner node of the other.
-/
theorem spine_injective {combined : Set (α × α)}
    (injective : combined.InjOn fun pair => node pair.1 pair.2)
    {left right : α} {leftSiblings rightSiblings : List α}
    (leftSteps : ∀ pair ∈ spineSteps node left leftSiblings, pair ∈ combined)
    (rightSteps : ∀ pair ∈ spineSteps node right rightSiblings, pair ∈ combined)
    (sameRoot : leftSiblings.foldl node left = rightSiblings.foldl node right) :
    (left = right ∧ leftSiblings = rightSiblings) ∨
      (∃ pair ∈ spineSteps node right rightSiblings, left = node pair.1 pair.2) ∨
      (∃ pair ∈ spineSteps node left leftSiblings, right = node pair.1 pair.2) := by
  induction leftSiblings using List.reverseRecOn generalizing rightSiblings with
  | nil =>
      rcases List.eq_nil_or_concat rightSiblings with rfl | ⟨siblings, last, rfl⟩
      · exact Or.inl ⟨sameRoot, rfl⟩
      · right
        left
        refine ⟨(siblings.foldl node right, last), ?_, ?_⟩
        · simp [spineSteps_append_singleton]
        · simpa using sameRoot
  | append_singleton leftSiblings leftLast ih =>
      rcases List.eq_nil_or_concat rightSiblings with rfl | ⟨siblings, last, rfl⟩
      · right
        right
        refine ⟨(leftSiblings.foldl node left, leftLast), ?_, ?_⟩
        · simp [spineSteps_append_singleton]
        · simpa using sameRoot.symm
      · simp only [List.concat_eq_append, spineSteps_append_singleton, List.mem_append,
          List.mem_singleton, List.foldl_append, List.foldl_cons,
          List.foldl_nil] at leftSteps rightSteps sameRoot ⊢
        have samePair := injective (leftSteps _ (Or.inr rfl)) (rightSteps _ (Or.inr rfl)) sameRoot
        simp only [Prod.mk.injEq] at samePair
        rcases samePair with ⟨sameBelow, rfl⟩
        have below := ih (fun pair pairMem => leftSteps pair (Or.inl pairMem))
          (fun pair pairMem => rightSteps pair (Or.inl pairMem)) sameBelow
        rcases below with ⟨rfl, rfl⟩ | ⟨pair, pairMem, shape⟩ | ⟨pair, pairMem, shape⟩
        · exact Or.inl ⟨rfl, rfl⟩
        · exact Or.inr (Or.inl ⟨pair, Or.inl pairMem, shape⟩)
        · exact Or.inr (Or.inr ⟨pair, Or.inl pairMem, shape⟩)

end MerkleSpine
