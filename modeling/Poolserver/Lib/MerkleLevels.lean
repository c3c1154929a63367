import Mathlib.Data.List.Chain
import Mathlib.Data.Nat.Log
import Poolserver.Lib.MerkleSpine

/-!
# The levels of a Merkle tree, and its nodes from the top down

A tree laid out in one list is the concatenation of its levels, each made from the one below it. A
node is as well found by recursion from the top: it combines its two children, or its only child
with itself. Both give the same root.
-/

namespace MerkleSpine

universe u

variable {α : Type u} (node : α → α → α)

/-- The levels of a tree, from the leaves to the root. -/
def levels : List α → List (List α)
  | left :: right :: rest =>
      (left :: right :: rest) :: levels (nextLevel node (left :: right :: rest))
  | level => [level]
termination_by level => level.length
decreasing_by
  simp only [length_nextLevel, List.length_cons]
  omega

/-- The node at a height and a position over the leaves, by recursion on its children. -/
def nodeAt (leaves : List α) : ℕ → ℕ → Option α
  | 0, position => leaves[position]?
  | height + 1, position => do
      let left ← nodeAt leaves height (2 * position)
      -- a node with a single child combines it with itself
      let right := (nodeAt leaves height (2 * position + 1)).getD left
      return node left right

/-- The root, at the height at which a single node is left. -/
def topNode (leaves : List α) : Option α :=
  nodeAt node leaves (Nat.clog 2 leaves.length) 0

/-- The number of nodes over so many leaves, in all levels together. -/
def nodes (leaves : ℕ) : ℕ :=
  if 1 < leaves then leaves + nodes ((leaves + 1) / 2) else leaves
decreasing_by
  omega

theorem nodes_of_lt {leaves : ℕ} (several : 1 < leaves) :
    nodes leaves = leaves + nodes ((leaves + 1) / 2) := by
  rw [nodes, if_pos several]

theorem nodes_one : nodes 1 = 1 := by
  rw [nodes]
  rfl

theorem le_nodes (leaves : ℕ) : leaves ≤ nodes leaves := by
  rw [nodes]
  split
  · exact Nat.le_add_right _ _
  · exact le_rfl

theorem length_tree (first : α) (rest : List α) :
    (tree node first rest).length = nodes (rest.length + 1) := by
  induction rest using branch.induct node generalizing first with
  | case1 => rw [tree_nil, List.length_singleton, List.length_nil, nodes_one]
  | case2 sibling others ih =>
      have half : (others.length + 1) / 2 + 1 = (others.length + 1 + 1 + 1) / 2 := by omega
      rw [tree_cons, List.length_append, ih, length_nextLevel, half, List.length_cons,
        List.length_cons, nodes_of_lt (by omega : 1 < others.length + 1 + 1)]

theorem nodes_le (leaves : ℕ) : nodes leaves ≤ 3 * leaves := by
  cases leaves with
  | zero =>
      rw [nodes]
      rfl
  | succ rest =>
      have bound := length_tree_le (fun left _ : Unit => left) () (List.replicate rest ())
      rwa [length_tree, List.length_replicate] at bound

theorem levels_cons_cons (left right : α) (rest : List α) :
    levels node (left :: right :: rest) =
      (left :: right :: rest) :: levels node (nextLevel node (left :: right :: rest)) := by
  rw [levels]

theorem levels_singleton (last : α) : levels node [last] = [[last]] := by
  rw [levels]
  simp

theorem levels_nil : levels node [] = [[]] := by
  rw [levels]
  simp

theorem head?_levels (level : List α) : (levels node level).head? = some level := by
  cases level with
  | nil => rw [levels_nil, List.head?_cons]
  | cons first rest =>
      cases rest with
      | nil => rw [levels_singleton, List.head?_cons]
      | cons second rest => rw [levels_cons_cons, List.head?_cons]

/-- Each level is made from the one below it. -/
theorem isChain_levels (level : List α) :
    (levels node level).IsChain fun below above => above = nextLevel node below := by
  induction level using levels.induct node with
  | case1 left right rest ih =>
      rw [levels_cons_cons]
      refine List.isChain_cons.mpr ⟨?_, ih⟩
      intro above aboveMem
      rw [head?_levels, Option.mem_some_iff] at aboveMem
      exact aboveMem.symm
  | case2 level small =>
      rw [levels]
      · exact List.isChain_singleton _
      · exact small

/-- The layout of a tree is the concatenation of its levels. -/
theorem tree_eq_flatten (first : α) (rest : List α) :
    tree node first rest = (levels node (first :: rest)).flatten := by
  induction rest using branch.induct node generalizing first with
  | case1 => simp [levels_singleton]
  | case2 sibling others ih =>
      rw [tree_cons, levels_cons_cons, List.flatten_cons, nextLevel, ih]

/-- The last level is the root alone. -/
theorem getLast?_levels (first : α) (rest : List α) :
    (levels node (first :: rest)).getLast? = some [root node first rest] := by
  induction rest using branch.induct node generalizing first with
  | case1 => simp [levels_singleton, root]
  | case2 sibling others ih =>
      rw [levels_cons_cons, nextLevel, List.getLast?_cons, ih, root_cons]
      rfl

theorem getElem?_nextLevel (level : List α) (position : ℕ) :
    (nextLevel node level)[position]? =
      level[2 * position]?.map fun left => node left (level[2 * position + 1]?.getD left) := by
  induction level using nextLevel.induct generalizing position with
  | case1 left right rest ih =>
      cases position with
      | zero => simp [nextLevel]
      | succ position =>
          rw [nextLevel, List.getElem?_cons_succ, ih]
          simp [Nat.mul_succ]
  | case2 last => cases position <;> simp [nextLevel, Nat.mul_succ]
  | case3 => simp [nextLevel]

/-- A node over the next level is one higher over this one. -/
theorem nodeAt_nextLevel (level : List α) (height position : ℕ) :
    nodeAt node (nextLevel node level) height position = nodeAt node level (height + 1) position := by
  induction height generalizing position with
  | zero =>
      simp only [nodeAt, getElem?_nextLevel]
      cases level[2 * position]? <;> rfl
  | succ height ih =>
      conv_lhs => rw [nodeAt]
      conv_rhs => rw [nodeAt]
      simp only [ih]

/-- The two ways to the root agree. -/
theorem topNode_eq_root (first : α) (rest : List α) :
    topNode node (first :: rest) = some (root node first rest) := by
  induction rest using branch.induct node generalizing first with
  | case1 => simp [topNode, nodeAt, root]
  | case2 sibling others ih =>
      have above := ih (node first sibling)
      have half : Nat.clog 2 (first :: sibling :: others).length =
          Nat.clog 2 (node first sibling :: nextLevel node others).length + 1 := by
        rw [Nat.clog_of_two_le Nat.one_lt_two (by simp)]
        simp only [List.length_cons, length_nextLevel]
        congr 2
        omega
      rw [topNode, half, ← nodeAt_nextLevel, nextLevel, root_cons]
      exact above

end MerkleSpine
