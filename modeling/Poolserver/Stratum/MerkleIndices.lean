import Mathlib.Order.Bounds.Basic
import Poolserver.Lib.Logged
import Poolserver.Stratum.Job

/-!
# The indices of the merkle loops

`BuildMerkleTree`, `RebuildMerkleTree` and the branch loop of `SendJob` walk through the levels of
a tree with an offset and a size in 32 bits, and look ahead from the offset in different ways. The
loops are run with a log of the indices they use and the sums they compute. In front of a turn the
offset and the nodes of the levels that remain make up the whole tree, so that every index is in
the vector and the loops end at the same offset.
-/

namespace Poolserver.Stratum

open Poolserver.Bitcoin Logged MerkleSpine

/-- An index with the size of the vector at that moment, or a computation with 32-bit numbers. -/
inductive Touch where
  | index (position length : ℕ)
  | sum (left right : UInt32)
  | difference (left right : UInt32)
  deriving DecidableEq, Repr

/-- The index is in the vector, the sum or the difference does not wrap around. -/
def Touch.InRange : Touch → Prop
  | .index position length => position < length
  | .sum left right => left.toNat + right.toNat < 2 ^ 32
  | .difference left right => right.toNat ≤ left.toNat

/-- A loop with its log; an index outside the vector and a loop that does not end fail. -/
abbrev Loop (α : Type) := Logged Touch Unit α

def readAt (vector : List BinaryData) (index : ℕ) : Loop BinaryData := do
  note (.index index vector.length)
  match vector[index]? with
  | some data => return data
  | none => fail ()

def writeAt (vector : List BinaryData) (index : ℕ) (data : BinaryData) :
    Loop (List BinaryData) := do
  note (.index index vector.length)
  match Block.assign vector index data with
  | some vector => return vector
  | none => fail ()

def plus (left right : UInt32) : Loop UInt32 := do
  note (.sum left right)
  return left + right

def minus (left right : UInt32) : Loop UInt32 := do
  note (.difference left right)
  return left - right

/-! ## The loops -/

variable (sha256d : BinaryData → BinaryData)

/-- The inner loop of `BuildMerkleTree`. -/
def buildLevelLoop (j size : UInt32) : ℕ → UInt32 → List BinaryData → Loop (List BinaryData)
  | 0, _, _ => fail ()
  | fuel + 1, i, merkleTree =>
      if i < size then do
        let next ← plus i 1
        let last ← minus size 1
        let i2 := stdMin next last
        let left ← readAt merkleTree (← plus j i).toNat
        let right ← readAt merkleTree (← plus j i2).toNat
        let i ← plus i 2
        buildLevelLoop j size fuel i (merkleTree ++ [sha256d (Util.join left right)])
      else return merkleTree

/-- The outer loop of `BuildMerkleTree`, with the offset it ends at. -/
def buildLoop : ℕ → UInt32 → UInt32 → List BinaryData → Loop (List BinaryData × UInt32)
  | 0, _, _, _ => fail ()
  | fuel + 1, j, size, merkleTree =>
      if 1 < size then do
        let merkleTree ← buildLevelLoop sha256d j size (size.toNat + 1) 0 merkleTree
        let j ← plus j size
        let size ← plus size 1
        buildLoop fuel j (size / 2) merkleTree
      else return (merkleTree, j)

/-- The loop of `RebuildMerkleTree`, likewise. -/
def rebuildLoop : ℕ → UInt32 → UInt32 → List BinaryData → Loop (List BinaryData × UInt32)
  | 0, _, _, _ => fail ()
  | fuel + 1, j, size, merkleTree =>
      if 1 < size then do
        let left ← readAt merkleTree j.toNat
        let right ← readAt merkleTree (← plus j 1).toNat
        let merkleTree ← writeAt merkleTree (← plus j size).toNat (sha256d (Util.join left right))
        let j ← plus j size
        let size ← plus size 1
        rebuildLoop fuel j (size / 2) merkleTree
      else return (merkleTree, j)

/-- The branch loop of `SendJob`, likewise. -/
def branchLoop (merkleTree : List BinaryData) :
    ℕ → UInt32 → UInt32 → Loop (List BinaryData × UInt32)
  | 0, _, _ => fail ()
  | fuel + 1, j, size =>
      if 1 < size then do
        let sibling ← readAt merkleTree (← plus j 1).toNat
        let j ← plus j size
        let size ← plus size 1
        let (siblings, j) ← branchLoop merkleTree fuel j (size / 2)
        return (sibling :: siblings, j)
      else return ([], j)

/-- `Block::BuildMerkleTree` with the log of its loops and the offset they end at. -/
def buildWithLog (block : Block) : Loop (Block × UInt32) := do
  let size := UInt32.ofNat block.tx.length
  let (merkleTree, j) ← buildLoop sha256d (size.toNat + 1) 0 size
    (block.tx.map (Transaction.getHash sha256d))
  let merkleRootHash ← readAt merkleTree (merkleTree.length - 1)
  return ({ block with merkleTree, merkleRootHash }, j)

/-- `Block::RebuildMerkleTree`, likewise. -/
def rebuildWithLog (block : Block) : Loop (Block × UInt32) := do
  let coinbase ← match block.tx[0]? with
    | some coinbase => pure coinbase
    | none => fail ()
  let size := UInt32.ofNat block.tx.length
  let merkleTree ← writeAt block.merkleTree 0 (coinbase.getHash sha256d)
  let (merkleTree, j) ← rebuildLoop sha256d (size.toNat + 1) 0 size merkleTree
  let merkleRootHash ← readAt merkleTree (merkleTree.length - 1)
  return ({ block with merkleTree, merkleRootHash }, j)

/-- The branch of the block of a job, likewise. -/
def branchWithLog (job : Job) : Loop (List BinaryData × UInt32) :=
  let size := UInt32.ofNat job.block.tx.length
  branchLoop job.block.merkleTree (size.toNat + 1) 0 size

/-! ## Without the log -/

section Erased

variable {sha256d} {α β : Type}

theorem toOption_bind (first : Loop α) (next : α → Loop β) :
    (first >>= next).result.toOption =
      first.result.toOption.bind fun value => (next value).result.toOption := by
  rw [result_bind]
  cases first.result <;> rfl

@[simp]
theorem toOption_pure (value : α) : (pure value : Loop α).result.toOption = some value := rfl

@[simp]
theorem toOption_fail : (fail () : Loop α).result.toOption = none := rfl

@[simp]
theorem toOption_plus (left right : UInt32) :
    (plus left right).result.toOption = some (left + right) := rfl

@[simp]
theorem toOption_minus (left right : UInt32) :
    (minus left right).result.toOption = some (left - right) := rfl

@[simp]
theorem toOption_readAt (vector : List BinaryData) (index : ℕ) :
    (readAt vector index).result.toOption = vector[index]? := by
  rw [readAt, toOption_bind]
  cases vector[index]? <;> rfl

@[simp]
theorem toOption_writeAt (vector : List BinaryData) (index : ℕ) (data : BinaryData) :
    (writeAt vector index data).result.toOption = Block.assign vector index data := by
  rw [writeAt, toOption_bind]
  cases Block.assign vector index data <;> rfl

theorem toOption_buildLevelLoop (j size : UInt32) (fuel : ℕ) (i : UInt32)
    (merkleTree : List BinaryData) :
    (buildLevelLoop sha256d j size fuel i merkleTree).result.toOption =
      Block.buildLevel sha256d j size fuel i merkleTree := by
  induction fuel generalizing i merkleTree with
  | zero => rfl
  | succ fuel ih =>
      unfold buildLevelLoop Block.buildLevel
      split
      · simp only [toOption_bind, toOption_plus, toOption_minus, toOption_readAt, Option.bind_some,
          Option.bind_eq_bind, ih]
      · rfl

theorem toOption_buildLoop (fuel : ℕ) (j size : UInt32) (merkleTree : List BinaryData) :
    (buildLoop sha256d fuel j size merkleTree).result.toOption.map Prod.fst =
      Block.buildLevels sha256d fuel j size merkleTree := by
  induction fuel generalizing j size merkleTree with
  | zero => rfl
  | succ fuel ih =>
      unfold buildLoop Block.buildLevels
      split
      · simp only [toOption_bind, toOption_plus, toOption_buildLevelLoop, Option.bind_some,
          Option.bind_eq_bind, Option.map_bind, Function.comp_def, ih]
      · rfl

theorem toOption_rebuildLoop (fuel : ℕ) (j size : UInt32) (merkleTree : List BinaryData) :
    (rebuildLoop sha256d fuel j size merkleTree).result.toOption.map Prod.fst =
      Block.rebuildLevels sha256d fuel j size merkleTree := by
  induction fuel generalizing j size merkleTree with
  | zero => rfl
  | succ fuel ih =>
      unfold rebuildLoop Block.rebuildLevels
      split
      · simp only [toOption_bind, toOption_plus, toOption_readAt, toOption_writeAt,
          Option.bind_some, Option.bind_eq_bind, Option.map_bind, Function.comp_def, ih]
      · rfl

theorem toOption_branchLoop (merkleTree : List BinaryData) (fuel : ℕ) (j size : UInt32) :
    (branchLoop merkleTree fuel j size).result.toOption.map Prod.fst =
      merkleBranch merkleTree fuel j size := by
  induction fuel generalizing j size with
  | zero => rfl
  | succ fuel ih =>
      unfold branchLoop merkleBranch
      split
      · simp only [toOption_bind, toOption_plus, toOption_readAt, toOption_pure, Option.bind_some,
          Option.bind_eq_bind, Option.map_bind, Function.comp_def, ← ih]
        cases merkleTree[(j + 1).toNat]? with
        | none => rfl
        | some sibling =>
            simp only [Option.bind_some]
            cases (branchLoop merkleTree fuel (j + size) ((size + 1) / 2)).result.toOption <;> rfl
      · rfl

/-- The loops with a log compute what the functions of the block compute. -/
theorem toOption_buildWithLog (block : Block) :
    (buildWithLog sha256d block).result.toOption.map Prod.fst = block.buildMerkleTree sha256d := by
  simp only [buildWithLog, Block.buildMerkleTree, ← toOption_buildLoop, toOption_bind,
    toOption_readAt, toOption_pure, Option.bind_eq_bind, Option.map_bind, Option.bind_map,
    Function.comp_def, Option.map_some]
  rfl

theorem toOption_rebuildWithLog (block : Block) :
    (rebuildWithLog sha256d block).result.toOption.map Prod.fst =
      block.rebuildMerkleTree sha256d := by
  unfold rebuildWithLog Block.rebuildMerkleTree
  cases block.tx[0]? with
  | none => rfl
  | some coinbase =>
      simp only [← toOption_rebuildLoop, toOption_bind, toOption_pure, toOption_readAt,
        toOption_writeAt, Option.bind_eq_bind, Option.bind_some, Option.map_bind, Option.bind_map,
        Function.comp_def, Option.map_some]
      rfl

theorem toOption_branchWithLog (job : Job) :
    (branchWithLog job).result.toOption.map Prod.fst = job.branch :=
  toOption_branchLoop _ _ _ _

end Erased

/-! ## Indices in the vector -/

section Indices

variable {sha256d} {j size : UInt32} {fuel : ℕ} {merkleTree : List BinaryData}

theorem returns_plus {left right : UInt32} (small : left.toNat + right.toNat < 2 ^ 32) :
    Returns Touch.InRange (plus left right) (left + right) := by
  have noted : Touch.InRange (.sum left right) := small
  exact (Returns.note noted).bind (.pure _)

theorem returns_minus {left right : UInt32} (less : right.toNat ≤ left.toNat) :
    Returns Touch.InRange (minus left right) (left - right) := by
  have noted : Touch.InRange (.difference left right) := less
  exact (Returns.note noted).bind (.pure _)

theorem exists_readAt {index : ℕ} (inside : index < merkleTree.length) :
    ∃ data, Returns Touch.InRange (readAt merkleTree index) data := by
  have noted : Touch.InRange (.index index merkleTree.length) := inside
  refine ⟨merkleTree[index], (Returns.note noted).bind ?_⟩
  rw [List.getElem?_eq_getElem inside]
  exact .pure _

theorem exists_writeAt {index : ℕ} (inside : index < merkleTree.length) (data : BinaryData) :
    ∃ next, Returns Touch.InRange (writeAt merkleTree index data) next ∧
      next.length = merkleTree.length := by
  have noted : Touch.InRange (.index index merkleTree.length) := inside
  refine ⟨merkleTree.set index data, (Returns.note noted).bind ?_, List.length_set⟩
  rw [Block.assign, if_pos inside]
  exact .pure _

/-- The inner loop reads inside its level and appends a node for every two. -/
theorem exists_buildLevelLoop {i : UInt32} (inside : j.toNat + size.toNat ≤ merkleTree.length)
    (small : j.toNat + size.toNat + 1 < 2 ^ 32) (enough : size.toNat - i.toNat < fuel) :
    ∃ next, Returns Touch.InRange (buildLevelLoop sha256d j size fuel i merkleTree) next ∧
      next.length = merkleTree.length + (size.toNat - i.toNat + 1) / 2 := by
  induction fuel generalizing i merkleTree with
  | zero => exact absurd enough (Nat.not_lt_zero _)
  | succ fuel ih =>
      unfold buildLevelLoop
      by_cases within : i < size
      · have less := UInt32.lt_iff_toNat_lt.mp within
        have neighbour := toNat_neighbour less
        have one : (1 : UInt32).toNat = 1 := rfl
        have two : (2 : UInt32).toNat = 2 := rfl
        have offset : ∀ index : UInt32, index.toNat < size.toNat →
            (j + index).toNat = j.toNat + index.toNat :=
          fun index indexLess => toNat_add_eq rfl rfl (by omega)
        have step : (i + 2).toNat = i.toNat + 2 := toNat_add_eq rfl rfl (by omega)
        have leftIn : (j + i).toNat < merkleTree.length := by
          rw [offset i less]
          omega
        have rightIn : (j + stdMin (i + 1) (size - 1)).toNat < merkleTree.length := by
          rw [offset _ (by omega)]
          omega
        rcases exists_readAt leftIn with ⟨left, readsLeft⟩
        rcases exists_readAt rightIn with ⟨right, readsRight⟩
        have longer : j.toNat + size.toNat ≤
            (merkleTree ++ [sha256d (Util.join left right)]).length := by
          rw [List.length_append]
          omega
        rcases ih longer (by rw [step]; omega) with ⟨tree, rest, length⟩
        rw [if_pos within]
        refine ⟨tree, ?_, ?_⟩
        · refine (returns_plus (by omega)).bind ((returns_minus (by omega)).bind ?_)
          refine (returns_plus (by omega)).bind (readsLeft.bind ?_)
          refine (returns_plus (by omega)).bind (readsRight.bind ?_)
          exact (returns_plus (by omega)).bind rest
        · rw [length, step, List.length_append, List.length_singleton]
          omega
      · have beyond : size.toNat ≤ i.toNat := by
          rw [UInt32.lt_iff_toNat_lt] at within
          omega
        rw [if_neg within]
        exact ⟨merkleTree, .pure _, by omega⟩

/-- What a turn of the loops over the levels finds and leaves behind. -/
structure Turn (j size : UInt32) : Prop where
  several : 1 < size.toNat
  offset : (j + size).toNat = j.toNat + size.toNat
  half : ((size + 1) / 2).toNat = (size.toNat + 1) / 2
  remaining : nodes size.toNat = size.toNat + nodes ((size.toNat + 1) / 2)
  above : (size.toNat + 1) / 2 ≤ nodes ((size.toNat + 1) / 2)

theorem turn_of_lt (continues : 1 < size) (small : j.toNat + nodes size.toNat + 1 < 2 ^ 32) :
    Turn j size := by
  have several : 1 < size.toNat := UInt32.lt_iff_toNat_lt.mp continues
  have level := le_nodes size.toNat
  exact ⟨several, toNat_add_eq rfl rfl (by omega), toNat_half_eq rfl (by omega),
    nodes_of_lt several, le_nodes _⟩

theorem nodes_of_not_lt (positive : 1 ≤ size.toNat) (ends : ¬1 < size) : nodes size.toNat = 1 := by
  have single : size.toNat = 1 := by
    rw [UInt32.lt_iff_toNat_lt] at ends
    exact le_antisymm (Nat.le_of_not_lt ends) positive
  rw [single, nodes_one]

/-- Building ends with the whole tree, at the offset of its root. -/
theorem exists_buildLoop (length : merkleTree.length = j.toNat + size.toNat)
    (positive : 1 ≤ size.toNat) (small : j.toNat + nodes size.toNat + 1 < 2 ^ 32)
    (enough : size.toNat < fuel) :
    ∃ next offset, Returns Touch.InRange (buildLoop sha256d fuel j size merkleTree) (next, offset) ∧
      next.length = j.toNat + nodes size.toNat ∧ offset.toNat + 1 = j.toNat + nodes size.toNat := by
  induction fuel generalizing j size merkleTree with
  | zero => exact absurd enough (Nat.not_lt_zero _)
  | succ fuel ih =>
      unfold buildLoop
      by_cases continues : 1 < size
      · rcases turn_of_lt continues small with ⟨several, offset, half, remaining, above⟩
        have one : (1 : UInt32).toNat = 1 := rfl
        obtain ⟨level, builds, levelLength⟩ : ∃ level,
            Returns Touch.InRange
              (buildLevelLoop sha256d j size (size.toNat + 1) 0 merkleTree) level ∧
              level.length = merkleTree.length + (size.toNat - 0 + 1) / 2 :=
          exists_buildLevelLoop length.ge (by omega) (Nat.lt_succ_of_le (Nat.sub_le _ _))
        rcases @ih (j + size) ((size + 1) / 2) level (by omega) (by omega) (by rw [half]; omega)
          (by omega) with ⟨next, last, rest, nextLength, lastEq⟩
        rw [half] at nextLength lastEq
        rw [if_pos continues]
        refine ⟨next, last, ?_, by omega, by omega⟩
        refine builds.bind ((returns_plus (by omega)).bind ?_)
        exact (returns_plus (by omega)).bind rest
      · have root := nodes_of_not_lt positive continues
        have single := le_nodes size.toNat
        rw [if_neg continues]
        exact ⟨merkleTree, j, .pure _, by omega, by omega⟩

/-- Rebuilding stays in a tree of that size and ends at the same offset. -/
theorem exists_rebuildLoop (length : merkleTree.length = j.toNat + nodes size.toNat)
    (positive : 1 ≤ size.toNat) (small : j.toNat + nodes size.toNat + 1 < 2 ^ 32)
    (enough : size.toNat < fuel) :
    ∃ next offset,
      Returns Touch.InRange (rebuildLoop sha256d fuel j size merkleTree) (next, offset) ∧
        next.length = merkleTree.length ∧ offset.toNat + 1 = j.toNat + nodes size.toNat := by
  induction fuel generalizing j size merkleTree with
  | zero => exact absurd enough (Nat.not_lt_zero _)
  | succ fuel ih =>
      unfold rebuildLoop
      by_cases continues : 1 < size
      · rcases turn_of_lt continues small with ⟨several, offset, half, remaining, above⟩
        have one : (1 : UInt32).toNat = 1 := rfl
        have behind : (j + 1).toNat = j.toNat + 1 := toNat_add_eq rfl rfl (by omega)
        obtain ⟨left, readsLeft⟩ := @exists_readAt merkleTree j.toNat (by omega)
        obtain ⟨right, readsRight⟩ := @exists_readAt merkleTree (j + 1).toNat (by omega)
        obtain ⟨tree, writes, treeLength⟩ := @exists_writeAt merkleTree (j + size).toNat (by omega)
          (sha256d (Util.join left right))
        rcases @ih (j + size) ((size + 1) / 2) tree (by rw [half]; omega) (by omega)
          (by rw [half]; omega) (by omega) with ⟨next, last, rest, nextLength, lastEq⟩
        rw [half] at lastEq
        rw [if_pos continues]
        refine ⟨next, last, ?_, by omega, by omega⟩
        refine readsLeft.bind ((returns_plus (by omega)).bind (readsRight.bind ?_))
        refine (returns_plus (by omega)).bind (writes.bind ?_)
        refine (returns_plus (by omega)).bind ?_
        exact (returns_plus (by omega)).bind rest
      · have root := nodes_of_not_lt positive continues
        rw [if_neg continues]
        exact ⟨merkleTree, j, .pure _, rfl, by omega⟩

/-- The branch has one entry for each level below the root. -/
theorem exists_branchLoop (length : merkleTree.length = j.toNat + nodes size.toNat)
    (positive : 1 ≤ size.toNat) (small : j.toNat + nodes size.toNat + 1 < 2 ^ 32)
    (enough : size.toNat < fuel) :
    ∃ siblings offset,
      Returns Touch.InRange (branchLoop merkleTree fuel j size) (siblings, offset) ∧
        siblings.length = Nat.clog 2 size.toNat ∧
        offset.toNat + 1 = j.toNat + nodes size.toNat := by
  induction fuel generalizing j size with
  | zero => exact absurd enough (Nat.not_lt_zero _)
  | succ fuel ih =>
      unfold branchLoop
      by_cases continues : 1 < size
      · rcases turn_of_lt continues small with ⟨several, offset, half, remaining, above⟩
        have one : (1 : UInt32).toNat = 1 := rfl
        have behind : (j + 1).toNat = j.toNat + 1 := toNat_add_eq rfl rfl (by omega)
        obtain ⟨sibling, reads⟩ := @exists_readAt merkleTree (j + 1).toNat (by omega)
        rcases @ih (j + size) ((size + 1) / 2) (by rw [half]; omega) (by omega)
          (by rw [half]; omega) (by omega) with ⟨siblings, last, rest, count, lastEq⟩
        rw [half] at count lastEq
        rw [if_pos continues]
        refine ⟨sibling :: siblings, last, ?_, ?_, by omega⟩
        · refine (returns_plus (by omega)).bind (reads.bind ?_)
          refine (returns_plus (by omega)).bind ((returns_plus (by omega)).bind ?_)
          exact rest.bind (.pure _)
        · rw [List.length_cons, count, Nat.clog_of_two_le Nat.one_lt_two several]
          rfl
      · have root := nodes_of_not_lt positive continues
        have single := le_nodes size.toNat
        rw [if_neg continues]
        refine ⟨[], j, .pure _, ?_, by omega⟩
        rw [List.length_nil, Nat.clog_of_right_le_one (by omega)]

/-! ## The loops over a block -/

theorem toNat_count {count : ℕ} (small : count < 2 ^ 30) : (UInt32.ofNat count).toNat = count :=
  UInt32.toNat_ofNat_of_lt' (by change _ < 2 ^ 32; omega)

theorem nodes_small {count : ℕ} (small : count < 2 ^ 30) : nodes count + 1 < 2 ^ 32 := by
  have := nodes_le count
  omega

variable {block : Block}

theorem exists_buildWithLog (positive : 1 ≤ block.tx.length) (small : block.tx.length < 2 ^ 30) :
    ∃ built offset, Returns Touch.InRange (buildWithLog sha256d block) (built, offset) ∧
      built.merkleTree.length = nodes block.tx.length ∧
      offset.toNat + 1 = nodes block.tx.length := by
  have count := toNat_count small
  have zero : (0 : UInt32).toNat = 0 := rfl
  have bound := nodes_small small
  have leaves := le_nodes block.tx.length
  rcases @exists_buildLoop sha256d 0 (UInt32.ofNat block.tx.length)
    ((UInt32.ofNat block.tx.length).toNat + 1) (block.tx.map (Transaction.getHash sha256d))
    (by rw [List.length_map]; omega) (by omega) (by rw [count]; omega) (Nat.lt_succ_self _) with
    ⟨tree, last, builds, length, lastEq⟩
  rw [count, zero, Nat.zero_add] at length lastEq
  rcases @exists_readAt tree (tree.length - 1) (by omega) with ⟨rootHash, readsRoot⟩
  refine ⟨{ block with merkleTree := tree, merkleRootHash := rootHash }, last, ?_, length, lastEq⟩
  exact builds.bind (readsRoot.bind (.pure _))

theorem exists_rebuildWithLog (positive : 1 ≤ block.tx.length) (small : block.tx.length < 2 ^ 30)
    (tree : block.merkleTree.length = nodes block.tx.length) :
    ∃ rebuilt offset, Returns Touch.InRange (rebuildWithLog sha256d block) (rebuilt, offset) ∧
      offset.toNat + 1 = nodes block.tx.length := by
  have count := toNat_count small
  have zero : (0 : UInt32).toNat = 0 := rfl
  have bound := nodes_small small
  have leaves := le_nodes block.tx.length
  have coinbaseAt : block.tx[0]? = some block.tx[0] := List.getElem?_eq_getElem positive
  rcases @exists_writeAt block.merkleTree 0 (by omega) (block.tx[0].getHash sha256d) with
    ⟨leaf, writes, leafLength⟩
  rcases @exists_rebuildLoop sha256d 0 (UInt32.ofNat block.tx.length)
    ((UInt32.ofNat block.tx.length).toNat + 1) leaf (by rw [count]; omega) (by omega)
    (by rw [count]; omega) (Nat.lt_succ_self _) with ⟨next, last, rebuilds, length, lastEq⟩
  rw [count, zero, Nat.zero_add] at lastEq
  rcases @exists_readAt next (next.length - 1) (by omega) with ⟨rootHash, readsRoot⟩
  refine ⟨{ block with merkleTree := next, merkleRootHash := rootHash }, last, ?_, lastEq⟩
  rw [rebuildWithLog, coinbaseAt]
  refine (Returns.pure block.tx[0]).bind ?_
  exact writes.bind (rebuilds.bind (readsRoot.bind (.pure _)))

theorem exists_branchWithLog {job : Job} (positive : 1 ≤ job.block.tx.length)
    (small : job.block.tx.length < 2 ^ 30)
    (tree : job.block.merkleTree.length = nodes job.block.tx.length) :
    ∃ siblings offset, Returns Touch.InRange (branchWithLog job) (siblings, offset) ∧
      siblings.length = Nat.clog 2 job.block.tx.length ∧
      offset.toNat + 1 = nodes job.block.tx.length := by
  have count := toNat_count small
  have zero : (0 : UInt32).toNat = 0 := rfl
  have bound := nodes_small small
  rcases @exists_branchLoop 0 (UInt32.ofNat job.block.tx.length)
    ((UInt32.ofNat job.block.tx.length).toNat + 1) job.block.merkleTree (by rw [count]; omega)
    (by omega) (by rw [count]; omega) (Nat.lt_succ_self _) with
    ⟨siblings, last, branches, length, lastEq⟩
  rw [count] at length
  rw [count, zero, Nat.zero_add] at lastEq
  exact ⟨siblings, last, branches, length, lastEq⟩

theorem isLeast_clog (count : ℕ) : IsLeast {height | count ≤ 2 ^ height} (Nat.clog 2 count) :=
  ⟨Nat.le_pow_clog Nat.one_lt_two count, fun _ bound => Nat.clog_le_of_le_pow bound⟩

/--
Building, rebuilding and the branch stay in the vector and in 32 bits, and end at one offset; the
branch has as many entries as the tree has levels below its root.
-/
theorem merkle_indices (positive : 1 ≤ block.tx.length) (small : block.tx.length < 2 ^ 30) :
    ∃ built offset, Returns Touch.InRange (buildWithLog sha256d block) (built, offset) ∧
      (∀ other : Block, other.merkleTree = built.merkleTree →
        other.tx.length = block.tx.length → ∃ rebuilt,
          Returns Touch.InRange (rebuildWithLog sha256d other) (rebuilt, offset)) ∧
      ∀ job : Job, job.block.merkleTree = built.merkleTree →
        job.block.tx.length = block.tx.length → ∃ siblings,
          Returns Touch.InRange (branchWithLog job) (siblings, offset) ∧
            IsLeast {height | block.tx.length ≤ 2 ^ height} siblings.length := by
  rcases @exists_buildWithLog sha256d block positive small with ⟨built, offset, builds, length, ends⟩
  have same : ∀ last : UInt32, last.toNat + 1 = nodes block.tx.length → last = offset := by
    intro last lastEnds
    exact UInt32.toNat_inj.mp (by omega)
  refine ⟨built, offset, builds, ?_, ?_⟩
  · intro other sameTree sameCount
    rcases @exists_rebuildWithLog sha256d other (sameCount ▸ positive) (sameCount ▸ small)
      (by rw [sameTree, length, sameCount]) with ⟨rebuilt, last, rebuilds, lastEnds⟩
    rw [same last (sameCount ▸ lastEnds)] at rebuilds
    exact ⟨rebuilt, rebuilds⟩
  · intro job sameTree sameCount
    rcases @exists_branchWithLog job (sameCount ▸ positive) (sameCount ▸ small)
      (by rw [sameTree, length, sameCount]) with ⟨siblings, last, branches, entries, lastEnds⟩
    rw [same last (sameCount ▸ lastEnds)] at branches
    refine ⟨siblings, branches, ?_⟩
    rw [entries, sameCount]
    exact isLeast_clog _

/-- Three transactions, so that the first level is odd. -/
theorem merkle_indices_ofThree :
    1 ≤ (Block.ofThree id).tx.length ∧ (Block.ofThree id).tx.length < 2 ^ 30 ∧
      ∃ built offset, Returns Touch.InRange (buildWithLog id (Block.ofThree id)) (built, offset) ∧
        (∀ other : Block, other.merkleTree = built.merkleTree →
          other.tx.length = (Block.ofThree id).tx.length → ∃ rebuilt,
            Returns Touch.InRange (rebuildWithLog id other) (rebuilt, offset)) ∧
        ∀ job : Job, job.block.merkleTree = built.merkleTree →
          job.block.tx.length = (Block.ofThree id).tx.length → ∃ siblings,
            Returns Touch.InRange (branchWithLog job) (siblings, offset) ∧
              IsLeast {height | (Block.ofThree id).tx.length ≤ 2 ^ height} siblings.length :=
  ⟨by decide, by decide, merkle_indices (by decide) (by decide)⟩

end Indices

end Poolserver.Stratum
