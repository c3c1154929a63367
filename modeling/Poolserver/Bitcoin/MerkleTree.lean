import Poolserver.Bitcoin.Block
import Poolserver.Lib.MerkleLevels

/-!
# The merkle loops compute merkle trees

With fewer than `2 ^ 30` transactions no offset wraps around and no index leaves
the vector. Both loops are followed level by level: before a turn the vector is
what earlier turns left behind, then the current level, and `j` and `size` are
the offset and the length of that level. Building appends the levels above it;
rebuilding finds the levels above it already there, computed from another first
leaf, and replaces their first nodes.
-/

namespace Poolserver.Bitcoin

open MerkleSpine

variable (sha256d : BinaryData → BinaryData)

/-- How the loops combine two nodes. -/
def merkleNode (left right : BinaryData) : BinaryData :=
  sha256d (Util.join left right)

/-! ## Offsets without overflow -/

theorem toNat_add_eq {a b : UInt32} {m n : ℕ} (aEq : a.toNat = m) (bEq : b.toNat = n)
    (small : m + n < 2 ^ 32) : (a + b).toNat = m + n := by
  rw [UInt32.toNat_add, aEq, bEq, Nat.mod_eq_of_lt small]

theorem toNat_half_eq {size : UInt32} {n : ℕ} (sizeEq : size.toNat = n) (small : n + 1 < 2 ^ 32) :
    ((size + 1) / 2).toNat = (n + 1) / 2 := by
  have sum : (size + 1).toNat = n + 1 := toNat_add_eq sizeEq rfl small
  rw [UInt32.toNat_div, sum]
  rfl

/-- The node an odd level ends with is its own neighbour. -/
theorem toNat_neighbour {i size : UInt32} (inside : i.toNat < size.toNat) :
    (stdMin (i + 1) (size - 1)).toNat = min (i.toNat + 1) (size.toNat - 1) := by
  have size_lt := size.toNat_lt
  have next : (i + 1).toNat = i.toNat + 1 := toNat_add_eq rfl rfl (by omega)
  have last : (size - 1).toNat = size.toNat - 1 :=
    UInt32.toNat_sub_of_le _ _ (by
      rw [UInt32.le_iff_toNat_le]
      change 1 ≤ size.toNat
      omega)
  simp only [stdMin, UInt32.lt_iff_toNat_lt, next, last]
  split <;> omega

theorem getElem?_offset (before after : List BinaryData) {node : BinaryData} {index : ℕ}
    (offset : index = before.length) : (before ++ node :: after)[index]? = some node := by
  subst offset
  simp

namespace Block

variable {sha256d}

/-- The inner loop appends the parents of the nodes it has not passed yet. -/
theorem buildLevel_eq {done processed rest parents : List BinaryData} {i j size : UInt32}
    {fuel : ℕ}
    (iEq : i.toNat = processed.length) (jEq : j.toNat = done.length)
    (sizeEq : size.toNat = (processed ++ rest).length)
    (small : done.length + (processed ++ rest).length + 1 < 2 ^ 32)
    (enough : rest.length < fuel) :
    buildLevel sha256d j size fuel i (done ++ (processed ++ rest) ++ parents) =
      some (done ++ (processed ++ rest) ++ parents ++ nextLevel (merkleNode sha256d) rest) := by
  induction rest using nextLevel.induct generalizing processed parents i fuel with
  | case1 left right rest ih =>
      obtain ⟨fuel, rfl⟩ : ∃ n, fuel = n + 1 := ⟨fuel - 1, by omega⟩
      simp only [List.length_append, List.length_cons] at sizeEq small enough
      have inside : i < size := by
        rw [UInt32.lt_iff_toNat_lt]
        omega
      have neighbour : (stdMin (i + 1) (size - 1)).toNat = processed.length + 1 := by
        rw [toNat_neighbour (by omega)]
        omega
      have leftAt : (done ++ (processed ++ left :: right :: rest) ++ parents)[(j + i).toNat]? =
          some left := by
        have offset := toNat_add_eq jEq iEq (by omega)
        simpa using getElem?_offset (done ++ processed) (right :: rest ++ parents)
          (by simpa using offset)
      have rightAt : (done ++ (processed ++ left :: right :: rest) ++ parents)[
          (j + stdMin (i + 1) (size - 1)).toNat]? = some right := by
        have offset := toNat_add_eq jEq neighbour (by omega)
        simpa using getElem?_offset (done ++ processed ++ [left]) (rest ++ parents)
          (by simpa using offset)
      have next : (i + 2).toNat = processed.length + 2 := toNat_add_eq iEq rfl (by omega)
      have remaining := @ih (processed ++ [left, right])
        (parents ++ [merkleNode sha256d left right]) (i + 2) fuel (by simpa using next)
        (by simpa using sizeEq) (by simpa using small) (by omega)
      simp only [List.append_assoc, List.cons_append, List.nil_append] at leftAt rightAt remaining ⊢
      simp only [buildLevel, if_pos inside, leftAt, rightAt, Option.bind_eq_bind, Option.bind_some,
        List.append_assoc, List.cons_append, nextLevel]
      exact remaining
  | case2 last =>
      obtain ⟨fuel, rfl⟩ : ∃ n, fuel = n + 2 := ⟨fuel - 2, by simp at enough; omega⟩
      simp only [List.length_append, List.length_singleton] at sizeEq small
      have inside : i < size := by
        rw [UInt32.lt_iff_toNat_lt]
        omega
      have neighbour : (stdMin (i + 1) (size - 1)).toNat = processed.length := by
        rw [toNat_neighbour (by omega)]
        omega
      have nodeAt {index : UInt32} (indexEq : index.toNat = processed.length) :
          (done ++ (processed ++ [last]) ++ parents)[(j + index).toNat]? = some last := by
        have offset := toNat_add_eq jEq indexEq (by omega)
        simpa using getElem?_offset (done ++ processed) parents (by simpa using offset)
      have next : (i + 2).toNat = processed.length + 2 := toNat_add_eq iEq rfl (by omega)
      have stops : ¬ i + 2 < size := by
        rw [UInt32.lt_iff_toNat_lt]
        omega
      simp only [buildLevel, if_pos inside, nodeAt iEq, nodeAt neighbour, Option.bind_eq_bind,
        Option.bind_some, if_neg stops, nextLevel]
      rfl
  | case3 =>
      obtain ⟨fuel, rfl⟩ : ∃ n, fuel = n + 1 := ⟨fuel - 1, by omega⟩
      have stops : ¬ i < size := by
        rw [UInt32.lt_iff_toNat_lt]
        simp only [List.append_nil] at sizeEq
        omega
      simp [buildLevel, stops, nextLevel]

/-- The outer loop turns a first level into the whole tree. -/
theorem buildLevels_eq {done rest : List BinaryData} {first : BinaryData} {j size : UInt32}
    {fuel : ℕ}
    (jEq : j.toNat = done.length) (sizeEq : size.toNat = rest.length + 1)
    (small : (done ++ tree (merkleNode sha256d) first rest).length + 1 < 2 ^ 32)
    (enough : rest.length < fuel) :
    buildLevels sha256d fuel j size (done ++ first :: rest) =
      some (done ++ tree (merkleNode sha256d) first rest) := by
  induction rest using branch.induct (merkleNode sha256d) generalizing done first j size fuel with
  | case1 =>
      obtain ⟨fuel, rfl⟩ : ∃ n, fuel = n + 1 := ⟨fuel - 1, by omega⟩
      have stops : ¬ 1 < size := by
        rw [UInt32.lt_iff_toNat_lt, sizeEq]
        decide
      simp [buildLevels, stops]
  | case2 sibling others ih =>
      obtain ⟨fuel, rfl⟩ : ∃ n, fuel = n + 1 := ⟨fuel - 1, by omega⟩
      simp only [tree_cons, List.length_append, List.length_cons] at sizeEq small enough
      have continues : 1 < size := by
        rw [UInt32.lt_iff_toNat_lt, sizeEq]
        change 1 < _
        omega
      have parents : buildLevel sha256d j size (size.toNat + 1) 0
          (done ++ first :: sibling :: others) =
          some (done ++ first :: sibling :: others ++
            merkleNode sha256d first sibling :: nextLevel (merkleNode sha256d) others) := by
        have inner := @buildLevel_eq sha256d done [] (first :: sibling :: others) [] 0 j size
          (size.toNat + 1) rfl jEq (by simpa using sizeEq) (by simp; omega)
          (by simp [sizeEq])
        simpa [nextLevel] using inner
      have offset : (j + size).toNat = (done ++ first :: sibling :: others).length := by
        have := toNat_add_eq jEq sizeEq (by omega)
        simpa using this
      have half := toNat_half_eq sizeEq (by omega)
      have levels := @ih (done ++ first :: sibling :: others) (merkleNode sha256d first sibling)
        (j + size) ((size + 1) / 2) fuel offset (by rw [half, length_nextLevel]; omega)
        (by simp only [List.length_append, List.length_cons]; omega)
        (by rw [length_nextLevel]; omega)
      simp only [buildLevels, if_pos continues, parents, Option.bind_eq_bind, Option.bind_some]
      rw [levels, tree_cons, List.append_assoc]

theorem assign_append {before after : List BinaryData} {old data : BinaryData} {index : ℕ}
    (offset : index = before.length) :
    assign (before ++ old :: after) index data = some (before ++ data :: after) := by
  subst offset
  simp [assign]

/-- The rebuilding loop replaces the left spine of a tree that has another first leaf. -/
theorem rebuildLevels_eq {done rest : List BinaryData} {first old : BinaryData} {j size : UInt32}
    {fuel : ℕ}
    (jEq : j.toNat = done.length) (sizeEq : size.toNat = rest.length + 1)
    (small : (done ++ tree (merkleNode sha256d) first rest).length + 1 < 2 ^ 32)
    (enough : rest.length < fuel) :
    rebuildLevels sha256d fuel j size
        (done ++ first :: (tree (merkleNode sha256d) old rest).tail) =
      some (done ++ tree (merkleNode sha256d) first rest) := by
  induction rest using branch.induct (merkleNode sha256d)
    generalizing done first old j size fuel with
  | case1 =>
      obtain ⟨fuel, rfl⟩ : ∃ n, fuel = n + 1 := ⟨fuel - 1, by omega⟩
      have stops : ¬ 1 < size := by
        rw [UInt32.lt_iff_toNat_lt, sizeEq]
        decide
      simp [rebuildLevels, stops]
  | case2 sibling others ih =>
      obtain ⟨fuel, rfl⟩ : ∃ n, fuel = n + 1 := ⟨fuel - 1, by omega⟩
      simp only [tree_cons, List.length_append, List.length_cons] at sizeEq small enough
      have continues : 1 < size := by
        rw [UInt32.lt_iff_toNat_lt, sizeEq]
        change 1 < _
        omega
      rcases tree_eq_append (merkleNode sha256d) (merkleNode sha256d old sibling)
        (nextLevel (merkleNode sha256d) others) with ⟨above, oldTree⟩
      have next : (j + 1).toNat = done.length + 1 := toNat_add_eq jEq rfl (by omega)
      have offset : (j + size).toNat = (done ++ first :: sibling :: others).length := by
        have := toNat_add_eq jEq sizeEq (by omega)
        simpa using this
      have half := toNat_half_eq sizeEq (by omega)
      have levels := @ih (done ++ first :: sibling :: others) (merkleNode sha256d first sibling)
        (merkleNode sha256d old sibling) (j + size) ((size + 1) / 2) fuel offset
        (by rw [half, length_nextLevel]; omega)
        (by simp only [List.length_append, List.length_cons]; omega)
        (by rw [length_nextLevel]; omega)
      simp only [oldTree, List.cons_append, List.tail_cons] at levels
      have vector : done ++ first :: (tree (merkleNode sha256d) old (sibling :: others)).tail =
          (done ++ first :: sibling :: others) ++ merkleNode sha256d old sibling ::
            (nextLevel (merkleNode sha256d) others ++ above) := by
        simp [tree_cons, oldTree]
      have leftAt : ((done ++ first :: sibling :: others) ++ merkleNode sha256d old sibling ::
          (nextLevel (merkleNode sha256d) others ++ above))[j.toNat]? = some first := by
        simpa using getElem?_offset done _ jEq
      have rightAt : ((done ++ first :: sibling :: others) ++ merkleNode sha256d old sibling ::
          (nextLevel (merkleNode sha256d) others ++ above))[(j + 1).toNat]? = some sibling := by
        simpa using getElem?_offset (done ++ [first]) _ (by simpa using next)
      rw [vector]
      simp only [rebuildLevels, if_pos continues, leftAt, rightAt, Option.bind_eq_bind,
        Option.bind_some, assign_append offset]
      rw [tree_cons, ← List.append_assoc]
      exact levels

/-- A tree over fewer than `2 ^ 30` leaves has no offset that wraps around. -/
theorem length_tree_small {first : BinaryData} {rest : List BinaryData}
    (small : rest.length + 1 < 2 ^ 30) :
    (tree (merkleNode sha256d) first rest).length + 1 < 2 ^ 32 := by
  have := length_tree_le (merkleNode sha256d) first rest
  omega

theorem getElem?_length_sub_one {tree : List BinaryData} : tree[tree.length - 1]? = tree.getLast? := by
  rw [List.getLast?_eq_getElem?]

theorem length_root (sized : ∀ data, (sha256d data).length = 32) {first : BinaryData}
    (firstSize : first.length = 32) (rest : List BinaryData) :
    (root (merkleNode sha256d) first rest).length = 32 := by
  induction rest using branch.induct (merkleNode sha256d) generalizing first with
  | case1 => simpa [root] using firstSize
  | case2 sibling others ih =>
      rw [root_cons]
      exact ih (sized _)

variable (sha256d) in
/-- A block whose merkle tree and root are those of its own transactions. -/
def withTree (block : Block) (coinbase : Transaction) (others : List Transaction) : Block :=
  { block with
    tx := coinbase :: others
    merkleTree := tree (merkleNode sha256d) (coinbase.getHash sha256d)
      (others.map (Transaction.getHash sha256d))
    merkleRootHash := root (merkleNode sha256d) (coinbase.getHash sha256d)
      (others.map (Transaction.getHash sha256d)) }

/-- `BuildMerkleTree` computes the merkle tree of the transaction hashes. -/
theorem buildMerkleTree_eq {block : Block} {coinbase : Transaction} {others : List Transaction}
    (txEq : block.tx = coinbase :: others) (small : block.tx.length < 2 ^ 30) :
    block.buildMerkleTree sha256d = some (block.withTree sha256d coinbase others) := by
  have count : block.tx.length = others.length + 1 := by simp [txEq]
  have sizeEq : (UInt32.ofNat block.tx.length).toNat = others.length + 1 := by
    rw [UInt32.toNat_ofNat_of_lt' (by rw [count] at small ⊢; change _ < 2 ^ 32; omega), count]
  have levels := @buildLevels_eq sha256d [] (others.map (Transaction.getHash sha256d))
    (coinbase.getHash sha256d) 0 (UInt32.ofNat block.tx.length)
    ((UInt32.ofNat block.tx.length).toNat + 1) rfl (by simpa using sizeEq)
    (by simpa using length_tree_small (by simpa [count] using small))
    (by simp [sizeEq])
  simp only [List.nil_append] at levels
  simp only [buildMerkleTree, txEq, List.map_cons] at levels ⊢
  simp only [levels, Option.bind_eq_bind, Option.bind_some, getElem?_length_sub_one,
    getLast?_tree, withTree]
  rfl

variable (sha256d) in
/-- The merkle tree of a block's transactions, level by level, and its root. -/
structure Merkelizes (block built : Block) : Prop where
  others : built =
    { block with merkleTree := built.merkleTree, merkleRootHash := built.merkleRootHash }
  concatenated : built.merkleTree =
    (levels (merkleNode sha256d) (block.tx.map (Transaction.getHash sha256d))).flatten
  hashes : (levels (merkleNode sha256d) (block.tx.map (Transaction.getHash sha256d))).head? =
    some (block.tx.map (Transaction.getHash sha256d))
  paired : (levels (merkleNode sha256d) (block.tx.map (Transaction.getHash sha256d))).IsChain
    fun below above => above = nextLevel (merkleNode sha256d) below
  single : (levels (merkleNode sha256d) (block.tx.map (Transaction.getHash sha256d))).getLast? =
    some [built.merkleRootHash]
  reference : topNode (merkleNode sha256d) (block.tx.map (Transaction.getHash sha256d)) =
    some built.merkleRootHash

/-- `BuildMerkleTree` lays out the levels of the tree, and finds the root of the reference. -/
theorem buildMerkleTree_merkelizes {block : Block} (nonempty : block.tx ≠ [])
    (small : block.tx.length < 2 ^ 30) :
    ∃ built, block.buildMerkleTree sha256d = some built ∧ Merkelizes sha256d block built := by
  cases txEq : block.tx with
  | nil => exact absurd txEq nonempty
  | cons coinbase others =>
      refine ⟨_, buildMerkleTree_eq txEq small, ?_⟩
      constructor
      · rw [withTree, ← txEq]
      · rw [txEq]
        exact tree_eq_flatten _ _ _
      · exact head?_levels _ _
      · exact isChain_levels _ _
      · rw [txEq]
        exact getLast?_levels _ _ _
      · rw [txEq]
        exact topNode_eq_root _ _ _

/-! ## Where the loops end -/

section Defined

variable {j size : UInt32} {fuel : ℕ} {merkleTree : List BinaryData}

/-- Whether its offset wraps or not, a level does not leave the vector it is appended to. -/
theorem exists_buildLevel {i : UInt32} (inside : j.toNat + size.toNat ≤ merkleTree.length)
    (noWrap : size.toNat + 1 < 2 ^ 32) (enough : size.toNat - i.toNat < fuel) :
    ∃ next, buildLevel sha256d j size fuel i merkleTree = some next ∧
      next.length = merkleTree.length + (size.toNat - i.toNat + 1) / 2 := by
  induction fuel generalizing i merkleTree with
  | zero => exact absurd enough (Nat.not_lt_zero _)
  | succ fuel ih =>
      by_cases within : i < size
      · have less := UInt32.lt_iff_toNat_lt.mp within
        have neighbour := toNat_neighbour less
        have nodeAt : ∀ index : UInt32, index.toNat < size.toNat →
            (j + index).toNat < merkleTree.length := by
          intro index indexLess
          rw [UInt32.toNat_add]
          have := Nat.mod_le (j.toNat + index.toNat) (2 ^ 32)
          omega
        obtain ⟨left, leftAt⟩ : ∃ left, merkleTree[(j + i).toNat]? = some left :=
          ⟨_, List.getElem?_eq_getElem (nodeAt i less)⟩
        obtain ⟨right, rightAt⟩ :
            ∃ right, merkleTree[(j + stdMin (i + 1) (size - 1)).toNat]? = some right :=
          ⟨_, List.getElem?_eq_getElem (nodeAt _ (by rw [neighbour]; omega))⟩
        have next : (i + 2).toNat = i.toNat + 2 := toNat_add_eq rfl rfl (by omega)
        have longer : j.toNat + size.toNat ≤
            (merkleTree ++ [sha256d (Util.join left right)]).length := by
          rw [List.length_append]
          omega
        rcases ih longer (by rw [next]; omega) with ⟨tree, rest, length⟩
        refine ⟨tree, ?_, ?_⟩
        · simp only [buildLevel, if_pos within, leftAt, rightAt, Option.bind_eq_bind,
            Option.bind_some]
          exact rest
        · rw [length, next, List.length_append, List.length_singleton]
          omega
      · have beyond : size.toNat ≤ i.toNat := by
          rw [UInt32.lt_iff_toNat_lt] at within
          omega
        refine ⟨merkleTree, by rw [buildLevel, if_neg within], ?_⟩
        omega

theorem exists_buildLevels (inside : j.toNat + size.toNat ≤ merkleTree.length)
    (noWrap : size.toNat + 1 < 2 ^ 32) (enough : size.toNat < fuel) :
    ∃ next, buildLevels sha256d fuel j size merkleTree = some next ∧
      merkleTree.length ≤ next.length := by
  induction fuel generalizing j size merkleTree with
  | zero => exact absurd enough (Nat.not_lt_zero _)
  | succ fuel ih =>
      by_cases continues : 1 < size
      · have several := UInt32.lt_iff_toNat_lt.mp continues
        change 1 < _ at several
        have all : size.toNat - (0 : UInt32).toNat < size.toNat + 1 :=
          Nat.lt_succ_of_le (Nat.sub_le _ _)
        obtain ⟨level, built, length⟩ : ∃ level,
            buildLevel sha256d j size (size.toNat + 1) 0 merkleTree = some level ∧
              level.length = merkleTree.length + (size.toNat - 0 + 1) / 2 :=
          exists_buildLevel inside noWrap all
        have half : ((size + 1) / 2).toNat = (size.toNat + 1) / 2 := toNat_half_eq rfl noWrap
        have offset : (j + size).toNat ≤ j.toNat + size.toNat := by
          rw [UInt32.toNat_add]
          exact Nat.mod_le _ _
        rcases @ih (j + size) ((size + 1) / 2) level (by omega) (by omega) (by omega) with
          ⟨tree, rest, longer⟩
        refine ⟨tree, ?_, by omega⟩
        simp only [buildLevels, if_pos continues, built, Option.bind_eq_bind, Option.bind_some]
        exact rest
      · exact ⟨merkleTree, by rw [buildLevels, if_neg continues], le_rfl⟩

/--
`BuildMerkleTree` returns for every list of transactions but those whose number is one less
than a multiple of `2 ^ 32`; there the inner loop never ends.
-/
theorem exists_buildMerkleTree {block : Block} (nonempty : block.tx ≠ [])
    (noWrap : block.tx.length % 2 ^ 32 + 1 < 2 ^ 32) :
    ∃ built, block.buildMerkleTree sha256d = some built := by
  have count : (UInt32.ofNat block.tx.length).toNat = block.tx.length % 2 ^ 32 :=
    UInt32.toNat_ofNat'
  have zero : (0 : UInt32).toNat = 0 := rfl
  have fits := Nat.mod_le block.tx.length (2 ^ 32)
  have positive := List.length_pos_iff.mpr nonempty
  rcases @exists_buildLevels sha256d 0 (UInt32.ofNat block.tx.length)
    ((UInt32.ofNat block.tx.length).toNat + 1) (block.tx.map (Transaction.getHash sha256d))
    (by rw [zero, count, List.length_map]; omega) (by rw [count]; exact noWrap)
    (Nat.lt_succ_self _) with ⟨tree, built, longer⟩
  rw [List.length_map] at longer
  obtain ⟨rootHash, rootAt⟩ : ∃ rootHash, tree[tree.length - 1]? = some rootHash :=
    ⟨_, List.getElem?_eq_getElem (by omega)⟩
  simp only [buildMerkleTree] at built ⊢
  simp only [built, rootAt, Option.bind_eq_bind, Option.bind_some]
  exact ⟨_, rfl⟩

end Defined

/-- The merkle tree vector of a block is the one `BuildMerkleTree` makes from its transactions. -/
def HasMerkleTree (sha256d : BinaryData → BinaryData) (block : Block) : Prop :=
  ∃ built, block.buildMerkleTree sha256d = some built ∧ built.merkleTree = block.merkleTree

theorem HasMerkleTree.merkleTree_eq {block : Block} {coinbase : Transaction}
    {others : List Transaction} (hasTree : block.HasMerkleTree sha256d)
    (txEq : block.tx = coinbase :: others) (small : block.tx.length < 2 ^ 30) :
    block.merkleTree = tree (merkleNode sha256d) (coinbase.getHash sha256d)
      (others.map (Transaction.getHash sha256d)) := by
  rcases hasTree with ⟨built, isBuilt, sameTree⟩
  rw [buildMerkleTree_eq txEq small, Option.some.injEq] at isBuilt
  rw [← sameTree, ← isBuilt, withTree]

theorem hasMerkleTree_withTree {block : Block} {coinbase : Transaction}
    {others : List Transaction} (small : (coinbase :: others).length < 2 ^ 30) :
    (block.withTree sha256d coinbase others).HasMerkleTree sha256d :=
  ⟨_, buildMerkleTree_eq rfl small, rfl⟩

/-- `RebuildMerkleTree` turns the tree of another first transaction into the tree of the block. -/
theorem rebuildMerkleTree_eq {block : Block} {coinbase old : Transaction}
    {others : List Transaction} (txEq : block.tx = coinbase :: others)
    (treeEq : block.merkleTree = tree (merkleNode sha256d) (old.getHash sha256d)
      (others.map (Transaction.getHash sha256d)))
    (small : block.tx.length < 2 ^ 30) :
    block.rebuildMerkleTree sha256d = some (block.withTree sha256d coinbase others) := by
  have count : block.tx.length = others.length + 1 := by simp [txEq]
  have sizeEq : (UInt32.ofNat block.tx.length).toNat = others.length + 1 := by
    rw [UInt32.toNat_ofNat_of_lt' (by rw [count] at small ⊢; change _ < 2 ^ 32; omega), count]
  rcases tree_eq_append (merkleNode sha256d) (old.getHash sha256d)
    (others.map (Transaction.getHash sha256d)) with ⟨above, shape⟩
  have levels := @rebuildLevels_eq sha256d [] (others.map (Transaction.getHash sha256d))
    (coinbase.getHash sha256d) (old.getHash sha256d) 0 (UInt32.ofNat block.tx.length)
    ((UInt32.ofNat block.tx.length).toNat + 1) rfl (by simpa using sizeEq)
    (by simpa using length_tree_small (by simpa [count] using small))
    (by simp [sizeEq])
  have leaf : assign block.merkleTree 0 (coinbase.getHash sha256d) =
      some (coinbase.getHash sha256d :: (tree (merkleNode sha256d) (old.getHash sha256d)
        (others.map (Transaction.getHash sha256d))).tail) := by
    rw [treeEq, shape]
    simp [assign]
  have coinbaseAt : block.tx[0]? = some coinbase := by simp [txEq]
  simp only [List.nil_append] at levels
  simp only [rebuildMerkleTree, coinbaseAt, leaf, levels, Option.bind_eq_bind, Option.bind_some,
    getElem?_length_sub_one, getLast?_tree, withTree, ← txEq]
  rfl

/-- Replacing the first transaction and rebuilding the left spine is building anew. -/
theorem rebuildMerkleTree_eq_buildMerkleTree {block : Block}
    (hasTree : block.HasMerkleTree sha256d) (positive : 1 ≤ block.tx.length)
    (small : block.tx.length < 2 ^ 30) (coinbase : Transaction) :
    ∃ rebuilt,
      { block with tx := block.tx.set 0 coinbase }.rebuildMerkleTree sha256d = some rebuilt ∧
      { block with tx := block.tx.set 0 coinbase }.buildMerkleTree sha256d = some rebuilt := by
  cases txEq : block.tx with
  | nil => simp [txEq] at positive
  | cons old others =>
      have treeEq := hasTree.merkleTree_eq txEq small
      have smallCount : (coinbase :: others).length < 2 ^ 30 := by simpa [txEq] using small
      refine ⟨_, rebuildMerkleTree_eq rfl treeEq smallCount, ?_⟩
      exact buildMerkleTree_eq rfl smallCount

/-- A block of three transactions, so that its first level is odd. -/
def ofThree (sha256d : BinaryData → BinaryData) : Block :=
  Block.withTree sha256d ⟨⟨1, [], [], 0, 0, 0⟩, [], []⟩ ⟨1, [], [], 0⟩
    [⟨1, [], [], 1⟩, ⟨1, [], [], 2⟩]

/-- The first level of three hashes is odd, so that the third is combined with itself. -/
theorem merkelizes_ofThree :
    ∃ built, (ofThree id).buildMerkleTree id = some built ∧ Merkelizes id (ofThree id) built :=
  buildMerkleTree_merkelizes (List.cons_ne_nil _ _) (by decide)

theorem rebuildMerkleTree_ofThree :
    ∃ rebuilt,
      { ofThree id with tx := (ofThree id).tx.set 0 ⟨1, [], [], 3⟩ }.rebuildMerkleTree id =
        some rebuilt ∧
      { ofThree id with tx := (ofThree id).tx.set 0 ⟨1, [], [], 3⟩ }.buildMerkleTree id =
        some rebuilt :=
  rebuildMerkleTree_eq_buildMerkleTree (hasMerkleTree_withTree (by decide)) (by decide)
    (by decide) ⟨1, [], [], 3⟩

end Block

end Poolserver.Bitcoin
