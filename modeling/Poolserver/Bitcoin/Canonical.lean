import Poolserver.Bitcoin.RoundTrip

/-!
# Transactions that are read as themselves

The readers report nothing that is wrong: short reads, bytes left over and counts in a
longer form than needed all give some transaction. Writing that transaction gives the
same bytes back exactly if they were the bytes of a transaction to begin with, each hash
in its place: 32 bytes, or none in a place where the buffer has fewer than 32 left.
-/

namespace Poolserver.Bitcoin

open ByteBuffer (Decodes Fits atCursor)
open CursorReader (ReadsAt)

/-- A hash in front of the last bytes of a buffer, as `ReadBinary` finds it there. -/
def HashPlaced (hash after : BinaryData) : Prop :=
  hash.length = 32 ∨ hash = [] ∧ after.length < 32

instance (hash after : BinaryData) : Decidable (HashPlaced hash after) :=
  inferInstanceAs (Decidable (_ ∨ hash = [] ∧ _))

/-- The bytes of an input behind the hash. -/
def TxIn.bytesBehind (b : TxIn) : BinaryData :=
  serialize b.prevout.n ++ (serialize b.script ++ serialize b.n)

/-- The hashes of a list of inputs in front of the last bytes of a buffer. -/
def InputsPlaced (inputs : List TxIn) (after : BinaryData) : Prop :=
  match inputs with
  | [] => True
  | input :: inputs =>
      HashPlaced input.prevout.hash
        (input.bytesBehind ++ (inputs.flatMap serialize ++ after)) ∧ InputsPlaced inputs after

def InputsPlaced.decide :
    (inputs : List TxIn) → (after : BinaryData) → Decidable (InputsPlaced inputs after)
  | [], _ => isTrue trivial
  | _ :: inputs, after =>
      let _ := InputsPlaced.decide inputs after
      inferInstanceAs (Decidable (_ ∧ InputsPlaced inputs after))

instance (inputs : List TxIn) (after : BinaryData) : Decidable (InputsPlaced inputs after) :=
  InputsPlaced.decide inputs after

/-- The bytes of the transaction are those of a buffer that it can be read from. -/
def Transaction.Placed (b : Transaction) : Prop :=
  InputsPlaced b.inputs (serializeVector b.outputs ++ serialize b.lockTime)

instance : DecidablePred Transaction.Placed :=
  fun b => inferInstanceAs (Decidable (InputsPlaced b.inputs _))

/-- A buffer that is not so long that a position 32 bytes further wraps around. -/
def Roomy (vec : BinaryData) : Prop :=
  vec.length + 32 < 2 ^ 64

theorem Roomy.fits {vec : BinaryData} (roomy : Roomy vec) : Fits vec := by
  simp only [Roomy] at roomy
  simp only [Fits]
  omega

theorem serialize_txIn_eq (b : TxIn) : serialize b = b.prevout.hash ++ b.bytesBehind := by
  rw [serialize_txIn, serialize_outPoint, TxIn.bytesBehind, List.append_assoc]

section Hashes

variable {before after hash : BinaryData} {a : ByteBuffer}

theorem readsAt_hash (roomy : Roomy (before ++ (hash ++ after))) (placed : HashPlaced hash after) :
    ReadsAt atCursor (ByteBuffer.readBinary 32) before hash after hash := by
  rcases placed with sized | ⟨rfl, short⟩
  · have fits : Fits (before ++ hash ++ after) := by
      rw [List.append_assoc]
      exact roomy.fits
    exact ByteBuffer.decodes_readBinary sized before after fits
  · have position : ((UInt64.ofNat before.length) + 32).toNat = before.length + 32 := by
      simp only [Roomy, List.nil_append, List.length_append] at roomy
      have start : (UInt64.ofNat before.length).toNat = before.length :=
        UInt64.toNat_ofNat_of_lt' (by change _ < 2 ^ 64; omega)
      rw [UInt64.toNat_add, start]
      change (before.length + 32) % 2 ^ 64 = _
      omega
    rw [ReadsAt, List.nil_append, List.append_nil]
    apply ByteBuffer.readBinary_eq_nil
    simp only [atCursor, position, List.length_append]
    omega

/-- What is found in the place of a hash is placed there. -/
theorem hashPlaced_of_read (roomy : Roomy (before ++ (hash ++ after)))
    (found : ByteBuffer.readBinary 32 (atCursor before (hash ++ after)) = .ok (hash, a)) :
    HashPlaced hash after := by
  by_cases long : 32 ≤ (hash ++ after).length
  · -- the next 32 bytes are read
    have firstSize : ((hash ++ after).take 32).length = 32 := by
      rw [List.length_take]
      omega
    have reads := @readsAt_hash before ((hash ++ after).drop 32) ((hash ++ after).take 32)
      (by rwa [List.take_append_drop]) (Or.inl firstSize)
    rw [ReadsAt, List.take_append_drop, found, Except.ok.injEq, Prod.mk.injEq] at reads
    left
    rw [reads.1, firstSize]
  · have reads := @readsAt_hash before (hash ++ after) [] (by simpa using roomy)
      (Or.inr ⟨rfl, by omega⟩)
    rw [ReadsAt, List.nil_append, found, Except.ok.injEq, Prod.mk.injEq] at reads
    rw [reads.1, List.nil_append] at long
    exact Or.inr ⟨reads.1, by omega⟩

end Hashes

/-! ## Inputs -/

/-- What is left to read of an input behind its hash. -/
def TxIn.readBehind (hash : BinaryData) : ByteBuffer.Reader TxIn := do
  let index ← ByteBuffer.read UInt32
  let script ← Script.read
  let n ← ByteBuffer.read UInt32
  return ⟨⟨hash, index⟩, script, n⟩

theorem TxIn.read_eq : TxIn.read = ByteBuffer.readBinary 32 >>= TxIn.readBehind := by
  simp only [TxIn.read, OutPoint.read, bind_assoc, pure_bind]
  rfl

theorem TxIn.decodes_readBehind (b : TxIn) :
    Decodes (TxIn.readBehind b.prevout.hash) b.bytesBehind b := by
  refine (decodes_scalar b.prevout.n).bind ?_
  refine (decodes_script b.script).bind ?_
  exact (decodes_scalar b.n).map fun n => TxIn.mk ⟨b.prevout.hash, b.prevout.n⟩ b.script n

section Inputs

variable {before after : BinaryData} {a : ByteBuffer}

theorem readsAt_txIn {input : TxIn} (roomy : Roomy (before ++ (serialize input ++ after)))
    (placed : HashPlaced input.prevout.hash (input.bytesBehind ++ after)) :
    ReadsAt atCursor TxIn.read before (serialize input) after input := by
  rw [serialize_txIn_eq] at roomy ⊢
  have hash := readsAt_hash (by rwa [List.append_assoc] at roomy) placed
  have fits : Fits (before ++ input.prevout.hash ++ input.bytesBehind ++ after) := by
    have := roomy.fits
    simpa only [List.append_assoc] using this
  rw [TxIn.read_eq]
  exact hash.bind (TxIn.decodes_readBehind input (before ++ input.prevout.hash) after fits)

theorem hash_of_txIn_read {input : TxIn} {state : ByteBuffer}
    (found : TxIn.read state = .ok (input, a)) :
    ∃ middle, ByteBuffer.readBinary 32 state = .ok (input.prevout.hash, middle) := by
  rw [TxIn.read_eq, CursorReader.bind_eq_ok] at found
  rcases found with ⟨hash, middle, hashEq, found⟩
  simp only [TxIn.readBehind, CursorReader.bind_eq_ok, CursorReader.pure_eq_ok] at found
  rcases found with ⟨_, _, _, _, _, _, _, _, _, rfl, _⟩
  exact ⟨middle, hashEq⟩

/-- Inputs that are read from their own bytes have their hashes in place. -/
theorem inputsPlaced_of_read {inputs : List TxIn}
    (roomy : Roomy (before ++ (inputs.flatMap serialize ++ after)))
    (found : CursorReader.readMany TxIn.read inputs.length
      (atCursor before (inputs.flatMap serialize ++ after)) = .ok (inputs, a)) :
    InputsPlaced inputs after := by
  induction inputs generalizing before a with
  | nil => trivial
  | cons input inputs ih =>
      rw [List.flatMap_cons, List.append_assoc] at found roomy
      rw [List.length_cons, CursorReader.readMany, CursorReader.bind_eq_ok] at found
      rcases found with ⟨first, middle, firstEq, found⟩
      simp only [CursorReader.bind_eq_ok, CursorReader.pure_eq_ok] at found
      rcases found with ⟨others, last, othersEq, same, _⟩
      rw [List.cons.injEq] at same
      rcases same with ⟨rfl, rfl⟩
      have placed : HashPlaced first.prevout.hash
          (first.bytesBehind ++ (others.flatMap serialize ++ after)) := by
        rcases hash_of_txIn_read firstEq with ⟨_, hashEq⟩
        rw [serialize_txIn_eq, List.append_assoc] at hashEq roomy
        exact hashPlaced_of_read roomy hashEq
      have reads := readsAt_txIn roomy placed
      rw [ReadsAt, firstEq, Except.ok.injEq, Prod.mk.injEq] at reads
      rw [reads.2] at othersEq
      exact ⟨placed, ih (by rwa [List.append_assoc]) othersEq⟩

theorem readsAt_inputs {inputs : List TxIn}
    (roomy : Roomy (before ++ (inputs.flatMap serialize ++ after)))
    (placed : InputsPlaced inputs after) :
    ReadsAt atCursor (CursorReader.readMany TxIn.read inputs.length) before
      (inputs.flatMap serialize) after inputs := by
  induction inputs generalizing before with
  | nil => simp [ReadsAt, CursorReader.readMany, CursorReader.pure_eq_ok]
  | cons input inputs ih =>
      rw [List.flatMap_cons, List.append_assoc] at roomy
      rw [List.flatMap_cons]
      refine (readsAt_txIn roomy placed.1).bind ?_
      exact (ih (by rwa [List.append_assoc]) placed.2).map (input :: ·)

end Inputs

/-! ## Transactions -/

theorem length_inputs_lt {b : Transaction} (roomy : Roomy (serialize b)) :
    b.inputs.length < 2 ^ 64 := by
  have counted := length_le_length_flatMap b.inputs serialize_txIn_ne_nil
  simp only [Roomy, serialize_transaction, serializeVector, List.length_append] at roomy
  omega

theorem placed_of_read {b : Transaction} {a : ByteBuffer} (roomy : Roomy (serialize b))
    (found : Transaction.read (ByteBuffer.ofBinary (serialize b)) = .ok (b, a)) : b.Placed := by
  have small := length_inputs_lt roomy
  have fits := roomy.fits
  change Transaction.read (atCursor [] (serialize b)) = _ at found
  rw [serialize_transaction, Transaction.read] at found
  rw [serialize_transaction] at roomy fits
  rw [(decodes_scalar b.version).bind_eq_ok (by simpa using fits), CursorReader.bind_eq_ok] at found
  rcases found with ⟨inputs, middle, inputsEq, found⟩
  simp only [CursorReader.bind_eq_ok, CursorReader.pure_eq_ok] at found
  rcases found with ⟨_, _, _, _, _, _, same, _⟩
  have sameInputs : inputs = b.inputs := congrArg Transaction.inputs same
  rw [sameInputs, readVector, serializeVector, List.append_assoc,
    (decodes_varInt _).bind_eq_ok (by simpa [serializeVector] using fits),
    decodes_ofSize small] at inputsEq
  exact inputsPlaced_of_read (by simpa [serializeVector] using roomy) inputsEq

theorem read_of_placed {b : Transaction} (roomy : Roomy (serialize b)) (placed : b.Placed) :
    ∃ a, Transaction.read (ByteBuffer.ofBinary (serialize b)) = .ok (b, a) := by
  have small := length_inputs_lt roomy
  have fits := roomy.fits
  rw [serialize_transaction] at roomy fits
  have behind : Decodes (do
      let outputs ← readVector TxOut.read
      let lockTime ← ByteBuffer.read UInt32
      return ⟨b.version, b.inputs, outputs, lockTime⟩)
      (serializeVector b.outputs ++ serialize b.lockTime) b := by
    refine (decodes_vector b.outputs serialize_txOut_ne_nil fun output _ =>
      decodes_txOut output).bind ?_
    exact (decodes_scalar b.lockTime).map (Transaction.mk b.version b.inputs b.outputs)
  have whole : ReadsAt atCursor Transaction.read [] (serialize b.version ++
      (serializeVector b.inputs ++ (serializeVector b.outputs ++ serialize b.lockTime))) [] b := by
    refine ReadsAt.bind (decodes_scalar b.version _ _ (by simpa using fits)) ?_
    refine ReadsAt.bind (ReadsAt.bind (decodes_varInt _ _ _
      (by simpa [serializeVector] using fits)) ?_) (behind _ _ (by simpa using fits))
    rw [decodes_ofSize small]
    exact readsAt_inputs (by simpa [serializeVector] using roomy) (by simpa [Transaction.Placed] using placed)
  rw [← serialize_transaction, ReadsAt, List.append_nil] at whole
  exact ⟨_, whole⟩

/--
The bytes of a buffer are those of the transaction read from it exactly if they are the
bytes of a transaction with its hashes in place.
-/
theorem read_serialize_iff {bytes : BinaryData} (roomy : Roomy bytes) :
    (∃ tx a, Transaction.read (ByteBuffer.ofBinary bytes) = .ok (tx, a) ∧
        serialize tx = bytes) ↔
      ∃ tx : Transaction, tx.Placed ∧ serialize tx = bytes := by
  constructor
  · rintro ⟨tx, a, found, rfl⟩
    exact ⟨tx, placed_of_read roomy found, rfl⟩
  · rintro ⟨tx, placed, rfl⟩
    rcases read_of_placed roomy placed with ⟨a, found⟩
    exact ⟨tx, a, found, rfl⟩

end Poolserver.Bitcoin
