import Poolserver.Bitcoin.Serialization

/-!
# Decoding undoes encoding

Every writer only appends, so a record has one byte string, the concatenation of
the byte strings of its fields. Every reader, placed in front of that byte string
anywhere in a buffer, finds the record and stops right behind it. Both facts are
proved record by record along the order in which the fields are serialized.
-/

namespace Poolserver.Bitcoin

open ByteBuffer (Decodes Fits)

/-! ## The byte strings of records -/

/-- A writer that only appends, whatever is in the buffer. -/
class Appends (α : Type) [HShiftLeft ByteBuffer α ByteBuffer] : Prop where
  shiftLeft_eq (a : ByteBuffer) (b : α) : a <<< b = { a with vec := a.vec ++ serialize b }

open Appends (shiftLeft_eq)

section Appending

variable {α : Type} [HShiftLeft ByteBuffer α ByteBuffer]

theorem serialize_of_writes {bytes : α → BinaryData}
    (writes : ∀ (a : ByteBuffer) (b : α), a <<< b = { a with vec := a.vec ++ bytes b }) (b : α) :
    serialize b = bytes b := by
  simp [serialize, writes]

theorem appends_of_writes {bytes : α → BinaryData}
    (writes : ∀ (a : ByteBuffer) (b : α), a <<< b = { a with vec := a.vec ++ bytes b }) :
    Appends α where
  shiftLeft_eq a b := by rw [writes, serialize_of_writes writes]

theorem foldl_shiftLeft [Appends α] (a : ByteBuffer) (items : List α) :
    items.foldl (· <<< ·) a = { a with vec := a.vec ++ items.flatMap serialize } := by
  induction items generalizing a with
  | nil => simp
  | cons item items ih =>
      rw [List.foldl_cons, ih, shiftLeft_eq]
      simp

end Appending

section Scalars

variable {T : Type} [Scalar T]

theorem serialize_scalar (b : T) :
    serialize b = ByteOrder.littleEndian (Scalar.size T) (Scalar.toBits b) :=
  serialize_of_writes ByteBuffer.shiftLeft_scalar b

theorem serialize_injective {left right : T} (same : serialize left = serialize right) :
    left = right := by
  rw [serialize_scalar, serialize_scalar] at same
  rw [← Scalar.ofBits_toBits left, ← Scalar.ofBits_toBits right,
    ByteOrder.littleEndian_injective (Scalar.toBits_lt left) (Scalar.toBits_lt right) same]

instance : Appends T := appends_of_writes ByteBuffer.shiftLeft_scalar

end Scalars

@[simp]
theorem serialize_binary (b : BinaryData) : serialize b = b :=
  serialize_of_writes ByteBuffer.shiftLeft_binary b

instance : Appends BinaryData := appends_of_writes ByteBuffer.shiftLeft_binary

@[simp]
theorem serialize_buffer (b : ByteBuffer) : serialize b = b.vec :=
  serialize_of_writes ByteBuffer.shiftLeft_buffer b

instance : Appends ByteBuffer := appends_of_writes ByteBuffer.shiftLeft_buffer

/-- The shortest of the four forms that holds the value. -/
def VarInt.bytes (b : VarInt) : BinaryData :=
  if b.value < 0xfd then serialize b.value.toUInt8
  else if b.value ≤ 0xffff then serialize (0xfd : UInt8) ++ serialize b.value.toUInt16
  else if b.value ≤ 0xffffffff then serialize (0xfe : UInt8) ++ serialize b.value.toUInt32
  else serialize (0xff : UInt8) ++ serialize b.value

theorem VarInt.write_eq (a : ByteBuffer) (b : VarInt) :
    a <<< b = { a with vec := a.vec ++ b.bytes } := by
  change VarInt.write a b = _
  simp only [VarInt.write, VarInt.bytes, shiftLeft_eq]
  split_ifs <;> simp

instance : Appends VarInt := appends_of_writes VarInt.write_eq

theorem serialize_varInt (b : VarInt) : serialize b = b.bytes :=
  serialize_of_writes VarInt.write_eq b

theorem Script.write_eq (a : ByteBuffer) (b : Script) :
    a <<< b =
      { a with vec := a.vec ++ (serialize (VarInt.ofSize b.script.length) ++ b.script) } := by
  change Script.write a b = _
  simp [Script.write, shiftLeft_eq]

instance : Appends Script := appends_of_writes Script.write_eq

theorem serialize_script (b : Script) :
    serialize b = serialize (VarInt.ofSize b.script.length) ++ b.script :=
  serialize_of_writes Script.write_eq b

theorem OutPoint.write_eq (a : ByteBuffer) (b : OutPoint) :
    a <<< b = { a with vec := a.vec ++ (b.hash ++ serialize b.n) } := by
  change OutPoint.write a b = _
  simp [OutPoint.write, shiftLeft_eq]

instance : Appends OutPoint := appends_of_writes OutPoint.write_eq

theorem serialize_outPoint (b : OutPoint) : serialize b = b.hash ++ serialize b.n :=
  serialize_of_writes OutPoint.write_eq b

theorem TxIn.write_eq (a : ByteBuffer) (b : TxIn) :
    a <<< b =
      { a with vec := a.vec ++ (serialize b.prevout ++ (serialize b.script ++ serialize b.n)) } := by
  change TxIn.write a b = _
  simp [TxIn.write, shiftLeft_eq]

instance : Appends TxIn := appends_of_writes TxIn.write_eq

theorem serialize_txIn (b : TxIn) :
    serialize b = serialize b.prevout ++ (serialize b.script ++ serialize b.n) :=
  serialize_of_writes TxIn.write_eq b

theorem TxOut.write_eq (a : ByteBuffer) (b : TxOut) :
    a <<< b = { a with vec := a.vec ++ (serialize b.value ++ serialize b.scriptPubKey) } := by
  change TxOut.write a b = _
  simp [TxOut.write, shiftLeft_eq]

instance : Appends TxOut := appends_of_writes TxOut.write_eq

theorem serialize_txOut (b : TxOut) :
    serialize b = serialize b.value ++ serialize b.scriptPubKey :=
  serialize_of_writes TxOut.write_eq b

/-- The byte string of a vector: its count, then its items. -/
def serializeVector {α : Type} [HShiftLeft ByteBuffer α ByteBuffer] (items : List α) : BinaryData :=
  serialize (VarInt.ofSize items.length) ++ items.flatMap serialize

theorem Transaction.write_eq (a : ByteBuffer) (b : Transaction) :
    a <<< b =
      { a with
        vec := a.vec ++ (serialize b.version ++ (serializeVector b.inputs ++
          (serializeVector b.outputs ++ serialize b.lockTime))) } := by
  change Transaction.write a b = _
  simp only [Transaction.write, foldl_shiftLeft]
  simp only [shiftLeft_eq, serializeVector, List.append_assoc]

instance : Appends Transaction := appends_of_writes Transaction.write_eq

theorem serialize_transaction (b : Transaction) :
    serialize b = serialize b.version ++ (serializeVector b.inputs ++
      (serializeVector b.outputs ++ serialize b.lockTime)) :=
  serialize_of_writes Transaction.write_eq b

/-- The bytes of the six header fields. -/
def BlockHeader.bytes (b : BlockHeader) : BinaryData :=
  serialize b.version ++ (b.prevBlockHash ++ (b.merkleRootHash ++
    (serialize b.time ++ (serialize b.bits ++ serialize b.nonce))))

theorem Block.write_eq (a : ByteBuffer) (b : Block) :
    a <<< b = { a with vec := a.vec ++ (b.toBlockHeader.bytes ++ serializeVector b.tx) } := by
  change Block.write a b = _
  simp only [Block.write, foldl_shiftLeft]
  simp only [shiftLeft_eq, serializeVector, BlockHeader.bytes, serialize_binary,
    List.append_assoc]

instance : Appends Block := appends_of_writes Block.write_eq

theorem serialize_block (b : Block) :
    serialize b = b.toBlockHeader.bytes ++ serializeVector b.tx :=
  serialize_of_writes Block.write_eq b

/-! ## Readers find what was written -/

theorem decodes_scalar {T : Type} [Scalar T] (data : T) :
    Decodes (ByteBuffer.read T) (serialize data) data := by
  rw [serialize_scalar]
  exact ByteBuffer.decodes_read data

/-- A value that fits a shorter word survives the conversion to it and back. -/
theorem VarInt.eq_of_toNat {b : VarInt} {value : UInt64} (same : value.toNat = b.value.toNat) :
    (⟨value⟩ : VarInt) = b := by
  cases b
  simpa using UInt64.toNat_inj.mp same

theorem decodes_varInt (b : VarInt) : Decodes VarInt.read (serialize b) b := by
  rw [serialize_varInt, VarInt.bytes]
  split_ifs with below1 below2 below4
  · -- the first byte is the value itself
    have small : b.value.toNat < 253 := UInt64.lt_iff_toNat_lt.mp below1
    have first : b.value.toUInt8 < 0xfd := by
      rw [UInt8.lt_iff_toNat_lt, UInt64.toNat_toUInt8]
      change b.value.toNat % 2 ^ 8 < 253
      omega
    have back : (⟨b.value.toUInt8.toUInt64⟩ : VarInt) = b := by
      apply VarInt.eq_of_toNat
      simp only [UInt8.toNat_toUInt64, UInt64.toNat_toUInt8]
      omega
    rw [← List.append_nil (serialize _)]
    refine (decodes_scalar b.value.toUInt8).bind ?_
    rw [if_pos first, back]
    exact .pure b
  · have small : b.value.toNat ≤ 65535 := UInt64.le_iff_toNat_le.mp below2
    have back : (⟨b.value.toUInt16.toUInt64⟩ : VarInt) = b := by
      apply VarInt.eq_of_toNat
      simp only [UInt16.toNat_toUInt64, UInt64.toNat_toUInt16]
      omega
    refine (decodes_scalar (0xfd : UInt8)).bind ?_
    have reads := (decodes_scalar b.value.toUInt16).map fun value => (⟨value.toUInt64⟩ : VarInt)
    rw [back] at reads
    exact reads
  · have small : b.value.toNat ≤ 4294967295 := UInt64.le_iff_toNat_le.mp below4
    have back : (⟨b.value.toUInt32.toUInt64⟩ : VarInt) = b := by
      apply VarInt.eq_of_toNat
      simp only [UInt32.toNat_toUInt64, UInt64.toNat_toUInt32]
      omega
    refine (decodes_scalar (0xfe : UInt8)).bind ?_
    have reads := (decodes_scalar b.value.toUInt32).map fun value => (⟨value.toUInt64⟩ : VarInt)
    rw [back] at reads
    exact reads
  · refine (decodes_scalar (0xff : UInt8)).bind ?_
    exact (decodes_scalar b.value).map fun value => (⟨value⟩ : VarInt)

theorem decodes_ofSize {size : ℕ} (small : size < 2 ^ 64) :
    (VarInt.ofSize size).value.toNat = size := by
  rw [VarInt.ofSize, UInt64.toNat_ofNat_of_lt' small]

theorem decodes_script (b : Script) : Decodes Script.read (serialize b) b := by
  rw [serialize_script]
  refine .of_admissible fun before after fits => ?_
  have small : b.script.length < 2 ^ 64 := by
    simp only [Fits, List.length_append] at fits
    omega
  refine (decodes_varInt _).bind ?_
  have script := ByteBuffer.decodes_readBinary (decodes_ofSize small).symm
  exact script.map Script.mk

theorem decodes_outPoint {b : OutPoint} (hashSize : b.hash.length = 32) :
    Decodes OutPoint.read (serialize b) b := by
  rw [serialize_outPoint]
  refine (ByteBuffer.decodes_readBinary hashSize).bind ?_
  exact (decodes_scalar b.n).map fun n => OutPoint.mk b.hash n

theorem decodes_txIn {b : TxIn} (hashSize : b.prevout.hash.length = 32) :
    Decodes TxIn.read (serialize b) b := by
  rw [serialize_txIn]
  refine (decodes_outPoint hashSize).bind ?_
  refine (decodes_script b.script).bind ?_
  exact (decodes_scalar b.n).map fun n => TxIn.mk b.prevout b.script n

theorem decodes_txOut (b : TxOut) : Decodes TxOut.read (serialize b) b := by
  rw [serialize_txOut]
  refine (decodes_scalar b.value).bind ?_
  exact (decodes_script b.scriptPubKey).map fun script => TxOut.mk b.value script

theorem length_le_length_flatMap {α : Type} (items : List α) {bytes : α → BinaryData}
    (nonempty : ∀ item, bytes item ≠ []) : items.length ≤ (items.flatMap bytes).length := by
  induction items with
  | nil => simp
  | cons item items ih =>
      have positive := List.length_pos_iff.mpr (nonempty item)
      simp only [List.flatMap_cons, List.length_append, List.length_cons]
      omega

/-- No record is longer than its vector, so the count of a vector in memory fits its word. -/
theorem decodes_vector {α : Type} [HShiftLeft ByteBuffer α ByteBuffer] {read : ByteBuffer.Reader α}
    (items : List α) (nonempty : ∀ item : α, serialize item ≠ [])
    (reads : ∀ item ∈ items, Decodes read (serialize item) item) :
    Decodes (readVector read) (serializeVector items) items := by
  refine .of_admissible fun before after fits => ?_
  have small : items.length < 2 ^ 64 := by
    have := length_le_length_flatMap items nonempty
    simp only [Fits, serializeVector, List.length_append] at fits
    omega
  refine (decodes_varInt _).bind ?_
  rw [decodes_ofSize small]
  exact .readMany reads

theorem serialize_scalar_ne_nil (b : UInt32) : serialize b ≠ [] := by
  rw [serialize_scalar]
  exact List.cons_ne_nil _ _

theorem serialize_txIn_ne_nil (b : TxIn) : serialize b ≠ [] := by
  simp [serialize_txIn, serialize_scalar_ne_nil]

theorem serialize_txOut_ne_nil (b : TxOut) : serialize b ≠ [] := by
  rw [serialize_txOut, serialize_scalar]
  exact List.cons_ne_nil _ _

theorem serialize_transaction_ne_nil (b : Transaction) : serialize b ≠ [] := by
  simp [serialize_transaction, serialize_scalar_ne_nil]

/-- Every input refers to its previous output by a hash of 32 bytes. -/
def Transaction.HashSized (b : Transaction) : Prop :=
  ∀ input ∈ b.inputs, input.prevout.hash.length = 32

theorem decodes_transaction {b : Transaction} (hashSized : b.HashSized) :
    Decodes Transaction.read (serialize b) b := by
  rw [serialize_transaction]
  refine (decodes_scalar b.version).bind ?_
  have inputs := decodes_vector b.inputs serialize_txIn_ne_nil
    (fun input inputMem => decodes_txIn (hashSized input inputMem))
  have outputs := decodes_vector b.outputs serialize_txOut_ne_nil
    (fun output _ => decodes_txOut output)
  refine inputs.bind (outputs.bind ?_)
  exact (decodes_scalar b.lockTime).map (Transaction.mk b.version b.inputs b.outputs)

/-- All hashes of a block have 32 bytes. -/
structure Block.HashSized (b : Block) : Prop where
  prevBlockHash : b.prevBlockHash.length = 32
  merkleRootHash : b.merkleRootHash.length = 32
  tx : ∀ transaction ∈ b.tx, transaction.HashSized

theorem decodes_block {b : Block} (hashSized : b.HashSized) (target : Block) :
    Decodes (Block.read target) (serialize b) { b with merkleTree := target.merkleTree } := by
  rw [serialize_block, BlockHeader.bytes]
  simp only [List.append_assoc]
  refine (decodes_scalar b.version).bind ?_
  refine (ByteBuffer.decodes_readBinary hashSized.prevBlockHash).bind ?_
  refine (ByteBuffer.decodes_readBinary hashSized.merkleRootHash).bind ?_
  refine (decodes_scalar b.time).bind ((decodes_scalar b.bits).bind ?_)
  refine (decodes_scalar b.nonce).bind ?_
  have tx := decodes_vector b.tx serialize_transaction_ne_nil
    (fun transaction transactionMem => decodes_transaction (hashSized.tx _ transactionMem))
  exact tx.map fun tx => { b with merkleTree := target.merkleTree, tx := tx }

/-- What of a block is serialized: the header fields and the transactions. -/
def Block.SameSerialized (left right : Block) : Prop :=
  left.toBlockHeader = right.toBlockHeader ∧ left.tx = right.tx

/--
Reading a block at the place where it was written gives the block back and stops
behind it; two blocks with one encoding are therefore equal in every serialized
field. A buffer is a vector, whose size fits 64 bits.
-/
theorem block_read_write :
    (∀ (b target : Block) (p s : BinaryData), b.HashSized → Fits (p ++ serialize b ++ s) →
      ∃ decoded a,
        Block.read target { pointer := UInt64.ofNat p.length, vec := p ++ serialize b ++ s } =
          .ok (decoded, a) ∧
        decoded.SameSerialized b ∧ a.pointer.toNat = p.length + (serialize b).length) ∧
    (∀ b c : Block, b.HashSized → c.HashSized → Fits (serialize b) →
      serialize b = serialize c → b.SameSerialized c) := by
  constructor
  · intro b target p s hashSized fits
    have decoded := decodes_block hashSized target p s fits
    simp only [ByteBuffer.atCursor, ← List.append_assoc] at decoded
    refine ⟨_, _, decoded, ⟨rfl, rfl⟩, ?_⟩
    simpa using ByteBuffer.toNat_pointer fits
  · intro b c bSized cSized fits same
    have cDecodes := decodes_block cSized c
    rw [← same] at cDecodes
    have equal := (decodes_block bSized c).unique cDecodes fits
    simp only [Block.mk.injEq, and_true] at equal
    exact equal

/-- A block with one transaction of one input and one output. -/
def sampleBlock : Block where
  version := 2
  prevBlockHash := List.replicate 32 7
  merkleRootHash := List.replicate 32 9
  time := 1388534400
  bits := 0x1d00ffff
  nonce := 42
  tx := [⟨1, [⟨⟨List.replicate 32 0, 0xFFFFFFFF⟩, ⟨[3, 1, 2, 3]⟩, 0⟩], [⟨-1, ⟨[0xAC]⟩⟩], 0⟩]
  merkleTree := []

theorem sampleBlock_hashSized : sampleBlock.HashSized where
  prevBlockHash := by decide
  merkleRootHash := by decide
  tx := by
    unfold Transaction.HashSized
    decide

theorem sampleBlock_read_write :
    ∃ decoded a,
      Block.read sampleBlock
        { pointer := UInt64.ofNat ([5] : BinaryData).length,
          vec := [5] ++ serialize sampleBlock ++ [6, 7] } = .ok (decoded, a) ∧
      decoded.SameSerialized sampleBlock ∧
      a.pointer.toNat = ([5] : BinaryData).length + (serialize sampleBlock).length :=
  block_read_write.1 sampleBlock sampleBlock [5] [6, 7] sampleBlock_hashSized (by
    unfold Fits
    decide +kernel)

end Poolserver.Bitcoin
