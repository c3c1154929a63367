import Poolserver.Shared.ByteBuffer

/-!
# Bitcoin records and their serialization

The record types of the `Bitcoin` namespace with the two families of stream
operators. Writing appends to a buffer, reading takes from its pointer; a
record is written and read field by field, vectors behind a variable-length
count.
-/

namespace Poolserver.Bitcoin

open ByteBuffer (Reader)

structure VarInt where
  value : UInt64
  deriving DecidableEq, Repr

structure Script where
  script : BinaryData
  deriving DecidableEq, Repr

structure OutPoint where
  hash : BinaryData
  n : UInt32
  deriving DecidableEq, Repr

structure TxIn where
  prevout : OutPoint
  script : Script
  n : UInt32
  deriving DecidableEq, Repr

structure TxOut where
  value : Int64
  scriptPubKey : Script
  deriving DecidableEq, Repr

structure Transaction where
  version : UInt32
  inputs : List TxIn
  outputs : List TxOut
  lockTime : UInt32
  deriving DecidableEq, Repr

structure BlockHeader where
  version : UInt32
  prevBlockHash : BinaryData
  merkleRootHash : BinaryData
  time : UInt32
  bits : UInt32
  nonce : UInt32
  deriving DecidableEq, Repr

structure Block extends BlockHeader where
  tx : List Transaction
  merkleTree : List BinaryData
  deriving DecidableEq, Repr

/-! ## Writing -/

def VarInt.write (a : ByteBuffer) (b : VarInt) : ByteBuffer :=
  if b.value < 0xfd then a <<< b.value.toUInt8
  else if b.value ≤ 0xffff then a <<< (0xfd : UInt8) <<< b.value.toUInt16
  else if b.value ≤ 0xffffffff then a <<< (0xfe : UInt8) <<< b.value.toUInt32
  else a <<< (0xff : UInt8) <<< b.value

instance : HShiftLeft ByteBuffer VarInt ByteBuffer := ⟨VarInt.write⟩

/-- The count written before a vector, from the size of the vector. -/
def VarInt.ofSize (size : ℕ) : VarInt := ⟨UInt64.ofNat size⟩

def Script.write (a : ByteBuffer) (b : Script) : ByteBuffer :=
  a <<< VarInt.ofSize b.script.length <<< b.script

instance : HShiftLeft ByteBuffer Script ByteBuffer := ⟨Script.write⟩

def OutPoint.write (a : ByteBuffer) (b : OutPoint) : ByteBuffer :=
  a <<< b.hash <<< b.n

instance : HShiftLeft ByteBuffer OutPoint ByteBuffer := ⟨OutPoint.write⟩

def TxIn.write (a : ByteBuffer) (b : TxIn) : ByteBuffer :=
  a <<< b.prevout <<< b.script <<< b.n

instance : HShiftLeft ByteBuffer TxIn ByteBuffer := ⟨TxIn.write⟩

def TxOut.write (a : ByteBuffer) (b : TxOut) : ByteBuffer :=
  a <<< b.value <<< b.scriptPubKey

instance : HShiftLeft ByteBuffer TxOut ByteBuffer := ⟨TxOut.write⟩

def Transaction.write (a : ByteBuffer) (b : Transaction) : ByteBuffer :=
  let a := a <<< b.version <<< VarInt.ofSize b.inputs.length
  let a := b.inputs.foldl (· <<< ·) a
  let a := a <<< VarInt.ofSize b.outputs.length
  let a := b.outputs.foldl (· <<< ·) a
  a <<< b.lockTime

instance : HShiftLeft ByteBuffer Transaction ByteBuffer := ⟨Transaction.write⟩

def Block.write (a : ByteBuffer) (b : Block) : ByteBuffer :=
  let a := a <<< b.version <<< b.prevBlockHash <<< b.merkleRootHash <<< b.time <<< b.bits <<<
    b.nonce
  let a := a <<< VarInt.ofSize b.tx.length
  b.tx.foldl (· <<< ·) a

instance : HShiftLeft ByteBuffer Block ByteBuffer := ⟨Block.write⟩

/-- The contents of a fresh buffer after writing one record. -/
def serialize {α : Type} [HShiftLeft ByteBuffer α ByteBuffer] (b : α) : BinaryData :=
  (({} : ByteBuffer) <<< b).vec

/-! ## Reading -/

/-- The source forgets to return its argument here; callers do not use the result. -/
def VarInt.read : Reader VarInt := do
  let size ← ByteBuffer.read UInt8
  if size < 0xfd then
    return ⟨size.toUInt64⟩
  else if size = 0xfd then
    return ⟨(← ByteBuffer.read UInt16).toUInt64⟩
  else if size = 0xfe then
    return ⟨(← ByteBuffer.read UInt32).toUInt64⟩
  else
    return ⟨← ByteBuffer.read UInt64⟩

def Script.read : Reader Script := do
  let size ← VarInt.read
  let script ← ByteBuffer.readBinary size.value
  return ⟨script⟩

def OutPoint.read : Reader OutPoint := do
  let hash ← ByteBuffer.readBinary 32
  let n ← ByteBuffer.read UInt32
  return ⟨hash, n⟩

def TxIn.read : Reader TxIn := do
  let prevout ← OutPoint.read
  let script ← Script.read
  let n ← ByteBuffer.read UInt32
  return ⟨prevout, script, n⟩

def TxOut.read : Reader TxOut := do
  let value ← ByteBuffer.read Int64
  let scriptPubKey ← Script.read
  return ⟨value, scriptPubKey⟩

/-- A count read from the buffer, then that many records. -/
def readVector {α : Type} (read : Reader α) : Reader (List α) := do
  let size ← VarInt.read
  CursorReader.readMany read size.value.toNat

def Transaction.read : Reader Transaction := do
  let version ← ByteBuffer.read UInt32
  let inputs ← readVector TxIn.read
  let outputs ← readVector TxOut.read
  let lockTime ← ByteBuffer.read UInt32
  return ⟨version, inputs, outputs, lockTime⟩

/-- Reading a block overwrites its serialized fields and keeps its merkle tree. -/
def Block.read (b : Block) : Reader Block := do
  let version ← ByteBuffer.read UInt32
  let prevBlockHash ← ByteBuffer.readBinary 32
  let merkleRootHash ← ByteBuffer.readBinary 32
  let time ← ByteBuffer.read UInt32
  let bits ← ByteBuffer.read UInt32
  let nonce ← ByteBuffer.read UInt32
  let tx ← readVector Transaction.read
  return { b with version, prevBlockHash, merkleRootHash, time, bits, nonce, tx }

end Poolserver.Bitcoin
