import Poolserver.Bitcoin.RoundTrip

/-!
# Targets and the coinbase transaction

The target arithmetic and `CreateCoinbaseTX`. A coinbase transaction whose input
script has twelve bytes is laid out in three parts: 42 bytes that are the same in
every coinbase, the script, and a rest that does not depend on the script. This is
what makes it possible to cut the extranonce out of the serialized transaction at a
fixed place and to read whatever is glued in there as a transaction again.
-/

namespace Poolserver.Bitcoin

open ByteBuffer (Fits)

/-- The target of difficulty one. -/
def diffOneTarget : ℕ := 0x00000000ffff0000000000000000000000000000000000000000000000000000

/-- `TargetToDiff`; dividing by zero aborts. -/
def targetToDiff (val : ℕ) : Option ℕ :=
  if val = 0 then none else some (diffOneTarget / val)

/-- `DiffToTarget`, which is the same division. -/
def diffToTarget (val : ℕ) : Option ℕ :=
  targetToDiff val

/--
`TargetFromBits`. An exponent below three makes the argument of `mpz_ui_pow_ui` a
wrapped negative number, too large for the power to be represented.
-/
def targetFromBits (bits : UInt32) : Option ℕ :=
  let nbytes := ((bits >>> 24) &&& 0xFF).toNat
  if nbytes < 3 then none
  else some ((bits &&& 0xFFFFFF).toNat * 2 ^ (8 * (nbytes - 3)))

def opCheckSig : UInt8 := 0xAC

/-- `Script::operator+(ScriptOPCode)`. -/
def Script.addOp (script : Script) (op : UInt8) : Script :=
  ⟨script.script ++ [op]⟩

/-- `CreateCoinbaseTX`. -/
def createCoinbaseTX (blockHeight : UInt32) (pubkey : BinaryData) (value : Int64) : Transaction :=
  let extranonce_ph : BinaryData := List.replicate 8 0
  let scriptsig := ({} : ByteBuffer) <<< blockHeight <<< extranonce_ph
  let outpoint : OutPoint := { hash := List.replicate 32 0, n := 0xFFFFFFFF }
  let txin : TxIn := { prevout := outpoint, script := ⟨scriptsig.vec⟩, n := 0 }
  let txout : TxOut := { value, scriptPubKey := Script.addOp ⟨pubkey⟩ opCheckSig }
  { version := 1, inputs := [txin], outputs := [txout], lockTime := 0 }

/-! ## Layout -/

/-- The coinbase transaction with another input script. -/
def coinbaseWith (script pubkey : BinaryData) (value : Int64) : Transaction :=
  { version := 1
    inputs := [⟨⟨List.replicate 32 0, 0xFFFFFFFF⟩, ⟨script⟩, 0⟩]
    outputs := [⟨value, ⟨pubkey ++ [opCheckSig]⟩⟩]
    lockTime := 0 }

/-- The bytes in front of a coinbase script of twelve bytes. -/
def coinbaseHead : BinaryData :=
  [1, 0, 0, 0] ++ [1] ++ List.replicate 32 0 ++ [0xFF, 0xFF, 0xFF, 0xFF] ++ [12]

/-- The bytes behind the coinbase script. -/
def coinbaseTail (pubkey : BinaryData) (value : Int64) : BinaryData :=
  [0, 0, 0, 0] ++ serializeVector [(⟨value, ⟨pubkey ++ [opCheckSig]⟩⟩ : TxOut)] ++ [0, 0, 0, 0]

theorem createCoinbaseTX_eq (blockHeight : UInt32) (pubkey : BinaryData) (value : Int64) :
    createCoinbaseTX blockHeight pubkey value =
      coinbaseWith (serialize blockHeight ++ List.replicate 8 0) pubkey value := by
  simp [createCoinbaseTX, coinbaseWith, Appends.shiftLeft_eq, Script.addOp]

theorem coinbaseWith_hashSized (script pubkey : BinaryData) (value : Int64) :
    (coinbaseWith script pubkey value).HashSized := by
  intro input inputMem
  simp only [coinbaseWith, List.mem_singleton] at inputMem
  simp [inputMem]

theorem length_coinbaseHead : coinbaseHead.length = 42 := by decide

theorem serialize_coinbaseWith {script : BinaryData} (pubkey : BinaryData) (value : Int64)
    (length : script.length = 12) :
    serialize (coinbaseWith script pubkey value) =
      coinbaseHead ++ (script ++ coinbaseTail pubkey value) := by
  have version : serialize (1 : UInt32) = [1, 0, 0, 0] := by decide
  have count : serialize (VarInt.ofSize 1) = [1] := by decide
  have index : serialize (0xFFFFFFFF : UInt32) = [0xFF, 0xFF, 0xFF, 0xFF] := by decide
  have size : serialize (VarInt.ofSize 12) = [12] := by decide
  have zero : serialize (0 : UInt32) = [0, 0, 0, 0] := by decide
  have inputs : serializeVector (coinbaseWith script pubkey value).inputs =
      [1] ++ List.replicate 32 0 ++ [0xFF, 0xFF, 0xFF, 0xFF] ++ [12] ++ script ++ [0, 0, 0, 0] := by
    simp [serializeVector, coinbaseWith, serialize_txIn, serialize_outPoint, serialize_script,
      length, count, index, size, zero]
  rw [serialize_transaction, inputs]
  simp only [coinbaseWith, version, zero, coinbaseHead, coinbaseTail, List.append_assoc]

theorem length_serialize_scalar {T : Type} [Scalar T] (data : T) :
    (serialize data).length = Scalar.size T := by
  rw [serialize_scalar, ByteOrder.length_littleEndian]

/-- A coinbase transaction splits behind the block height, the extranonce takes eight bytes. -/
theorem serialize_createCoinbaseTX (blockHeight : UInt32) (pubkey : BinaryData) (value : Int64) :
    serialize (createCoinbaseTX blockHeight pubkey value) =
      coinbaseHead ++ serialize blockHeight ++ (List.replicate 8 0 ++ coinbaseTail pubkey value) := by
  rw [createCoinbaseTX_eq,
    serialize_coinbaseWith pubkey value (by simp [length_serialize_scalar, Scalar.size])]
  simp

/-- No coinbase is as short as two hashes. -/
theorem length_coinbaseTail (pubkey : BinaryData) (value : Int64) :
    10 < (coinbaseTail pubkey value).length := by
  have output : (serialize value).length = 8 := length_serialize_scalar value
  simp only [coinbaseTail, serializeVector, List.flatMap_cons, List.flatMap_nil, serialize_txOut,
    List.length_append, List.length_cons, List.length_nil, output]
  omega

theorem length_serialize_varInt_le (b : VarInt) : (serialize b).length ≤ 9 := by
  rw [serialize_varInt, VarInt.bytes]
  split_ifs <;> simp [length_serialize_scalar, Scalar.size]

/-- With a public key of an ordinary size, a coinbase is far from filling a buffer. -/
theorem fits_createCoinbaseTX (blockHeight : UInt32) {pubkey : BinaryData} (value : Int64)
    (short : pubkey.length < 2 ^ 32) :
    Fits (serialize (createCoinbaseTX blockHeight pubkey value)) := by
  have count := length_serialize_varInt_le (VarInt.ofSize 1)
  have size := length_serialize_varInt_le (VarInt.ofSize (pubkey.length + 1))
  rw [Fits, serialize_createCoinbaseTX]
  simp only [coinbaseTail, serializeVector, List.flatMap_cons, List.flatMap_nil, serialize_txOut,
    serialize_script, List.length_append, List.length_cons, List.length_nil, List.length_replicate,
    length_coinbaseHead, length_serialize_scalar, Scalar.size, Nat.zero_add]
  omega

/-- Reading the bytes of a coinbase gives the transaction back. -/
theorem read_coinbaseWith {script pubkey : BinaryData} {value : Int64}
    (fits : Fits (serialize (coinbaseWith script pubkey value))) :
    ∃ a, Transaction.read (ByteBuffer.ofBinary (serialize (coinbaseWith script pubkey value))) =
      .ok (coinbaseWith script pubkey value, a) := by
  have decoded := decodes_transaction (coinbaseWith_hashSized script pubkey value) [] []
    (by simpa using fits)
  simp only [ByteBuffer.atCursor, List.append_nil, List.nil_append] at decoded
  exact ⟨_, decoded⟩

end Poolserver.Bitcoin
