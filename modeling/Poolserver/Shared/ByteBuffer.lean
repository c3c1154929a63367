import Poolserver.Lib.ByteOrder
import Poolserver.Lib.CursorReader
import Poolserver.Shared.Common

/-!
# The byte buffer

`ByteBuffer` is a byte vector with a read pointer. Integers are appended and
read byte by byte, least significant byte first; the pointer and the bounds
checks use 64-bit unsigned arithmetic, which wraps.
-/

namespace Poolserver

/-- The integer types a buffer stores: their width in bytes and their two's complement bits. -/
class Scalar (T : Type) where
  size : ℕ
  toBits : T → ℕ
  ofBits : ℕ → T
  toBits_lt : ∀ data, toBits data < 256 ^ size
  ofBits_toBits : ∀ data, ofBits (toBits data) = data

instance : Scalar UInt8 where
  size := 1
  toBits := UInt8.toNat
  ofBits := UInt8.ofNat
  toBits_lt := UInt8.toNat_lt
  ofBits_toBits _ := UInt8.ofNat_toNat

instance : Scalar UInt16 where
  size := 2
  toBits := UInt16.toNat
  ofBits := UInt16.ofNat
  toBits_lt := UInt16.toNat_lt
  ofBits_toBits _ := UInt16.ofNat_toNat

instance : Scalar UInt32 where
  size := 4
  toBits := UInt32.toNat
  ofBits := UInt32.ofNat
  toBits_lt := UInt32.toNat_lt
  ofBits_toBits _ := UInt32.ofNat_toNat

instance : Scalar UInt64 where
  size := 8
  toBits := UInt64.toNat
  ofBits := UInt64.ofNat
  toBits_lt := UInt64.toNat_lt
  ofBits_toBits _ := UInt64.ofNat_toNat

instance : Scalar Int64 where
  size := 8
  toBits data := data.toUInt64.toNat
  ofBits bits := (UInt64.ofNat bits).toInt64
  toBits_lt data := data.toUInt64.toNat_lt
  ofBits_toBits data := by simp

structure ByteBuffer where
  pointer : UInt64 := 0
  vec : BinaryData := []
  deriving DecidableEq, Repr

namespace ByteBuffer

variable {T : Type} [Scalar T]

/-- `ByteBuffer::Append<T>`: the bytes of `data`, shifted out one after the other. -/
def append (a : ByteBuffer) (data : T) : ByteBuffer :=
  { a with
    vec := a.vec ++ (List.range (Scalar.size T)).map fun i =>
      UInt8.ofNat (Scalar.toBits data >>> (i * 8)) }

/-- `ByteBuffer::Append(BinaryData)`. -/
def appendBinary (a : ByteBuffer) (data : BinaryData) : ByteBuffer :=
  { a with vec := a.vec ++ data }

instance : HShiftLeft ByteBuffer T ByteBuffer := ⟨append⟩

instance : HShiftLeft ByteBuffer BinaryData ByteBuffer := ⟨appendBinary⟩

/-- Appends all bytes of the other buffer, whatever its pointer. -/
instance : HShiftLeft ByteBuffer ByteBuffer ByteBuffer := ⟨fun a b => a.appendBinary b.vec⟩

/-- `ByteBuffer(BinaryData)`. -/
def ofBinary (data : BinaryData) : ByteBuffer :=
  { vec := data }

/-- What reads from a buffer: a short read is not an error and returns zeros or nothing. -/
abbrev Reader (α : Type) := StateT ByteBuffer (Except StdException) α

/--
`ByteBuffer::ReadBinary`. The sum of pointer and size can wrap around and pass the
check; the vector is then constructed from a reversed range, which throws.
-/
def readBinary (size : UInt64) : Reader BinaryData := fun a =>
  if a.vec.length < (a.pointer + size).toNat then .ok ([], a)
  else
    let pointer := a.pointer + size
    let first := (pointer - size).toNat
    let last := pointer.toNat
    if last < first then .error .lengthError
    else .ok ((a.vec.drop first).take (last - first), { a with pointer := pointer })

/-- `ByteBuffer::Read<T>`. -/
def readScalar (T : Type) [Scalar T] (a : ByteBuffer) : T × ByteBuffer :=
  let size := UInt64.ofNat (Scalar.size T)
  if a.vec.length < (a.pointer + size).toNat then (Scalar.ofBits 0, a)
  else
    let data := (List.range (Scalar.size T)).foldl
      (fun data i => data + (a.vec.getD (a.pointer + UInt64.ofNat i).toNat 0).toNat <<< (i * 8)) 0
    (Scalar.ofBits data, { a with pointer := a.pointer + size })

def read (T : Type) [Scalar T] : Reader T := fun a =>
  .ok (readScalar T a)

/-! ## Appending -/

theorem shiftLeft_scalar (a : ByteBuffer) (data : T) :
    a <<< data =
      { a with vec := a.vec ++ ByteOrder.littleEndian (Scalar.size T) (Scalar.toBits data) } := by
  change a.append data = _
  rw [append, ByteOrder.map_range_shiftRight]

theorem shiftLeft_binary (a : ByteBuffer) (data : BinaryData) :
    a <<< data = { a with vec := a.vec ++ data } := rfl

theorem shiftLeft_buffer (a b : ByteBuffer) :
    a <<< b = { a with vec := a.vec ++ b.vec } := rfl

/-! ## Reading what was appended -/

/-- The buffer whose contents are split at the pointer. -/
def atCursor (before after : BinaryData) : ByteBuffer :=
  { pointer := UInt64.ofNat before.length, vec := before ++ after }

/-- The size of a vector is a 64-bit number. -/
def Fits (vec : BinaryData) : Prop :=
  vec.length < 2 ^ 64

/-- Wherever `bytes` stand in a buffer, the reader finds `value` and stops behind them. -/
abbrev Decodes {α : Type} (reader : Reader α) (bytes : BinaryData) (value : α) : Prop :=
  CursorReader.Reads atCursor Fits reader bytes value

theorem toNat_pointer_add {before bytes after : BinaryData} {size : ℕ}
    (fits : Fits (before ++ bytes ++ after)) (inside : size ≤ bytes.length) :
    ((UInt64.ofNat before.length) + UInt64.ofNat size).toNat = before.length + size := by
  simp only [Fits, List.length_append] at fits
  rw [← UInt64.ofNat_add, UInt64.toNat_ofNat_of_lt']
  have : UInt64.size = 2 ^ 64 := rfl
  omega

theorem toNat_pointer {before after : BinaryData} (fits : Fits (before ++ after)) :
    (UInt64.ofNat before.length).toNat = before.length := by
  simp only [Fits, List.length_append] at fits
  exact UInt64.toNat_ofNat_of_lt' (by change _ < 2 ^ 64; omega)

/-- A read inside the buffer takes the bytes behind the pointer. -/
theorem readBinary_eq_ok {a : ByteBuffer} {size : UInt64}
    (inside : (a.pointer + size).toNat ≤ a.vec.length)
    (forward : a.pointer.toNat ≤ (a.pointer + size).toNat) :
    readBinary size a =
      .ok ((a.vec.drop a.pointer.toNat).take ((a.pointer + size).toNat - a.pointer.toNat),
        { a with pointer := a.pointer + size }) := by
  rw [readBinary, if_neg (by omega)]
  simp only [UInt64.add_sub_cancel]
  rw [if_neg (by omega)]

/-- A read beyond the buffer takes nothing. -/
theorem readBinary_eq_nil {a : ByteBuffer} {size : UInt64}
    (beyond : a.vec.length < (a.pointer + size).toNat) : readBinary size a = .ok ([], a) := by
  rw [readBinary, if_pos beyond]

theorem readScalar_eq {a : ByteBuffer}
    (inside : (a.pointer + UInt64.ofNat (Scalar.size T)).toNat ≤ a.vec.length) :
    readScalar T a =
      (Scalar.ofBits (ByteOrder.value ((List.range (Scalar.size T)).map fun i =>
          a.vec.getD (a.pointer + UInt64.ofNat i).toNat 0)),
        { a with pointer := a.pointer + UInt64.ofNat (Scalar.size T) }) := by
  rw [readScalar, if_neg (by omega), ByteOrder.foldl_range_shiftLeft]

theorem decodes_readBinary {size : UInt64} {bytes : BinaryData}
    (sameLength : bytes.length = size.toNat) :
    Decodes (readBinary size) bytes bytes := by
  intro before after fits
  have sizeEq : size = UInt64.ofNat bytes.length := by
    rw [sameLength]
    exact UInt64.ofNat_toNat.symm
  have endEq := toNat_pointer_add fits (le_refl bytes.length)
  have startEq : (UInt64.ofNat before.length).toNat = before.length :=
    toNat_pointer (by rwa [List.append_assoc] at fits)
  rw [sizeEq, readBinary_eq_ok]
  · simp [atCursor, endEq, startEq, UInt64.ofNat_add]
  · simp only [atCursor, endEq, List.length_append]
    omega
  · simp only [atCursor, endEq, startEq]
    omega

theorem decodes_read (data : T) :
    Decodes (read T) (ByteOrder.littleEndian (Scalar.size T) (Scalar.toBits data)) data := by
  intro before after fits
  generalize bytesEq : ByteOrder.littleEndian (Scalar.size T) (Scalar.toBits data) = bytes at *
  have width : bytes.length = Scalar.size T := by simp [← bytesEq]
  have endEq := toNat_pointer_add fits (le_of_eq width.symm)
  have slice : (List.range (Scalar.size T)).map (fun i =>
      (before ++ (bytes ++ after)).getD
        (UInt64.ofNat before.length + UInt64.ofNat i).toNat 0) = bytes := by
    apply List.ext_getElem
    · simp [width]
    · intro i inRange inBytes
      simp only [List.getElem_map, List.getElem_range]
      rw [toNat_pointer_add fits (by omega)]
      rw [List.getD_eq_getElem?_getD, List.getElem?_append_right (by omega),
        Nat.add_sub_cancel_left, List.getElem?_append_left inBytes,
        List.getElem?_eq_getElem inBytes]
      rfl
  rw [read, readScalar_eq]
  · simp only [atCursor, slice]
    rw [← bytesEq, ByteOrder.value_littleEndian_of_lt (Scalar.toBits_lt data),
      Scalar.ofBits_toBits, bytesEq]
    simp [width, UInt64.ofNat_add]
  · simp only [atCursor, endEq, List.length_append]
    omega

end ByteBuffer

end Poolserver
