import Poolserver.Bitcoin.Serialization
import Poolserver.Lib.Logged

/-!
# Where decoding reads

Decoding a transaction or a block is run with a log of its reads. The check in front of a read adds
the size to the pointer in 64 bits. While that sum does not wrap around, the pointer only moves
forward and stays in the buffer, and only bytes of the buffer are taken. A length field close to
`2 ^ 64` makes it wrap around: the check passes, the pointer moves backwards, and the range that is
taken is reversed.
-/

namespace Poolserver.Bitcoin

open Logged

/-- A read: the pointer before, the size that is read, the pointer behind, and the byte ranges. -/
structure Access where
  pointer : UInt64
  size : UInt64
  next : UInt64
  taken : List (ℕ × ℕ)
  deriving DecidableEq, Repr

/-- A reader with the log of its reads. -/
abbrev Decoder (α : Type) := StateT ByteBuffer (Logged Access StdException) α

/-- A read with the check in front of it; nothing is taken where it does not pass. -/
def checkedAccess (a : ByteBuffer) (size : UInt64) (taken : List (ℕ × ℕ)) : Access :=
  if a.vec.length < (a.pointer + size).toNat then ⟨a.pointer, size, a.pointer, []⟩
  else ⟨a.pointer, size, a.pointer + size, taken⟩

/-- `ReadBinary`; the pointer has moved already when the vector is constructed. -/
def binaryAccess (size : UInt64) (a : ByteBuffer) : Access :=
  let pointer := a.pointer + size
  checkedAccess a size [((pointer - size).toNat, pointer.toNat)]

/-- `Read<T>`, which takes one byte after the other. -/
def scalarAccess (T : Type) [Scalar T] (a : ByteBuffer) : Access :=
  checkedAccess a (UInt64.ofNat (Scalar.size T)) <| (List.range (Scalar.size T)).map fun i =>
    ((a.pointer + UInt64.ofNat i).toNat, (a.pointer + UInt64.ofNat i).toNat + 1)

def decodeBinary (size : UInt64) : Decoder BinaryData := fun a =>
  ⟨[binaryAccess size a], ByteBuffer.readBinary size a⟩

def decodeScalar (T : Type) [Scalar T] : Decoder T := fun a =>
  ⟨[scalarAccess T a], ByteBuffer.read T a⟩

/-! ## The decoders -/

def VarInt.decode : Decoder VarInt := do
  let size ← decodeScalar UInt8
  if size < 0xfd then
    return ⟨size.toUInt64⟩
  else if size = 0xfd then
    return ⟨(← decodeScalar UInt16).toUInt64⟩
  else if size = 0xfe then
    return ⟨(← decodeScalar UInt32).toUInt64⟩
  else
    return ⟨← decodeScalar UInt64⟩

def Script.decode : Decoder Script := do
  let size ← VarInt.decode
  let script ← decodeBinary size.value
  return ⟨script⟩

def OutPoint.decode : Decoder OutPoint := do
  let hash ← decodeBinary 32
  let n ← decodeScalar UInt32
  return ⟨hash, n⟩

def TxIn.decode : Decoder TxIn := do
  let prevout ← OutPoint.decode
  let script ← Script.decode
  let n ← decodeScalar UInt32
  return ⟨prevout, script, n⟩

def TxOut.decode : Decoder TxOut := do
  let value ← decodeScalar Int64
  let scriptPubKey ← Script.decode
  return ⟨value, scriptPubKey⟩

section Allocation

-- what the allocation of a vector of that size does, where the buffer is in that state
variable (allocate : ByteBuffer → UInt64 → Except StdException Unit)

/-- `std::vector::resize`, which throws where there is no memory for the vector. -/
def resizeVector (count : UInt64) : Decoder Unit := fun a =>
  ⟨[], (allocate a count).map fun _ => ((), a)⟩

def decodeVector {α : Type} (decode : Decoder α) : Decoder (List α) := do
  let size ← VarInt.decode
  resizeVector allocate size.value
  times decode size.value.toNat

def Transaction.decode : Decoder Transaction := do
  let version ← decodeScalar UInt32
  let inputs ← decodeVector allocate TxIn.decode
  let outputs ← decodeVector allocate TxOut.decode
  let lockTime ← decodeScalar UInt32
  return ⟨version, inputs, outputs, lockTime⟩

def Block.decode (b : Block) : Decoder Block := do
  let version ← decodeScalar UInt32
  let prevBlockHash ← decodeBinary 32
  let merkleRootHash ← decodeBinary 32
  let time ← decodeScalar UInt32
  let bits ← decodeScalar UInt32
  let nonce ← decodeScalar UInt32
  let tx ← decodeVector allocate (Transaction.decode allocate)
  return { b with version, prevBlockHash, merkleRootHash, time, bits, nonce, tx }

end Allocation

/-! ## Without the log -/

/-- Where there is always memory. -/
def allocates (_ : ByteBuffer) (_ : UInt64) : Except StdException Unit :=
  .ok ()

theorem erase_decodeScalar (T : Type) [Scalar T] :
    erase (decodeScalar T) = ByteBuffer.read T := rfl

theorem erase_decodeBinary (size : UInt64) :
    erase (decodeBinary size) = ByteBuffer.readBinary size := rfl

theorem erase_varInt : erase VarInt.decode = VarInt.read := by
  unfold VarInt.decode VarInt.read
  rw [erase_bind, erase_decodeScalar]
  congr 1
  funext size
  split
  · rfl
  · split
    · rw [erase_bind]
      rfl
    · split
      · rw [erase_bind]
        rfl
      · rw [erase_bind]
        rfl

theorem erase_script : erase Script.decode = Script.read := by
  simp only [Script.decode, Script.read, erase_bind, erase_varInt, erase_decodeBinary, erase_pure]

theorem erase_outPoint : erase OutPoint.decode = OutPoint.read := by
  simp only [OutPoint.decode, OutPoint.read, erase_bind, erase_decodeBinary, erase_decodeScalar,
    erase_pure]

theorem erase_txIn : erase TxIn.decode = TxIn.read := by
  simp only [TxIn.decode, TxIn.read, erase_bind, erase_outPoint, erase_script, erase_decodeScalar,
    erase_pure]

theorem erase_txOut : erase TxOut.decode = TxOut.read := by
  simp only [TxOut.decode, TxOut.read, erase_bind, erase_script, erase_decodeScalar, erase_pure]

theorem erase_resizeVector (count : UInt64) : erase (resizeVector allocates count) = pure () := rfl

theorem erase_vector {α : Type} {decode : Decoder α} {read : ByteBuffer.Reader α}
    (erased : erase decode = read) : erase (decodeVector allocates decode) = readVector read := by
  simp only [decodeVector, readVector, erase_bind, erase_varInt, erase_resizeVector, erase_times,
    erased, pure_bind]

theorem erase_transaction : erase (Transaction.decode allocates) = Transaction.read := by
  simp only [Transaction.decode, Transaction.read, erase_bind, erase_decodeScalar,
    erase_vector erase_txIn, erase_vector erase_txOut, erase_pure]

/-- Decoding with a log is decoding, where there is memory for the vectors. -/
theorem erase_block (b : Block) : erase (Block.decode allocates b) = b.read := by
  simp only [Block.decode, Block.read, erase_bind, erase_decodeScalar, erase_decodeBinary,
    erase_vector erase_transaction, erase_pure]

section Memory

variable {allocate : ByteBuffer → UInt64 → Except StdException Unit}

theorem within_resizeVector (count : UInt64) :
    Within (erase (resizeVector allocate count)) (pure ()) := by
  intro a found returns
  change (allocate a count).map (fun _ => ((), a)) = .ok found at returns
  cases result : allocate a count with
  | error exception =>
      rw [result] at returns
      cases returns
  | ok done =>
      rw [result] at returns
      exact returns

theorem within_vector {α : Type} {decode : Decoder α} {read : ByteBuffer.Reader α}
    (within : Within (erase decode) read) :
    Within (erase (decodeVector allocate decode)) (readVector read) := by
  simp only [decodeVector, readVector, erase_bind, erase_varInt, erase_times]
  refine .bind (.refl _) fun size => ?_
  have resized := Within.bind (@within_resizeVector allocate size.value)
    fun _ => Within.readMany within size.value.toNat
  rwa [pure_bind] at resized

/-- What is decoded has been read, whatever memory there is. -/
theorem within_transaction : Within (erase (Transaction.decode allocate)) Transaction.read := by
  simp only [Transaction.decode, Transaction.read, erase_bind, erase_decodeScalar]
  refine .bind (.refl _) fun version => ?_
  refine .bind (within_vector (erase_txIn ▸ .refl _)) fun inputs => ?_
  refine .bind (within_vector (erase_txOut ▸ .refl _)) fun outputs => ?_
  exact .bind (.refl _) fun lockTime => .refl _

end Memory

/-! ## What every read does -/

namespace Access

/-- The sum of the pointer and the size does not wrap around. -/
def Fits (access : Access) : Prop :=
  access.pointer.toNat + access.size.toNat < 2 ^ 64

/-- The size that is read is the length field right in front of it. -/
def OfScript (data : BinaryData) (access : Access) : Prop :=
  ∃ start, VarInt.read ⟨start, data⟩ = .ok (⟨access.size⟩, ⟨access.pointer, data⟩)

/-- The pointer does not move backwards, and what is taken lies in so many bytes. -/
structure Inside (length : ℕ) (access : Access) : Prop where
  forward : access.pointer.toNat ≤ access.next.toNat
  taken : ∀ range ∈ access.taken, range.1 ≤ range.2 ∧ range.2 ≤ length

end Access

variable {a : ByteBuffer}

theorem toNat_add_lt_of_wraps {pointer size : UInt64}
    (wraps : ¬pointer.toNat + size.toNat < 2 ^ 64) :
    (pointer + size).toNat < pointer.toNat := by
  have sizeLt := size.toNat_lt
  have pointerLt := pointer.toNat_lt
  rw [UInt64.toNat_add, Nat.mod_eq_sub_mod (by omega), Nat.mod_eq_of_lt (by omega)]
  omega

/-- A read that is checked leaves the buffer exactly where the sum in its check wraps around. -/
theorem checkedAccess_inside_iff {size : UInt64} {taken : List (ℕ × ℕ)}
    (inBuffer : a.pointer.toNat ≤ a.vec.length)
    (bytes : (a.pointer + size).toNat = a.pointer.toNat + size.toNat →
      ∀ range ∈ taken, range.1 ≤ range.2 ∧ range.2 ≤ (a.pointer + size).toNat) :
    (checkedAccess a size taken).next.toNat ≤ a.vec.length ∧
      ((checkedAccess a size taken).Inside a.vec.length ↔ (checkedAccess a size taken).Fits) := by
  unfold checkedAccess
  by_cases fits : a.pointer.toNat + size.toNat < 2 ^ 64
  · have sum : (a.pointer + size).toNat = a.pointer.toNat + size.toNat := by
      rw [UInt64.toNat_add, Nat.mod_eq_of_lt fits]
    split
    · exact ⟨inBuffer, fun _ => fits, fun _ => ⟨le_rfl, by simp⟩⟩
    · rename_i passes
      have checked := Nat.le_of_not_lt passes
      refine ⟨checked, fun _ => fits, fun _ => ⟨?_, ?_⟩⟩
      · rw [sum]
        exact Nat.le_add_right _ _
      · intro range rangeMem
        have inRange := bytes sum range rangeMem
        exact ⟨inRange.1, inRange.2.trans checked⟩
  · have back := toNat_add_lt_of_wraps fits
    have passes : ¬a.vec.length < (a.pointer + size).toNat := by omega
    rw [if_neg passes]
    refine ⟨Nat.le_of_not_lt passes, fun inside => ?_, fun fitsToo => absurd fitsToo fits⟩
    exact absurd inside.forward (Nat.not_le_of_lt back)

theorem checkedAccess_pointer (a : ByteBuffer) (size : UInt64) (taken : List (ℕ × ℕ)) :
    (checkedAccess a size taken).pointer = a.pointer := by
  unfold checkedAccess
  split <;> rfl

theorem checkedAccess_size (a : ByteBuffer) (size : UInt64) (taken : List (ℕ × ℕ)) :
    (checkedAccess a size taken).size = size := by
  unfold checkedAccess
  split <;> rfl

theorem binaryAccess_inside_iff (size : UInt64) (inBuffer : a.pointer.toNat ≤ a.vec.length) :
    (binaryAccess size a).next.toNat ≤ a.vec.length ∧
      ((binaryAccess size a).Inside a.vec.length ↔ (binaryAccess size a).Fits) := by
  apply checkedAccess_inside_iff inBuffer
  intro sum range rangeMem
  rw [List.mem_singleton.mp rangeMem, UInt64.add_sub_cancel]
  exact ⟨by rw [sum]; exact Nat.le_add_right _ _, le_rfl⟩

theorem scalarAccess_inside_iff (T : Type) [Scalar T] (small : Scalar.size T < 2 ^ 64)
    (inBuffer : a.pointer.toNat ≤ a.vec.length) :
    (scalarAccess T a).next.toNat ≤ a.vec.length ∧
      ((scalarAccess T a).Inside a.vec.length ↔ (scalarAccess T a).Fits) := by
  apply checkedAccess_inside_iff inBuffer
  intro sum range rangeMem
  rcases List.mem_map.mp rangeMem with ⟨i, inRange, rfl⟩
  have iLess := List.mem_range.mp inRange
  have size : (UInt64.ofNat (Scalar.size T)).toNat = Scalar.size T :=
    UInt64.toNat_ofNat_of_lt' small
  have index : (UInt64.ofNat i).toNat = i := UInt64.toNat_ofNat_of_lt' (iLess.trans small)
  have whole := (a.pointer + UInt64.ofNat (Scalar.size T)).toNat_lt
  have byte : (a.pointer + UInt64.ofNat i).toNat = a.pointer.toNat + i := by
    rw [UInt64.toNat_add, index, Nat.mod_eq_of_lt (by omega)]
  exact ⟨Nat.le_succ _, by omega⟩

/-! ## Runs of reads -/

/-- The reads go on from each other, from one pointer to another. -/
def Connected (start : UInt64) : List Access → UInt64 → Prop
  | [], stop => start = stop
  | access :: log, stop => access.pointer = start ∧ Connected access.next log stop

theorem Connected.append {start middle stop : UInt64} {log rest : List Access}
    (connected : Connected start log middle) (connectedRest : Connected middle rest stop) :
    Connected start (log ++ rest) stop := by
  induction log generalizing start with
  | nil =>
      change start = middle at connected
      rw [connected]
      exact connectedRest
  | cons access log ih => exact ⟨connected.1, ih connected.2⟩

/-- The pointer goes through nondecreasing positions if no read moves it backwards. -/
theorem Connected.isChain_iff {start stop : UInt64} {log : List Access}
    (connected : Connected start log stop) :
    (start.toNat :: log.map fun access => access.next.toNat).IsChain (· ≤ ·) ↔
      ∀ access ∈ log, access.pointer.toNat ≤ access.next.toNat := by
  induction log generalizing start with
  | nil => simp
  | cons access log ih =>
      rw [List.map_cons, List.isChain_cons_cons, ih connected.2, List.forall_mem_cons, connected.1]

/-- The reads begin in the buffer if the first one does. -/
theorem Connected.pointer_le {start stop : UInt64} {log : List Access} {length : ℕ}
    (connected : Connected start log stop) (inBuffer : start.toNat ≤ length)
    (bounded : ∀ access ∈ log, access.next.toNat ≤ length) :
    ∀ access ∈ log, access.pointer.toNat ≤ length := by
  induction log generalizing start with
  | nil => simp
  | cons access log ih =>
      rw [List.forall_mem_cons] at bounded ⊢
      refine ⟨?_, ih connected.2 bounded.1 bounded.2⟩
      rw [connected.1]
      exact inBuffer

/-- What reads on these bytes do; only those of scripts have sizes without a bound. -/
structure Moves (data : BinaryData) (start : UInt64) (log : List Access) (stop : UInt64) :
    Prop where
  connected : Connected start log stop
  bounded : ∀ access ∈ log, access.next.toNat ≤ data.length
  inside_iff : ∀ access ∈ log, access.Inside data.length ↔ access.Fits
  sized : ∀ access ∈ log, access.size.toNat ≤ 32 ∨ access.OfScript data
  stops : stop.toNat ≤ data.length

/-- A run from a buffer with these bytes, and the buffer it leads to. -/
def Runs (data : BinaryData) (a : ByteBuffer) (log : List Access) (last : Option ByteBuffer) :
    Prop :=
  a.vec = data → a.pointer.toNat ≤ data.length → ∃ stop, Moves data a.pointer log stop ∧
    ∀ b ∈ last, b.vec = data ∧ b.pointer = stop

theorem composes_runs (data : BinaryData) : Composes (Runs data) := by
  constructor
  · intro a vec inBuffer
    refine ⟨a.pointer, ⟨rfl, by simp, by simp, by simp, inBuffer⟩, ?_⟩
    intro b bEq
    rw [← Option.some.inj bEq]
    exact ⟨vec, rfl⟩
  · intro a middle log rest last runs runsRest vec inBuffer
    rcases runs vec inBuffer with ⟨between, moves, leads⟩
    rcases leads middle rfl with ⟨middleVec, rfl⟩
    rcases runsRest middleVec moves.stops with ⟨stop, movesRest, leadsRest⟩
    refine ⟨stop, ⟨moves.connected.append movesRest.connected, ?_, ?_, ?_, movesRest.stops⟩,
      leadsRest⟩
    · exact List.forall_mem_append.mpr ⟨moves.bounded, movesRest.bounded⟩
    · exact List.forall_mem_append.mpr ⟨moves.inside_iff, movesRest.inside_iff⟩
    · exact List.forall_mem_append.mpr ⟨moves.sized, movesRest.sized⟩

variable {data : BinaryData}

theorem runs_of_access {access : Access} {last : Option ByteBuffer}
    (pointer : access.pointer = a.pointer)
    (checked : a.pointer.toNat ≤ a.vec.length →
      access.next.toNat ≤ a.vec.length ∧ (access.Inside a.vec.length ↔ access.Fits))
    (sized : access.size.toNat ≤ 32 ∨ access.OfScript a.vec)
    (leads : ∀ b ∈ last, b.vec = a.vec ∧ b.pointer = access.next) : Runs data a [access] last := by
  rintro rfl inBuffer
  have single : ∀ {P : Access → Prop}, P access → ∀ other ∈ [access], P other := by
    intro P holds other otherMem
    rw [List.mem_singleton.mp otherMem]
    exact holds
  refine ⟨access.next, ⟨⟨pointer, rfl⟩, ?_, ?_, single sized, (checked inBuffer).1⟩, leads⟩
  · exact single (checked inBuffer).1
  · exact single (checked inBuffer).2

/-- The buffer behind a checked read is the same, with the pointer that is logged. -/
theorem checkedAccess_leads {size : UInt64} {taken : List (ℕ × ℕ)} {b : ByteBuffer}
    (short : a.vec.length < (a.pointer + size).toNat → b = a)
    (moved : ¬a.vec.length < (a.pointer + size).toNat →
      b = { a with pointer := a.pointer + size }) :
    b.vec = a.vec ∧ b.pointer = (checkedAccess a size taken).next := by
  unfold checkedAccess
  split
  · rename_i beyond
    rw [short beyond]
    exact ⟨rfl, rfl⟩
  · rename_i passes
    rw [moved passes]
    exact ⟨rfl, rfl⟩

theorem followsAt_decodeBinary {size : UInt64}
    (sized : size.toNat ≤ 32 ∨ (binaryAccess size a).OfScript a.vec) :
    FollowsAt (Runs data) (decodeBinary size) a := by
  have sizeEq : (binaryAccess size a).size = size := checkedAccess_size a size _
  refine runs_of_access (checkedAccess_pointer a size _) (binaryAccess_inside_iff size)
    (by rwa [sizeEq]) ?_
  intro b leads
  unfold decodeBinary ByteBuffer.readBinary at leads
  refine checkedAccess_leads (fun beyond => ?_) fun passes => ?_
  · rw [if_pos beyond] at leads
    exact (Option.some.inj leads).symm
  · rw [if_neg passes] at leads
    dsimp only at leads
    -- a reversed range throws, so that no buffer is left
    split at leads
    · simp [Except.toOption] at leads
    · exact (Option.some.inj leads).symm

theorem follows_decodeBinary {size : UInt64} (small : size.toNat ≤ 32) :
    Follows (Runs data) (decodeBinary size) :=
  fun _ => followsAt_decodeBinary (.inl small)

theorem follows_decodeScalar (T : Type) [Scalar T] (small : Scalar.size T ≤ 32) :
    Follows (Runs data) (decodeScalar T) := by
  intro a
  have held : Scalar.size T < 2 ^ 64 := small.trans_lt (by decide)
  have sized : (scalarAccess T a).size.toNat ≤ 32 := by
    rw [scalarAccess, checkedAccess_size, UInt64.toNat_ofNat_of_lt' held]
    exact small
  refine runs_of_access (checkedAccess_pointer a _ _) (scalarAccess_inside_iff T held)
    (.inl sized) ?_
  intro b leads
  unfold decodeScalar ByteBuffer.read ByteBuffer.readScalar at leads
  dsimp only at leads
  refine checkedAccess_leads (fun beyond => ?_) fun passes => ?_
  · rw [if_pos beyond] at leads
    exact (Option.some.inj leads).symm
  · rw [if_neg passes] at leads
    exact (Option.some.inj leads).symm

/-! ## The reads of the decoders -/

theorem follows_varInt {Link : ByteBuffer → List Access → Option ByteBuffer → Prop}
    (composes : Composes Link)
    (scalars : ∀ (T : Type) [Scalar T], Scalar.size T ≤ 32 → Follows Link (decodeScalar T)) :
    Follows Link VarInt.decode := by
  refine .bind composes (scalars UInt8 (by decide)) fun size => ?_
  split
  · exact .pure composes _
  · split
    · refine .bind composes (scalars UInt16 (by decide)) fun value => ?_
      exact .pure composes _
    · split
      · refine .bind composes (scalars UInt32 (by decide)) fun value => ?_
        exact .pure composes _
      · refine .bind composes (scalars UInt64 (by decide)) fun value => ?_
        exact .pure composes _

theorem vec_readScalar (T : Type) [Scalar T] (a : ByteBuffer) :
    (ByteBuffer.readScalar T a).2.vec = a.vec := by
  unfold ByteBuffer.readScalar
  dsimp only
  split <;> rfl

/-- A length field is read from the buffer, which stays as it is. -/
theorem vec_of_varInt {size : VarInt} {b : ByteBuffer} (returns : VarInt.read a = .ok (size, b)) :
    b.vec = a.vec := by
  have composes : Composes fun (a : ByteBuffer) (_ : List Access) (last : Option ByteBuffer) =>
      ∀ b ∈ last, b.vec = a.vec := by
    refine ⟨by simp, ?_⟩
    intro a middle log rest last first next b leads
    rw [next b leads, first middle rfl]
  have keeps := follows_varInt composes (fun T _ _ state final leads => by
    rw [← Option.some.inj leads, vec_readScalar]) a
  rw [← erase_varInt] at returns
  apply keeps b
  rw [show (VarInt.decode a).result = .ok (size, b) from returns]
  rfl

theorem follows_script : Follows (Runs data) Script.decode := by
  have composes := composes_runs data
  intro a
  refine (follows_varInt composes follows_decodeScalar a).bind composes ?_
  intro size b returns
  rw [erase_varInt] at returns
  have sized : (binaryAccess size.value b).OfScript b.vec := by
    refine ⟨a.pointer, ?_⟩
    rw [vec_of_varInt returns, binaryAccess, checkedAccess_size, checkedAccess_pointer]
    rw [returns, ← vec_of_varInt returns]
  exact (followsAt_decodeBinary (.inr sized)).bind composes
    fun script c _ => Follows.pure composes _ c

theorem follows_outPoint : Follows (Runs data) OutPoint.decode := by
  have composes := composes_runs data
  refine .bind composes (follows_decodeBinary (by decide)) fun hash => ?_
  refine .bind composes (follows_decodeScalar UInt32 (by decide)) fun n => ?_
  exact .pure composes _

theorem follows_txIn : Follows (Runs data) TxIn.decode := by
  have composes := composes_runs data
  refine .bind composes follows_outPoint fun prevout => ?_
  refine .bind composes follows_script fun script => ?_
  refine .bind composes (follows_decodeScalar UInt32 (by decide)) fun n => ?_
  exact .pure composes _

theorem follows_txOut : Follows (Runs data) TxOut.decode := by
  have composes := composes_runs data
  refine .bind composes (follows_decodeScalar Int64 (by decide)) fun value => ?_
  refine .bind composes follows_script fun scriptPubKey => ?_
  exact .pure composes _

section Allocation

variable (allocate : ByteBuffer → UInt64 → Except StdException Unit)

theorem follows_resizeVector (count : UInt64) :
    Follows (Runs data) (resizeVector allocate count) := by
  intro a vec inBuffer
  refine ⟨a.pointer, ⟨rfl, by simp [resizeVector], by simp [resizeVector], by simp [resizeVector],
    inBuffer⟩, ?_⟩
  intro b leads
  unfold resizeVector at leads
  cases allocated : allocate a count with
  | error exception => simp [allocated, Except.map, Except.toOption] at leads
  | ok _ =>
      rw [allocated] at leads
      rw [← Option.some.inj leads]
      exact ⟨vec, rfl⟩

theorem follows_vector {α : Type} {decode : Decoder α} (follows : Follows (Runs data) decode) :
    Follows (Runs data) (decodeVector allocate decode) := by
  have composes := composes_runs data
  refine .bind composes (follows_varInt composes follows_decodeScalar) fun size => ?_
  refine .bind composes (follows_resizeVector allocate size.value) fun _ => ?_
  exact .times composes follows size.value.toNat

theorem follows_transaction : Follows (Runs data) (Transaction.decode allocate) := by
  have composes := composes_runs data
  refine .bind composes (follows_decodeScalar UInt32 (by decide)) fun version => ?_
  refine .bind composes (follows_vector allocate follows_txIn) fun inputs => ?_
  refine .bind composes (follows_vector allocate follows_txOut) fun outputs => ?_
  refine .bind composes (follows_decodeScalar UInt32 (by decide)) fun lockTime => ?_
  exact .pure composes _

theorem follows_block (b : Block) : Follows (Runs data) (Block.decode allocate b) := by
  have composes := composes_runs data
  refine .bind composes (follows_decodeScalar UInt32 (by decide)) fun version => ?_
  refine .bind composes (follows_decodeBinary (by decide)) fun prevBlockHash => ?_
  refine .bind composes (follows_decodeBinary (by decide)) fun merkleRootHash => ?_
  refine .bind composes (follows_decodeScalar UInt32 (by decide)) fun time => ?_
  refine .bind composes (follows_decodeScalar UInt32 (by decide)) fun bits => ?_
  refine .bind composes (follows_decodeScalar UInt32 (by decide)) fun nonce => ?_
  refine .bind composes (follows_vector allocate (follows_transaction allocate)) fun tx => ?_
  exact .pure composes _

end Allocation

/-! ## Decoding in the buffer -/

/-- The reads of a decoder on a new buffer with these bytes. -/
def accesses {α : Type} (decode : Decoder α) (data : BinaryData) : List Access :=
  (decode (ByteBuffer.ofBinary data)).log

/-- The pointer never moves backwards or out of the buffer, and only bytes of it are taken. -/
structure StaysInside (data : BinaryData) (log : List Access) : Prop where
  forward : (0 :: log.map fun access => access.next.toNat).IsChain (· ≤ ·)
  bounded : ∀ access ∈ log, access.next.toNat ≤ data.length
  taken : ∀ access ∈ log, ∀ range ∈ access.taken, range.1 ≤ range.2 ∧ range.2 ≤ data.length

theorem staysInside_iff {α : Type} {decode : Decoder α} (follows : Follows (Runs data) decode) :
    StaysInside data (accesses decode data) ↔ ∀ access ∈ accesses decode data, access.Fits := by
  rcases follows (ByteBuffer.ofBinary data) rfl (Nat.zero_le _) with ⟨stop, moves, _⟩
  have positions := moves.connected.isChain_iff
  constructor
  · intro stays access accessMem
    refine (moves.inside_iff access accessMem).mp ⟨?_, stays.taken access accessMem⟩
    exact positions.mp stays.forward access accessMem
  · intro fits
    have inside := fun access accessMem => (moves.inside_iff access accessMem).mpr
      (fits access accessMem)
    refine ⟨positions.mpr ?_, moves.bounded, ?_⟩
    · exact fun access accessMem => (inside access accessMem).forward
    · exact fun access accessMem => (inside access accessMem).taken

/-- In a buffer that memory has room for, a sum wraps around only where a script is read. -/
theorem staysInside_iff_scripts {α : Type} {decode : Decoder α}
    (follows : Follows (Runs data) decode) (short : data.length + 32 < 2 ^ 64) :
    StaysInside data (accesses decode data) ↔
      ∀ access ∈ accesses decode data, access.OfScript data → access.Fits := by
  rw [staysInside_iff follows]
  refine ⟨fun fits access accessMem _ => fits access accessMem, fun fits access accessMem => ?_⟩
  rcases follows (ByteBuffer.ofBinary data) rfl (Nat.zero_le _) with ⟨stop, moves, _⟩
  rcases moves.sized access accessMem with small | script
  · have inBuffer := moves.connected.pointer_le (Nat.zero_le _) moves.bounded access accessMem
    exact (Nat.add_le_add inBuffer small).trans_lt short
  · exact fits access accessMem script

/--
Decoding a transaction or a block stays in the buffer if and only if no read adds a size to the
pointer that makes the sum wrap around.
-/
theorem decode_staysInside_iff (allocate : ByteBuffer → UInt64 → Except StdException Unit)
    (data : BinaryData) :
    (StaysInside data (accesses (Transaction.decode allocate) data) ↔
      ∀ access ∈ accesses (Transaction.decode allocate) data, access.Fits) ∧
    ∀ b : Block, StaysInside data (accesses (b.decode allocate) data) ↔
      ∀ access ∈ accesses (b.decode allocate) data, access.Fits :=
  ⟨staysInside_iff (follows_transaction allocate),
    fun b => staysInside_iff (follows_block allocate b)⟩

/-- It is the lengths of scripts that decide it. -/
theorem decode_staysInside_iff_scripts (allocate : ByteBuffer → UInt64 → Except StdException Unit)
    (short : data.length + 32 < 2 ^ 64) :
    (StaysInside data (accesses (Transaction.decode allocate) data) ↔
      ∀ access ∈ accesses (Transaction.decode allocate) data,
        access.OfScript data → access.Fits) ∧
    ∀ b : Block, StaysInside data (accesses (b.decode allocate) data) ↔
      ∀ access ∈ accesses (b.decode allocate) data, access.OfScript data → access.Fits :=
  ⟨staysInside_iff_scripts (follows_transaction allocate) short,
    fun b => staysInside_iff_scripts (follows_block allocate b) short⟩

/-- A transaction of one input, whose script has this length field in nine bytes. -/
def hugeScript : BinaryData :=
  List.replicate 4 1 ++ [1] ++ List.replicate 36 0 ++ List.replicate 9 255

/-- The length `2 ^ 64 - 1` moves the pointer one byte back. -/
theorem exists_decode_backwards :
    ⟨50, 18446744073709551615, 49, [(50, 49)]⟩ ∈
        accesses (Transaction.decode allocates) hugeScript ∧
      ¬StaysInside hugeScript (accesses (Transaction.decode allocates) hugeScript) := by
  have last : ⟨50, 18446744073709551615, 49, [(50, 49)]⟩ ∈
      accesses (Transaction.decode allocates) hugeScript := by
    decide +kernel
  refine ⟨last, fun stays => ?_⟩
  have reversed := (stays.taken _ last (50, 49) (by simp)).1
  exact absurd reversed (by decide)

end Poolserver.Bitcoin
