import Poolserver.Stratum.Work

/-!
# The gap in the coinbase

A job carries the coinbase of its template cut open where the extranonce goes. Whatever
is put into the gap, the result is the same transaction with another input script.
-/

namespace Poolserver.Stratum

open Poolserver.Bitcoin ByteBuffer

namespace Job

/-- The buffer from which `OnMiningSubmit` reads the coinbase transaction. -/
def coinbasebuf (job : Job) (extranonce : UInt32) (extranonce2 : BinaryData) : ByteBuffer :=
  ({} : ByteBuffer) <<< job.coinbase1 <<< extranonce <<< extranonce2 <<< job.coinbase2

theorem coinbasebuf_eq (job : Job) (extranonce : UInt32) (extranonce2 : BinaryData) :
    job.coinbasebuf extranonce extranonce2 =
      ByteBuffer.ofBinary (job.coinbase extranonce extranonce2) := by
  simp [coinbasebuf, coinbase, ByteBuffer.ofBinary, Appends.shiftLeft_eq]

end Job

/-- `CreateCoinbaseTX` with the two extranonces in its input script. -/
def refilledCoinbaseTX (height : UInt32) (pubkey : BinaryData) (value : Int64)
    (extranonce : UInt32) (extranonce2 : BinaryData) : Transaction :=
  let coinbasetx := createCoinbaseTX height pubkey value
  let script : Script := ⟨serialize height ++ serialize extranonce ++ extranonce2⟩
  { coinbasetx with inputs := coinbasetx.inputs.map fun input => { input with script } }

theorem refilledCoinbaseTX_eq (height : UInt32) (pubkey : BinaryData) (value : Int64)
    (extranonce : UInt32) (extranonce2 : BinaryData) :
    refilledCoinbaseTX height pubkey value extranonce extranonce2 =
      coinbaseWith (serialize height ++ serialize extranonce ++ extranonce2) pubkey value := by
  simp [refilledCoinbaseTX, createCoinbaseTX_eq, coinbaseWith]

/-- A record that fills a buffer from its beginning is read from it to the end. -/
theorem read_ofBinary {reader : Reader Transaction} {bytes : BinaryData} {value : Transaction}
    (decodes : Decodes reader bytes value) (fits : Fits bytes) :
    ∃ a, reader (ByteBuffer.ofBinary bytes) = .ok (value, a) ∧ a.vec = bytes ∧
      a.pointer.toNat = bytes.length := by
  have decoded := decodes [] [] (by simpa using fits)
  simp only [ByteBuffer.atCursor, List.append_nil, List.nil_append] at decoded
  refine ⟨_, decoded, rfl, ?_⟩
  exact UInt64.toNat_ofNat_of_lt' fits

/--
Whatever is put into the gap that `GetJob` cuts into the coinbase of a template, the
bytes are read to their end as that coinbase with the two extranonces in its script, and
writing it gives the same bytes. The coinbase is held in a vector, whose size fits 64 bits.
-/
theorem coinbasebuf_read {client : Client} {work : Block} {job : Job} {height : UInt32}
    {pubkey : BinaryData} {value : Int64} {others : List Transaction}
    (txEq : work.tx = createCoinbaseTX height pubkey value :: others)
    (fits : Fits (serialize (createCoinbaseTX height pubkey value)))
    (made : client.getJob (some work) = some job) (extranonce : UInt32)
    {extranonce2 : BinaryData} (size : extranonce2.length = 4)
    (sha256d : BinaryData → BinaryData) :
    let bytes := job.coinbase1 ++ serialize extranonce ++ extranonce2 ++ job.coinbase2
    let coinbasetx := refilledCoinbaseTX height pubkey value extranonce extranonce2
    (job.coinbasebuf extranonce extranonce2).vec = bytes ∧
    (∃ a, Transaction.read (job.coinbasebuf extranonce extranonce2) = .ok (coinbasetx, a) ∧
      a.vec = bytes ∧ a.pointer.toNat = bytes.length) ∧
    serialize coinbasetx = bytes ∧ coinbasetx.getHash sha256d = sha256d bytes := by
  intro bytes coinbasetx
  have issued := Client.getJob_eq_some made
  have workEq : work = job.block := Option.some.inj issued.work
  subst workEq
  let script := serialize height ++ serialize extranonce ++ extranonce2
  have scriptLength : script.length = 12 := by
    simp [script, length_serialize_scalar, Scalar.size, size]
  rcases issued.cut with ⟨coinbase, rest, cutEq, _, first, second⟩
  rw [txEq, List.cons.injEq] at cutEq
  rcases cutEq with ⟨rfl, rfl⟩
  rcases Job.cut_createCoinbaseTX height pubkey value with ⟨head, tail⟩
  rw [head] at first
  rw [tail] at second
  have written : serialize coinbasetx = bytes := by
    rw [show coinbasetx = coinbaseWith script pubkey value from refilledCoinbaseTX_eq ..,
      serialize_coinbaseWith pubkey value scriptLength]
    simp [bytes, script, first, second]
  have fitsAgain : Fits bytes := by
    rw [serialize_createCoinbaseTX] at fits
    simp only [bytes, first, second, Fits, List.length_append, List.length_replicate,
      length_serialize_scalar, Scalar.size, size] at fits ⊢
    omega
  have hashSized : coinbasetx.HashSized := by
    rw [show coinbasetx = coinbaseWith script pubkey value from refilledCoinbaseTX_eq ..]
    exact coinbaseWith_hashSized script pubkey value
  have buffer : job.coinbasebuf extranonce extranonce2 = ByteBuffer.ofBinary bytes :=
    job.coinbasebuf_eq extranonce extranonce2
  refine ⟨by rw [buffer]; rfl, ?_, written, ?_⟩
  · rw [buffer]
    have decodes := decodes_transaction hashSized
    rw [written] at decodes
    exact read_ofBinary decodes fitsAgain
  · rw [Transaction.getHash, written]

/-- The first template's coinbase is refilled for a new client. -/
theorem coinbasebuf_read_sample :
    ∃ job a,
      (Client.new Sample.config Sample.connection).getJob (some (Sample.work 0x207fffff)) =
        some job ∧
      Transaction.read (job.coinbasebuf 5 [0, 0, 0, 1]) =
        .ok (refilledCoinbaseTX 277315 [2] 2500000000 5 [0, 0, 0, 1], a) := by
  have made : ((Client.new Sample.config Sample.connection).getJob
      (some (Sample.work 0x207fffff))).isSome := by
    decide +kernel
  rcases Option.isSome_iff_exists.mp made with ⟨job, made⟩
  have fits : Fits (serialize (createCoinbaseTX 277315 [2] 2500000000)) :=
    fits_createCoinbaseTX 277315 2500000000 (by decide)
  have size : ([0, 0, 0, 1] : BinaryData).length = 4 := rfl
  have txEq : (Sample.work 0x207fffff).tx =
      createCoinbaseTX 277315 [2] 2500000000 :: Sample.others := rfl
  have refilled := coinbasebuf_read txEq fits made 5 size (Sample.hash 2)
  rcases refilled with ⟨_, ⟨a, readEq, _⟩, _⟩
  exact ⟨job, a, made, readEq⟩

end Poolserver.Stratum
