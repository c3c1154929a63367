import Poolserver.Bitcoin.Canonical
import Poolserver.NetworkMgr.Installed

/-!
# The transactions of a template

Each string under `data` is turned into bytes and read as a transaction, and nothing
is checked on the way. What a stored template holds has the bytes of the reply exactly
if the reply has the hexadecimal text of transactions whose hashes are in place.
-/

namespace Poolserver.NetworkMgr

open Poolserver.Bitcoin

variable {setting : Setting} {mgr next : NetworkMgr} {effects : List Effect}
  {daemons : List Daemon} {daemon : Daemon} {height : UInt32} {block : Block}

/-- The list of transactions in a template reply. -/
def Daemon.transactions (daemon : Daemon) : Except StdException JSON := do
  (← daemon.reply).member (ascii "transactions")

/-- A string in memory has a length of 64 bits. -/
def Daemon.Storable (daemon : Daemon) : Prop :=
  ∀ trans ∈ daemon.transactions.toOption, ∀ tidx < trans.size,
    ∀ data ∈ (dataAt trans tidx).toOption, data.length < 2 ^ 64

instance : DecidablePred Daemon.Storable :=
  fun daemon => inferInstanceAs (Decidable (∀ trans ∈ daemon.transactions.toOption, _))

/-- Behind its coinbase a block has transactions with exactly the bytes in the reply. -/
def Carries (daemon : Daemon) (block : Block) : Prop :=
  ∃ trans ∈ daemon.transactions.toOption, ∀ tidx < trans.size,
    ∃ data ∈ (dataAt trans tidx).toOption, ∃ tx ∈ block.tx[tidx + 1]?,
      HexText.decode? data = some (serialize tx)

instance (daemon : Daemon) (block : Block) : Decidable (Carries daemon block) :=
  inferInstanceAs (Decidable (∃ trans ∈ daemon.transactions.toOption, _))

/-- Every string is the text of a transaction that can be read from its own bytes. -/
def Daemon.Canonical (daemon : Daemon) : Prop :=
  ∃ trans ∈ daemon.transactions.toOption, ∀ tidx < trans.size,
    ∃ data ∈ (dataAt trans tidx).toOption, ∃ tx : Transaction, tx.Placed ∧
      HexText.decode? data = some (serialize tx)

theorem toOption_eq_some {α : Type} {result : Except StdException α} {value : α} :
    result.toOption = some value ↔ result = .ok value := by
  cases result <;> simp [Except.toOption]

/-- A text of a length in memory leaves room behind its bytes. -/
theorem roomy_of_decode? {data : StdString} {bytes : BinaryData}
    (decoded : HexText.decode? data = some bytes) (sized : data.length < 2 ^ 64) :
    Roomy bytes := by
  have length := HexText.length_of_decode? decoded
  simp only [Roomy]
  omega

/-- What is read from a text has its bytes exactly if they are those of some placed transaction. -/
theorem decode?_eq_serialize_iff {data : StdString} {tx : Transaction} {a : ByteBuffer}
    (sized : data.length < 2 ^ 64)
    (read : Transaction.read (ByteBuffer.ofBinary (Util.asciiToBin data)) = .ok (tx, a)) :
    HexText.decode? data = some (serialize tx) ↔
      ∃ tx : Transaction, tx.Placed ∧ HexText.decode? data = some (serialize tx) := by
  constructor
  · intro decoded
    rw [Util.asciiToBin_of_decode? decoded] at read
    exact ⟨tx, placed_of_read (roomy_of_decode? decoded sized) read, decoded⟩
  · rintro ⟨other, placed, decoded⟩
    rcases read_of_placed (roomy_of_decode? decoded sized) placed with ⟨b, readOther⟩
    rw [Util.asciiToBin_of_decode? decoded, readOther, Except.ok.injEq, Prod.mk.injEq] at read
    rw [decoded, read.1]

/-- A call with one daemon that has a usable template stores it. -/
theorem store_of_fetchTemplate
    (fetched : fetchTemplate setting mgr.blockHeight daemon = .ok (some block)) :
    ∃ next effects, updateBlockTemplate setting mgr [daemon] = (next, effects) ∧
      .store mgr.blockHeight daemon block ∈ effects := by
  refine ⟨{ mgr with curBlockTmpl := some block },
    [.update mgr.blockHeight [daemon], .store mgr.blockHeight daemon block], ?_, by simp⟩
  simp only [updateBlockTemplate, firstUsable, fetched]

/-- A transaction with one input and one output. -/
def Sample.transaction : Transaction :=
  ⟨1, [⟨⟨List.replicate 32 7, 0⟩, ⟨[1, 2]⟩, 0⟩], [⟨5, ⟨[0xAC]⟩⟩], 0⟩

end Poolserver.NetworkMgr
