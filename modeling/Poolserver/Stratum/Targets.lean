import Poolserver.Lib.Reciprocal
import Poolserver.Stratum.Acts

/-!
# Targets and difficulties

A job is handed out with the target of its difficulty, and a share is judged by comparing
its hash with that target. Both conversions are the same truncating division; on 64-bit
difficulties the constant is large enough for the division to lose nothing. The network
target comes from the compact bits of the block, where a small exponent goes wrong.
-/

namespace Poolserver

namespace Bitcoin

/-! ## The division -/

theorem targetToDiff_pos {val : ℕ} (positive : 0 < val) :
    targetToDiff val = some (diffOneTarget / val) := by
  rw [targetToDiff, if_neg positive.ne']

theorem diffToTarget_pos {val : ℕ} (positive : 0 < val) :
    diffToTarget val = some (diffOneTarget / val) :=
  targetToDiff_pos positive

/-- No 64-bit difficulty reaches the square root of the target of difficulty one. -/
theorem exact_of_difficulty {diff : UInt64} (positive : 1 ≤ diff) :
    diff.toNat ∈ Reciprocal.Exact diffOneTarget := by
  have small := diff.toNat_lt
  refine ⟨UInt64.le_iff_toNat_le.mp positive, ?_⟩
  calc
    diff.toNat * diff.toNat ≤ 2 ^ 64 * 2 ^ 64 := Nat.mul_le_mul small.le small.le
    _ ≤ diffOneTarget := by decide

/-! ## Compact bits -/

/-- The exponent that `TargetFromBits` takes from the bits, `nbytes`. -/
def compactBytes (bits : UInt32) : ℕ :=
  ((bits >>> 24) &&& 0xFF).toNat

/-- `8 * (nbytes - 3)`, an `int`, as the `unsigned long` that `mpz_ui_pow_ui` takes. -/
def powerArgument (bits : UInt32) : UInt64 :=
  UInt64.ofInt (8 * ((compactBytes bits : ℤ) - 3))

/-- `mpz_ui_pow_ui` for powers of two; a number of more limbs than an `int` counts aborts. -/
def powerOfTwo (exponent : UInt64) : Option ℕ :=
  if exponent.toNat / 64 + 1 < 2 ^ 31 then some (2 ^ exponent.toNat) else none

/-- The number that bits in the compact form stand for. -/
def compactTarget (bits : UInt32) : ℕ :=
  let exponent := bits.toNat / 2 ^ 24
  let mantissa := bits.toNat % 2 ^ 24
  if 3 ≤ exponent then mantissa * 256 ^ (exponent - 3) else mantissa / 256 ^ (3 - exponent)

/-- The bits are decoded, by a power whose exponent is the one that was meant. -/
structure DecodesCompact (bits : UInt32) : Prop where
  target : targetFromBits bits = some (compactTarget bits)
  exponent : ((powerArgument bits).toNat : ℤ) = 8 * ((compactBytes bits : ℤ) - 3)

theorem compactBytes_eq (bits : UInt32) : compactBytes bits = bits.toNat / 2 ^ 24 := by
  have small := bits.toNat_lt
  have shifted : (bits >>> 24).toNat = bits.toNat / 2 ^ 24 := by
    rw [UInt32.toNat_shiftRight, Nat.shiftRight_eq_div_pow]
    rfl
  rw [compactBytes, UInt32.toNat_and, shifted]
  change bits.toNat / 2 ^ 24 &&& (2 ^ 8 - 1) = _
  rw [Nat.and_two_pow_sub_one_eq_mod]
  omega

theorem compactBytes_lt (bits : UInt32) : compactBytes bits < 256 := by
  have small := bits.toNat_lt
  rw [compactBytes_eq]
  omega

theorem mantissa_eq (bits : UInt32) : (bits &&& 0xFFFFFF).toNat = bits.toNat % 2 ^ 24 := by
  rw [UInt32.toNat_and]
  change bits.toNat &&& (2 ^ 24 - 1) = _
  rw [Nat.and_two_pow_sub_one_eq_mod]

theorem toNat_powerArgument (bits : UInt32) :
    (powerArgument bits).toNat = (8 * ((compactBytes bits : ℤ) - 3) % 2 ^ 64).toNat := by
  rw [powerArgument, UInt64.ofInt, UInt64.toNat_ofNat_of_lt']
  have small : 8 * ((compactBytes bits : ℤ) - 3) % 2 ^ 64 < 2 ^ 64 :=
    Int.emod_lt_of_pos _ (by decide)
  change _ < 2 ^ 64
  omega

theorem toNat_powerArgument_eq_iff (bits : UInt32) :
    ((powerArgument bits).toNat : ℤ) = 8 * ((compactBytes bits : ℤ) - 3) ↔
      3 ≤ compactBytes bits := by
  have small := compactBytes_lt bits
  rw [toNat_powerArgument]
  omega

/-- An exponent below three wraps, and the power cannot be represented. -/
theorem targetFromBits_eq (bits : UInt32) :
    targetFromBits bits =
      (powerOfTwo (powerArgument bits)).map fun power => (bits &&& 0xFFFFFF).toNat * power := by
  have small := compactBytes_lt bits
  have argument := toNat_powerArgument bits
  change (if compactBytes bits < 3 then none else _) = _
  split
  · rename_i below
    have huge : ¬(powerArgument bits).toNat / 64 + 1 < 2 ^ 31 := by omega
    rw [powerOfTwo, if_neg huge, Option.map_none]
  · rename_i above
    have exponent : (powerArgument bits).toNat = 8 * (compactBytes bits - 3) := by omega
    have fits : (powerArgument bits).toNat / 64 + 1 < 2 ^ 31 := by omega
    rw [powerOfTwo, if_pos fits, Option.map_some, exponent]
    rfl

/-- Bits are decoded exactly if their exponent is at least three, whatever their sign bit. -/
theorem decodesCompact_iff (bits : UInt32) : DecodesCompact bits ↔ 3 ≤ compactBytes bits := by
  constructor
  · intro decodes
    exact (toNat_powerArgument_eq_iff bits).mp decodes.exponent
  · intro above
    refine ⟨?_, (toNat_powerArgument_eq_iff bits).mpr above⟩
    have decoded : targetFromBits bits =
        some ((bits &&& 0xFFFFFF).toNat * 2 ^ (8 * (compactBytes bits - 3))) :=
      if_neg (not_lt.mpr above)
    have exponent := compactBytes_eq bits
    rw [decoded, mantissa_eq, compactTarget, if_pos (exponent ▸ above), Nat.pow_mul, exponent]

/-- The bits of the number one, with an exponent of two. -/
theorem not_decodesCompact :
    ¬∀ bits : UInt32, bits &&& 0x00800000 = 0 → DecodesCompact bits := by
  intro decodes
  have exponent := (decodes 0x02000100 (by decide)).exponent
  revert exponent
  decide

end Bitcoin

namespace Stratum

open Poolserver.Bitcoin

variable {env : Env} {msg : JSON} {username : StdString} {client : Client} {block : Block}
  {data : BinaryData}

theorem errorResponse_ne_trueResponse (msg : JSON) (code : Int64) (text : String) :
    errorResponse msg code text ≠ trueResponse msg := by
  simp [errorResponse, trueResponse]

/-- A share is refused for its hash exactly if the hash is above the target of its job. -/
theorem refused_iff_above {job : Job} {hash : ℕ} :
    .sendMessage (errorResponse msg 23 "Share above target") ∈
        (Client.judge env msg username job client block data hash).effects ↔
      job.jobTarget < hash := by
  have differs := errorResponse_ne_trueResponse msg 23 "Share above target"
  generalize judgedEq : Client.judge env msg username job client block data hash = outcome
  cases Client.judge_ends judgedEq with
  | above above => simp [Client.respond, above]
  | solved meets solves accepted => simp [Client.respond, differs, meets]
  | unanswered meets solves refused => simp [meets]
  | credited meets large => simp [Client.respond, differs, meets]

/--
The target of a difficulty is not zero, has that difficulty, and is smaller for every larger
difficulty; it bounds exactly the hashes whose own difficulty is not smaller, which are
therefore the hashes of the shares that a job of that difficulty accepts.
-/
theorem target_of_difficulty (diff : UInt64) (positive : 1 ≤ diff) :
    ∃ target, diffToTarget diff.toNat = some target ∧ 0 < target ∧
      targetToDiff target = some diff.toNat ∧
      (∀ larger, diff < larger → ∃ smaller, diffToTarget larger.toNat = some smaller ∧
        0 < smaller ∧ smaller < target) ∧
      (∀ hash, 0 < hash → ∃ difficulty, targetToDiff hash = some difficulty ∧
        (hash ≤ target ↔ diff.toNat ≤ difficulty) ∧
        ∀ (owner : Client) work job, owner.getJob work = some job → job.diff = diff →
          ∀ (env : Env) msg username (client : Client) block data,
            .sendMessage (errorResponse msg 23 "Share above target") ∈
                (Client.judge env msg username job client block data hash).effects ↔
              difficulty < diff.toNat) := by
  have exact := exact_of_difficulty positive
  have targetPositive := Reciprocal.div_pos_of_exact exact
  refine ⟨diffOneTarget / diff.toNat, diffToTarget_pos exact.1, targetPositive, ?_, ?_, ?_⟩
  · rw [targetToDiff_pos targetPositive, Reciprocal.div_div_self exact]
  · intro larger less
    have largerExact := exact_of_difficulty (UInt64.le_of_lt (UInt64.lt_of_le_of_lt positive less))
    refine ⟨_, diffToTarget_pos largerExact.1, Reciprocal.div_pos_of_exact largerExact, ?_⟩
    exact Reciprocal.strictAntiOn exact largerExact (UInt64.lt_iff_toNat_lt.mp less)
  · intro hash hashPositive
    have bound : hash ≤ diffOneTarget / diff.toNat ↔ diff.toNat ≤ diffOneTarget / hash :=
      Reciprocal.le_div_comm hashPositive exact.1
    refine ⟨_, targetToDiff_pos hashPositive, bound, ?_⟩
    intro owner work job made diffEq env msg username client block data
    have jobTarget := (Client.getJob_eq_some made).jobTarget
    rw [diffEq, diffToTarget_pos exact.1, Option.some.injEq] at jobTarget
    rw [refused_iff_above, ← jobTarget, ← not_le, bound, not_le]

/-- The difficulty that the samples start with, the next one, and a small hash. -/
theorem target_of_difficulty_sample :
    ∃ target smaller difficulty, diffToTarget (16 : UInt64).toNat = some target ∧
      diffToTarget (17 : UInt64).toNat = some smaller ∧ smaller < target ∧
      targetToDiff 5 = some difficulty ∧ (5 ≤ target ↔ 16 ≤ difficulty) := by
  rcases target_of_difficulty 16 (by decide) with ⟨target, targetEq, _, _, decreases, bounds⟩
  rcases decreases 17 (by decide) with ⟨smaller, smallerEq, _, less⟩
  rcases bounds 5 (by decide) with ⟨difficulty, difficultyEq, bound, _⟩
  exact ⟨target, smaller, difficulty, targetEq, smallerEq, less, difficultyEq, bound⟩

end Stratum

end Poolserver
