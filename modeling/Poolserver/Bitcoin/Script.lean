import Poolserver.Bitcoin.Coinbase

/-!
# Appending data to a script

`Script::operator+(BinaryData)` is meant to append one push, the size byte followed by
the data. It first resizes the script to one byte more than the data has, then pushes
the size behind that, and at last copies the data over the front by absolute index,
leaving out its first byte and reading one byte behind its last. The result therefore has
two bytes more than the data, whatever script it started from, and is the push only where
the bytes happen to agree.
-/

namespace Poolserver.Bitcoin

/-- A vector to append, and the byte that is found behind it where one can be read. -/
structure Appendix where
  data : BinaryData
  behind : Option UInt8
  deriving DecidableEq, Repr

namespace Appendix

/-- The vector's `operator[]`, which does not check the index. -/
def at? (appendix : Appendix) (index : ℕ) : Option UInt8 :=
  if index = appendix.data.length then appendix.behind else appendix.data[index]?

/-- The sizes that are pushed by one byte. -/
def Direct (appendix : Appendix) : Prop :=
  1 ≤ appendix.data.length ∧ appendix.data.length ≤ 75

instance (appendix : Appendix) : Decidable appendix.Direct :=
  inferInstanceAs (Decidable (_ ∧ _))

/-- The size byte followed by the data. -/
def push (appendix : Appendix) : BinaryData :=
  UInt8.ofNat appendix.data.length :: appendix.data

@[simp] theorem length_push (appendix : Appendix) :
    appendix.push.length = appendix.data.length + 1 := rfl

/-- The data as the copying loop sees it, from index one to one past the end. -/
theorem mapM_at? (first rest : BinaryData) (behind : Option UInt8) :
    (List.range' first.length (rest.length + 1)).mapM (Appendix.mk (first ++ rest) behind).at? =
      behind.map fun byte => rest ++ [byte] := by
  induction rest generalizing first with
  | nil => cases behind <;> simp [List.range'_succ, at?]
  | cons byte rest ih =>
      have later := ih (first ++ [byte])
      have seen : (Appendix.mk (first ++ byte :: rest) behind).at? first.length = some byte := by
        simp [at?]
      simp only [List.length_append, List.length_cons, List.length_nil, Nat.zero_add,
        List.append_assoc, List.cons_append, List.nil_append] at later
      rw [List.length_cons, List.range'_succ, List.mapM_cons, seen, later]
      cases behind <;> rfl

end Appendix

/-- `std::vector::resize`. -/
def resize (bytes : BinaryData) (size : ℕ) : BinaryData :=
  bytes.take size ++ List.replicate (size - bytes.length) 0

/-- A resized script keeps its first byte, or gets a zero. -/
theorem resize_succ_eq_cons (bytes : BinaryData) (size : ℕ) :
    ∃ old, resize bytes (size + 1) = bytes.headD 0 :: old ∧ old.length = size := by
  cases bytes with
  | nil => exact ⟨List.replicate size 0, by simp [resize, List.replicate_succ]⟩
  | cons byte bytes =>
      refine ⟨resize bytes size, by simp [resize], ?_⟩
      simp only [resize, List.length_append, List.length_take, List.length_replicate]
      omega

/-- One turn of a copying loop. -/
def overwrite (read : ℕ → Option UInt8) (bytes : BinaryData) (index : ℕ) : Option BinaryData :=
  (read index).map (bytes.set index)

/-- Writing one index after the other replaces the bytes between what stands around them. -/
theorem foldlM_overwrite (read : ℕ → Option UInt8) (first old rest : BinaryData) :
    (List.range' first.length old.length).foldlM (overwrite read) (first ++ (old ++ rest)) =
      ((List.range' first.length old.length).mapM read).map
        fun written => first ++ (written ++ rest) := by
  induction old generalizing first with
  | nil => simp
  | cons byte old ih =>
      rw [List.length_cons, List.range'_succ, List.foldlM_cons, List.mapM_cons, overwrite]
      cases read first.length with
      | none => rfl
      | some new =>
          have later := ih (first ++ [new])
          have written : (first ++ (byte :: old ++ rest)).set first.length new =
              first ++ [new] ++ (old ++ rest) := by simp
          rw [List.length_append, List.length_singleton] at later
          simp only [Option.map_some, Option.bind_eq_bind, Option.bind_some, written, later]
          cases (List.range' (first.length + 1) old.length).mapM read <;> simp

namespace Script

/-- `Script::operator+(BinaryData)`. The loop counter is wide enough for the sizes of the branch. -/
def addData (script : Script) (appendix : Appendix) : Option Script :=
  let size := appendix.data.length
  if appendix.Direct then do
    let tmp := resize script.script (size + 1) ++ [UInt8.ofNat size]
    -- from one, because the size is believed to stand at index zero
    let tmp ← (List.range' 1 size).foldlM (overwrite appendix.at?) tmp
    return ⟨tmp⟩
  else some script

/-- Appends in a row. -/
def addAll (script : Script) (appendices : List Appendix) : Option Script :=
  appendices.foldlM addData script

theorem addData_eq (script : Script) {appendix : Appendix} (direct : appendix.Direct) :
    script.addData appendix = appendix.behind.map fun byte =>
      ⟨script.script.headD 0 :: (appendix.data.tail ++ [byte] ++
        [UInt8.ofNat appendix.data.length])⟩ := by
  rcases appendix with ⟨data, behind⟩
  cases data with
  | nil => exact absurd direct.1 (by simp)
  | cons byte rest =>
      rcases resize_succ_eq_cons script.script (rest.length + 1) with ⟨old, resized, length⟩
      have copied := Appendix.mapM_at? [byte] rest behind
      have loop := foldlM_overwrite (Appendix.mk (byte :: rest) behind).at?
        [script.script.headD 0] old [UInt8.ofNat (rest.length + 1)]
      rw [length, List.length_singleton] at loop
      rw [List.length_singleton] at copied
      rw [show [byte] ++ rest = byte :: rest from rfl] at copied
      rw [copied] at loop
      have start : resize script.script ((byte :: rest).length + 1) ++
          [UInt8.ofNat (byte :: rest).length] =
          [script.script.headD 0] ++ (old ++ [UInt8.ofNat (rest.length + 1)]) := by
        rw [List.length_cons, resized]
        rfl
      simp only [addData, if_pos direct, start]
      rw [List.length_cons, loop]
      cases behind <;> simp

theorem length_of_addData {script result : Script} {appendix : Appendix}
    (direct : appendix.Direct) (appended : script.addData appendix = some result) :
    result.script.length = appendix.data.length + 2 := by
  have positive := direct.1
  rw [addData_eq script direct, Option.map_eq_some_iff] at appended
  rcases appended with ⟨byte, _, rfl⟩
  simp only [List.length_cons, List.length_append, List.length_tail, List.length_nil]
  omega

/-- The bytes of a script and of what is appended to it come out as one push. -/
structure Coincides (script : Script) (appendix : Appendix) (byte : UInt8) : Prop where
  behind : appendix.behind = some byte
  script : script.script.length = 1
  data : appendix.data.tail ++ [byte, UInt8.ofNat appendix.data.length] = appendix.push

theorem addData_iff {script : Script} {appendix : Appendix} (direct : appendix.Direct) :
    script.addData appendix = some ⟨script.script ++ appendix.push⟩ ↔
      ∃ byte, Coincides script appendix byte := by
  constructor
  · intro appended
    have length := length_of_addData direct appended
    rw [List.length_append, Appendix.length_push] at length
    rw [addData_eq script direct, Option.map_eq_some_iff] at appended
    rcases appended with ⟨byte, behind, bytesEq⟩
    rcases List.length_eq_one_iff.mp (show script.script.length = 1 by omega) with
      ⟨only, scriptEq⟩
    have data := congrArg Script.script bytesEq
    simp only [scriptEq, List.headD_cons, List.cons_append, List.nil_append, List.append_assoc,
      List.cons.injEq, true_and] at data
    exact ⟨byte, behind, by simp [scriptEq], data⟩
  · rintro ⟨byte, coincides⟩
    rcases List.length_eq_one_iff.mp coincides.script with ⟨only, scriptEq⟩
    simp only [addData_eq script direct, coincides.behind, scriptEq, Option.map_some,
      List.headD_cons, List.append_assoc, List.cons_append, List.nil_append, coincides.data]

/-- A second append throws away what the first one gave. -/
theorem length_of_addAll {script result : Script} {appendices : List Appendix}
    {last : Appendix} (direct : last.Direct)
    (appended : script.addAll (appendices ++ [last]) = some result) :
    result.script.length = last.data.length + 2 := by
  simp only [addAll, List.foldlM_append, List.foldlM_cons, List.foldlM_nil, bind_pure] at appended
  rcases Option.bind_eq_some_iff.mp appended with ⟨between, _, lastAppended⟩
  exact length_of_addData direct lastAppended

/--
Appending data pushes it behind the script just where a script of one byte meets data
that agrees, shifted by one, with its own push, and where nothing else is appended.
-/
theorem addAll_iff {script : Script} {appendices : List Appendix}
    (direct : ∀ appendix ∈ appendices, appendix.Direct) :
    script.addAll appendices = some ⟨script.script ++ appendices.flatMap Appendix.push⟩ ↔
      appendices = [] ∨
        ∃ appendix byte, appendices = [appendix] ∧ Coincides script appendix byte := by
  rcases List.eq_nil_or_concat appendices with rfl | ⟨before, last, rfl⟩
  · simp [addAll]
  rw [List.concat_eq_append] at direct ⊢
  have lastDirect := direct last (by simp)
  cases before with
  | nil => simpa [addAll] using addData_iff lastDirect
  | cons first before =>
      have firstDirect := direct first (by simp)
      constructor
      · intro appended
        have length := length_of_addAll lastDirect appended
        simp only [List.flatMap_append, List.flatMap_cons, List.flatMap_nil, List.length_append,
          Appendix.length_push, List.length_nil] at length
        have positive := firstDirect.1
        omega
      · rintro (none | ⟨appendix, byte, one, _⟩)
        · simp at none
        · simp at one

/-- The script `07` and the data `05 02` in front of the byte `05`. -/
theorem addAll_of_seven :
    addAll ⟨[7]⟩ [⟨[5, 2], some 5⟩] = some ⟨[7] ++ [2, 5, 2]⟩ :=
  (addAll_iff (by decide)).mpr (Or.inr ⟨_, 5, rfl, ⟨rfl, rfl, rfl⟩⟩)

/-- No byte behind the data makes a push of two bytes on an empty script. -/
theorem exists_addData_ne_push :
    ∃ (script : Script) (data : BinaryData), 1 ≤ data.length ∧ data.length ≤ 75 ∧
      ∀ behind, script.addData ⟨data, behind⟩ ≠
        some ⟨script.script ++ (UInt8.ofNat data.length :: data)⟩ := by
  refine ⟨⟨[]⟩, [1, 2], by decide, by decide, ?_⟩
  intro behind appended
  have length := length_of_addData ⟨by simp, by simp⟩ appended
  simp at length

end Script

end Poolserver.Bitcoin
