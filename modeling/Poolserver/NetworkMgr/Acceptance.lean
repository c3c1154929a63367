import Poolserver.JSONRPC.Query
import Poolserver.NetworkMgr.Templates

/-!
# Accepted blocks

`Query` returns the result member of a body, and `SubmitBlock` looks for a result member in
what it returns. Both accessors make a missing member null, so a body counts as accepted
that has no result, has an error beside a null result, or has an object for its result.
-/

namespace Poolserver.NetworkMgr

open Poolserver.Bitcoin

variable {setting : Setting} {mgr next : NetworkMgr} {block : Block} {effects : List Effect}

/-- The members of an object that a daemon returns. -/
abbrev Body := List (StdString × JSON)

namespace Body

variable (body : Body)

/-- What `operator[]` gives for a key. -/
def value (key : String) : JSON :=
  (body.lookup (ascii key)).getD .null

/-- The daemon accepts: it has a null result, and no error. -/
def Accepts : Prop :=
  (body.lookup (ascii "result")).map JSON.isNull = some true ∧ (body.value "error").isNull = true

instance : Decidable body.Accepts :=
  inferInstanceAs (Decidable (_ ∧ _))

/-- The daemon does not accept, and counts as one that does. -/
inductive Mistaken : Prop where
  | absent (lookup : body.lookup (ascii "result") = none) : Mistaken
  | refused (null : (body.lookup (ascii "result")).map JSON.isNull = some true)
      (error : (body.value "error").isNull = false) : Mistaken
  | nested {inner : Body} (lookup : body.lookup (ascii "result") = some (.object inner))
      (null : (Body.value inner "result").isNull = true) : Mistaken

end Body

/-- A body counts as accepted if it is accepted or mistaken. -/
theorem accepts_result_iff {body : Body} :
    accepts (JSONRPC.result (.object body)) = true ↔ body.Accepts ∨ body.Mistaken := by
  have reply : JSONRPC.result (.object body) = .ok (body.value "result") := rfl
  rw [reply]
  cases found : body.lookup (ascii "result") with
  | none =>
      have null : body.value "result" = .null := by simp [Body.value, found]
      refine iff_of_true ?_ (.inr (.absent found))
      rw [null]
      rfl
  | some value =>
      have same : body.value "result" = value := by simp [Body.value, found]
      rw [same]
      cases value with
      | null =>
          apply iff_of_true rfl
          cases error : (body.value "error").isNull with
          | true => exact .inl ⟨by rw [found]; rfl, error⟩
          | false => exact .inr (.refused (by rw [found]; rfl) error)
      | object inner =>
          have inside : accepts (.ok (.object inner)) = (Body.value inner "result").isNull := rfl
          rw [inside]
          constructor
          · exact fun null => .inr (.nested found null)
          · rintro (⟨null, _⟩ | absent | ⟨null, _⟩ | ⟨lookup, null⟩)
            · simp [found, JSON.isNull] at null
            · simp [found] at absent
            · simp [found, JSON.isNull] at null
            · rw [found, Option.some.injEq, JSON.object.injEq] at lookup
              rwa [lookup]
      | _ =>
          apply iff_of_false (by simp [accepts, JSON.member])
          rintro (⟨null, _⟩ | absent | ⟨null, _⟩ | ⟨lookup, _⟩)
          · simp [found, JSON.isNull] at null
          · simp [found] at absent
          · simp [found, JSON.isNull] at null
          · simp [found] at lookup

/-- The answer is whether some reply counts as accepted. -/
theorem submitBlock_result {replies : List (Reply × List Poll)} {result : Bool}
    (submitted : submitBlock setting mgr block replies = (result, next, effects)) :
    result = true ↔ ∃ reply ∈ replies, accepts reply.1 = true := by
  induction replies generalizing result next effects with
  | nil =>
      simp only [submitBlock, Prod.mk.injEq] at submitted
      simp [← submitted.1]
  | cons head replies ih =>
      rcases head with ⟨reply, polls⟩
      unfold submitBlock at submitted
      split at submitted
      · rename_i accepted
        simp only [Prod.mk.injEq] at submitted
        exact iff_of_true submitted.1.symm ⟨_, List.mem_cons_self, accepted⟩
      · rename_i refused
        simp only [Prod.mk.injEq] at submitted
        rw [← submitted.1, ih rfl, List.exists_mem_cons_iff, or_iff_right refused]

/-- The reply of a call to a daemon that returns that body. -/
def answered (answer : Body × List Poll) : Reply × List Poll :=
  (JSONRPC.result (.object answer.1), answer.2)

/--
A block is reported accepted only when a daemon accepted it exactly if no daemon's body is
mistaken for an acceptance, or some daemon accepted the block after all.
-/
theorem submitBlock_accepted_iff {answers : List (Body × List Poll)} {result : Bool}
    (submitted : submitBlock setting mgr block (answers.map answered) =
      (result, next, effects)) :
    (result = true → ∃ answer ∈ answers, answer.1.Accepts) ↔
      (∀ answer ∈ answers, ¬answer.1.Mistaken) ∨ ∃ answer ∈ answers, answer.1.Accepts := by
  have counted : result = true ↔ ∃ answer ∈ answers, answer.1.Accepts ∨ answer.1.Mistaken := by
    rw [submitBlock_result submitted]
    simp only [List.mem_map, exists_exists_and_eq_and, answered, accepts_result_iff]
  rw [counted]
  constructor
  · intro holds
    by_cases mistaken : ∃ answer ∈ answers, answer.1.Mistaken
    · rcases mistaken with ⟨answer, answerMem, mistaken⟩
      exact .inr (holds ⟨answer, answerMem, .inr mistaken⟩)
    · exact .inl fun answer answerMem found => mistaken ⟨answer, answerMem, found⟩
  · rintro (understood | accepted) ⟨answer, answerMem, accepts | mistaken⟩
    · exact ⟨answer, answerMem, accepts⟩
    · exact absurd mistaken (understood answer answerMem)
    · exact ⟨answer, answerMem, accepts⟩
    · exact accepted

/-- What `SubmitBlock` returns to a daemon that counts as accepting, without anything new on it. -/
theorem submitBlock_single {reply : Reply} (accepted : accepts reply = true) :
    submitBlock setting mgr block [(reply, [])] =
      (true, mgr, [.submit (submitBlockParam block)]) := by
  rw [submitBlock, if_pos accepted]
  rfl

/-- A null result without an error. -/
def Sample.accepting : Body :=
  [(ascii "result", .null), (ascii "error", .null)]

/-- An error beside a null result. -/
def Sample.refusing : Body :=
  [(ascii "result", .null), (ascii "error", .text "Block decode failed")]

theorem submitBlock_accepted_sample :
    ∃ result next effects,
      submitBlock Sample.setting new sampleBlock ([(Sample.accepting, [])].map answered) =
          (result, next, effects) ∧
        (result = true →
          ∃ answer ∈ [(Sample.accepting, ([] : List Poll))], answer.1.Accepts) := by
  have submitted := @submitBlock_single Sample.setting new sampleBlock
    (JSONRPC.result (.object Sample.accepting)) (by decide +kernel)
  have accepted : Sample.accepting.Accepts := by decide +kernel
  exact ⟨_, _, _, submitted, (submitBlock_accepted_iff submitted).mpr
    (.inr ⟨_, List.mem_singleton_self _, accepted⟩)⟩

/-- The refusal of the only daemon is reported as an acceptance. -/
theorem exists_accepted_refusal :
    ∃ (answers : List (Body × List Poll)) (next : NetworkMgr) (effects : List Effect),
      submitBlock Sample.setting new sampleBlock (answers.map answered) =
          (true, next, effects) ∧
        ¬∃ answer ∈ answers, answer.1.Accepts := by
  have submitted := @submitBlock_single Sample.setting new sampleBlock
    (JSONRPC.result (.object Sample.refusing)) (by decide +kernel)
  have refused : ¬Sample.refusing.Accepts := by decide +kernel
  exact ⟨[(Sample.refusing, [])], _, _, submitted, by simpa using refused⟩

end Poolserver.NetworkMgr
