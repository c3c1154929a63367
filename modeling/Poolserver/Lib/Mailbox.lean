import Mathlib.Data.List.Basic
import Mathlib.Tactic

/-!
# Messages taken in any order

Messages are posted one after the other and wait until they are taken, each once and in any
order. Where no message is taken behind one that was posted later and has another content,
what relates the contents of the posted messages in their order relates those of the taken
ones in theirs, and the message taken last has the content of the message posted last.
-/

universe u v

structure Mailbox (α : Type u) where
  posted : List α
  /-- The messages that wait, each with its place among the posted ones. -/
  waiting : List (ℕ × α)

namespace Mailbox

variable {α : Type u} {β : Type v}

def new : Mailbox α where
  posted := []
  waiting := []

def post (box : Mailbox α) (message : α) : Mailbox α where
  posted := box.posted ++ [message]
  waiting := box.waiting ++ [(box.posted.length, message)]

/-- Takes the message at a position among those that wait. -/
def take (box : Mailbox α) (position : ℕ) : Option ((ℕ × α) × Mailbox α) :=
  match box.waiting[position]? with
  | none => none
  | some message => some (message, { box with waiting := box.waiting.eraseIdx position })

/-- The mailboxes that come about by posting and taking, with the messages taken so far. -/
inductive History : List (ℕ × α) → Mailbox α → Prop where
  | new : History [] new
  | post {taken : List (ℕ × α)} {box : Mailbox α} (message : α) (history : History taken box) :
      History taken (box.post message)
  | take {taken : List (ℕ × α)} {box next : Mailbox α} {message : ℕ × α} {position : ℕ}
      (history : History taken box) (takes : box.take position = some (message, next)) :
      History (taken ++ [message]) next

/-- No message is taken behind one that was posted later and has another content. -/
def InOrder (content : α → β) (taken : List (ℕ × α)) : Prop :=
  taken.Pairwise fun first second =>
    first.1 ≤ second.1 ∨ content first.2 = content second.2

variable {taken : List (ℕ × α)} {box next : Mailbox α} {message : ℕ × α} {position : ℕ}
  {content : α → β}

theorem inOrder_of_places (content : α → β) (places : (taken.map Prod.fst).Pairwise (· ≤ ·)) :
    InOrder content taken :=
  (List.pairwise_map.mp places).imp Or.inl

theorem take_eq_some (takes : box.take position = some (message, next)) :
    box.waiting[position]? = some message ∧
      next = { box with waiting := box.waiting.eraseIdx position } := by
  unfold take at takes
  split at takes
  · simp at takes
  · rename_i found waitingEq
    simp only [Option.some.injEq, Prod.mk.injEq] at takes
    rcases takes with ⟨rfl, rfl⟩
    exact ⟨waitingEq, rfl⟩

/-- What was posted has been taken or waits, under its place. -/
structure Kept (taken : List (ℕ × α)) (box : Mailbox α) : Prop where
  placed : ∀ message ∈ taken ++ box.waiting, box.posted[message.1]? = some message.2
  covered : ∀ place < box.posted.length, place ∈ (taken ++ box.waiting).map Prod.fst

theorem History.kept (history : History taken box) : Kept taken box := by
  induction history with
  | new => exact ⟨by simp [Mailbox.new], by simp [Mailbox.new]⟩
  | @post taken box message history ih =>
      constructor
      · intro other otherMem
        rw [Mailbox.post, ← List.append_assoc, List.mem_append, List.mem_singleton] at otherMem
        rcases otherMem with old | rfl
        · have inside := (List.getElem?_eq_some_iff.mp (ih.placed other old)).1
          rw [Mailbox.post, List.getElem?_append_left inside]
          exact ih.placed other old
        · simp [Mailbox.post]
      · intro place inside
        simp only [Mailbox.post, List.length_append, List.length_singleton] at inside
        rw [Mailbox.post, ← List.append_assoc, List.map_append, List.mem_append]
        rcases Nat.lt_succ_iff_lt_or_eq.mp inside with old | rfl
        · exact Or.inl (ih.covered place old)
        · exact Or.inr (by simp)
  | @take taken box next message position history takes ih =>
      rcases take_eq_some takes with ⟨waitingEq, rfl⟩
      rcases List.getElem?_eq_some_iff.mp waitingEq with ⟨inside, rfl⟩
      have same : (taken ++ [box.waiting[position]] ++ box.waiting.eraseIdx position).Perm
          (taken ++ box.waiting) := by
        rw [List.append_assoc]
        exact (List.getElem_cons_eraseIdx_perm inside).append_left taken
      constructor
      · intro message messageMem
        exact ih.placed message (same.mem_iff.mp messageMem)
      · intro place isPosted
        exact (same.map Prod.fst).mem_iff.mpr (ih.covered place isPosted)

/-- What relates the posted messages in their order relates the taken ones in theirs. -/
theorem History.related {Related : β → β → Prop} (refl : ∀ carried, Related carried carried)
    (history : History taken box) (inOrder : InOrder content taken)
    (posted : (box.posted.map content).Pairwise Related) :
    (taken.map fun message => content message.2).Pairwise Related := by
  have kept := history.kept
  rw [List.pairwise_map] at posted ⊢
  refine inOrder.imp_of_mem ?_
  intro first second firstMem secondMem ordered
  rcases ordered with earlier | same
  · have firstAt := kept.placed first (List.mem_append_left _ firstMem)
    have secondAt := kept.placed second (List.mem_append_left _ secondMem)
    rcases List.getElem?_eq_some_iff.mp firstAt with ⟨firstInside, firstEq⟩
    rcases List.getElem?_eq_some_iff.mp secondAt with ⟨secondInside, secondEq⟩
    rcases Nat.lt_or_eq_of_le earlier with before | equal
    · rw [← firstEq, ← secondEq]
      exact List.pairwise_iff_getElem.mp posted _ _ firstInside secondInside before
    · rw [equal, secondAt, Option.some.injEq] at firstAt
      rw [firstAt]
      exact refl _
  · rw [same]
    exact refl _

/-- When no message waits, the one taken last has the content of the one posted last. -/
theorem History.last (history : History taken box) (inOrder : InOrder content taken)
    (nothingWaits : box.waiting = []) :
    taken.getLast?.map (fun message => content message.2) = box.posted.getLast?.map content := by
  have kept := history.kept
  have placed := kept.placed
  have covered := kept.covered
  rw [nothingWaits, List.append_nil] at placed covered
  cases box.posted.eq_nil_or_concat' with
  | inl nothing =>
      have untaken : taken = [] := by
        refine List.eq_nil_iff_forall_not_mem.mpr fun message messageMem => ?_
        have isPosted := placed message messageMem
        simp [nothing] at isPosted
      rw [untaken, nothing]
      rfl
  | inr concat =>
      rcases concat with ⟨earlier, newest, postedEq⟩
      rw [postedEq] at placed covered
      have newestTaken := covered earlier.length (by simp)
      rcases List.mem_map.mp newestTaken with ⟨message, messageMem, place⟩
      have isNewest := placed message messageMem
      rw [place, List.getElem?_concat_length, Option.some.injEq] at isNewest
      cases taken.eq_nil_or_concat' with
      | inl untaken =>
          rw [untaken] at messageMem
          simp at messageMem
      | inr split =>
          rcases split with ⟨others, final, takenEq⟩
          rw [takenEq, postedEq, List.getLast?_concat, List.getLast?_concat, Option.map_some,
            Option.map_some, Option.some.injEq]
          rw [takenEq] at placed messageMem inOrder
          rw [List.mem_append, List.mem_singleton] at messageMem
          rcases messageMem with before | rfl
          · rcases (List.pairwise_append.mp inOrder).2.2 message before final (by simp) with
              later | same
            · -- nothing was posted behind the newest message
              have finalAt := placed final (by simp)
              have inside := (List.getElem?_eq_some_iff.mp finalAt).1
              rw [List.length_append, List.length_singleton] at inside
              have finalPlace : final.1 = earlier.length := by omega
              rw [finalPlace, List.getElem?_concat_length, Option.some.injEq] at finalAt
              rw [finalAt]
            · rw [← same, isNewest]
          · rw [isNewest]

end Mailbox
