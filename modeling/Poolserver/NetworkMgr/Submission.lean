import Poolserver.Bitcoin.RoundTrip
import Poolserver.JSONRPC.Request
import Poolserver.NetworkMgr.Templates
import Poolserver.Shared.HexCoding

/-!
# Submitted blocks

A found block goes through the serialization, the hexadecimal text, the writer of JSON and the
request of HTTP before a daemon has it. Every daemon up to the first one that accepts is asked, and
each one finds the whole block in what it receives.
-/

namespace Poolserver.NetworkMgr

open Poolserver.Bitcoin
open Poolserver.ByteBuffer (Decodes)

variable {setting : Setting} {mgr next : NetworkMgr} {block : Block} {effects : List Effect}
  {library : Library} {iterators : Util.Base64Iterators}

/-! ## The daemons that are asked -/

/-- The parameter that a daemon is sent. -/
def Effect.param? : Effect → Option StdString
  | submit param => some param
  | _ => none

/-- How many daemons are asked: up to the first whose reply counts as accepting. -/
def asked (replies : List (Reply × List Poll)) : ℕ :=
  min (replies.findIdx (fun reply => accepts reply.1) + 1) replies.length

theorem params_of_update {daemons : List Daemon}
    (updated : updateBlockTemplate setting mgr daemons = (next, effects)) :
    effects.filterMap Effect.param? = [] := by
  rcases updateBlockTemplate_eq updated with ⟨_, _, rfl⟩ | ⟨daemon, block, _, _, rfl⟩
  · rfl
  · rfl

theorem params_of_blockCheck {polls : List Poll}
    (checked : blockCheck setting mgr polls = (next, effects)) :
    effects.filterMap Effect.param? = [] := by
  induction polls generalizing mgr next effects with
  | nil =>
      simp only [blockCheck, Prod.mk.injEq] at checked
      rcases checked with ⟨_, rfl⟩
      rfl
  | cons poll polls ih =>
      simp only [blockCheck, Prod.mk.injEq] at checked
      rcases checked with ⟨rfl, rfl⟩
      rw [List.filterMap_append, ih rfl, List.append_nil]
      rcases checkDaemon_eq (Prod.mk.eta.symm : checkDaemon setting mgr poll = _) with
        ⟨_, quiet, _⟩ | ⟨height, updated, _, _, updates, raised⟩
      · rw [quiet]
        rfl
      · have quiet := params_of_update updates
        have raises : (Effect.raise height).param? = none := rfl
        rw [raised, List.cons_append, List.filterMap_cons_none raises, List.filterMap_append, quiet]
        rfl

/-- The daemons that are asked are asked to take the block, once each. -/
theorem params_of_submitBlock {replies : List (Reply × List Poll)} {result : Bool}
    (submitted : submitBlock setting mgr block replies = (result, next, effects)) :
    effects.filterMap Effect.param? =
      List.replicate (asked replies) (submitBlockParam block) := by
  have sends : (Effect.submit (submitBlockParam block)).param? =
      some (submitBlockParam block) := rfl
  induction replies generalizing result next effects with
  | nil =>
      simp only [submitBlock, Prod.mk.injEq] at submitted
      rcases submitted with ⟨_, _, rfl⟩
      rfl
  | cons head replies ih =>
      rcases head with ⟨reply, polls⟩
      unfold submitBlock at submitted
      split at submitted
      · rename_i accepted
        simp only [Prod.mk.injEq] at submitted
        rcases submitted with ⟨_, _, rfl⟩
        have one : asked ((reply, polls) :: replies) = 1 := by
          simp [asked, List.findIdx_cons, accepted]
        rw [List.filterMap_cons_some sends, params_of_blockCheck rfl, one]
        rfl
      · rename_i refused
        simp only [Prod.mk.injEq] at submitted
        rcases submitted with ⟨_, _, rfl⟩
        have more : asked ((reply, polls) :: replies) = asked replies + 1 := by
          simp [asked, List.findIdx_cons, refused]
        rw [List.filterMap_cons_some sends, ih rfl, more, List.replicate_succ]

/-! ## What a daemon receives -/

/-- The parameters of `submitblock`. -/
def submitBlockParams (param : StdString) : Node :=
  Node.empty.push (.primitive (.string param))

theorem add_param (param : StdString) :
    Node.empty.add (.primitive (.string param)) = .ok (submitBlockParams param) :=
  rfl

theorem submitBlockParams_built (param : StdString) : (submitBlockParams param).Built := by
  have nothing : Node.empty.Built := .ofType (by simp)
  exact nothing.add (by simp) (add_param param)

theorem quoteless_submitBlockParam (block : Block) :
    JSON.Quoteless (submitBlockParam block) := by
  have digits := (Util.binToASCII_mem (serialize block)).2
  constructor
  · intro quote
    exact absurd (digits _ quote) (by decide)
  · intro quote
    exact absurd (digits _ quote) (by decide)

theorem requestJson_submitBlock (param : StdString) :
    JSONRPC.requestJson (ascii "submitblock") (submitBlockParams param) =
      .object [(ascii "jsonrpc", .string (ascii "1.0")), (ascii "id", .integer 1),
        (ascii "method", .string (ascii "submitblock")),
        (ascii "params", .array [.string param])] :=
  rfl

/-- The bytes that a call writes for a block once it is connected. -/
def submission (library : Library) (B64Auth param : StdString) : BinaryData :=
  JSONRPC.requestText library B64Auth (ascii "submitblock") (submitBlockParams param)

theorem length_submitBlockParam (block : Block) :
    (submitBlockParam block).length = 2 * (serialize block).length := by
  rw [submitBlockParam, Util.binToASCII_eq_encode]
  exact HexText.length_of_decode? (HexText.decode?_encode _)

theorem submitBlockParams_countable {block : Block} (small : 2 * (serialize block).length < 2 ^ 32) :
    (submitBlockParams (submitBlockParam block)).json.Countable := by
  have counted := (JSON.countable_quoteless (quoteless_submitBlockParam block)).mpr
    ((length_submitBlockParam block).trans_lt small)
  have one : (1 : ℕ) < 2 ^ 32 := by decide
  exact ⟨one, counted, trivial⟩

/--
`SubmitBlock` calls `submitblock` once for every daemon up to the first that accepts. If the text of
the block can be counted in 32 bits, a call that is connected writes it, and whatever follows on its
stream, the daemon finds in what was written a request of `submitblock` with one text in hexadecimal,
from whose bytes the whole block is read.
-/
theorem submitted_on_wire (libraryDocumented : library.Documented)
    (iteratorsDocumented : iterators.Documented) {connInfo : JSONRPC.ConnectionInfo}
    (one : HttpMessage.Plain connInfo.b64Auth) (hashSized : block.HashSized)
    (small : 2 * (serialize block).length < 2 ^ 32)
    {replies : List (Reply × List Poll)} {result : Bool}
    (submitted : submitBlock setting mgr block replies = (result, next, effects)) :
    (effects.filterMap Effect.param?).length = asked replies ∧
    ∀ param, .submit param ∈ effects → ∀ (rest : BinaryData) (target : Block),
      ∃ received fuel read bytes,
        (JSONRPC.requestNode (ascii "submitblock") (submitBlockParams param)).toTextWithin library
          fuel = some received.body ∧
        HttpMessage.read? (ascii "content-length")
          (submission library (JSONRPC.connect iterators connInfo) param ++ rest) =
            some (received, rest) ∧
        Node.fromString library received.body = some (.ok read) ∧
        read.json.stringMember "method" = .ok (ascii "submitblock") ∧
        read.json.member (ascii "params") = .ok (.array [.string param]) ∧
        HexText.decode? param = some bytes ∧
        Decodes (Block.read target) bytes { block with merkleTree := target.merkleTree } := by
  have params := params_of_submitBlock submitted
  constructor
  · rw [params, List.length_replicate]
  · intro param sent rest target
    have paramEq : param = submitBlockParam block := by
      have taken : param ∈ effects.filterMap Effect.param? :=
        List.mem_filterMap.mpr ⟨_, sent, rfl⟩
      rw [params] at taken
      exact List.eq_of_mem_replicate taken
    subst paramEq
    have quoteless : JSON.Quoteless (ascii "submitblock") := by
      unfold JSON.Quoteless
      decide
    have shows : (submitBlockParams (submitBlockParam block)).json =
        .array [.string (submitBlockParam block)] := rfl
    have plain : (submitBlockParams (submitBlockParam block)).json.Plain := by
      rw [shows]
      exact ⟨quoteless_submitBlockParam block, trivial⟩
    rcases JSONRPC.fromString_requestNode libraryDocumented
      (submitBlockParams_built (submitBlockParam block)) quoteless plain with
      ⟨read, parsed, shown⟩
    rcases JSONRPC.toTextWithin_requestNode quoteless (by decide)
      (submitBlockParams_countable small) with ⟨fuel, written⟩
    refine ⟨JSONRPC.request library (JSONRPC.connect iterators connInfo) (ascii "submitblock")
      (submitBlockParams (submitBlockParam block)), fuel, read, serialize block, written, ?_, parsed,
      ?_, ?_, ?_, decodes_block hashSized target⟩
    · exact JSONRPC.read_requestText (JSONRPC.plain_connect iteratorsDocumented one) _ _ rest
    · rw [shown, requestJson_submitBlock, JSON.stringMember]
      rfl
    · rw [shown, requestJson_submitBlock]
      rfl
    · rw [submitBlockParam, Util.binToASCII_eq_encode, HexText.decode?_encode]

/-- A refusal, and the reply of a daemon that accepts. -/
def Sample.refusedThenAccepted : List (Reply × List Poll) :=
  [(.error .systemError, []), (.ok .null, []), (.ok .null, [])]

def Sample.credentials : JSONRPC.ConnectionInfo :=
  ⟨ascii "u", ascii "p", []⟩

theorem submitted_on_wire_sample :
    ∃ (next : NetworkMgr) (effects : List Effect),
      submitBlock Sample.setting new sampleBlock Sample.refusedThenAccepted =
        (true, next, effects) ∧
      (effects.filterMap Effect.param?).length = 2 ∧
      ∃ received fuel,
        (JSONRPC.requestNode (ascii "submitblock")
          (submitBlockParams (submitBlockParam sampleBlock))).toTextWithin Poolserver.Sample.library
            fuel = some received.body ∧
        HttpMessage.read? (ascii "content-length")
          (submission Poolserver.Sample.library
            (JSONRPC.connect Util.Sample.base64Iterators Sample.credentials)
            (submitBlockParam sampleBlock) ++ [0]) = some (received, [0]) := by
  have submitted : submitBlock Sample.setting new sampleBlock Sample.refusedThenAccepted =
      (true, new, [.submit (submitBlockParam sampleBlock),
        .submit (submitBlockParam sampleBlock)]) := rfl
  have one : HttpMessage.Plain Sample.credentials.b64Auth := by
    constructor
    · exact List.not_mem_nil
    · intro ends
      cases ends
  rcases submitted_on_wire Poolserver.Sample.library_documented
    Util.Sample.base64Iterators_documented one sampleBlock_hashSized (by decide +kernel) submitted
    with ⟨count, wire⟩
  rcases wire (submitBlockParam sampleBlock) List.mem_cons_self [0] sampleBlock with
    ⟨received, fuel, _, _, written, found, _⟩
  exact ⟨_, _, submitted, count, received, fuel, written, found⟩

end Poolserver.NetworkMgr
