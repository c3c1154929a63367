import Poolserver.Stratum.Wire

/-!
# What a connection sends

Whatever is handled, `SendMessage` is called with one of a few messages. They are built from
the id of the request and from texts without quotes and line breaks, so that each goes into
one line, and a peer that reads line by line reads back what was sent.
-/

namespace Poolserver.Stratum

open RunTrace Framing Client

/-- The errors of a submission with their codes. -/
def submitErrors : List (Int64 × String) :=
  [(20, "Blocked by share limiter"), (20, "Wrong extranonce size"), (20, "Wrong ntime size"),
    (20, "Wrong nonce size"), (21, "Job not found"), (22, "Duplicate share"),
    (23, "Share above target"), (24, "Unauthorized worker")]

/-- What is sent while a request is handled. -/
inductive Utterance (request : JSON) : JSON → Prop where
  | announced {message : JSON} (announces : Announces (.sendMessage message)) :
      Utterance request message
  | refused {code : Int64} {text : String} (listed : (code, text) ∈ submitErrors) :
      Utterance request (errorResponse request code text)
  | accepted : Utterance request (trueResponse request)
  | subscribed (extranonce : UInt32) : Utterance request (subscribeResponse request extranonce)
  | authorized : Utterance request (authorizedResponse request)
  | unauthenticated : Utterance request (authenticationFailed request)

/-- An effect that is no message, or one of these. -/
def Uttered (request : JSON) (effect : Effect) : Prop :=
  ∀ message, effect = .sendMessage message → Utterance request message

variable {setting : Setting} {env : Env} {request message : JSON} {client next : Client}
  {effects : List Effect} {outcome : Outcome}

/-! ## The messages of the handlers -/

theorem uttered_sendMessage (utterance : Utterance request message) :
    Uttered request (.sendMessage message) := by
  intro sent sentEq
  rw [Effect.sendMessage.injEq] at sentEq
  exact sentEq ▸ utterance

theorem uttered_of_announces {effect : Effect} (announces : Announces effect) :
    Uttered request effect := by
  intro sent sentEq
  subst sentEq
  exact .announced announces

theorem uttered_respond (earlier : ∀ effect ∈ effects, Uttered request effect)
    (utterance : Utterance request message) :
    ∀ effect ∈ (client.respond effects message).effects, Uttered request effect := by
  intro effect effectMem
  rcases List.mem_append.mp effectMem with before | last
  · exact earlier effect before
  · rw [List.mem_singleton] at last
    subst last
    exact uttered_sendMessage utterance

theorem limitShare_utters {passed : Bool} {diff : UInt64}
    (done : client.limitShare setting.config setting.floating env diff =
      some (passed, next, effects)) :
    ∀ effect ∈ effects, Uttered request effect := by
  intro effect effectMem
  rcases limitShare_cases done with ⟨_, _, rfl⟩ | ⟨_, announces⟩
  · intro sent sentEq
    subst sentEq
    simp [ban] at effectMem
  · exact uttered_of_announces (announces effect effectMem)

/-- Every size error is listed. -/
theorem listed_of_wrongSize {params : JSON} {text : String}
    (read : readSubmission params = .error (.wrongSize text)) : (20, text) ∈ submitErrors := by
  have field : ∀ {arrange : BinaryData → BinaryData} {position : ℕ} {own : String},
      readField params arrange position own = .error (.wrongSize text) → own = text := by
    intro arrange position own failed
    unfold readField at failed
    split at failed
    · cases failed
    · dsimp only at failed
      split at failed
      · injection failed with same
        injection same
      · cases failed
  unfold readSubmission at read
  cases first : readExtranonce2 params with
  | error refusal =>
      rw [first] at read
      injection read with same
      rw [same] at first
      rw [← field first]
      decide
  | ok extranonce2 =>
      cases second : readTimebuf params with
      | error refusal =>
          rw [first, second] at read
          injection read with same
          rw [same] at second
          rw [← field second]
          decide
      | ok timebuf =>
          cases third : readNoncebuf params with
          | error refusal =>
              rw [first, second, third] at read
              injection read with same
              rw [same] at third
              rw [← field third]
              decide
          | ok noncebuf =>
              rw [first, second, third] at read
              cases read

theorem judge_utters {username : StdString} {job : Job} {block : Bitcoin.Block}
    {hash : BinaryData} {target : ℕ} :
    ∀ effect ∈ (judge env request username job client block hash target).effects,
      Uttered request effect := by
  generalize judged : judge env request username job client block hash target = outcome
  cases judge_ends judged with
  | above above =>
      refine uttered_respond ?_ (.refused (by decide))
      rw [List.forall_mem_singleton]
      rintro _ ⟨⟩
  | solved meets solves accepted =>
      refine uttered_respond ?_ .accepted
      rw [List.forall_mem_cons, List.forall_mem_singleton]
      exact ⟨by rintro _ ⟨⟩, by rintro _ ⟨⟩⟩
  | unanswered meets solves refused =>
      rw [List.forall_mem_singleton]
      rintro _ ⟨⟩
  | credited meets large =>
      refine uttered_respond ?_ .accepted
      rw [List.forall_mem_singleton]
      rintro _ ⟨⟩

theorem submitWork_utters {username : StdString} {addr : ℕ} {submission : Submission}
    (done : submitWork setting env request username addr submission client = some outcome) :
    ∀ effect ∈ outcome.effects, Uttered request effect := by
  cases submitWork_ends done with
  | duplicate jobAt known =>
      refine uttered_respond ?_ (.refused (by decide))
      rw [List.forall_mem_cons, List.forall_mem_singleton]
      exact ⟨by rintro _ ⟨⟩, by rintro _ ⟨⟩⟩
  | unassembled jobAt submitted assembles =>
      rw [throws, List.forall_mem_singleton]
      rintro _ ⟨⟩
  | unprinted jobAt submitted assembles prints =>
      rw [throws, List.forall_mem_cons, List.forall_mem_singleton]
      exact ⟨by rintro _ ⟨⟩, by rintro _ ⟨⟩⟩
  | judged jobAt submitted assembles prints =>
      rw [Outcome.after, List.forall_mem_append, List.forall_mem_cons, List.forall_mem_singleton]
      exact ⟨⟨by rintro _ ⟨⟩, by rintro _ ⟨⟩⟩, judge_utters⟩

theorem submitToJob_utters {params : JSON} {username : StdString} {addr : ℕ}
    (done : submitToJob setting env request params username addr client = some outcome) :
    ∀ effect ∈ outcome.effects, Uttered request effect := by
  rcases submitToJob_limits done with ⟨job, passed, limited, sent, _, limiter, limits⟩
  have earlier : ∀ effect ∈ sent, Uttered request effect := limitShare_utters limiter
  cases limits with
  | blocked => exact uttered_respond earlier (.refused (by decide))
  | unreadable read => exact earlier
  | wrongSize read => exact uttered_respond earlier (.refused (listed_of_wrongSize read))
  | verified read worked =>
      rw [Outcome.after, List.forall_mem_append]
      exact ⟨earlier, submitWork_utters worked⟩

theorem onMessage_utters (done : client.onMessage env setting request = some outcome) :
    ∀ effect ∈ outcome.effects, Uttered request effect := by
  cases onMessage_handled done with
  | unreadable exception other => simp [throws]
  | ignored other => simp
  | unauthorized methodEq paramsEq usernameEq unknown other =>
      exact uttered_respond (by simp) (.refused (by decide))
  | jobNotFound methodEq paramsEq usernameEq authorized textEq unknown other =>
      refine uttered_respond ?_ (.refused (by decide))
      rw [List.forall_mem_singleton]
      rintro _ ⟨⟩
  | limited reaches submits => exact submitToJob_utters submits
  | subscribes methodEq sends =>
      rw [List.forall_mem_cons]
      exact ⟨uttered_sendMessage (.subscribed _), fun effect effectMem =>
        uttered_of_announces (sendJob_announces sends effect effectMem)⟩
  | authorizes methodEq credentials authorizes =>
      cases authorize_cases authorizes with
      | noRow absent =>
          refine uttered_respond ?_ .unauthenticated
          rw [List.forall_mem_singleton]
          rintro _ ⟨⟩
      | unreadable row =>
          rw [throws, List.forall_mem_singleton]
          rintro _ ⟨⟩
      | authorized row workers announces =>
          refine uttered_respond ?_ .authorized
          rw [List.forall_mem_cons]
          exact ⟨by rintro _ ⟨⟩, fun effect effectMem =>
            uttered_of_announces (announces effect effectMem)⟩

/-! ## What the messages are built from -/

/-- A visible character or a blank, but no quote. -/
def Unescaped (ch : UInt8) : Prop :=
  Printable ch ∧ ch ≠ 34 ∧ ch ≠ 39

instance : DecidablePred Unescaped :=
  fun ch => inferInstanceAs (Decidable (Printable ch ∧ ch ≠ 34 ∧ ch ≠ 39))

/-- A property of the values that are built from simple texts. -/
structure Inherited (P : JSON → Prop) : Prop where
  null : P .null
  bool : ∀ val, P (.bool val)
  integer : ∀ val, P (.integer val)
  string : ∀ val, (∀ ch ∈ val, Unescaped ch) → P (.string val)
  array : ∀ items, (∀ item ∈ items, P item) → P (.array items)
  object : ∀ members, (members.map Prod.fst).Nodup →
    (∀ member ∈ members, (∀ ch ∈ member.1, Unescaped ch) ∧ P member.2) → P (.object members)

theorem unescaped_digit {number : ℕ} (small : number < 16) :
    Unescaped (HexText.digit number) := by
  have table : ∀ number : Fin 16, Unescaped (HexText.digit number) := by
    decide
  exact table ⟨number, small⟩

theorem unescaped_binToASCII (data : BinaryData) : ∀ ch ∈ Util.binToASCII data, Unescaped ch := by
  rw [Util.binToASCII_eq_encode]
  intro ch chMem
  rcases List.mem_flatMap.mp chMem with ⟨byte, _, inByte⟩
  rcases List.mem_pair.mp inByte with rfl | rfl
  · exact unescaped_digit (HexText.div_sixteen_lt byte)
  · exact unescaped_digit (Nat.mod_lt _ (by decide))

theorem unescaped_hexString (number : ℕ) : ∀ ch ∈ hexString number, Unescaped ch := by
  unfold hexString
  split
  · exact List.all_iff_forall_prop.mp (by decide)
  · intro ch chMem
    rcases List.mem_map.mp chMem with ⟨digit, digitMem, rfl⟩
    exact unescaped_digit (Nat.digits_lt_base (by decide) (List.mem_reverse.mp digitMem))

namespace Inherited

variable {P : JSON → Prop}

theorem text (inherited : Inherited P) (literal : String)
    (simple : (ascii literal).all (fun ch => Unescaped ch) = true) : P (.text literal) :=
  inherited.string _ (List.all_iff_forall_prop.mp simple)

/-- Every message is an object with three members. -/
theorem members (inherited : Inherited P) {first second third : StdString} {x y z : JSON}
    (keys : [first, second, third].Nodup)
    (simple : [first, second, third].all (fun key => key.all (fun ch => Unescaped ch)) = true)
    (hx : P x) (hy : P y) (hz : P z) :
    P (.object [(first, x), (second, y), (third, z)]) := by
  simp only [List.all_cons, Bool.and_eq_true, List.all_iff_forall_prop] at simple
  apply inherited.object
  · exact keys
  · simp only [List.forall_mem_cons]
    exact ⟨⟨simple.1, hx⟩, ⟨simple.2.1, hy⟩, ⟨simple.2.2.1, hz⟩, List.forall_mem_nil _⟩

theorem notifyMessage (inherited : Inherited P) (jobid : UInt32) (job : Job)
    (branch : List BinaryData) (clean : Bool) : P (notifyMessage jobid job branch clean) := by
  have hex : ∀ data, P (.string (Util.binToASCII data)) := fun data =>
    inherited.string _ (unescaped_binToASCII data)
  have siblings : P (.array (branch.map fun sibling => .string (Util.binToASCII sibling))) := by
    apply inherited.array
    intro item itemMem
    rcases List.mem_map.mp itemMem with ⟨sibling, _, rfl⟩
    exact hex sibling
  refine inherited.members (by decide) (by decide) (inherited.array _ ?_) inherited.null
    (inherited.text _ (by decide))
  simp only [List.forall_mem_cons]
  exact ⟨inherited.string _ (unescaped_hexString _), hex _, hex _, hex _, siblings, hex _, hex _,
    hex _, inherited.bool clean, List.forall_mem_nil _⟩

theorem setDifficultyMessage (inherited : Inherited P) (diff : UInt64) :
    P (setDifficultyMessage diff) := by
  refine inherited.members (by decide) (by decide) inherited.null (inherited.array _ ?_)
    (inherited.text _ (by decide))
  rw [List.forall_mem_singleton]
  exact inherited.integer _

theorem announced (inherited : Inherited P) (announces : Announces (.sendMessage message)) :
    P message := by
  generalize effectEq : Effect.sendMessage message = effect at announces
  cases announces with
  | difficulty diff =>
      rw [Effect.sendMessage.injEq] at effectEq
      exact effectEq ▸ inherited.setDifficultyMessage diff
  | job jobid job branch clean =>
      rw [Effect.sendMessage.injEq] at effectEq
      exact effectEq ▸ inherited.notifyMessage jobid job branch clean

theorem error (inherited : Inherited P) (code : Int64) (text : String)
    (simple : (ascii text).all (fun ch => Unescaped ch) = true) :
    P (.array [.integer code, .text text, .null]) := by
  apply inherited.array
  simp only [List.forall_mem_cons]
  exact ⟨inherited.integer code, inherited.text text simple, inherited.null,
    List.forall_mem_nil _⟩

/-- A message has the property if the id of its request has it. -/
theorem utterance (inherited : Inherited P) (id : P (requestId request))
    (utterance : Utterance request message) : P message := by
  cases utterance with
  | announced announces => exact inherited.announced announces
  | @refused code text listed =>
      have table : ∀ pair ∈ submitErrors, (ascii pair.2).all (fun ch => Unescaped ch) = true :=
        List.all_iff_forall_prop.mp (by decide)
      exact inherited.members (by decide) (by decide) id inherited.null
        (inherited.error code text (table _ listed))
  | accepted =>
      exact inherited.members (by decide) (by decide) id (inherited.bool true) inherited.null
  | subscribed extranonce =>
      have notify : P (.array [.text "mining.notify", .text "ae6812eb4cd7735a302a8a9dd95cf71f"]) := by
        apply inherited.array
        simp only [List.forall_mem_cons]
        exact ⟨inherited.text _ (by decide), inherited.text _ (by decide), List.forall_mem_nil _⟩
      refine inherited.members (by decide) (by decide) id (inherited.array _ ?_) inherited.null
      simp only [List.forall_mem_cons]
      exact ⟨notify, inherited.string _ (unescaped_binToASCII _), inherited.integer _,
        List.forall_mem_nil _⟩
  | authorized =>
      exact inherited.members (by decide) (by decide) id inherited.null (inherited.bool true)
  | unauthenticated =>
      exact inherited.members (by decide) (by decide) id (inherited.error _ _ (by decide))
        (inherited.bool true)

end Inherited

/-! ## Lines -/

/-- The texts are on one line. -/
theorem inherited_single : Inherited fun value => newline ∉ value.characters where
  null := List.not_mem_nil
  bool _ := List.not_mem_nil
  integer _ := List.not_mem_nil
  string val simple := fun breaks => absurd (simple _ breaks) (by decide)
  array items single := by
    intro breaks
    rcases JSON.mem_charactersAll.mp breaks with ⟨item, itemMem, inItem⟩
    exact single item itemMem inItem
  object members _ single := by
    intro breaks
    rcases JSON.mem_charactersMembers.mp breaks with ⟨member, memberMem, inKey | inValue⟩
    · exact absurd ((single member memberMem).1 _ inKey) (by decide)
    · exact (single member memberMem).2 inValue

theorem quoteless_of_unescaped {str : StdString} (simple : ∀ ch ∈ str, Unescaped ch) :
    JSON.Quoteless str :=
  ⟨fun quote => (simple _ quote).2.1 rfl, fun quote => (simple _ quote).2.2 rfl⟩

theorem inherited_plain : Inherited JSON.Plain where
  null := trivial
  bool _ := trivial
  integer _ := trivial
  string _ simple := quoteless_of_unescaped simple
  array items plain := by
    induction items with
    | nil => exact trivial
    | cons item items ih =>
        rw [List.forall_mem_cons] at plain
        exact ⟨plain.1, ih plain.2⟩
  object members nodup plain := by
    clear nodup
    induction members with
    | nil => exact trivial
    | cons member members ih =>
        rw [List.forall_mem_cons] at plain
        exact ⟨quoteless_of_unescaped plain.1.1, plain.1.2, ih plain.2⟩

theorem inherited_normal : Inherited fun value => value.normalize = value where
  null := rfl
  bool _ := rfl
  integer _ := rfl
  string _ _ := rfl
  array _ normal := JSON.normalize_array normal
  object _ nodup normal := JSON.normalize_object nodup fun member memberMem =>
    (normal member memberMem).2

theorem isObject_of_utterance (utterance : Utterance request message) :
    ∃ members, message = .object members := by
  cases utterance with
  | announced announces =>
      generalize effectEq : Effect.sendMessage message = effect at announces
      cases announces with
      | difficulty diff =>
          rw [Effect.sendMessage.injEq] at effectEq
          exact ⟨_, effectEq⟩
      | job jobid job branch clean =>
          rw [Effect.sendMessage.injEq] at effectEq
          exact ⟨_, effectEq⟩
  | refused listed => exact ⟨_, rfl⟩
  | accepted => exact ⟨_, rfl⟩
  | subscribed extranonce => exact ⟨_, rfl⟩
  | authorized => exact ⟨_, rfl⟩
  | unauthenticated => exact ⟨_, rfl⟩

theorem requestId_of_member {P : JSON → Prop} (null : P .null)
    (member : ∀ value, request.member (ascii "id") = .ok value → P value) :
    P (requestId request) := by
  unfold requestId
  split
  · rename_i id found
    exact member id found
  · exact null

/-! ## Runs -/

/-- The messages that a log says to be sent, in order. -/
def sentOf (log : List Happening) : List JSON :=
  log.filterMap fun
    | .effect (.sendMessage message) => some message
    | _ => none

/-- The messages that a call sends. -/
def sentBy (call : ClientEntry) : List JSON :=
  call.output.effects.filterMap fun
    | .sendMessage message => some message
    | _ => none

variable {service : Service} {connection : Connection} {trace : List WireEntry}
  {last : Endpoint} {turns : List (List ClientEntry)}

theorem sentOf_logged (call : ClientEntry) : sentOf (logged call) = sentBy call := by
  have effects : sentOf (call.output.effects.map .effect) = sentBy call := by
    rw [sentOf, List.filterMap_map, sentBy]
    apply List.filterMap_congr
    intro effect _
    cases effect <;> rfl
  unfold logged
  split
  · exact effects
  · exact effects

theorem sentOf_turnLog (entry : WireEntry) (calls : List ClientEntry) :
    sentOf (turnLog entry calls) = calls.flatMap sentBy := by
  have closes : sentOf (oversize entry) = [] := by
    unfold oversize
    split
    · rfl
    · rfl
  have append : ∀ first second, sentOf (first ++ second) = sentOf first ++ sentOf second :=
    fun _ _ => List.filterMap_append
  rw [turnLog, append, closes, List.append_nil]
  induction calls with
  | nil => rfl
  | cons call calls ih => rw [List.flatMap_cons, List.flatMap_cons, append, ih, sentOf_logged]

/-- The messages are those of the calls, in their order. -/
theorem Serves.sentOf_eq (serves : Serves service connection trace last turns) :
    sentOf last.client.log = turns.flatten.flatMap sentBy := by
  have aligned : trace.length = turns.length := by
    simpa using (congrArg List.length serves.asks).symm
  rw [serves.logs]
  clear serves
  induction trace generalizing turns with
  | nil =>
      rw [List.length_eq_zero_iff.mp aligned.symm]
      rfl
  | cons entry trace ih =>
      rcases turns with _ | ⟨calls, turns⟩
      · cases aligned
      · rw [List.zipWith_cons_cons, List.flatten_cons, List.flatten_cons, List.flatMap_append,
          ← sentOf_turnLog entry calls, ← ih (Nat.succ.inj aligned)]
        exact List.filterMap_append

/-- Every message answers a request that was handled, or announces something. -/
theorem Serves.utterance (serves : Serves service connection trace last turns) {message : JSON}
    (sent : message ∈ sentOf last.client.log) :
    ∃ request, Utterance request message ∧
      (request = .null ∨ request ∈ messagesOf turns.flatten) := by
  rw [serves.sentOf_eq] at sent
  rcases List.mem_flatMap.mp sent with ⟨call, callMem, sent⟩
  rcases List.mem_filterMap.mp sent with ⟨effect, effectMem, effectEq⟩
  have isMessage : effect = .sendMessage message := by
    split at effectEq
    · rw [Option.some.injEq] at effectEq
      rw [effectEq]
    · cases effectEq
  rcases serves.run.before_of_mem callMem with ⟨_, _, _, _, moves⟩
  generalize outputEq : call.output = output at moves
  generalize afterEq : call.after = after at moves
  rw [outputEq] at effectMem
  cases step_ends moves with
  | @message request outcome actionEq done =>
      refine ⟨request, onMessage_utters done effect effectMem message isMessage, .inr ?_⟩
      exact List.mem_filterMap.mpr ⟨call, callMem, by rw [actionEq]; rfl⟩
  | @sendJob clean _ sentEffects actionEq sends =>
      have announces := sendJob_announces sends effect effectMem
      exact ⟨.null, .announced (isMessage ▸ announces), .inl rfl⟩

/-- A message that was handled comes from one line. -/
theorem single_of_handled (documented : service.library.Documented)
    (run : WireRun service connection trace last)
    (serves : Serves service connection trace last turns)
    (requestMem : request ∈ messagesOf turns.flatten) :
    newline ∉ request.characters ∧ request.normalize = request := by
  rw [serves.messagesOf_eq run] at requestMem
  rcases List.mem_filterMap.mp requestMem with ⟨line, lineMem, parses⟩
  unfold message? at parses
  split at parses
  · rename_i node read
    rw [Option.some.injEq] at parses
    subst parses
    refine ⟨fun breaks => ?_, Node.normalize_of_fromString documented read⟩
    exact (wire_framed run).closed line lineMem
      (Node.characters_of_fromString documented read breaks)
  · cases parses

/-- Every message goes into one line. -/
theorem single_of_sent (documented : service.library.Documented)
    (run : WireRun service connection trace last) {message : JSON}
    (sent : message ∈ sentOf last.client.log) : newline ∉ message.characters := by
  rcases exists_serves run with ⟨turns, serves⟩
  rcases serves.utterance sent with ⟨request, utterance, origin⟩
  refine inherited_single.utterance ?_ utterance
  refine requestId_of_member (P := fun value => newline ∉ value.characters) ?_ ?_
  · exact List.not_mem_nil
  · intro value found breaks
    rcases origin with rfl | handled
    · injection found with same
      subst same
      cases breaks
    · exact (single_of_handled documented run serves handled).1
        (JSON.characters_member found breaks)

/-- A message is read back from its line if the ids of the requests are plain. -/
theorem message?_of_sent (documented : service.library.Documented)
    (run : WireRun service connection trace last)
    (serves : Serves service connection trace last turns)
    (plain : ∀ request ∈ messagesOf turns.flatten, (requestId request).Plain) {message : JSON}
    (sent : message ∈ sentOf last.client.log) :
    message? service.library (message.toText service.library) = some message := by
  rcases serves.utterance sent with ⟨request, utterance, origin⟩
  have idPlain : (requestId request).Plain := by
    rcases origin with rfl | handled
    · exact trivial
    · exact plain request handled
  have idNormal : (requestId request).normalize = requestId request := by
    refine requestId_of_member (P := fun value => value.normalize = value) rfl ?_
    intro value found
    rcases origin with rfl | handled
    · injection found with same
      subst same
      rfl
    · exact JSON.normalize_member (single_of_handled documented run serves handled).2 found
  have sendable : Sendable message :=
    ⟨isObject_of_utterance utterance, inherited_plain.utterance idPlain utterance,
      single_of_sent documented run sent⟩
  have normal := inherited_normal.utterance idNormal utterance
  rw [message?_toText documented sendable, normal]

end Poolserver.Stratum
