import Mathlib.Data.List.TakeWhile
import Poolserver.DataMgr.Upload
import Poolserver.Lib.SqlRows
import Poolserver.Stratum.Invariants

/-!
# What the inserted rows denote

A user name is put between quotes as it is, both in the rows of an upload and in the row of
an accepted block. The rows denote the names they were built from exactly if none of the
names holds a character that MySQL reads as something else.
-/

namespace Poolserver.DataMgr

open Stratum RunTrace SqlText

/-! ## Recorded shares -/

/-- A share that was recorded in a run of some connection. -/
def Recorded (share : Share) : Prop :=
  ∃ setting connection trace client, ClientRun setting connection trace client ∧
    Effect.push share ∈ log trace

/-- The records among some effects are those of the handler. -/
def Records (effects : List Effect) : Prop :=
  ∀ share, Effect.push share ∈ effects → share.Refused ∨ share.Credited

theorem Records.append {left right : List Effect} (first : Records left)
    (second : Records right) : Records (left ++ right) := by
  intro share shareMem
  rcases List.mem_append.mp shareMem with old | new
  · exact first share old
  · exact second share new

theorem records_of_sends {msg : JSON} : Records [.sendMessage msg] := by
  intro share shareMem
  simp at shareMem

variable {env : Env} {client next : Client} {effects : List Effect}

theorem records_of_act (act : Client.Act env client effects next) : Records effects := by
  intro share shareMem
  cases act with
  | turn turns =>
      cases turns with
      | count limiter total bad => simp at shareMem
      | ban time => simp [Client.ban] at shareMem
  | reply replies => simp at shareMem
  | perform plain =>
      rw [List.mem_singleton] at shareMem
      subst shareMem
      exact Or.inr plain
  | refuse bad =>
      rw [List.mem_singleton, Effect.push.injEq] at shareMem
      subst shareMem
      exact Or.inl bad
  | enlist username password found => simp at shareMem
  | setMinDiff minDiff => simp at shareMem
  | submitShare share jobAt => simp at shareMem

theorem records_of_sendsJob (sends : Client.SendsJob env client effects next) :
    Records effects := by
  cases sends with
  | intro clean issued branchEq => exact records_of_sends

theorem records_of_acts (acts : Client.Acts env client effects next) : Records effects := by
  have path : Path (fun _ effects _ => Records effects) client effects next :=
    acts.toPath records_of_act
      (fun changes => by
        cases changes with
        | intro diff differs bound => exact records_of_sends)
      records_of_sendsJob
  have nothing : Records [] := fun share shareMem => by simp at shareMem
  simpa using path.invariant (fun log _ => Records log) (fun held more => held.append more) nothing

theorem records_of_step {setting : Setting} {event : Stratum.Event} {output : Output}
    (stepped : client.step setting event = some (next, output)) : Records output.effects := by
  have handles := Client.step_handles stepped
  generalize output.effects = effects at handles
  cases handles with
  | submission actionEq methodEq does =>
      rcases does with path | ⟨addr, _, limited⟩
      · exact records_of_acts (.ofPath path)
      · exact records_of_acts limited.acts
  | subscription actionEq methodEq sends =>
      exact records_of_sends.append (records_of_sendsJob sends)
  | other actionEq notSubmit notSubscribe authorizes => exact records_of_acts authorizes.acts
  | sendJob actionEq sends => exact records_of_sendsJob sends

/-- The reason of a recorded share is one of four texts. -/
theorem reason_of_recorded {share : Share} (recorded : Recorded share) :
    share.reason ∈ [] :: refusals.map ascii := by
  rcases recorded with ⟨setting, connection, trace, client, run, shareMem⟩
  rcases List.mem_flatMap.mp shareMem with ⟨entry, entryMem, pushed⟩
  rcases run.before_of_mem entryMem with ⟨_, _, _, _, stepped⟩
  rcases records_of_step stepped share pushed with ⟨_, reason, reasonMem, reasonEq⟩ | ⟨_, reasonEq⟩
  · rw [reasonEq]
    exact List.mem_cons_of_mem _ (List.mem_map_of_mem reasonMem)
  · rw [reasonEq]
    exact List.mem_cons_self

/-! ## The two queries -/

def blockPrefix : StdString :=
  ascii "INSERT INTO `shares` (`rem_host`, `username`, `our_result`, `upstream_result`, " ++
    ascii "`reason`, `solution`, `time`, `difficulty`) VALUES "

/-- The row of `Client::OnMiningSubmit` for an accepted block before it is cut. -/
def formatBlock (insert : BlockInsert) : StdString :=
  ascii "(INET_NTOA(" ++ Util.unsigned insert.remHost ++ ascii "), '" ++
    Util.cStr insert.username ++ ascii "', 1, 1, '', '" ++ Util.cStr insert.solution ++
    ascii "', FROM_UNIXTIME(" ++ Util.unsigned insert.time ++ ascii "), " ++
    Util.unsigned insert.difficulty ++ ascii ")"

/-- The query of `Client::OnMiningSubmit` for an accepted block. -/
def blockText (insert : BlockInsert) : StdString :=
  blockPrefix ++ Util.fs (formatBlock insert)

/-- The formatted text is not cut. -/
def Fits (formatted : StdString) : Prop :=
  formatted.length < Util.maxFormatLen

/-- A query with rows of that many values, as many as there are names and denoting them. -/
def Faithful (columns : ℕ) (start query : StdString) (usernames : List StdString) : Prop :=
  ∃ body rows, query = start ++ body ∧ readRows body = some rows ∧
    Denotes columns usernames rows

/-- A name that every one of its characters stands for. -/
def SafeName (username : StdString) : Prop :=
  0 ∉ username ∧ Plain username

instance (username : StdString) : Decidable (SafeName username) :=
  inferInstanceAs (Decidable (_ ∧ _))

theorem fs_of_fits {formatted : StdString} (fits : Fits formatted) :
    Util.fs formatted = formatted := by
  have bound : formatted.length ≤ Util.maxFormatLen - 1 := by
    unfold Fits at fits
    omega
  exact List.take_of_length_le bound

theorem ordinary_of_isDigit {ch : UInt8} (isDigit : DecimalText.IsDigit ch) : Ordinary ch := by
  have least := isDigit.1
  refine ⟨?_, ?_, ?_, ?_, ?_⟩
  all_goals
    rintro rfl
    exact absurd least (by decide)

theorem ordinary_unsigned (number : UInt32) : ∀ ch ∈ Util.unsigned number, Ordinary ch :=
  fun _ chMem => ordinary_of_isDigit (DecimalText.isDigit_of_mem_write chMem)

/-- What `c_str` cuts off begins with no comma. -/
theorem cStr_append (str : StdString) :
    ∃ more, str = Util.cStr str ++ more ∧ more.head? ≠ some comma := by
  refine ⟨str.dropWhile (· ≠ 0), (List.takeWhile_append_dropWhile ..).symm, ?_⟩
  intro isComma
  have stops := List.head?_dropWhile_not (· ≠ (0 : UInt8)) str
  rw [isComma] at stops
  exact absurd stops (by decide)

theorem safeName_iff (username : StdString) :
    SafeName username ↔ Plain (Util.cStr username) ∧ username = Util.cStr username := by
  have whole : username = Util.cStr username ↔ 0 ∉ username := by
    rw [Util.cStr, eq_comm, List.takeWhile_eq_self_iff]
    constructor
    · intro all zero
      simpa using all 0 zero
    · intro noZero ch chMem
      simp only [ne_eq, decide_eq_true_eq]
      rintro rfl
      exact noZero chMem
  constructor
  · rintro ⟨noZero, plain⟩
    have same := whole.mpr noZero
    exact ⟨by rwa [← same], same⟩
  · rintro ⟨plain, same⟩
    exact ⟨whole.mp same, by rwa [← same] at plain⟩

/-! ## Rows as lines -/

theorem ordinary_word {text : String} (ordinary : ((ascii text).all fun ch => decide (Ordinary ch))) :
    ∀ ch ∈ ascii text, Ordinary ch :=
  fun ch chMem => of_decide_eq_true (List.all_eq_true.mp ordinary ch chMem)

/-- A function of a 32-bit number. -/
def numberCall (function : String)
    (ordinary : (ascii function).all fun ch => decide (Ordinary ch)) (number : UInt32) : Item :=
  .call (ascii function) (Util.unsigned number) (ordinary_word ordinary) (ordinary_unsigned number)

def hostItem (host : UInt32) : Item :=
  numberCall "INET_NTOA" (by decide) host

theorem hostItem_quoteless (host : UInt32) : (hostItem host).Quoteless :=
  Item.call_quoteless _ _ (ordinary_word (by decide)) (ordinary_unsigned host)

def timeItem (time : UInt32) : Item :=
  numberCall "FROM_UNIXTIME" (by decide) time

def numberItem (number : UInt32) : Item :=
  .word (Util.unsigned number) (ordinary_unsigned number)

theorem ordinary_flag (flag : Bool) :
    ∀ ch ∈ if flag then ascii "1" else ascii "0", Ordinary ch := by
  cases flag with
  | true => decide +kernel
  | false => decide +kernel

def flagItem (flag : Bool) : Item :=
  .word (if flag then ascii "1" else ascii "0") (ordinary_flag flag)

theorem plain_reason {share : Share} (recorded : Recorded share) :
    Plain (Util.cStr share.reason) ∧ Util.cStr share.reason = share.reason := by
  have table : ∀ reason ∈ [] :: refusals.map ascii,
      Plain (Util.cStr reason) ∧ Util.cStr reason = reason := by decide
  exact table share.reason (reason_of_recorded recorded)

/-- The row of a share as a line. -/
def shareLine (share : Share) (plain : Plain (Util.cStr share.reason)) : Line where
  frame := frameOfItems (hostItem share.host.toUInt32) (hostItem_quoteless _)
    (flagItem share.result)
    [flagItem false, .quoted (Util.cStr share.reason) plain, timeItem share.time.toUInt32,
      numberItem share.diff.toUInt32]
  raw := Util.cStr share.username
  name := share.username

theorem shareLine_text (share : Share) (plain : Plain (Util.cStr share.reason)) :
    (shareLine share plain).text = formatShare share := by
  have opening : ascii "(INET_NTOA(" = leftParen :: (ascii "INET_NTOA" ++ [leftParen]) := by decide
  have name : ascii "), '" = [rightParen, comma, space, quote] := by decide
  have result : ascii "', " = [quote, comma, space] := by decide
  have reason : ascii ", 0, '" = comma :: space :: (ascii "0" ++ [comma, space, quote]) := by decide
  have time : ascii "', FROM_UNIXTIME(" =
      quote :: comma :: space :: (ascii "FROM_UNIXTIME" ++ [leftParen]) := by decide
  have diff : ascii "), " = [rightParen, comma, space] := by decide
  have closing : ascii ")" = [rightParen] := by decide
  simp only [formatShare, opening, name, result, reason, time, diff, closing]
  simp [shareLine, Line.text, frameOfItems, hostItem, timeItem, numberCall, flagItem, numberItem,
    Item.call, Item.word, Item.quoted, tailText]

theorem plain_binToASCII (data : BinaryData) : Plain (Util.cStr (Util.binToASCII data)) := by
  have digits : ∀ number : Fin 16, ¬Special (HexText.digit number.val) := by
    unfold Special
    decide
  refine plain_of_forall fun ch chMem => ?_
  have digitMem := (List.takeWhile_prefix _).subset chMem
  rw [Util.binToASCII_eq_encode, HexText.encode, List.mem_flatMap] at digitMem
  rcases digitMem with ⟨byte, _, digitMem⟩
  simp only [List.mem_cons, List.not_mem_nil, or_false] at digitMem
  rcases digitMem with rfl | rfl
  · exact digits ⟨byte.toNat / 16, HexText.div_sixteen_lt byte⟩
  · exact digits ⟨byte.toNat % 16, Nat.mod_lt _ (by decide)⟩

/-- The row of an accepted block as a line. -/
def blockLine (insert : BlockInsert) (plain : Plain (Util.cStr insert.solution)) : Line where
  frame := frameOfItems (hostItem insert.remHost) (hostItem_quoteless _) (flagItem true)
    [flagItem true, .quoted [] trivial, .quoted (Util.cStr insert.solution) plain,
      timeItem insert.time, numberItem insert.difficulty]
  raw := Util.cStr insert.username
  name := insert.username

theorem blockLine_text (insert : BlockInsert) (plain : Plain (Util.cStr insert.solution)) :
    (blockLine insert plain).text = formatBlock insert := by
  have opening : ascii "(INET_NTOA(" = leftParen :: (ascii "INET_NTOA" ++ [leftParen]) := by decide
  have name : ascii "), '" = [rightParen, comma, space, quote] := by decide
  have results : ascii "', 1, 1, '', '" = quote :: comma :: space :: (ascii "1" ++
      comma :: space :: (ascii "1" ++ [comma, space, quote, quote, comma, space, quote])) := by
    decide
  have time : ascii "', FROM_UNIXTIME(" =
      quote :: comma :: space :: (ascii "FROM_UNIXTIME" ++ [leftParen]) := by decide
  have diff : ascii "), " = [rightParen, comma, space] := by decide
  have closing : ascii ")" = [rightParen] := by decide
  simp only [formatBlock, opening, name, results, time, diff, closing]
  simp [blockLine, Line.text, frameOfItems, hostItem, timeItem, numberCall, flagItem, numberItem,
    Item.call, Item.word, Item.quoted, tailText]

/-- Lines whose names `c_str` shows are denoted exactly if all the names are safe. -/
theorem faithful_joined {columns : ℕ} {start : StdString} {lines : List Line}
    (nonempty : lines ≠ []) (sized : ∀ line ∈ lines, line.frame.others.length + 2 = columns)
    (shown : ∀ line ∈ lines, line.raw = Util.cStr line.name) :
    Faithful columns start (start ++ joined lines) (lines.map Line.name) ↔
      ∀ line ∈ lines, SafeName line.name := by
  have behind : ∀ line ∈ lines, ∃ more, line.name = line.raw ++ more ∧
      more.head? ≠ some comma := by
    intro line lineMem
    rw [shown line lineMem]
    exact cStr_append line.name
  have denotes := denotes_iff nonempty sized behind []
  have body : Faithful columns start (start ++ joined lines) (lines.map Line.name) ↔
      ∃ found, readFrom ⟨[], .before⟩ (joined lines) = some ([] ++ found) ∧
        Denotes columns (lines.map Line.name) found := by
    constructor
    · rintro ⟨body, rows, queryEq, read, denotes⟩
      rw [List.append_cancel_left_eq] at queryEq
      subst queryEq
      exact ⟨rows, read, denotes⟩
    · rintro ⟨rows, read, denotes⟩
      exact ⟨joined lines, rows, rfl, read, denotes⟩
  rw [body, denotes]
  constructor
  · intro plain line lineMem
    rw [safeName_iff, ← shown line lineMem]
    exact plain line lineMem
  · intro safe line lineMem
    have safeLine := safe line lineMem
    rw [safeName_iff, ← shown line lineMem] at safeLine
    exact safeLine

/-- The lines of recorded shares. -/
def shareLines (batch : List Share) (recorded : ∀ share ∈ batch, Recorded share) : List Line :=
  batch.pmap (fun share recorded => shareLine share (plain_reason recorded).1) recorded

theorem insertText_eq {batch : List Share} (recorded : ∀ share ∈ batch, Recorded share)
    (fits : ∀ share ∈ batch, Fits (formatShare share)) :
    insertText batch = insertPrefix ++ joined (shareLines batch recorded) := by
  have texts : (shareLines batch recorded).map Line.text = batch.map row := by
    rw [shareLines, List.map_pmap]
    simp only [shareLine_text, List.pmap_eq_map]
    refine List.map_congr_left fun share shareMem => ?_
    exact (fs_of_fits (fits share shareMem)).symm
  have separator : ascii "," = [comma] := by decide
  rw [insertText, joined, texts, separator]

/--
Among rows that fit the buffer of the formatter, the rows of an upload are those of its shares,
and the row of an accepted block is that of its worker, exactly if every name is safe.
-/
theorem inserts_faithful_iff (batch : List Share) (client : Client) (env : Env)
    (username : StdString) (hash : BinaryData) (jobDiff : UInt64) :
    (batch ≠ [] → (∀ share ∈ batch, Recorded share) →
      (∀ share ∈ batch, Fits (formatShare share)) →
      (Faithful 7 insertPrefix (insertText batch) (batch.map Share.username) ↔
        ∀ share ∈ batch, SafeName share.username)) ∧
    (Fits (formatBlock (client.blockInsert env username hash jobDiff)) →
      (Faithful 8 blockPrefix (blockText (client.blockInsert env username hash jobDiff))
        [username] ↔ SafeName username)) := by
  constructor
  · intro nonempty recorded fits
    rw [insertText_eq recorded fits]
    have names : (shareLines batch recorded).map Line.name = batch.map Share.username := by
      rw [shareLines, List.map_pmap]
      simp only [shareLine, List.pmap_eq_map]
    have lines : ∀ line ∈ shareLines batch recorded, ∃ share ∈ batch, ∃ plain,
        line = shareLine share plain := by
      intro line lineMem
      rcases List.mem_pmap.mp lineMem with ⟨share, shareMem, rfl⟩
      exact ⟨share, shareMem, _, rfl⟩
    have recordedSome : shareLines batch recorded ≠ [] := by
      simpa [shareLines] using nonempty
    rw [← names, faithful_joined recordedSome]
    · constructor
      · intro safe share shareMem
        have lineMem : shareLine share (plain_reason (recorded share shareMem)).1 ∈
            shareLines batch recorded :=
          List.mem_pmap.mpr ⟨share, shareMem, rfl⟩
        exact safe _ lineMem
      · intro safe line lineMem
        rcases lines line lineMem with ⟨share, shareMem, plain, rfl⟩
        exact safe share shareMem
    · intro line lineMem
      rcases lines line lineMem with ⟨share, shareMem, plain, rfl⟩
      rfl
    · intro line lineMem
      rcases lines line lineMem with ⟨share, shareMem, plain, rfl⟩
      rfl
  · intro fits
    have plain : Plain (Util.cStr (client.blockInsert env username hash jobDiff).solution) :=
      plain_binToASCII _
    have text : blockText (client.blockInsert env username hash jobDiff) =
        blockPrefix ++ joined [blockLine (client.blockInsert env username hash jobDiff) plain] := by
      rw [blockText, fs_of_fits fits, joined, List.map_singleton, List.intercalate_singleton,
        blockLine_text]
    rw [text]
    refine (faithful_joined (List.cons_ne_nil _ _) ?_ ?_).trans ?_
    · simp [blockLine, frameOfItems]
    · simp [blockLine]
    · simp [blockLine, Client.blockInsert]

namespace Sample

/-- A worker of that name is authorized and submits on a job that does not exist. -/
def namedEvents (name : String) : List Stratum.Event :=
  [⟨.message (Stratum.Sample.request "mining.authorize" [name, "secret"]),
      Stratum.Sample.easyEnv 2⟩,
    ⟨.message (Stratum.Sample.request "mining.submit"
      [name, "0", "00000001", "52c35a80", "deadbeef"]), Stratum.Sample.easyEnv 2⟩]

def namedShare (name : String) : Share :=
  ⟨0x7F000001, ascii name, false, ascii "Job not found", 1388534420, 1⟩

/-- The shares that a sample run records. -/
def recordedShares (events : List Stratum.Event) : List Share :=
  match replay (Client.step (Stratum.Sample.setting (Stratum.Sample.hash 2)))
      (Client.new Stratum.Sample.config Stratum.Sample.connection) events with
  | some (trace, _) => (log trace).filterMap fun effect =>
      match effect with
      | .push share => some share
      | _ => none
  | none => []

theorem recorded_of_mem {events : List Stratum.Event} {share : Share}
    (shareMem : share ∈ recordedShares events) : Recorded share := by
  unfold recordedShares at shareMem
  split at shareMem
  · rename_i trace client replayed
    rcases List.mem_filterMap.mp shareMem with ⟨effect, effectMem, pushes⟩
    cases effect with
    | push other =>
        rw [Option.some.injEq] at pushes
        subst pushes
        exact ⟨_, _, trace, client, .ofReplay replayed, effectMem⟩
    | _ => cases pushes
  · simp at shareMem

end Sample

theorem inserts_faithful_sample :
    Faithful 7 insertPrefix (insertText [Sample.namedShare "alice", Sample.namedShare "bob"])
      [ascii "alice", ascii "bob"] ∧
    Faithful 8 blockPrefix
      (blockText ((Stratum.Sample.worker 2).blockInsert (Stratum.Sample.easyEnv 2) (ascii "alice")
        [1, 2] 16)) [ascii "alice"] := by
  have alice : Sample.namedShare "alice" ∈ Sample.recordedShares (Sample.namedEvents "alice") := by
    decide +kernel
  have bob : Sample.namedShare "bob" ∈ Sample.recordedShares (Sample.namedEvents "bob") := by
    decide +kernel
  have faithful := inserts_faithful_iff [Sample.namedShare "alice", Sample.namedShare "bob"]
    (Stratum.Sample.worker 2) (Stratum.Sample.easyEnv 2) (ascii "alice") [1, 2] 16
  constructor
  · refine (faithful.1 (List.cons_ne_nil _ _) ?_ ?_).mpr ?_
    · rw [List.forall_mem_cons, List.forall_mem_singleton]
      exact ⟨Sample.recorded_of_mem alice, Sample.recorded_of_mem bob⟩
    · unfold Fits
      decide +kernel
    · decide +kernel
  · refine (faithful.2 ?_).mpr (by decide +kernel)
    unfold Fits
    decide +kernel

/-- A worker named with an apostrophe spoils the query of his share. -/
theorem exists_unfaithful_insert :
    ∃ share, Recorded share ∧ share.username = ascii "o'brien" ∧
      ¬Faithful 7 insertPrefix (insertText [share]) [share.username] := by
  have recorded : Sample.namedShare "o'brien" ∈
      Sample.recordedShares (Sample.namedEvents "o'brien") := by
    decide +kernel
  refine ⟨Sample.namedShare "o'brien", Sample.recorded_of_mem recorded, rfl, ?_⟩
  rintro ⟨body, rows, queryEq, read, denotes⟩
  have unread : ∀ found ∈ readRows ((insertText [Sample.namedShare "o'brien"]).drop
      insertPrefix.length), found.map (fun row => row[1]?) ≠
        [some [Token.literal (ascii "o'brien")]] := by
    decide +kernel
  rw [queryEq, List.drop_left] at unread
  exact unread rows read denotes.1

end Poolserver.DataMgr
