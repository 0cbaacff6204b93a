import Mathlib.Data.List.Forall2
import Ethwasi.Rust.Bytes
import Ethwasi.Transition.Run

/-!
# The parser of exported states

`genesis_playback` reads an exported state as a stream of accounts. Between two calls of a JSON
parser it looks for the separators itself, in windows of a fixed size. Too few bytes, another
separator or a text that is no JSON value of the expected type make it panic; there are no errors.

The JSON parser is that of a library. It skips whitespace, reads one value and reports the offset
behind it. Strings and objects end with their last byte, so it does not matter what follows them.
-/

namespace Ethwasi.Genesis

open Ethwasi.Rust Ethwasi.Transition

/-- `ExportedAccount`, with the storage in the order of its keys. -/
structure ExportedAccount where
  balance : String
  nonce : String
  code : Option String
  storage : Option (List (String × String))
  deriving DecidableEq

/-- `EXPORTED_STATE_START`, the bytes of `{ "state": {`. -/
def exportedStateStart : Bytes := [123, 32, 34, 115, 116, 97, 116, 101, 34, 58, 32, 123]

/-- `EXPORTED_STATE_ACCOUNT_SEP`, the byte of `,`. -/
def exportedStateAccountSep : Bytes := [44]

/-- `EXPORTED_STATE_ADDR_SEP`, the bytes of `: `. -/
def exportedStateAddrSep : Bytes := [58, 32]

/-- `EXPORTED_STATE_END`, the bytes of `}}` on a new line. -/
def exportedStateEnd : Bytes := [10, 125, 125]

/-- `StateParsingState`. -/
inductive StateParsingState where
  | first
  | middle
  | ended
  deriving DecidableEq

/-- `StateParser`. -/
structure StateParser where
  src : Bytes
  state : StateParsingState
  deriving DecidableEq

/-- The first `next` of a `StreamDeserializer` over a slice, and its `byte_offset` afterwards. -/
abbrev StreamDeserializer (α : Type) := Bytes → Option (Except String (α × Nat))

/-- The deserializers of `serde_json`. -/
structure SerdeJson where
  string : StreamDeserializer String
  account : StreamDeserializer ExportedAccount

/-- An item of the iterator. -/
abbrev Item := String × ExportedAccount

/-- Split off some bytes and assert what they are. -/
def strip (expected src : Bytes) : Outcome Empty Bytes := do
  let (front, rest) ← splitAt src expected.length
  Outcome.assertEq front expected
  return rest

/-- Read a value, and go on behind it. -/
def takeValue {α : Type} (next : StreamDeserializer α) (src : Bytes) : Outcome Empty (α × Bytes) :=
  match next src with
  | some (.ok (value, offset)) => do
    let (_, rest) ← splitAt src offset
    return (value, rest)
  | some (.error _) => .panic .unwrapFailed
  | none => .panic .unwrapFailed

namespace StateParser

/-- `StateParser::new`. -/
def new (src : Bytes) : Outcome Empty StateParser := do
  let rest ← strip exportedStateStart src
  return ⟨rest, .first⟩

/-- The part of `next` that skips the separator behind an account. -/
def skipSep (parser : StateParser) : Outcome Empty Bytes :=
  if parser.state = .middle then strip exportedStateAccountSep parser.src else .ok parser.src

/-- The last part of `next`, at an address. -/
def takeItem (json : SerdeJson) (src : Bytes) : Outcome Empty (Option Item × StateParser) := do
  let (addr, src) ← takeValue json.string src
  let src ← strip exportedStateAddrSep src
  let (account, src) ← takeValue json.account src
  return (some (addr, account), ⟨src, .middle⟩)

/-- `next`. -/
def next (json : SerdeJson) (parser : StateParser) :
    Outcome Empty (Option Item × StateParser) :=
  if parser.state = .ended then return (none, parser)
  else do
    let (ending, rest) ← splitAt parser.src exportedStateEnd.length
    if ending = exportedStateEnd then return (none, ⟨rest, .ended⟩)
    else
      let src ← parser.skipSep
      takeItem json src

end StateParser

/-- The iterator; a panic stops it. -/
def parserMachine (json : SerdeJson) : Machine StateParser Unit (Option Item) := fun parser _ =>
  match parser.next json with
  | .ok (item, parser) => some (item, parser)
  | _ => none

/-- A call of the iterator that returned. -/
abbrev ParserEvent := Event StateParser Unit (Option Item)

/-- A number of calls of the iterator. -/
def iterate (json : SerdeJson) (parser : StateParser) (calls : Nat) : List ParserEvent :=
  run (parserMachine json) parser (List.replicate calls ())

/-- JSON whitespace. -/
def isWhitespace (byte : UInt8) : Bool := byte = 32 || byte = 10 || byte = 13 || byte = 9

/-- A deserializer skips whitespace, reads one value and reports the offset behind it. It reads
the value of every given text, whatever follows. -/
structure Deserializes {α : Type} (next : StreamDeserializer α) (texts : Bytes → α → Prop) :
    Prop where
  reads : ∀ space text rest value, (∀ byte ∈ space, isWhitespace byte) → texts text value →
    next (space ++ text ++ rest) = some (.ok (value, space.length + text.length))
  offset : ∀ src value offset, next src = some (.ok (value, offset)) →
    ∃ space text rest, src = space ++ text ++ rest ∧ (∀ byte ∈ space, isWhitespace byte) ∧
      text ≠ [] ∧ offset = space.length + text.length

/-- The texts of JSON strings and of the objects of accounts. -/
structure JsonTexts where
  string : Bytes → String → Prop
  account : Bytes → ExportedAccount → Prop
  /-- A string is quoted. -/
  quoted : ∀ text value, string text value → ∃ inner, text = 34 :: inner ++ [34]

/-- What is assumed of `serde_json`. -/
structure SerdeJson.Reads (json : SerdeJson) (texts : JsonTexts) : Prop where
  string : Deserializes json.string texts.string
  account : Deserializes json.account texts.account

/-- The text of an account: its address on a new line, and its object. -/
def JsonTexts.EntryText (texts : JsonTexts) (text : Bytes) (item : Item) : Prop :=
  ∃ addr account, texts.string addr item.1 ∧ texts.account account item.2 ∧
    text = 10 :: addr ++ exportedStateAddrSep ++ account

/-- The text of an exported state. -/
def JsonTexts.Exports (texts : JsonTexts) (items : List Item) (text : Bytes) : Prop :=
  ∃ entries, List.Forall₂ texts.EntryText entries items ∧
    text = exportedStateStart ++ exportedStateAccountSep.intercalate entries ++ exportedStateEnd

section Calls

variable {json : SerdeJson} {texts : JsonTexts}

theorem strip_append (expected rest : Bytes) : strip expected (expected ++ rest) = .ok rest := by
  simp [strip, splitAt_append, Outcome.assertEq]

/-- Nothing is added when bytes are split off. -/
theorem length_of_strip {expected src rest : Bytes} (stripped : strip expected src = .ok rest) :
    rest.length ≤ src.length := by
  simp only [strip, Outcome.bind_eq_ok, Outcome.pure_eq_ok, Outcome.ok.injEq] at stripped
  obtain ⟨⟨front, behind⟩, split, _, _, rfl⟩ := stripped
  rw [(splitAt_eq_ok split).2, List.length_append]
  exact Nat.le_add_left _ _

/-- A text behind whitespace is read. -/
theorem takeValue_of_text {α : Type} {next : StreamDeserializer α} {known : Bytes → α → Prop}
    (deserializes : Deserializes next known) {space text : Bytes} {value : α}
    (blank : ∀ byte ∈ space, isWhitespace byte) (written : known text value) (rest : Bytes) :
    takeValue next (space ++ text ++ rest) = .ok (value, rest) := by
  have split : (splitAt (space ++ text ++ rest) (space.length + text.length) :
      Outcome Empty (Bytes × Bytes)) = .ok (space ++ text, rest) := by
    rw [← List.length_append]
    exact splitAt_append _ _
  simp only [takeValue, deserializes.reads space text rest value blank written, split,
    Outcome.ok_bind, Outcome.pure_eq_ok]

/-- A value that is read takes bytes. -/
theorem length_of_takeValue {α : Type} {next : StreamDeserializer α} {known : Bytes → α → Prop}
    (deserializes : Deserializes next known) {src rest : Bytes} {value : α}
    (taken : takeValue next src = .ok (value, rest)) : rest.length < src.length := by
  unfold takeValue at taken
  split at taken
  · rename_i found offset answered
    simp only [Outcome.bind_eq_ok, Outcome.pure_eq_ok, Outcome.ok.injEq, Prod.mk.injEq] at taken
    obtain ⟨⟨front, behind⟩, split, rfl, rfl⟩ := taken
    obtain ⟨space, text, _, _, _, nonempty, rfl⟩ := deserializes.offset src found offset answered
    obtain ⟨length, rfl⟩ := splitAt_eq_ok split
    have positive := List.length_pos_iff.mpr nonempty
    simp only [List.length_append]
    omega
  · cases taken
  · cases taken

/-- An item that is taken takes bytes. -/
theorem length_of_takeItem (reads : json.Reads texts) {src : Bytes} {item : Option Item}
    {parser : StateParser} (taken : StateParser.takeItem json src = .ok (item, parser)) :
    item.isSome ∧ parser.src.length < src.length := by
  simp only [StateParser.takeItem, Outcome.bind_eq_ok, Outcome.pure_eq_ok, Outcome.ok.injEq,
    Prod.mk.injEq] at taken
  obtain ⟨⟨addr, second⟩, address, third, separated, ⟨account, fourth⟩, object, rfl, rfl⟩ := taken
  have afterAddress := length_of_takeValue reads.string address
  have afterSeparator := length_of_strip separated
  have afterObject := length_of_takeValue reads.account object
  refine ⟨rfl, ?_⟩
  simp only at afterAddress afterObject afterSeparator ⊢
  omega

/-- What one call of `next` can do. -/
inductive NextEffect (json : SerdeJson) (before : StateParser) (item : Option Item)
    (after : StateParser) : Prop where
  /-- The iteration was over. -/
  | finished (state : before.state = .ended) (none : item = none) (same : after = before)
  /-- The end of the state was found. -/
  | ended (rest : Bytes) (found : before.src = exportedStateEnd ++ rest) (none : item = none)
      (stop : after = ⟨rest, .ended⟩)
  /-- An item was taken, behind the separator of the item before. -/
  | taken (src : Bytes) (separated : src.length ≤ before.src.length)
      (took : StateParser.takeItem json src = .ok (item, after))

theorem nextEffect_of {before after : StateParser} {item : Option Item}
    (returned : before.next json = .ok (item, after)) : NextEffect json before item after := by
  unfold StateParser.next at returned
  split at returned
  · rename_i stopped
    cases returned
    exact .finished stopped rfl rfl
  · rw [Outcome.bind_eq_ok] at returned
    obtain ⟨⟨ending, rest⟩, split, returned⟩ := returned
    simp only at returned
    split at returned
    · rename_i found
      cases returned
      exact .ended rest (by rw [← found]; exact (splitAt_eq_ok split).2) rfl rfl
    · rw [Outcome.bind_eq_ok] at returned
      obtain ⟨src, separated, took⟩ := returned
      refine .taken src ?_ took
      unfold StateParser.skipSep at separated
      split at separated
      · exact length_of_strip separated
      · cases separated
        exact Nat.le_refl _

/-- The iterator returns what `next` returns. -/
theorem next_of_event {event : ParserEvent} (step : event.Of (parserMachine json)) :
    event.before.next json = .ok (event.output, event.after) := by
  unfold Event.Of parserMachine at step
  split at step
  · rename_i item parser returned
    cases step
    exact returned
  · cases step

/-- The separator in front of the next item. -/
def StateParsingState.lead : StateParsingState → Bytes
  | .middle => exportedStateAccountSep
  | _ => []

theorem next_of_ended (src : Bytes) :
    (StateParser.mk src .ended).next json = .ok (none, ⟨src, .ended⟩) := rfl

/-- At the end of the state the iteration ends. -/
theorem next_at_end {state : StateParsingState} (going : state ≠ .ended) (rest : Bytes) :
    (StateParser.mk (exportedStateEnd ++ rest) state).next json = .ok (none, ⟨rest, .ended⟩) := by
  simp [StateParser.next, going, splitAt_append]

/-- The separator is skipped. -/
theorem skipSep_lead (state : StateParsingState) (src : Bytes) :
    (StateParser.mk (state.lead ++ src) state).skipSep = .ok src := by
  cases state with
  | first => rfl
  | middle => exact strip_append _ _
  | ended => rfl

/-- Behind a separator or on a new line with another byte the state does not end. -/
theorem next_of_other {parser : StateParser} (going : parser.state ≠ .ended)
    (long : 3 ≤ parser.src.length) (other : parser.src.take 2 ≠ [10, 125]) :
    parser.next json = (do StateParser.takeItem json (← parser.skipSep)) := by
  have notEnd : parser.src.take 3 ≠ exportedStateEnd := by
    intro same
    apply other
    have front := congrArg (List.take 2) same
    rwa [List.take_take] at front
  have split : (splitAt parser.src exportedStateEnd.length : Outcome Empty (Bytes × Bytes)) =
      .ok (parser.src.take 3, parser.src.drop 3) := if_pos long
  rw [StateParser.next, if_neg going, split, Outcome.ok_bind]
  simp only [if_neg notEnd]

/-- In front of an item it is returned. -/
theorem next_at_entry (reads : json.Reads texts) {state : StateParsingState}
    (going : state ≠ .ended) {text : Bytes} {item : Item} (entry : texts.EntryText text item)
    (rest : Bytes) :
    (StateParser.mk (state.lead ++ (text ++ rest)) state).next json =
      .ok (some item, ⟨rest, .middle⟩) := by
  obtain ⟨addr, account, address, object, rfl⟩ := entry
  obtain ⟨inner, quoted⟩ := texts.quoted addr _ address
  have newline : ∀ byte ∈ [(10 : UInt8)], isWhitespace byte := by simp [isWhitespace]
  have takesAddress := takeValue_of_text reads.string newline address
    (exportedStateAddrSep ++ (account ++ rest))
  have takesAccount : takeValue json.account (account ++ rest) = .ok (item.2, rest) :=
    takeValue_of_text reads.account (List.forall_mem_nil _) object rest
  have regroup : 10 :: addr ++ exportedStateAddrSep ++ account ++ rest =
      [10] ++ addr ++ (exportedStateAddrSep ++ (account ++ rest)) := by simp
  rw [next_of_other going, skipSep_lead, regroup]
  · simp only [StateParser.takeItem, Outcome.ok_bind, takesAddress, strip_append, takesAccount,
      Outcome.pure_eq_ok]
  · rw [quoted]
    simp only [List.length_append, List.length_cons]
    omega
  · rw [quoted]
    cases state with
    | first => simp [StateParsingState.lead]
    | middle => simp [StateParsingState.lead, exportedStateAccountSep]
    | ended => exact absurd rfl going

end Calls

section Iteration

variable {json : SerdeJson} {texts : JsonTexts}

theorem iterate_succ {parser after : StateParser} {item : Option Item}
    (returned : parser.next json = .ok (item, after)) (calls : Nat) :
    iterate json parser (calls + 1) = ⟨parser, (), item, after⟩ :: iterate json after calls := by
  rw [iterate, List.replicate_succ, run_cons_some]
  · rfl
  · simp only [parserMachine, returned]

/-- When the iteration is over every call returns `None`. -/
theorem iterate_of_ended (src : Bytes) (calls : Nat) :
    (iterate json ⟨src, .ended⟩ calls).map (·.output) = List.replicate calls none := by
  induction calls with
  | zero => rfl
  | succ calls ih =>
    rw [iterate_succ (next_of_ended src), List.map_cons, ih, List.replicate_succ]

/-- The entries that are left, each behind its separator. -/
def remaining : StateParsingState → List Bytes → Bytes
  | _, [] => []
  | state, entry :: entries => state.lead ++ (entry ++ remaining .middle entries)

theorem remaining_first (entries : List Bytes) :
    remaining .first entries = exportedStateAccountSep.intercalate entries := by
  induction entries with
  | nil => rfl
  | cons entry entries ih =>
    cases entries with
    | nil => simp [remaining, StateParsingState.lead, List.intercalate]
    | cons second entries =>
      have joined : exportedStateAccountSep.intercalate (entry :: second :: entries) =
          entry ++ (exportedStateAccountSep ++
            exportedStateAccountSep.intercalate (second :: entries)) := by
        simp [List.intercalate]
      rw [joined, ← ih]
      rfl

/-- From any point of an exported state the iterator returns the items that are left, and then
`None`. -/
theorem iterate_remaining (reads : json.Reads texts) {entries : List Bytes} {items : List Item}
    (written : List.Forall₂ texts.EntryText entries items) (trailing : Bytes)
    {state : StateParsingState} (going : state ≠ .ended) (calls : Nat) :
    (iterate json ⟨remaining state entries ++ (exportedStateEnd ++ trailing), state⟩ calls).map
        (·.output) = (List.range calls).map fun index => items[index]? := by
  -- Every entry takes one call, after which the parser is in the middle.
  induction written generalizing state calls with
  | nil =>
    cases calls with
    | zero => rfl
    | succ calls =>
      rw [remaining, List.nil_append, iterate_succ (next_at_end going trailing), List.map_cons,
        iterate_of_ended]
      simp [List.map_const', List.replicate_succ]
  | @cons entry item entries items first _ ih =>
    cases calls with
    | zero => rfl
    | succ calls =>
      rw [remaining, List.append_assoc, List.append_assoc,
        iterate_succ (next_at_entry reads going first _), List.map_cons, ih (by decide) calls,
        List.range_succ_eq_map, List.map_cons, List.map_map]
      rfl

/-- No call makes the input longer, and one that returns an item makes it shorter. -/
theorem length_of_step (reads : json.Reads texts) {event : ParserEvent}
    (step : event.Of (parserMachine json)) :
    event.after.src.length ≤ event.before.src.length ∧
      (event.output.isSome → event.after.src.length < event.before.src.length) ∧
      (event.output = none → event.after.state = .ended) := by
  cases nextEffect_of (next_of_event step) with
  | finished state none same =>
    rw [same, none]
    exact ⟨Nat.le_refl _, by simp, fun _ => state⟩
  | ended rest found none stop =>
    rw [stop, none, found, List.length_append]
    exact ⟨Nat.le_add_left _ _, by simp, fun _ => rfl⟩
  | taken src separated took =>
    obtain ⟨some, shorter⟩ := length_of_takeItem reads took
    have less := Nat.lt_of_lt_of_le shorter separated
    refine ⟨Nat.le_of_lt less, fun _ => less, ?_⟩
    intro none
    rw [none] at some
    cases some

/-- The parser recovers every exported account. On the text of an exported state, whatever follows
it, it does not panic, and returns the items in their order and then `None`. And from any state,
whatever it is given, a call that returns an item shortens the input, so that there are no more
such calls than bytes, and a call that returns `None` ends the iteration. -/
theorem exported_accounts_recovered (json : SerdeJson) (texts : JsonTexts)
    (reads : json.Reads texts) :
    (∀ items text trailing, texts.Exports items text →
      ∃ parser, StateParser.new (text ++ trailing) = .ok parser ∧
        ∀ calls, (iterate json parser calls).map (·.output) =
          (List.range calls).map fun index => items[index]?) ∧
    ∀ parser calls,
      (∀ event ∈ iterate json parser calls,
        (event.output.isSome → event.after.src.length < event.before.src.length) ∧
        (event.output = none → event.after.state = .ended)) ∧
      (iterate json parser calls).countP (·.output.isSome) ≤ parser.src.length ∧
      (parser.src.length < calls → (iterate json parser calls).length = calls →
        ∃ event ∈ iterate json parser calls, event.output = none) := by
  refine ⟨?_, ?_⟩
  · rintro items text trailing ⟨entries, written, rfl⟩
    refine ⟨⟨remaining .first entries ++ (exportedStateEnd ++ trailing), .first⟩, ?_, ?_⟩
    · rw [List.append_assoc, List.append_assoc, ← remaining_first]
      simp only [StateParser.new, strip_append, Outcome.ok_bind, Outcome.pure_eq_ok]
    · intro calls
      exact iterate_remaining reads written trailing (by decide) calls
  · intro parser calls
    have few : (iterate json parser calls).countP (·.output.isSome) ≤ parser.src.length :=
      run_countP_le (fun parser => parser.src.length) (fun event => event.output.isSome)
        (fun _ step => (length_of_step reads step).2.1)
        (fun _ step => (length_of_step reads step).1)
    refine ⟨fun event member => (length_of_step reads (of_mem_run member)).2, few, ?_⟩
    intro enough complete
    by_contra never
    have all : (iterate json parser calls).countP (·.output.isSome) =
        (iterate json parser calls).length := by
      rw [List.countP_eq_length]
      intro event member
      rw [Option.isSome_iff_ne_none]
      exact fun none => never ⟨event, member, none⟩
    omega

end Iteration

/-- A deserializer that knows some texts, which all have one length. -/
def readTexts {α : Type} (size : Nat) (known : List (Bytes × α)) : StreamDeserializer α :=
    fun src =>
  let body := src.dropWhile isWhitespace
  if body = [] then none
  else
    match known.lookup (body.take size) with
    | some value => some (.ok (value, (src.takeWhile isWhitespace).length + size))
    | none => some (.error "unexpected text")

theorem mem_of_lookup {α : Type} {known : List (Bytes × α)} {text : Bytes} {value : α}
    (found : known.lookup text = some value) : (text, value) ∈ known := by
  obtain ⟨before, after, rfl, _⟩ := List.lookup_eq_some_iff.mp found
  simp

theorem readTexts_deserializes {α : Type} {size : Nat} {known : List (Bytes × α)}
    (sized : ∀ entry ∈ known,
      entry.1.length = size ∧ entry.1.head?.map isWhitespace = some false) :
    Deserializes (readTexts size known) fun text value => known.lookup text = some value where
  reads := by
    intro space text rest value blank found
    obtain ⟨rfl, visible⟩ := sized _ (mem_of_lookup found)
    obtain ⟨first, starts, shown⟩ := Option.map_eq_some_iff.mp visible
    obtain ⟨more, rfl⟩ := List.head?_eq_some_iff.mp starts
    have front : (space ++ (first :: more) ++ rest).takeWhile isWhitespace = space := by
      rw [List.append_assoc, List.takeWhile_append_of_pos blank, List.cons_append,
        List.takeWhile_cons_of_neg (by simp [shown]), List.append_nil]
    have body : (space ++ (first :: more) ++ rest).dropWhile isWhitespace =
        (first :: more) ++ rest := by
      rw [List.append_assoc, List.dropWhile_append_of_pos blank, List.cons_append,
        List.dropWhile_cons_of_neg (by simp [shown])]
    simp only [readTexts, front, body, List.take_left, found]
    simp
  offset := by
    intro src found offset answered
    simp only [readTexts] at answered
    split at answered
    · cases answered
    · split at answered
      · rename_i value looked
        cases answered
        obtain ⟨length, visible⟩ := sized _ (mem_of_lookup looked)
        refine ⟨src.takeWhile isWhitespace, (src.dropWhile isWhitespace).take size,
          (src.dropWhile isWhitespace).drop size, ?_, ?_, ?_, congrArg _ length.symm⟩
        · rw [List.append_assoc, List.take_append_drop, List.takeWhile_append_dropWhile]
        · exact List.all_eq_true.mp List.all_takeWhile
        · intro empty
          rw [empty] at visible
          cases visible
      · cases answered

/-- Two strings and their texts. -/
def sampleStrings : List (Bytes × String) := [([34, 97, 34], "a"), ([34, 98, 34], "b")]

/-- A parser that knows these strings and some accounts. -/
def jsonOf (size : Nat) (accounts : List (Bytes × ExportedAccount)) : SerdeJson :=
  ⟨readTexts 3 sampleStrings, readTexts size accounts⟩

/-- The texts that it knows. -/
def textsOf (accounts : List (Bytes × ExportedAccount)) : JsonTexts where
  string text value := sampleStrings.lookup text = some value
  account text value := accounts.lookup text = some value
  quoted := by
    intro text value found
    have member := mem_of_lookup found
    simp only [sampleStrings, List.mem_cons, List.not_mem_nil, or_false, Prod.mk.injEq] at member
    rcases member with ⟨rfl, _⟩ | ⟨rfl, _⟩
    · exact ⟨[97], rfl⟩
    · exact ⟨[98], rfl⟩

theorem jsonOf_reads {size : Nat} {accounts : List (Bytes × ExportedAccount)}
    (sized : ∀ entry ∈ accounts,
      entry.1.length = size ∧ entry.1.head?.map isWhitespace = some false) :
    (jsonOf size accounts).Reads (textsOf accounts) where
  string := readTexts_deserializes (by decide)
  account := readTexts_deserializes sized

/-- An account without code and storage. -/
def sampleAccount : ExportedAccount := ⟨"0", "0", none, none⟩

/-- A parser that knows one account. -/
def sampleJson : SerdeJson := jsonOf 2 [([123, 125], sampleAccount)]

/-- A state with the account twice. -/
def twoAccounts : Bytes :=
  exportedStateStart ++ [10, 34, 97, 34, 58, 32, 123, 125, 44, 10, 34, 97, 34, 58, 32, 123, 125] ++
    exportedStateEnd

/-- Both accounts are returned, and then `None`. -/
theorem two_accounts_recovered :
    ∃ parser, StateParser.new (twoAccounts ++ [10]) = .ok parser ∧
      (iterate sampleJson parser 4).map (·.output) =
        [some ("a", sampleAccount), some ("a", sampleAccount), none, none] := by
  have entry : (textsOf [([123, 125], sampleAccount)]).EntryText
      [10, 34, 97, 34, 58, 32, 123, 125] ("a", sampleAccount) :=
    ⟨[34, 97, 34], [123, 125], rfl, rfl, rfl⟩
  obtain ⟨parser, opened, returned⟩ := (exported_accounts_recovered sampleJson _
    (jsonOf_reads (by decide))).1 [("a", sampleAccount), ("a", sampleAccount)] twoAccounts [10]
    ⟨_, .cons entry (.cons entry .nil), rfl⟩
  exact ⟨parser, opened, returned 4⟩

end Ethwasi.Genesis
