import Ethwasi.Gateway.BlockFilter
import Ethwasi.Gateway.FailedPoll

/-!
# Errors of polls

A poll of a log filter moves the cursor to the block after the latest one. The next poll starts
its query there, and the translator resolves both ends of a range to blocks that exist. So when
no block was added in between, the poll does not return an empty list: it fails, because the
block at the cursor is not found. The other kinds of filters never fail while the node answers.
A node may add blocks during a request; the answers before the lock and after it are given
separately.
-/

namespace Ethwasi.Gateway

open Ethwasi.Rust Ethwasi.Runtime Ethwasi.Transition

variable {σ V τ : Type} (host : Host σ V) (polls : PollManager τ)

/-- `filter_changes`, with the answers of the node before the lock and after it. -/
def pollChanges (first second : NodeClient V) (table : τ) (id : Nat) :
    Except RpcError FilterChanges × τ :=
  match first.getLatestBlock with
  | .error message => (.error (.call message), table)
  | .ok block =>
    let (updates, table) := takeUpdates polls table id block.round
    (runUpdates (.ofClient host second) updates, table)

/-- While the node does not move, this is `filter_changes`. -/
theorem pollChanges_self (client : NodeClient V) (table : τ) (id : Nat) :
    pollChanges host polls client client table id =
      filterChanges polls (.ofClient host client) table id := by
  cases latest : client.getLatestBlock with
  | error message => simp [pollChanges, filterChanges, Translator.ofClient, latest]
  | ok block => simp [pollChanges, filterChanges, Translator.ofClient, latest]

/-- A request to the filter interface, with the answers of the node, or the end of a filter's
time. -/
inductive FilterRequest (V : Type) where
  | newFilter (client : NodeClient V) (filter : Filter)
  | newBlockFilter (client : NodeClient V)
  | newPendingTransactionFilter
  | filterChanges (id : Nat) (first second : NodeClient V)
  | uninstallFilter (id : Nat)
  | expire (id : Nat)

/-- A request and the latest block of the node when it is finished. -/
structure FilterCall (V : Type) where
  request : FilterRequest V
  head : Nat

/-- What a request returns. -/
inductive FilterReply where
  | created (result : Except RpcError Nat)
  | changes (result : Except RpcError FilterChanges)
  | removed (found : Bool)
  | expired

/-- The latest block of the node and the table of filters. -/
structure FilterWorld (τ : Type) where
  head : Nat
  table : τ

/-- What a request does to the table. -/
def serveFilter (table : τ) : FilterRequest V → FilterReply × τ
  | .newFilter client filter =>
    let (result, table) := newFilter polls (.ofClient host client) table filter
    (.created result, table)
  | .newBlockFilter client =>
    let (result, table) := newBlockFilter polls (.ofClient host client) table
    (.created result, table)
  | .newPendingTransactionFilter =>
    let (id, table) := newPendingTransactionFilter polls table
    (.created (.ok id), table)
  | .filterChanges id first second =>
    let (result, table) := pollChanges host polls first second table id
    (.changes result, table)
  | .uninstallFilter id =>
    let (found, table) := uninstallFilter polls table id
    (.removed found, table)
  | .expire id => (.expired, polls.expire table id)

/-- One request. -/
def filterMachine : Machine (FilterWorld τ) (FilterCall V) FilterReply := fun world call =>
  let (reply, table) := serveFilter host polls world.table call.request
  some (reply, ⟨call.head, table⟩)

/-- A request together with what it returned. -/
abbrev FilterEvent (V τ : Type) := Event (FilterWorld τ) (FilterCall V) FilterReply

/-- The node answers every request, and a block is missing only above the latest one. -/
structure Answering (client : NodeClient V) (head : Nat) : Prop where
  latest : ∃ hash, client.getLatestBlock = .ok ⟨head, hash⟩
  block : ∀ round, ∃ found, client.getBlock round = .ok found ∧ (found = none → head < round)
  indexed : ∀ round, client.waitBlockIndexed round = .ok ()
  queried : ∀ query, ∃ txns, client.queryTxs query = .ok txns

/-- The node answers a request while its latest block moves from one to the other. -/
def FilterRequest.Answered (before after : Nat) : FilterRequest V → Prop
  | .newFilter client _ => before ≤ after ∧ Answering client after
  | .newBlockFilter client => before ≤ after ∧ Answering client after
  | .newPendingTransactionFilter => before ≤ after
  | .filterChanges _ first second =>
    ∃ middle, before ≤ middle ∧ middle ≤ after ∧ Answering first middle ∧ Answering second after
  | .uninstallFilter _ => before ≤ after
  | .expire _ => before ≤ after

/-- The node answers the request of an event and does not lose blocks. -/
def AnsweredEvent (event : FilterEvent V τ) : Prop :=
  event.input.request.Answered event.before.head event.after.head

/-- An earlier poll of the filter, which saw a block of the chain, put the cursor where it is. -/
def PolledTo (past : List (FilterEvent V τ)) (head id cursor : Nat) : Prop :=
  ∃ polled ∈ past, ∃ first second block, polled.input.request = .filterChanges id first second ∧
    first.getLatestBlock = .ok block ∧ block.round ≤ head ∧ cursor = nextRound block.round

/-- The cursor of every log filter is on the chain, or was put there by a poll. -/
def CursorsKnown (past : List (FilterEvent V τ)) (world : FilterWorld τ) : Prop :=
  ∀ id cursor filter, polls.poll world.table id = some (.logs cursor filter) →
    cursor ≤ world.head ∨ PolledTo past world.head id cursor

variable {host polls} {first second client : NodeClient V} {head middle : Nat}

theorem exists_error_iff {ε α : Type} {result : Except ε α} :
    (∃ error, result = .error error) ↔ ¬∃ value, result = .ok value := by
  cases result with
  | error error => simp
  | ok value => simp

theorem Answering.found_of_le (answering : Answering client head) {round : Nat}
    (known : round ≤ head) : ∃ block, client.getBlock round = .ok (some block) := by
  obtain ⟨found, answer, missing⟩ := answering.block round
  cases found with
  | none => exact absurd (missing rfl) (Nat.not_lt.mpr known)
  | some block => exact ⟨block, answer⟩

/-- A log search from a block to the latest one fails exactly when the first block is missing. -/
theorem requestsAnswered_logs_iff (answering : Answering client head) (filter : Filter)
    (cursor : Nat) :
    RequestsAnswered client
        (.logs { filter with fromBlock := .number cursor, toBlock := .latest }) ↔
      client.getBlock cursor ≠ .ok none := by
  obtain ⟨hash, latest⟩ := answering.latest
  obtain ⟨found, answer, _⟩ := answering.block cursor
  have resolvedTo : getBlockUnwrap client .latest = .ok ⟨head, hash⟩ := by
    simp only [getBlockUnwrap, getBlock, latest, Except.map]
  cases found with
  | none =>
    have unresolved : getBlockUnwrap client (.number cursor) = .error "block not found" := by
      simp only [getBlockUnwrap, getBlock, answer]
    simp [RequestsAnswered, unresolved, answer]
  | some block =>
    have resolvedFrom : getBlockUnwrap client (.number cursor) = .ok block := by
      simp only [getBlockUnwrap, getBlock, answer]
    constructor
    · intro _ missing
      rw [answer] at missing
      cases missing
    · intro _
      exact ⟨block, ⟨head, hash⟩, resolvedFrom, resolvedTo, answering.indexed _,
        answering.queried _⟩

/-- A poll fails exactly when the filter is not installed, or is a log filter whose next block is
missing. -/
theorem pollChanges_error_iff (host : Host σ V) (polls : PollManager τ)
    (fetched : Answering first middle) (ran : Answering second head) (grown : middle ≤ head)
    (table : τ) (id : Nat) :
    (∃ error, (pollChanges host polls first second table id).1 = .error error) ↔
      polls.poll table id = none ∨
        ∃ cursor filter, polls.poll table id = some (.logs cursor filter) ∧
          second.getBlock cursor = .ok none := by
  obtain ⟨hash, latest⟩ := fetched.latest
  have polled : (pollChanges host polls first second table id).1 =
      runUpdates (.ofClient host second) (takeUpdates polls table id middle).1 := by
    simp only [pollChanges, latest]
  rw [polled]
  cases installed : polls.poll table id with
  | none => simp [takeUpdates, installed, runUpdates]
  | some filter =>
    have found := (takeUpdates_polls installed middle).1
    rw [exists_error_iff, runUpdates_isOk_iff host second found]
    cases filter with
    | block number =>
      have answered : RequestsAnswered second (.blocks number middle) := by
        intro round member
        have within := (mem_rounds.mp member).2
        exact ran.found_of_le (Nat.le_trans within grown)
      simp [takeUpdates, installed, answered]
    | pendingTransaction hashes => simp [takeUpdates, installed, RequestsAnswered]
    | logs cursor filter =>
      have answered := requestsAnswered_logs_iff ran filter cursor
      simp only [takeUpdates, installed, answered]
      simp

/-- Where the cursor of a log filter comes from. -/
inductive CursorSource (polls : PollManager τ) (table : τ) (request : FilterRequest V)
    (id cursor : Nat) (filter : Filter) : Prop where
  /-- The filter had it before. -/
  | kept (installed : polls.poll table id = some (.logs cursor filter))
  /-- The filter was created at the latest block. -/
  | created (client : NodeClient V) (block : EthereumBlock)
      (input : request = .newFilter client filter)
      (latest : client.getLatestBlock = .ok block) (start : cursor = block.round)
  /-- The filter was polled. -/
  | polled (first second : NodeClient V) (block : EthereumBlock)
      (input : request = .filterChanges id first second)
      (latest : first.getLatestBlock = .ok block) (next : cursor = nextRound block.round)

/-- A new filter leaves the others alone. -/
theorem createPoll_polls {table : τ} {created : PollFilter} {id : Nat} {found : PollFilter}
    (installed : polls.poll (polls.createPoll table created).2 id = some found) :
    polls.poll table id = some found ∨ found = created := by
  rw [polls.poll_createPoll] at installed
  by_cases same : id = (polls.createPoll table created).1
  · rw [same, Function.update_self] at installed
    exact .inr (Option.some.inj installed).symm
  · rw [Function.update_of_ne same] at installed
    exact .inl installed

/-- A filter that is there after another one was dropped was there before. -/
theorem poll_of_update_none {table : τ} {removed id : Nat} {found : PollFilter}
    (installed : Function.update (polls.poll table) removed none id = some found) :
    polls.poll table id = some found := by
  by_cases same : id = removed
  · rw [same, Function.update_self] at installed
    cases installed
  · rwa [Function.update_of_ne same] at installed

/-- Taking the cursor of a filter leaves the other filters alone. -/
theorem takeUpdates_polls_of_ne {table : τ} {id other head : Nat} (different : other ≠ id) :
    polls.poll (takeUpdates polls table id head).2 other = polls.poll table other := by
  unfold takeUpdates
  split
  · rfl
  · rename_i number installed
    rw [polls.poll_setPoll _ _ _ (by simp [installed]), Function.update_of_ne different]
  · rfl
  · rename_i cursor filter installed
    rw [polls.poll_setPoll _ _ _ (by simp [installed]), Function.update_of_ne different]

/-- After a poll, a log filter is one of the others or stands behind the fetched block. -/
theorem takeUpdates_logs {table : τ} {polled id head cursor : Nat} {filter : Filter}
    (installed :
      polls.poll (takeUpdates polls table polled head).2 id = some (.logs cursor filter)) :
    polls.poll table id = some (.logs cursor filter) ∨ id = polled ∧ cursor = nextRound head := by
  by_cases same : id = polled
  · subst same
    unfold takeUpdates at installed
    split at installed
    · exact .inl installed
    · rename_i number found
      rw [polls.poll_setPoll_self found] at installed
      cases installed
    · exact .inl installed
    · rename_i before wanted found
      rw [polls.poll_setPoll_self found] at installed
      cases installed
      exact .inr ⟨rfl, rfl⟩
  · rw [takeUpdates_polls_of_ne same] at installed
    exact .inl installed

/-- Every cursor after a request has one of the sources. -/
theorem cursorSource_of {table : τ} {request : FilterRequest V} {id cursor : Nat} {filter : Filter}
    (installed : polls.poll (serveFilter host polls table request).2 id =
      some (.logs cursor filter)) :
    CursorSource polls table request id cursor filter := by
  cases request with
  | newFilter client wanted =>
    simp only [serveFilter, newFilter, Translator.ofClient] at installed
    cases latest : client.getLatestBlock with
    | error message =>
      rw [latest] at installed
      exact .kept installed
    | ok block =>
      rw [latest] at installed
      rcases createPoll_polls installed with before | new
      · exact .kept before
      · cases new
        exact .created client block rfl latest rfl
  | newBlockFilter client =>
    simp only [serveFilter, newBlockFilter, Translator.ofClient] at installed
    cases latest : client.getLatestBlock with
    | error message =>
      rw [latest] at installed
      exact .kept installed
    | ok block =>
      rw [latest] at installed
      rcases createPoll_polls installed with before | new
      · exact .kept before
      · cases new
  | newPendingTransactionFilter =>
    rcases createPoll_polls installed with before | new
    · exact .kept before
    · cases new
  | filterChanges polled first second =>
    simp only [serveFilter, pollChanges] at installed
    cases latest : first.getLatestBlock with
    | error message =>
      rw [latest] at installed
      exact .kept installed
    | ok block =>
      rw [latest] at installed
      rcases takeUpdates_logs installed with before | ⟨rfl, next⟩
      · exact .kept before
      · exact .polled first second block rfl latest next
  | uninstallFilter removed =>
    simp only [serveFilter, uninstallFilter, polls.poll_removePoll] at installed
    exact .kept (poll_of_update_none installed)
  | expire dropped =>
    simp only [serveFilter, polls.poll_expire] at installed
    exact .kept (poll_of_update_none installed)

theorem FilterRequest.Answered.grown {before after : Nat} {request : FilterRequest V}
    (answered : request.Answered before after) : before ≤ after := by
  cases request with
  | newFilter client filter => exact answered.1
  | newBlockFilter client => exact answered.1
  | newPendingTransactionFilter => exact answered
  | filterChanges id first second =>
    obtain ⟨middle, lower, upper, _⟩ := answered
    exact Nat.le_trans lower upper
  | uninstallFilter id => exact answered
  | expire id => exact answered

/-- Every answered request keeps the cursors known. -/
theorem cursorsKnown_step (past : List (FilterEvent V τ)) (event : FilterEvent V τ)
    (step : event.Of (filterMachine host polls)) (answered : AnsweredEvent event)
    (held : CursorsKnown polls past event.before) :
    CursorsKnown polls (past ++ [event]) event.after := by
  obtain ⟨before, ⟨request, head⟩, output, after⟩ := event
  simp only [Event.Of, filterMachine, Option.some.injEq, Prod.mk.injEq] at step
  obtain ⟨rfl, rfl⟩ := step
  have grown := answered.grown
  intro id cursor filter installed
  cases cursorSource_of installed with
  | kept unchanged =>
    rcases held id cursor filter unchanged with
      onChain | ⟨polled, member, first, second, block, input, latest, seen, next⟩
    · exact .inl (Nat.le_trans onChain grown)
    · exact .inr ⟨polled, List.mem_append_left _ member, first, second, block, input, latest,
        Nat.le_trans seen grown, next⟩
  | created client block input latest start =>
    subst input
    obtain ⟨hash, known⟩ := answered.2.latest
    rw [latest] at known
    cases known
    exact .inl (Nat.le_of_eq start)
  | polled first second block input latest next =>
    subst input
    obtain ⟨middle, _, upper, fetched, _⟩ := answered
    obtain ⟨hash, known⟩ := fetched.latest
    have seen : block.round ≤ head := by
      rw [latest] at known
      cases known
      exact upper
    exact .inr ⟨_, List.mem_append_right _ List.mem_cons_self, first, second, block, rfl, latest,
      seen, next⟩

/-- In every run of requests that the node answers, a poll fails if and only if its filter is not
installed, exactly when the block at the cursor of a polled log filter is not missing. It is
missing only when an earlier poll of the filter already saw the latest block. -/
theorem polls_fail_only_when_uninstalled_iff (polls : PollManager τ) (head : Nat)
    (calls : List (FilterCall V)) (events : List (FilterEvent V τ))
    (ran : run (filterMachine host polls) ⟨head, polls.new⟩ calls = events)
    (answered : ∀ event ∈ events, AnsweredEvent event) (earlier later : List (FilterEvent V τ))
    (event : FilterEvent V τ) (split : events = earlier ++ event :: later) (id : Nat)
    (first second : NodeClient V) (poll : event.input.request = .filterChanges id first second) :
    (((∃ error, event.output = .changes (.error error)) ↔
        polls.poll event.before.table id = none) ↔
      ∀ cursor filter, polls.poll event.before.table id = some (.logs cursor filter) →
        second.getBlock cursor ≠ .ok none) ∧
    ∀ cursor filter, polls.poll event.before.table id = some (.logs cursor filter) →
      second.getBlock cursor = .ok none →
      ∃ polled ∈ earlier, ∃ fetched ran block,
        polled.input.request = .filterChanges id fetched ran ∧
        fetched.getLatestBlock = .ok block ∧ cursor = block.round + 1 ∧
        event.after.head ≤ block.round := by
  subst ran
  have member : event ∈ run (filterMachine host polls) ⟨head, polls.new⟩ calls := by
    rw [split]
    simp
  have step := of_mem_run member
  have answers := answered event member
  have initial : CursorsKnown polls ([] : List (FilterEvent V τ)) ⟨head, polls.new⟩ := by
    intro id cursor filter installed
    rw [polls.poll_new] at installed
    cases installed
  have known := (run_history AnsweredEvent (CursorsKnown polls) cursorsKnown_step [] initial
    answered).1 earlier event later split
  obtain ⟨before, ⟨request, after⟩, output, reached⟩ := event
  simp only at poll
  subst poll
  simp only [Event.Of, filterMachine, serveFilter, Option.some.injEq, Prod.mk.injEq] at step
  obtain ⟨rfl, rfl⟩ := step
  obtain ⟨middle, lower, upper, fetched, queried⟩ := answers
  constructor
  · have failed := pollChanges_error_iff host polls fetched queried upper before.table id
    simp only [FilterReply.changes.injEq, failed]
    cases installed : polls.poll before.table id with
    | none => simp
    | some filter => simp
  · intro cursor filter installed missing
    obtain ⟨found, answer, above⟩ := queried.block cursor
    rw [missing] at answer
    cases answer
    have beyond := above rfl
    rcases known id cursor filter installed with onChain | ⟨polled, inPast, found⟩
    · simp only at onChain beyond lower upper
      omega
    · -- the cursor lies behind a block that was seen, so it did not wrap
      obtain ⟨polledFirst, polledSecond, block, input, latest, seen, next⟩ := found
      have behind := nextRound_le block.round
      simp only at beyond seen lower upper ⊢
      refine ⟨polled, inPast, polledFirst, polledSecond, block, input, latest, ?_, ?_⟩
      · omega
      · omega

/-- A node without transactions that answers everything. -/
def calmNode (head : Nat) : NodeClient SampleValue where
  getLatestBlock := .ok ⟨head, FixedBytes.filled 32 0⟩
  getBlock round := .ok (if round ≤ head then some ⟨round, FixedBytes.filled 32 0⟩ else none)
  getBlockByHash _ := .ok none
  waitBlockIndexed _ := .ok ()
  queryTxs _ := .ok []

theorem calmNode_answering (head : Nat) : Answering (calmNode head) head where
  latest := ⟨_, rfl⟩
  block round := by
    refine ⟨_, rfl, ?_⟩
    intro missing
    by_contra known
    rw [if_pos (Nat.not_lt.mp known)] at missing
    cases missing
  indexed _ := rfl
  queried _ := ⟨[], rfl⟩

/-- The filter interface in front of a node at block five, without filters. -/
def worldAtFive : FilterWorld (List (Option PollFilter)) := ⟨5, pollList.new⟩

/-- A log filter is created at block five and polled there, and polled again at a later block. -/
def pollTwice (last : Nat) : List (FilterCall SampleValue) :=
  [⟨.newFilter (calmNode 5) ⟨.earliest, .latest, none, [], none⟩, 5⟩,
    ⟨.filterChanges 0 (calmNode 5) (calmNode 5), 5⟩,
    ⟨.filterChanges 0 (calmNode last) (calmNode last), last⟩]

theorem pollTwice_answered {last : Nat} (grown : 5 ≤ last) :
    ∀ event ∈ run (filterMachine sampleHost pollList) worldAtFive (pollTwice last),
      AnsweredEvent event := by
  simp only [pollTwice, run, filterMachine, List.forall_mem_cons]
  refine ⟨⟨Nat.le_refl _, calmNode_answering 5⟩, ?_, ?_, ?_⟩
  · exact ⟨5, Nat.le_refl _, Nat.le_refl _, calmNode_answering 5, calmNode_answering 5⟩
  · exact ⟨last, grown, Nat.le_refl _, calmNode_answering last, calmNode_answering last⟩
  · simp

/-- With a new block in between, the second poll fails only if the filter is not installed. -/
theorem poll_after_new_block :
    ∃ event,
      (run (filterMachine sampleHost pollList) worldAtFive (pollTwice 6))[2]? = some event ∧
      ((∃ error, event.output = .changes (.error error)) ↔
        pollList.poll event.before.table 0 = none) := by
  refine ⟨_, rfl, ?_⟩
  refine (polls_fail_only_when_uninstalled_iff pollList 5 (pollTwice 6) _ rfl
    (pollTwice_answered (by decide)) ((run (filterMachine sampleHost pollList) worldAtFive
      (pollTwice 6)).take 2) [] _ rfl 0 (calmNode 6) (calmNode 6) rfl).1.mpr ?_
  intro cursor filter installed
  cases installed
  simp [calmNode, nextRound]

/-- Without a new block the second poll of an installed filter fails. -/
theorem poll_without_new_block_fails :
    (∀ event ∈ run (filterMachine sampleHost pollList) worldAtFive (pollTwice 5),
      AnsweredEvent event) ∧
    ∃ event,
      (run (filterMachine sampleHost pollList) worldAtFive (pollTwice 5))[2]? = some event ∧
      event.output = .changes (.error (.call "block not found")) ∧
      pollList.poll event.before.table 0 = some (.logs 6 ⟨.earliest, .latest, none, [], none⟩) :=
  ⟨pollTwice_answered (Nat.le_refl _), _, rfl, rfl, rfl⟩

end Ethwasi.Gateway
