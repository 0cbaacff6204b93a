import Mathlib.Algebra.Order.BigOperators.Group.List
import Ethwasi.Gateway.LogViews
import Ethwasi.Gateway.PollErrors

/-!
# The limit of a log search

A filter may limit how many logs it returns. The node is given the limit too, but it counts
transactions, and a limit of zero is none to it. `filter_logs` cuts the result down to the limit
afterwards, and `logs` of the other interface does not, so the two requests return the same logs
only when there are not too many.
-/

namespace Ethwasi.Gateway

open Ethwasi.Rust Ethwasi.Runtime Ethwasi.Transition

variable {σ V τ : Type} {host : Host σ V} {polls : PollManager τ} {filter : Filter}

/-- `EthClient::logs`. -/
def ethLogs (translator : Translator) (filter : Filter) :
    Except RpcError (List LocalizedLogEntry) :=
  jsonrpc (translator.logs filter)

/-- A number of logs is no more than the filter allows. -/
def Filter.WithinLimit (filter : Filter) (count : Nat) : Prop :=
  ∀ limit, filter.limit = some limit → count ≤ limit

variable (host) in
/-- How many logs in an answer of the node match the filter. -/
def matchingLogs (filter : Filter) (txns : List (TransactionSnapshot V)) : Nat :=
  (txns.map fun txn => (resultLogs host txn).countP filter.matches).sum

/-- The node returns no more transactions than the limit of the query, unless that is zero. -/
def NodeClient.HonoursLimit (client : NodeClient V) : Prop :=
  ∀ query txns, client.queryTxs query = .ok txns → query.limit = 0 ∨ txns.length ≤ query.limit

theorem withinLimit_limitLogs (found : List LocalizedLogEntry) :
    filter.WithinLimit (limitLogs found filter.limit).length := by
  intro limit limited
  rw [limited, limitLogs, List.length_drop]
  omega

/-- Nothing is cut off exactly when there are not too many logs. -/
theorem limitLogs_eq_self_iff {found : List LocalizedLogEntry} :
    limitLogs found filter.limit = found ↔ filter.WithinLimit found.length := by
  constructor
  · intro same
    rw [← same]
    exact withinLimit_limitLogs found
  · intro within
    cases limited : filter.limit with
    | none => rfl
    | some limit =>
      have fits := within limit limited
      rw [limitLogs, Nat.sub_eq_zero_of_le fits, List.drop_zero]

/-- A log search returns the matching logs of a transaction. -/
theorem length_transactionLogs (host : Host σ V) (filter : Filter) (txn : TransactionSnapshot V) :
    (transactionLogs host filter txn).length = (resultLogs host txn).countP filter.matches := by
  rw [transactionLogs_eq, ← List.countP_eq_length_filter, ← entries_shownLogs, List.countP_map]
  rfl

/-- A log search returns as many logs as match in the answer of the node. -/
theorem length_found (host : Host σ V) (filter : Filter) (txns : List (TransactionSnapshot V)) :
    (sortByKey (·.blockNumber) (txns.flatMap (transactionLogs host filter))).length =
      matchingLogs host filter txns := by
  rw [sortByKey_perm.length_eq, List.length_flatMap, matchingLogs]
  simp only [length_transactionLogs]

/-- When no transaction has more than one matching log, the limit of the query is enough. -/
theorem withinLimit_of_single {client : NodeClient V} (honours : client.HonoursLimit)
    (positive : filter.limit ≠ some 0) {roundMin roundMax : Nat}
    {txns : List (TransactionSnapshot V)}
    (answered : client.queryTxs (logQuery filter roundMin roundMax) = .ok txns)
    (single : ∀ txn ∈ txns, (resultLogs host txn).countP filter.matches ≤ 1) :
    filter.WithinLimit (matchingLogs host filter txns) := by
  intro limit limited
  have asked : (logQuery filter roundMin roundMax).limit = limit := by
    simp [logQuery, limited]
  have few : txns.length ≤ limit := by
    rcases honours _ _ answered with unlimited | within
    · rw [asked] at unlimited
      exact absurd (unlimited ▸ limited) positive
    · rwa [asked] at within
  have most : matchingLogs host filter txns ≤ txns.length := by
    have bounded := List.sum_le_card_nsmul
      (txns.map fun txn => (resultLogs host txn).countP filter.matches) 1 (by
        intro size member
        obtain ⟨txn, inTxns, rfl⟩ := List.mem_map.mp member
        exact single txn inTxns)
    simpa [matchingLogs] using bounded
  exact Nat.le_trans most few

variable (polls) in
/-- The filter is installed. -/
def Installed (id : Nat) (filter : Filter) (table : τ) : Prop :=
  ∃ cursor, polls.poll table id = some (.logs cursor filter)

theorem installed_newFilter {translator : Translator} {start table : τ} {id : Nat}
    (created : newFilter polls translator start filter = (.ok id, table)) :
    Installed polls id filter table := by
  unfold newFilter at created
  split at created
  · cases created
  · cases created
    exact ⟨_, polls.poll_createPoll_self ..⟩

/-- Another filter does not replace it. -/
theorem Installed.createPoll {id : Nat} {table : τ} (installed : Installed polls id filter table)
    (created : PollFilter) : Installed polls id filter (polls.createPoll table created).2 := by
  obtain ⟨cursor, found⟩ := installed
  exact ⟨cursor, polls.poll_createPoll_of_found found created⟩

/-- A poll only moves its cursor. -/
theorem Installed.takeUpdates {id : Nat} {table : τ} (installed : Installed polls id filter table)
    (polled head : Nat) :
    Installed polls id filter (Gateway.takeUpdates polls table polled head).2 := by
  obtain ⟨cursor, found⟩ := installed
  by_cases same : id = polled
  · subst same
    refine ⟨nextRound head, ?_⟩
    simp only [Gateway.takeUpdates, found]
    exact polls.poll_setPoll_self found _
  · exact ⟨cursor, (takeUpdates_polls_of_ne same).trans found⟩

/-- A request keeps the filter unless it is uninstalled or its time is over. -/
theorem installed_step {id : Nat} (event : FilterEvent V τ)
    (step : event.Of (filterMachine host polls))
    (kept : event.input.request ≠ .uninstallFilter id ∧ event.input.request ≠ .expire id)
    (installed : Installed polls id filter event.before.table) :
    Installed polls id filter event.after.table := by
  obtain ⟨before, ⟨request, head⟩, output, after⟩ := event
  simp only [Event.Of, filterMachine, Option.some.injEq, Prod.mk.injEq] at step
  obtain ⟨rfl, rfl⟩ := step
  cases request with
  | newFilter client wanted =>
    simp only [serveFilter, newFilter]
    split
    · exact installed
    · exact installed.createPoll _
  | newBlockFilter client =>
    simp only [serveFilter, newBlockFilter]
    split
    · exact installed
    · exact installed.createPoll _
  | newPendingTransactionFilter => exact installed.createPoll _
  | filterChanges polled first second =>
    simp only [serveFilter, pollChanges]
    split
    · exact installed
    · exact installed.takeUpdates _ _
  | uninstallFilter removed =>
    obtain ⟨cursor, found⟩ := installed
    have different : id ≠ removed := fun same => kept.1 (by rw [same])
    refine ⟨cursor, ?_⟩
    simp only [serveFilter, uninstallFilter, polls.poll_removePoll]
    rw [Function.update_of_ne different, found]
  | expire dropped =>
    obtain ⟨cursor, found⟩ := installed
    have different : dropped ≠ id := fun same => kept.2 (by rw [same])
    exact ⟨cursor, (polls.poll_expire_of_ne _ different).trans found⟩

/-- The requests for the logs of a filter and for the logs of a poll return the same list exactly
when the transactions that the node returns have no more matching logs than the filter allows. The
poll is created by `new_filter`, and any requests may follow, as long as the filter is not
uninstalled and its time is not over. -/
theorem get_logs_eq_filter_logs_iff (polls : PollManager τ) (first client : NodeClient V)
    (start table : τ) (filter : Filter) (id : Nat)
    (created : newFilter polls (.ofClient host first) start filter = (.ok id, table)) (head : Nat)
    (calls : List (FilterCall V))
    (kept : ∀ call ∈ calls, call.request ≠ .uninstallFilter id ∧ call.request ≠ .expire id)
    (later : FilterWorld τ)
    (ran : lastState ⟨head, table⟩ (run (filterMachine host polls) ⟨head, table⟩ calls) = later) :
    (∀ message, logs host client filter = .error message →
      ethLogs (.ofClient host client) filter = .error (.call message) ∧
        filterLogs polls (.ofClient host client) later.table id = .error (.call message)) ∧
    ∀ fromBlock toBlock txns, getBlockUnwrap client filter.fromBlock = .ok fromBlock →
      getBlockUnwrap client filter.toBlock = .ok toBlock →
      client.waitBlockIndexed toBlock.round = .ok () →
      client.queryTxs (logQuery filter fromBlock.round toBlock.round) = .ok txns →
      ∃ found, ethLogs (.ofClient host client) filter = .ok found ∧
        found.length = matchingLogs host filter txns ∧
        filterLogs polls (.ofClient host client) later.table id =
          .ok (limitLogs found filter.limit) ∧
        (ethLogs (.ofClient host client) filter =
          filterLogs polls (.ofClient host client) later.table id ↔
            filter.WithinLimit (matchingLogs host filter txns)) ∧
        filter.WithinLimit (limitLogs found filter.limit).length ∧
        (client.HonoursLimit → filter.limit ≠ some 0 →
          (∀ txn ∈ txns, (resultLogs host txn).countP filter.matches ≤ 1) →
          filter.WithinLimit (matchingLogs host filter txns)) := by
  have initial : Installed polls id filter (FilterWorld.mk head table).table :=
    installed_newFilter created
  have installed : Installed polls id filter later.table := by
    rw [← ran]
    exact (run_history (fun event => event.input.request ≠ .uninstallFilter id ∧
        event.input.request ≠ .expire id)
      (fun _ world => Installed polls id filter world.table)
      (fun _ event step good held => installed_step event step good held) [] initial
      (fun event member => kept _ (input_mem_of_mem_run member))).2
  obtain ⟨cursor, found⟩ := installed
  have polled : filterLogs polls (.ofClient host client) later.table id =
      jsonrpc ((logs host client filter).map fun found => limitLogs found filter.limit) := by
    simp only [filterLogs, found, Translator.ofClient]
  have asked : ethLogs (.ofClient host client) filter = jsonrpc (logs host client filter) := rfl
  constructor
  · intro message failed
    rw [asked, polled, failed]
    exact ⟨rfl, rfl⟩
  · intro fromBlock toBlock txns resolvedFrom resolvedTo indexed answered
    have returned : logs host client filter =
        .ok (sortByKey (·.blockNumber) (txns.flatMap (transactionLogs host filter))) :=
      logs_eq_ok_iff.mpr
        ⟨fromBlock, toBlock, txns, resolvedFrom, resolvedTo, indexed, answered, rfl⟩
    have counted := length_found host filter txns
    rw [asked, polled, returned]
    refine ⟨_, rfl, counted, rfl, ?_, withinLimit_limitLogs _, ?_⟩
    · rw [← counted, ← limitLogs_eq_self_iff]
      simp [jsonrpc, Except.map, eq_comm]
    · intro honours positive single
      exact withinLimit_of_single honours positive answered single

/-- All logs of the chain, up to a limit. -/
def limitedFilter (limit : Nat) : Filter := { sampleFilter none with limit := some limit }

/-- A transaction with two logs. -/
def twoLogs : TransactionSnapshot SampleValue :=
  ⟨⟨0, FixedBytes.filled 32 9⟩, 0, ⟨"tx", .bytes [5, 1, 7, 0, 6, 8]⟩,
    .success (.result ⟨1, 1, [], sampleLogs [0, 6, 8], 1, []⟩)⟩

/-- A node that returns the transaction. -/
def twoLogsClient : NodeClient SampleValue := sampleClient.answering [twoLogs]

theorem twoLogsClient_honours : twoLogsClient.HonoursLimit := by
  intro query txns answered
  cases answered
  exact Nat.eq_zero_or_pos query.limit

theorem logs_twoLogsClient (limit : Nat) :
    logs sampleHost twoLogsClient (limitedFilter limit) =
      .ok [loneEntry 6 0, loneEntry 8 1] := by
  have sorted : sortByKey (·.blockNumber) [loneEntry 6 0, loneEntry 8 1] =
      [loneEntry 6 0, loneEntry 8 1] := sortByKey_of_pairwise (by decide)
  exact congrArg Except.ok sorted

/-- With a limit of two both requests return both logs. -/
theorem both_logs_within_limit :
    ethLogs (.ofClient sampleHost twoLogsClient) (limitedFilter 2) =
      filterLogs pollList (.ofClient sampleHost twoLogsClient)
        (newFilter pollList (.ofClient sampleHost twoLogsClient) pollList.new
          (limitedFilter 2)).2 0 := by
  obtain ⟨_, _, _, _, same, _⟩ := (get_logs_eq_filter_logs_iff pollList twoLogsClient twoLogsClient
    pollList.new _ (limitedFilter 2) 0 rfl 0 [] (by simp) _ rfl).2 _ _ [twoLogs] rfl rfl rfl rfl
  refine same.mpr ?_
  intro limit limited
  cases limited
  decide

/-- With a limit of one the node returns the transaction, `logs` returns both logs of it, and
`filter_logs` only the last. -/
theorem second_log_cut_off :
    twoLogsClient.HonoursLimit ∧
      ethLogs (.ofClient sampleHost twoLogsClient) (limitedFilter 1) =
        .ok [loneEntry 6 0, loneEntry 8 1] ∧
      filterLogs pollList (.ofClient sampleHost twoLogsClient)
        (newFilter pollList (.ofClient sampleHost twoLogsClient) pollList.new
          (limitedFilter 1)).2 0 = .ok [loneEntry 8 1] := by
  have searched := logs_twoLogsClient 1
  refine ⟨twoLogsClient_honours, congrArg jsonrpc searched, ?_⟩
  exact congrArg (fun result => jsonrpc (result.map fun found => limitLogs found (some 1))) searched

end Ethwasi.Gateway
