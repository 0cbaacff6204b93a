import Mathlib.Data.List.Perm.Basic
import Ethwasi.Runtime.Results
import Ethwasi.Runtime.Sample
import Ethwasi.Gateway.Translator

/-!
# Log search

Three components have to agree for a log to be found: the runtime emits tags for the logs of a
transaction, the gateway asks the node for transactions by their tags, and the filter is matched
against every log of the transactions that come back. The query may return too much, since the
filter is matched afterwards, but it must not lose a transaction. It does when a list of the
filter is empty: the filter then allows everything, but a query for none of its values finds
nothing.
-/

namespace Ethwasi.Gateway

open Ethwasi.Rust Ethwasi.Runtime

variable {σ V : Type}

/-- A block: the calls of a batch, and the results that the runtime returned for them. -/
structure ChainBlock (host : Host σ V) where
  hash : H256
  batch : List Bytes
  results : List ExecuteTxResult
  produced : ∃ dispatcher ctx messages final, Clean ctx ∧
    executeBatch host dispatcher ctx batch = .ok (⟨results, messages⟩, final)

/-- A transaction of the chain with its place and its result. -/
structure StoredTx where
  block : EthereumBlock
  index : Nat
  call : Bytes
  result : ExecuteTxResult

variable (host : Host σ V)

/-- The transactions of the block of a round. -/
def ChainBlock.transactions {host : Host σ V} (block : ChainBlock host) (round : Nat) :
    List StoredTx :=
  (block.batch.zip block.results).zipIdx.map fun txn =>
    ⟨⟨round, block.hash⟩, txn.2, txn.1.1, txn.1.2⟩

/-- The transactions of a range of rounds; the round of a block is its position. -/
def storedTxs {host : Host σ V} (chain : List (ChainBlock host)) (roundMin roundMax : Nat) :
    List StoredTx :=
  (chain.zipIdx.filter fun block => roundMin ≤ block.2 && block.2 ≤ roundMax).flatMap
    fun block => block.1.transactions block.2

/-- Some tag has the key and one of the values. -/
def QueryCondition.met (condition : QueryCondition) (tags : List Tag) : Bool :=
  tags.any fun tag => tag.key == condition.key && condition.values.contains tag.value

/-- Every condition is met. -/
def Query.met (query : Query) (tags : List Tag) : Bool :=
  query.conditions.all fun condition => condition.met tags

/-- The snapshots that the node makes of transactions show what it stores. -/
structure SnapshotsOf (snapshot : StoredTx → TransactionSnapshot V) : Prop where
  block : ∀ stored, (snapshot stored).block = stored.block
  index : ∀ stored, (snapshot stored).index = stored.index
  input : ∀ stored call, host.callFromSlice stored.call = some call →
    (snapshot stored).input = call
  output : ∀ stored output, host.outputFromSlice stored.result.output = some output →
    (snapshot stored).output = output

/-- Without a limit the node returns exactly the transactions of the range that meet the
conditions, in any order. -/
def QueryExact {host : Host σ V} (client : NodeClient V) (chain : List (ChainBlock host))
    (snapshot : StoredTx → TransactionSnapshot V) : Prop :=
  ∀ query, query.limit = 0 → ∃ txns, client.queryTxs query = .ok txns ∧
    txns.Perm (((storedTxs chain query.roundMin query.roundMax).filter fun stored =>
      query.met stored.result.tags).map snapshot)

/-- The matching logs of a transaction, if it succeeded. -/
def referenceLogs (filter : Filter) (stored : StoredTx) : List LocalizedLogEntry :=
  match decodeTransaction host stored.call, successOf host stored.result with
  | .ok call, some result =>
    (result.logs.zipIdx.filter fun log => filter.matches log.1).map fun log =>
      ⟨log.1, stored.block.hash, stored.block.round, call.transaction.transaction.hash,
        stored.index, log.2, log.2⟩
  | _, _ => []

/-- The matching logs of all successful transactions of a range. -/
def referenceScan {host : Host σ V} (chain : List (ChainBlock host)) (filter : Filter)
    (roundMin roundMax : Nat) : List LocalizedLogEntry :=
  (storedTxs chain roundMin roundMax).flatMap (referenceLogs host filter)

/-- No list that the query is made from is empty. -/
def Filter.NoEmptyList (filter : Filter) : Prop :=
  filter.address ≠ some [] ∧ some [] ∉ filter.topics.take 4

instance (filter : Filter) : Decidable filter.NoEmptyList :=
  inferInstanceAs (Decidable (_ ∧ _))

variable {host}

theorem localizeLogs_eq (filter : Filter) (block : EthereumBlock) (hash : H256) (index : Nat)
    (logs : List LogEntry) :
    localizeLogs filter block hash index logs =
      (logs.zipIdx.filter fun log => filter.matches log.1).map fun log =>
        ⟨log.1, block.hash, block.round, hash, index, log.2, log.2⟩ := by
  unfold localizeLogs
  induction logs.zipIdx with
  | nil => rfl
  | cons log rest ih =>
    by_cases matched : filter.matches log.1 = true
    · simp [matched, ih]
    · simp [matched, ih]

/-- A failed transaction has no logs. -/
theorem referenceLogs_of_failure (cbor : host.CborRoundTrip) {filter : Filter}
    {stored : StoredTx} {failure : Failure}
    (output : stored.result.output = serializeError host (.failure failure)) :
    referenceLogs host filter stored = [] := by
  have noSuccess : successOf host stored.result = none := by
    simp only [successOf, output, serializeError, cbor.output]
  unfold referenceLogs
  rw [noSuccess]
  cases decodeTransaction host stored.call <;> rfl

/-- An executed transaction has the matching logs of its response. -/
theorem referenceLogs_of_response (cbor : host.CborRoundTrip) {filter : Filter}
    {stored : StoredTx} {txn : SignedTransaction} {response : ExecutionResult}
    (decoded : decodeTransaction host stored.call = .ok ⟨txn⟩)
    (output : stored.result.output =
      host.outputToVec (.success (host.resultToValue response))) :
    referenceLogs host filter stored =
      (response.logs.zipIdx.filter fun log => filter.matches log.1).map fun log =>
        ⟨log.1, stored.block.hash, stored.block.round, txn.transaction.hash, stored.index, log.2,
          log.2⟩ := by
  have success : successOf host stored.result = some response := by
    simp only [successOf, output, cbor.output, cbor.result]
  simp only [referenceLogs, decoded, success]

/-- The snapshot of a failed transaction shows the text of its failure. -/
theorem shownOutput_of_failure (cbor : host.CborRoundTrip)
    {snapshot : StoredTx → TransactionSnapshot V} (shows : SnapshotsOf host snapshot)
    {stored : StoredTx} {failure : Failure}
    (output : stored.result.output = serializeError host (.failure failure)) :
    (snapshot stored).output = .error failure.display := by
  apply shows.output
  rw [output]
  exact cbor.output _

/-- From the snapshot of a recorded transaction the gateway reads exactly its matching logs. -/
theorem transactionLogs_snapshot (cbor : host.CborRoundTrip)
    {snapshot : StoredTx → TransactionSnapshot V} (shows : SnapshotsOf host snapshot)
    (filter : Filter) {stored : StoredTx} (recorded : RecordedCall host stored.call stored.result) :
    transactionLogs host filter (snapshot stored) = referenceLogs host filter stored := by
  cases recorded with
  | failed failure output tags =>
    rw [referenceLogs_of_failure cbor output]
    unfold transactionLogs
    rw [shownOutput_of_failure cbor shows output]
    split
    · rfl
    · split
      · rfl
      · split
        · rfl
        · rfl
  | executed txn response decoded output tags =>
    obtain ⟨input, raw, found, method, args, checked⟩ := decodeTransaction_eq_ok_iff.mp decoded
    have rlp := (checkTx_eq_ok_iff.mp checked).1
    have decodedOutput : host.outputFromSlice stored.result.output =
        some (.success (host.resultToValue response)) := by
      rw [output]
      exact cbor.output _
    rw [referenceLogs_of_response cbor decoded output]
    simp only [transactionLogs, shows.input stored input found, method, args, rlp,
      shows.output stored _ decodedOutput, cbor.result, ne_eq, not_true_eq_false, if_false,
      localizeLogs_eq, shows.block, shows.index]

/-- A transaction is stored with a result that the runtime recorded for it. -/
theorem recorded_of_mem_storedTxs {chain : List (ChainBlock host)} {roundMin roundMax : Nat}
    {stored : StoredTx} (member : stored ∈ storedTxs chain roundMin roundMax) :
    RecordedCall host stored.call stored.result := by
  obtain ⟨block, inRange, inBlock⟩ := List.mem_flatMap.mp member
  obtain ⟨txn, inBatch, rfl⟩ := List.mem_map.mp inBlock
  obtain ⟨dispatcher, ctx, messages, final, clean, ran⟩ := block.1.produced
  have recorded := recorded_of_executeBatch clean ran
  have paired : txn.1 ∈ block.1.batch.zip block.1.results := List.fst_mem_of_mem_zipIdx inBatch
  exact (List.forall₂_iff_zip.mp recorded).2 paired

/-- A list with candidates allows only what is there and in the list. -/
theorem mem_of_allows {α : Type} [DecidableEq α] {candidates : List α} {value : Option α}
    (nonempty : candidates ≠ []) (allowed : allows (some candidates) value = true) :
    ∃ found, value = some found ∧ found ∈ candidates := by
  cases candidates with
  | nil => exact absurd rfl nonempty
  | cons first rest =>
    cases value with
    | none => simp [allows] at allowed
    | some found => exact ⟨found, rfl, by simpa [allows] using allowed⟩

theorem QueryCondition.met_of_mem {condition : QueryCondition} {tags : List Tag} {value : Bytes}
    (emitted : ⟨condition.key, value⟩ ∈ tags) (listed : value ∈ condition.values) :
    condition.met tags = true := by
  rw [QueryCondition.met, List.any_eq_true]
  exact ⟨_, emitted, by simp [listed]⟩

/-- The pairs of a list with the topic tags are its elements at the first four positions. -/
theorem mem_zip_topicTags {α : Type} {values : List α} {value : α} {tag : Bytes} :
    (value, tag) ∈ (values.zip tagEthLogTopics).take 4 ↔
      ∃ index : Nat, values[index]? = some value ∧ tagEthLogTopics[index]? = some tag := by
  have whole : (values.zip tagEthLogTopics).take 4 = values.zip tagEthLogTopics := by
    apply List.take_of_length_le
    rw [List.length_zip]
    exact Nat.min_le_right _ _
  rw [whole, List.mem_iff_getElem?]
  constructor
  · intro found
    obtain ⟨index, paired⟩ := found
    obtain ⟨first, second⟩ := List.getElem?_zip_eq_some.mp paired
    exact ⟨index, first, second⟩
  · intro found
    obtain ⟨index, first, second⟩ := found
    exact ⟨index, List.getElem?_zip_eq_some.mpr ⟨first, second⟩⟩

/-- The tags of a matching log meet every condition of the query. -/
theorem met_of_matches {filter : Filter} (filled : filter.NoEmptyList) {log : LogEntry}
    (matched : filter.matches log = true) {tags : List Tag}
    (emitted : ∀ tag ∈ logTags log, tag ∈ tags) (roundMin roundMax : Nat) :
    (logQuery filter roundMin roundMax).met tags = true := by
  rw [Filter.matches, Bool.and_eq_true, List.all_eq_true] at matched
  obtain ⟨address, topics⟩ := matched
  rw [Query.met, List.all_eq_true]
  intro condition member
  rcases List.mem_append.mp member with ofAddress | ofTopic
  · unfold addressConditions at ofAddress
    split at ofAddress
    · cases ofAddress
    · rename_i addresses given
      obtain rfl := List.mem_singleton.mp ofAddress
      have nonempty : addresses ≠ [] := fun empty => filled.1 (by rw [given, empty])
      rw [given] at address
      obtain ⟨found, same, listed⟩ := mem_of_allows nonempty address
      cases same
      have tagged : Tag.mk tagEthLogAddress log.address.bytes ∈ tags :=
        emitted _ List.mem_cons_self
      exact QueryCondition.met_of_mem tagged (List.mem_map_of_mem listed)
  · obtain ⟨⟨candidates, key⟩, paired, mapped⟩ := List.mem_filterMap.mp ofTopic
    obtain ⟨listed, given, rfl⟩ := Option.map_eq_some_iff.mp mapped
    simp only at given
    subst given
    obtain ⟨index, candidate, tag⟩ := mem_zip_topicTags.mp paired
    have below : index < 4 := (List.getElem?_eq_some_iff.mp tag).1
    have nonempty : listed ≠ [] := by
      intro empty
      apply filled.2
      rw [← empty]
      apply List.mem_of_getElem? (i := index)
      rw [List.getElem?_take, if_pos below, candidate]
    have allowed := topics (some listed, index) (List.mem_zipIdx_iff_getElem?.mpr candidate)
    obtain ⟨topic, there, inList⟩ := mem_of_allows nonempty allowed
    have tagged : Tag.mk key topic.bytes ∈ tags := by
      apply emitted
      apply List.mem_cons_of_mem
      exact List.mem_map_of_mem (f := fun pair : H256 × Bytes => Tag.mk pair.2 pair.1.bytes)
        (mem_zip_topicTags.mpr ⟨index, there, tag⟩)
    exact QueryCondition.met_of_mem tagged (List.mem_map_of_mem inList)

/-- With an empty list in the filter no transaction meets the query. -/
theorem not_met_of_empty {filter : Filter} (empty : ¬filter.NoEmptyList) (tags : List Tag)
    (roundMin roundMax : Nat) : (logQuery filter roundMin roundMax).met tags = false := by
  have unmet (condition : QueryCondition) (noValue : condition.values = []) :
      condition.met tags = false := by
    simp [QueryCondition.met, noValue]
  have listed : ∃ condition ∈ (logQuery filter roundMin roundMax).conditions,
      condition.values = [] := by
    by_cases given : filter.address = some []
    · refine ⟨⟨tagEthLogAddress, []⟩, ?_, rfl⟩
      apply List.mem_append_left
      simp [addressConditions, given]
    · have topic : some [] ∈ filter.topics.take 4 := by
        by_contra anyTopic
        exact empty ⟨given, anyTopic⟩
      obtain ⟨index, found⟩ := List.mem_iff_getElem?.mp topic
      rw [List.getElem?_take] at found
      split at found
      · rename_i below
        have tag : tagEthLogTopics[index]? = some tagEthLogTopics[index] :=
          List.getElem?_eq_getElem below
        refine ⟨⟨tagEthLogTopics[index], []⟩, ?_, rfl⟩
        apply List.mem_append_right
        exact List.mem_filterMap.mpr
          ⟨(some [], tagEthLogTopics[index]), mem_zip_topicTags.mpr ⟨index, found, tag⟩, rfl⟩
      · cases found
  obtain ⟨condition, member, noValue⟩ := listed
  rw [Query.met, List.all_eq_false]
  exact ⟨condition, member, by simp [unmet condition noValue]⟩

/-- Elements that contribute nothing can be left out. -/
theorem flatMap_filter_of_nil {α β : Type} {keep : α → Bool} {contribute : α → List β}
    {values : List α} (idle : ∀ value ∈ values, keep value = false → contribute value = []) :
    (values.filter keep).flatMap contribute = values.flatMap contribute := by
  induction values with
  | nil => rfl
  | cons value values ih =>
    have rest := ih fun other member => idle other (List.mem_cons_of_mem _ member)
    cases kept : keep value with
    | true => simp [kept, rest]
    | false => simp [kept, rest, idle value List.mem_cons_self kept]

/-- A recorded transaction with a matching log meets the query of a filter without empty lists. -/
theorem met_of_referenceLogs (cbor : host.CborRoundTrip) {filter : Filter}
    (filled : filter.NoEmptyList) {stored : StoredTx}
    (recorded : RecordedCall host stored.call stored.result)
    (found : referenceLogs host filter stored ≠ []) (roundMin roundMax : Nat) :
    (logQuery filter roundMin roundMax).met stored.result.tags = true := by
  cases recorded with
  | failed failure output tags => exact absurd (referenceLogs_of_failure cbor output) found
  | executed txn response decoded output tags =>
    rw [referenceLogs_of_response cbor decoded output, ne_eq, List.map_eq_nil_iff] at found
    obtain ⟨log, member⟩ := List.exists_mem_of_ne_nil _ found
    obtain ⟨placed, matched⟩ := List.mem_filter.mp member
    have inLogs : log.1 ∈ response.logs := List.fst_mem_of_mem_zipIdx placed
    apply met_of_matches filled matched
    intro tag emitted
    rw [tags]
    exact List.mem_cons_of_mem _ (List.mem_flatMap.mpr ⟨log.1, inLogs, emitted⟩)

/-- A log search without limit returns the matching logs of the transactions that meet its
query. -/
theorem logs_of_resolved (cbor : host.CborRoundTrip) {client : NodeClient V}
    {chain : List (ChainBlock host)} {snapshot : StoredTx → TransactionSnapshot V}
    (shows : SnapshotsOf host snapshot) (answersExactly : QueryExact client chain snapshot)
    {filter : Filter} (unlimited : filter.limit = none) {fromBlock toBlock : EthereumBlock}
    (resolvedFrom : getBlockUnwrap client filter.fromBlock = .ok fromBlock)
    (resolvedTo : getBlockUnwrap client filter.toBlock = .ok toBlock)
    (indexed : client.waitBlockIndexed toBlock.round = .ok ()) :
    ∃ found, logs host client filter = .ok found ∧
      found.Perm (((storedTxs chain fromBlock.round toBlock.round).filter fun stored =>
        (logQuery filter fromBlock.round toBlock.round).met stored.result.tags).flatMap
          (referenceLogs host filter)) := by
  have limit : (logQuery filter fromBlock.round toBlock.round).limit = 0 := by
    simp [logQuery, unlimited]
  obtain ⟨txns, answered, same⟩ := answersExactly _ limit
  refine ⟨_, logs_eq_ok_iff.mpr
    ⟨fromBlock, toBlock, txns, resolvedFrom, resolvedTo, indexed, answered, rfl⟩, ?_⟩
  -- Sorting and the order of the answer do not matter, and the logs read from the snapshots of
  -- recorded transactions are those of the reference.
  apply sortByKey_perm.trans
  apply (same.flatMap_right _).trans
  rw [List.flatMap_map]
  apply List.Perm.of_eq
  apply List.flatMap_congr
  intro stored member
  exact transactionLogs_snapshot cbor shows filter
    (recorded_of_mem_storedTxs (List.mem_of_mem_filter member))

/-- A filter without empty lists loses no transaction with a matching log to its query. -/
theorem referenceScan_of_filled (cbor : host.CborRoundTrip) {filter : Filter}
    (filled : filter.NoEmptyList) (chain : List (ChainBlock host)) (roundMin roundMax : Nat) :
    ((storedTxs chain roundMin roundMax).filter fun stored =>
        (logQuery filter roundMin roundMax).met stored.result.tags).flatMap
          (referenceLogs host filter) = referenceScan chain filter roundMin roundMax := by
  apply flatMap_filter_of_nil
  intro stored member unmet
  by_contra found
  have met := met_of_referenceLogs cbor filled (recorded_of_mem_storedTxs member) found
    roundMin roundMax
  rw [met] at unmet
  cases unmet

/-- A log search without limit returns the matching logs of all successful transactions of its
range, each once, exactly when no list that the query is made from is empty, or there is no
such log. -/
theorem log_search_exact_iff (cbor : host.CborRoundTrip) (client : NodeClient V)
    (chain : List (ChainBlock host)) (snapshot : StoredTx → TransactionSnapshot V)
    (shows : SnapshotsOf host snapshot) (answersExactly : QueryExact client chain snapshot)
    (filter : Filter) (unlimited : filter.limit = none) (fromBlock toBlock : EthereumBlock)
    (resolvedFrom : getBlockUnwrap client filter.fromBlock = .ok fromBlock)
    (resolvedTo : getBlockUnwrap client filter.toBlock = .ok toBlock)
    (indexed : client.waitBlockIndexed toBlock.round = .ok ()) :
    ∃ found, logs host client filter = .ok found ∧
      (found.Perm (referenceScan chain filter fromBlock.round toBlock.round) ↔
        filter.NoEmptyList ∨
          referenceScan chain filter fromBlock.round toBlock.round = []) := by
  obtain ⟨found, returned, perm⟩ := logs_of_resolved cbor shows answersExactly unlimited
    resolvedFrom resolvedTo indexed
  refine ⟨found, returned, ?_⟩
  by_cases filled : filter.NoEmptyList
  · rw [referenceScan_of_filled cbor filled] at perm
    exact ⟨fun _ => .inl filled, fun _ => perm⟩
  · have nothing : ((storedTxs chain fromBlock.round toBlock.round).filter fun stored =>
        (logQuery filter fromBlock.round toBlock.round).met stored.result.tags) = [] := by
      rw [List.filter_eq_nil_iff]
      intro stored _
      simp [not_met_of_empty filled]
    rw [nothing, List.flatMap_nil] at perm
    rw [perm.eq_nil]
    constructor
    · intro empty
      exact .inr empty.symm.eq_nil
    · intro allowed
      rcases allowed with filled' | empty
      · exact absurd filled' filled
      · rw [empty]

/-- A block with one executed transaction that emits one log. -/
def sampleBlock : ChainBlock sampleHost where
  hash := FixedBytes.filled 32 9
  batch := [[5, 1, 7, 0, 6]]
  results :=
    [⟨sampleHost.outputToVec (.success (.result ⟨1, 1, [], sampleLogs [0, 6], 1, []⟩)),
      txTags (FixedBytes.filled 32 7) (sampleLogs [0, 6])⟩]
  produced := ⟨⟨none⟩, sampleContext, [], _, ⟨rfl, rfl⟩, rfl⟩

/-- What a node of the sample host shows of a transaction. -/
def sampleSnapshot (stored : StoredTx) : TransactionSnapshot SampleValue where
  block := stored.block
  index := stored.index
  input := (sampleHost.callFromSlice stored.call).getD ⟨"", .bytes []⟩
  output := (sampleHost.outputFromSlice stored.result.output).getD (.error "")

theorem sampleSnapshot_shows : SnapshotsOf sampleHost sampleSnapshot where
  block _ := rfl
  index _ := rfl
  input stored call found := by simp [sampleSnapshot, found]
  output stored output found := by simp [sampleSnapshot, found]

/-- A node that stores one block. -/
def sampleClient : NodeClient SampleValue where
  getLatestBlock := .ok ⟨0, FixedBytes.filled 32 9⟩
  getBlock round := .ok (if round = 0 then some ⟨0, FixedBytes.filled 32 9⟩ else none)
  getBlockByHash _ := .ok none
  waitBlockIndexed _ := .ok ()
  queryTxs query := .ok (((storedTxs [sampleBlock] query.roundMin query.roundMax).filter
    fun stored => query.met stored.result.tags).map sampleSnapshot)

theorem sampleClient_exact : QueryExact sampleClient [sampleBlock] sampleSnapshot :=
  fun _ _ => ⟨_, rfl, .refl _⟩

/-- All logs of the chain, from the contracts of a list. -/
def sampleFilter (address : Option (List Address)) : Filter :=
  ⟨.earliest, .latest, address, [none, none, none, none], none⟩

/-- The log is found by its address. -/
theorem log_found_by_address :
    ∃ found, logs sampleHost sampleClient (sampleFilter (some [FixedBytes.filled 20 6])) =
        .ok found ∧
      found.Perm (referenceScan [sampleBlock]
        (sampleFilter (some [FixedBytes.filled 20 6])) 0 0) := by
  obtain ⟨found, answered, same⟩ := log_search_exact_iff sampleHost_cbor sampleClient
    [sampleBlock] sampleSnapshot sampleSnapshot_shows sampleClient_exact
    (sampleFilter (some [FixedBytes.filled 20 6])) rfl _ _ rfl rfl rfl
  exact ⟨found, answered, same.mpr (.inl (by decide))⟩

/-- An empty list of addresses allows the log, but the search returns nothing. -/
theorem empty_address_list_finds_nothing :
    logs sampleHost sampleClient (sampleFilter (some [])) = .ok [] ∧
      (referenceScan [sampleBlock] (sampleFilter (some [])) 0 0).map (·.entry) =
        [⟨FixedBytes.filled 20 6, [FixedBytes.filled 32 6], []⟩] ∧
      QueryExact sampleClient [sampleBlock] sampleSnapshot ∧
      SnapshotsOf sampleHost sampleSnapshot := by
  refine ⟨?_, ?_, sampleClient_exact, sampleSnapshot_shows⟩
  · have sorted : sortByKey LocalizedLogEntry.blockNumber [] = [] := sortByKey_of_pairwise .nil
    exact congrArg Except.ok sorted
  · rfl

end Ethwasi.Gateway
