import Mathlib.Algebra.BigOperators.Group.List.Basic
import Ethwasi.Gateway.Served
import Ethwasi.Rust.StableSort

/-!
# The two views of a log

A log is shown twice: in the result of a log search, and in the receipt of its transaction. Both
views decode the snapshot of the transaction on their own. They agree on every snapshot that has a
receipt or is refused one; but both number the logs of a block by their positions in their
transactions.
-/

namespace Ethwasi.Gateway

open Ethwasi.Rust Ethwasi.Runtime

variable {σ V : Type} (host : Host σ V)

/-- The logs of a snapshot that can be read, with their places. -/
def shownLogs (txn : TransactionSnapshot V) : List LocalizedLogEntry :=
  match transaction host txn, txn.output with
  | .ok tx, .success value =>
    match host.resultFromValue value with
    | none => []
    | some result => result.logs.zipIdx.map fun log =>
        ⟨log.1, tx.blockHash, tx.blockNumber, tx.signed.hash, tx.transactionIndex, log.2, log.2⟩
  | _, _ => []

/-- The logs of the result in a snapshot. There are none unless the snapshot is that of an Ethereum
transaction that succeeded. -/
def resultLogs (txn : TransactionSnapshot V) : List LogEntry :=
  match transaction host txn, txn.output with
  | .ok _, .success value =>
    match host.resultFromValue value with
    | none => []
    | some result => result.logs
  | _, _ => []

variable {host} {ethcore : Ethcore} {txn : TransactionSnapshot V} {filter : Filter}

/-- Every log of the result is shown. -/
theorem entries_shownLogs (host : Host σ V) (txn : TransactionSnapshot V) :
    (shownLogs host txn).map (·.entry) = resultLogs host txn := by
  unfold shownLogs resultLogs
  split
  · split
    · rfl
    · simp [Function.comp_def]
  · rfl

/-- A log search shows the logs that match the filter. -/
theorem transactionLogs_eq :
    transactionLogs host filter txn =
      (shownLogs host txn).filter fun log => filter.matches log.entry := by
  unfold transactionLogs shownLogs transaction
  by_cases ethereum : txn.input.method = methodTx
  · cases args : host.bytesFromValue txn.input.args with
    | none => simp [ethereum]
    | some raw =>
      cases decoded : host.rlpDecode raw with
      | error message => simp [ethereum, decoded]
      | ok signed =>
        cases output : txn.output with
        | error message => simp [ethereum, decoded]
        | success value =>
          cases result : host.resultFromValue value with
          | none => simp [ethereum, decoded, result]
          | some response =>
            simp [ethereum, decoded, result, localizeLogs_eq, List.filter_map, Function.comp_def]
  · simp [ethereum]

/-- Why a receipt is not made at all: the transaction creates a contract, and it has no sender. -/
def NoSender (host : Host σ V) (ethcore : Ethcore) (txn : TransactionSnapshot V) : Prop :=
  ∃ tx value result, transaction host txn = .ok tx ∧ txn.output = .success value ∧
    host.resultFromValue value = some result ∧ ethcore.creates tx.signed = true ∧
    ethcore.sender tx.signed = none

/-- The contract of a transaction is known unless it has no sender. -/
theorem createdContract_cases (ethcore : Ethcore) (tx : LocalizedTransaction) :
    (∃ contract, createdContract ethcore tx = .ok contract ∧
        ¬(ethcore.creates tx.signed = true ∧ ethcore.sender tx.signed = none)) ∨
      createdContract ethcore tx = .panic .unwrapFailed ∧
        ethcore.creates tx.signed = true ∧ ethcore.sender tx.signed = none := by
  unfold createdContract
  split
  · rename_i creates
    cases sender : ethcore.sender tx.signed with
    | none => exact .inr ⟨rfl, creates, rfl⟩
    | some address => exact .inl ⟨_, rfl, by simp⟩
  · rename_i calls
    exact .inl ⟨_, rfl, fun both => calls both.1⟩

/-- A receipt shows all logs, there are none when it is refused, and making it panics only for
want of a sender. -/
theorem receipt_cases (host : Host σ V) (ethcore : Ethcore) (txn : TransactionSnapshot V) :
    (∃ shown, receipt host ethcore txn = .ok shown ∧ shown.logs = shownLogs host txn ∧
        ¬NoSender host ethcore txn) ∨
      (∃ reason, receipt host ethcore txn = .err reason ∧ shownLogs host txn = [] ∧
        ¬NoSender host ethcore txn) ∨
      ∃ cause, receipt host ethcore txn = .panic cause ∧ NoSender host ethcore txn := by
  unfold receipt shownLogs NoSender
  cases output : txn.output with
  | error message =>
    refine .inr (.inl ⟨_, rfl, ?_, by simp⟩)
    cases transaction host txn <;> rfl
  | success value =>
    cases result : host.resultFromValue value with
    | none =>
      refine .inr (.inl ⟨.cbor, by simp [result], ?_, by simp [result]⟩)
      cases transaction host txn <;> simp [result]
    | some response =>
      cases viewed : transaction host txn with
      | error reason =>
        exact .inr (.inl ⟨reason, by simp [result, Outcome.ofExcept], rfl, by simp⟩)
      | ok tx =>
        rcases createdContract_cases ethcore tx with ⟨contract, created, known⟩ |
          ⟨created, creates, sender⟩
        · simp only [result, Outcome.ofExcept, Outcome.ok_bind, created, Outcome.pure_eq_ok]
          exact .inl ⟨_, rfl, rfl, by simpa [result] using known⟩
        · refine .inr (.inr ⟨.unwrapFailed, ?_, tx, value, response, rfl, rfl, result, creates,
            sender⟩)
          simp [result, Outcome.ofExcept, created]

/-- The view of a transaction has the place of its snapshot. -/
theorem place_of_transaction {tx : LocalizedTransaction} (viewed : transaction host txn = .ok tx) :
    tx.blockNumber = txn.block.round ∧ tx.blockHash = txn.block.hash ∧
      tx.transactionIndex = txn.index := by
  unfold transaction at viewed
  split at viewed
  · cases viewed
  · split at viewed
    · cases viewed
    · split at viewed
      · cases viewed
      · cases viewed
        exact ⟨rfl, rfl, rfl⟩

/-- A shown log has the place of its transaction. -/
theorem place_of_mem_shownLogs {entry : LocalizedLogEntry} (member : entry ∈ shownLogs host txn) :
    entry.blockNumber = txn.block.round ∧ entry.blockHash = txn.block.hash ∧
      entry.transactionIndex = txn.index := by
  unfold shownLogs at member
  split at member
  · rename_i tx value viewed output
    split at member
    · cases member
    · obtain ⟨log, _, rfl⟩ := List.mem_map.mp member
      obtain ⟨block, hash, index⟩ := place_of_transaction viewed
      exact ⟨block, hash, index⟩
  · cases member

/-- The place of a transaction: its block, and its index in the block. -/
def TransactionSnapshot.place (txn : TransactionSnapshot V) : Nat × Nat :=
  (txn.block.round, txn.index)

/-- The entries of a transaction in the result of a log search. -/
def entriesOf (txn : TransactionSnapshot V) (found : List LocalizedLogEntry) :
    List LocalizedLogEntry :=
  found.filter fun entry => (entry.blockNumber, entry.transactionIndex) = txn.place

/-- The client with another answer to the query for transactions. -/
def NodeClient.answering (client : NodeClient V) (txns : List (TransactionSnapshot V)) :
    NodeClient V :=
  { client with queryTxs := fun _ => .ok txns }

/-- The bounds of a filter are known and indexed, so that transactions are queried. -/
def NodeClient.Resolves (client : NodeClient V) (filter : Filter) : Prop :=
  ∃ fromBlock toBlock, getBlockUnwrap client filter.fromBlock = .ok fromBlock ∧
    getBlockUnwrap client filter.toBlock = .ok toBlock ∧
    client.waitBlockIndexed toBlock.round = .ok ()

/-- The result of a log search is made from the answer to its query. -/
theorem logs_answering {client : NodeClient V} (resolves : client.Resolves filter)
    (txns : List (TransactionSnapshot V)) :
    logs host (client.answering txns) filter =
      .ok (sortByKey (·.blockNumber) (txns.flatMap (transactionLogs host filter))) := by
  obtain ⟨fromBlock, toBlock, resolvedFrom, resolvedTo, indexed⟩ := resolves
  have sameFrom : getBlockUnwrap (client.answering txns) filter.fromBlock = .ok fromBlock := by
    rw [← resolvedFrom]
    cases filter.fromBlock <;> rfl
  have sameTo : getBlockUnwrap (client.answering txns) filter.toBlock = .ok toBlock := by
    rw [← resolvedTo]
    cases filter.toBlock <;> rfl
  exact logs_eq_ok_iff.mpr ⟨fromBlock, toBlock, txns, sameFrom, sameTo, indexed, rfl, rfl⟩

/-- An entry of a transaction has its place. -/
theorem place_of_mem_transactionLogs {txn : TransactionSnapshot V} {entry : LocalizedLogEntry}
    (member : entry ∈ transactionLogs host filter txn) :
    entry.blockNumber = txn.block.round ∧ entry.transactionIndex = txn.index := by
  rw [transactionLogs_eq] at member
  obtain ⟨block, _, index⟩ := place_of_mem_shownLogs (List.mem_of_mem_filter member)
  exact ⟨block, index⟩

/-- Of the logs of a transaction, all or none are entries of another one. -/
theorem entriesOf_transactionLogs (other : TransactionSnapshot V) :
    entriesOf txn (transactionLogs host filter other) =
      if other.place = txn.place then transactionLogs host filter other else [] := by
  have places : ∀ entry ∈ transactionLogs host filter other,
      (entry.blockNumber, entry.transactionIndex) = other.place := by
    intro entry member
    obtain ⟨block, index⟩ := place_of_mem_transactionLogs member
    exact Prod.ext block index
  unfold entriesOf
  split
  · rename_i same
    rw [List.filter_eq_self]
    intro entry member
    rw [places entry member, same]
    exact decide_eq_true rfl
  · rename_i different
    rw [List.filter_eq_nil_iff]
    intro entry member
    rw [places entry member, decide_eq_true_eq]
    exact different

theorem entriesOf_append (first second : List LocalizedLogEntry) :
    entriesOf txn (first ++ second) = entriesOf txn first ++ entriesOf txn second :=
  List.filter_append ..

/-- The entries of a transaction of an answer are its own logs. -/
theorem entriesOf_flatMap {txns : List (TransactionSnapshot V)}
    (once : (txns.map (·.place)).Nodup) (member : txn ∈ txns) :
    entriesOf txn (txns.flatMap (transactionLogs host filter)) =
      transactionLogs host filter txn := by
  obtain ⟨earlier, later, rfl⟩ := List.append_of_mem member
  have others : ∀ other ∈ earlier ++ later, other.place ≠ txn.place := by
    intro other inOthers same
    rw [List.map_append, List.map_cons, List.nodup_middle, List.nodup_cons] at once
    apply once.1
    rw [← List.map_append, ← same]
    exact List.mem_map_of_mem inOthers
  have nothing {part : List (TransactionSnapshot V)} (inOthers : part ⊆ earlier ++ later) :
      entriesOf txn (part.flatMap (transactionLogs host filter)) = [] := by
    rw [entriesOf, List.filter_flatMap, List.flatMap_eq_nil_iff]
    intro other inPart
    exact (entriesOf_transactionLogs other).trans (if_neg (others other (inOthers inPart)))
  rw [List.flatMap_append, List.flatMap_cons, entriesOf_append, entriesOf_append,
    nothing (List.subset_append_left ..), nothing (List.subset_append_right ..),
    entriesOf_transactionLogs, if_pos rfl, List.append_nil, List.nil_append]

/-- Log search and receipts agree. When the query returns transactions with different places, in
any order, the entries that a log search returns for a transaction are those of its receipt that
match the filter, in the same order, and there are none when the receipt is refused. Making the
receipt panics exactly for want of a sender of a contract creation. -/
theorem log_views_agree (ethcore : Ethcore) (client : NodeClient V) (filter : Filter)
    (resolves : client.Resolves filter) (txns : List (TransactionSnapshot V))
    (once : (txns.map (·.place)).Nodup) :
    ∃ found, logs host (client.answering txns) filter = .ok found ∧
      ∀ txn ∈ txns,
        (∀ shown, receipt host ethcore txn = .ok shown →
          entriesOf txn found = shown.logs.filter fun log => filter.matches log.entry) ∧
        (∀ reason, receipt host ethcore txn = .err reason → entriesOf txn found = []) ∧
        ((∃ cause, receipt host ethcore txn = .panic cause) ↔ NoSender host ethcore txn) := by
  refine ⟨_, logs_answering resolves txns, ?_⟩
  intro txn member
  have own : entriesOf txn
      (sortByKey (·.blockNumber) (txns.flatMap (transactionLogs host filter))) =
        (shownLogs host txn).filter fun log => filter.matches log.entry := by
    rw [← transactionLogs_eq, ← entriesOf_flatMap once member]
    apply filter_sortByKey
    intro a _ b _ ofA ofB
    have placeA := of_decide_eq_true ofA
    have placeB := of_decide_eq_true ofB
    exact congrArg Prod.fst (placeA.trans placeB.symm)
  rw [own]
  rcases receipt_cases host ethcore txn with ⟨shown, returned, same, known⟩ |
    ⟨reason, refused, empty, known⟩ | ⟨cause, panicked, unknown⟩
  · rw [returned, ← same]
    exact ⟨by simp, by simp, by simp [known]⟩
  · rw [refused, empty]
    exact ⟨by simp, by simp, by simp [known]⟩
  · rw [panicked]
    exact ⟨by simp, by simp, by simp [unknown]⟩

/-- A block with two executed transactions that emit one log each. -/
def pairBlock : ChainBlock sampleHost where
  hash := FixedBytes.filled 32 9
  batch := [[5, 1, 7, 0, 6], [5, 1, 8, 1, 6]]
  results :=
    [⟨sampleHost.outputToVec (.success (.result ⟨1, 1, [], sampleLogs [0, 6], 1, []⟩)),
        txTags (FixedBytes.filled 32 7) (sampleLogs [0, 6])⟩,
      ⟨sampleHost.outputToVec (.success (.result ⟨2, 1, [], sampleLogs [1, 6], 1, []⟩)),
        txTags (FixedBytes.filled 32 8) (sampleLogs [1, 6])⟩]
  produced := ⟨⟨none⟩, sampleContext, [], _, ⟨rfl, rfl⟩, rfl⟩

/-- The log of a transaction of the block. -/
def pairEntry (hash : UInt8) (index : Nat) : LocalizedLogEntry :=
  ⟨⟨FixedBytes.filled 20 6, [FixedBytes.filled 32 6], []⟩, FixedBytes.filled 32 9, 0,
    FixedBytes.filled 32 hash, index, 0, 0⟩

/-- The transactions of the block as a node shows them. -/
def pairSnapshots : List (TransactionSnapshot SampleValue) :=
  (pairBlock.transactions 0).map sampleSnapshot

theorem sampleClient_resolves (address : Option (List Address)) :
    sampleClient.Resolves (sampleFilter address) :=
  ⟨⟨0, FixedBytes.filled 32 9⟩, ⟨0, FixedBytes.filled 32 9⟩, rfl, rfl, rfl⟩

/-- The second transaction of the block has the same log in both views. -/
theorem second_log_agrees :
    ∃ txn ∈ pairSnapshots, ∃ found,
      logs sampleHost (sampleClient.answering pairSnapshots) (sampleFilter none) = .ok found ∧
      entriesOf txn found = [pairEntry 8 1] := by
  obtain ⟨found, returned, agree⟩ := log_views_agree sampleEthcore sampleClient (sampleFilter none)
    (sampleClient_resolves none) pairSnapshots (by decide)
  have second : pairSnapshots.get ⟨1, by decide⟩ ∈ pairSnapshots := List.get_mem ..
  exact ⟨_, second, found, returned, ((agree _ second).1 _ rfl).trans (by decide)⟩

/-- Both numbers of a shown log are its position in the transaction. -/
theorem indices_of_shownLogs (host : Host σ V) (txn : TransactionSnapshot V) :
    (shownLogs host txn).map (·.logIndex) = List.range (shownLogs host txn).length ∧
      (shownLogs host txn).map (·.transactionLogIndex) =
        List.range (shownLogs host txn).length := by
  unfold shownLogs
  split
  · split
    · exact ⟨rfl, rfl⟩
    · simp [List.range_eq_range', Function.comp_def]
  · exact ⟨rfl, rfl⟩

/-- Numbers that start at zero in every group are different exactly when one group at most has
members. -/
theorem nodup_flatMap_range_iff (sizes : List Nat) :
    (sizes.flatMap List.range).Nodup ↔ sizes.Pairwise fun a b => a = 0 ∨ b = 0 := by
  rw [List.nodup_flatMap]
  have disjoint (a b : Nat) : (List.range a).Disjoint (List.range b) ↔ a = 0 ∨ b = 0 := by
    constructor
    · intro apart
      by_contra both
      exact @apart 0 (List.mem_range.mpr (by omega)) (List.mem_range.mpr (by omega))
    · rintro (rfl | rfl)
      · exact List.disjoint_nil_left _
      · exact List.disjoint_nil_right _
  constructor
  · intro different
    exact different.2.imp fun apart => (disjoint _ _).mp apart
  · intro single
    exact ⟨fun size _ => List.nodup_range, single.imp fun one => (disjoint _ _).mpr one⟩

/-- They are the positions in the whole exactly under the same condition. -/
theorem flatMap_range_eq_iff (sizes : List Nat) :
    sizes.flatMap List.range = List.range sizes.sum ↔ sizes.Pairwise fun a b => a = 0 ∨ b = 0 := by
  constructor
  · intro positions
    rw [← nodup_flatMap_range_iff, positions]
    exact List.nodup_range
  · intro single
    induction sizes with
    | nil => rfl
    | cons size sizes ih =>
      obtain ⟨first, rest⟩ := List.pairwise_cons.mp single
      rw [List.flatMap_cons, ih rest, List.sum_cons]
      by_cases empty : size = 0
      · simp [empty]
      · have none : sizes.sum = 0 :=
          List.sum_eq_zero fun other member => (first other member).resolve_left empty
        simp [none]

section Block

variable (host) in
/-- The logs that the receipt of a transaction lists. -/
def receiptLogs (ethcore : Ethcore) (txn : TransactionSnapshot V) : List LocalizedLogEntry :=
  match receipt host ethcore txn with
  | .ok shown => shown.logs
  | _ => []

/-- A filter that matches everything: no addresses and no topics are listed, and it has no
limit. -/
structure Filter.MatchesAll (filter : Filter) : Prop where
  address : filter.address = none
  topics : ∀ candidates ∈ filter.topics, candidates = none
  limit : filter.limit = none

theorem Filter.MatchesAll.matches (all : filter.MatchesAll) (entry : LogEntry) :
    filter.matches entry = true := by
  rw [Filter.matches, all.address, Bool.and_eq_true, List.all_eq_true]
  refine ⟨rfl, ?_⟩
  intro candidates member
  rw [all.topics candidates.1 (List.fst_mem_of_mem_zipIdx member)]
  rfl

theorem Filter.MatchesAll.noEmptyList (all : filter.MatchesAll) : filter.NoEmptyList := by
  refine ⟨by simp [all.address], ?_⟩
  intro member
  cases all.topics _ (List.mem_of_mem_take member)

variable {snapshot : StoredTx → TransactionSnapshot V} {chain : List (ChainBlock host)}
  {block : ChainBlock host} {round : Nat}

/-- One element of a list has a given position. -/
theorem filter_zipIdx_position {α : Type} {values : List α} {position : Nat} {value : α}
    (located : values[position]? = some value) :
    (values.zipIdx.filter fun placed => position ≤ placed.2 && placed.2 ≤ position) =
      [(value, position)] := by
  have length : (values.take position).length = position :=
    List.length_take_of_le (Nat.le_of_lt (List.getElem?_eq_some_iff.mp located).1)
  rw [Transition.eq_take_append_cons_drop located, List.zipIdx_append, List.zipIdx_cons,
    List.filter_append, List.filter_cons_of_pos, length, Nat.zero_add]
  · have before : ((values.take position).zipIdx.filter
        fun placed => position ≤ placed.2 && placed.2 ≤ position) = [] := by
      rw [List.filter_eq_nil_iff]
      rintro ⟨other, index⟩ member
      have bound := (List.mem_zipIdx member).2.1
      simp only [Bool.and_eq_true, decide_eq_true_eq]
      omega
    have after : (((values.drop (position + 1)).zipIdx (position + 1)).filter
        fun placed => position ≤ placed.2 && placed.2 ≤ position) = [] := by
      rw [List.filter_eq_nil_iff]
      rintro ⟨other, index⟩ member
      have bound := (List.mem_zipIdx member).1
      simp only [Bool.and_eq_true, decide_eq_true_eq]
      omega
    rw [before, after, List.nil_append]
  · simp [length]

/-- The transactions of a single round are those of its block. -/
theorem storedTxs_single (located : chain[round]? = some block) :
    storedTxs chain round round = block.transactions round := by
  rw [storedTxs, filter_zipIdx_position located, List.flatMap_singleton]

/-- A recorded transaction that creates a contract has a sender. -/
theorem receiptLogs_snapshot (cbor : host.CborRoundTrip) (shows : SnapshotsOf host snapshot)
    (senders : ethcore.KnowsSenders host) {stored : StoredTx}
    (recorded : RecordedCall host stored.call stored.result) :
    receiptLogs host ethcore (snapshot stored) = shownLogs host (snapshot stored) := by
  rcases receipt_cases host ethcore (snapshot stored) with ⟨shown, returned, same, _⟩ |
    ⟨reason, refused, empty, _⟩ | ⟨cause, _, tx, value, result, viewed, output, _, _, unknown⟩
  · simp only [receiptLogs, returned, same]
  · simp only [receiptLogs, refused, empty]
  · cases recorded with
    | failed failure failed tags =>
      rw [shownOutput_of_failure cbor shows failed] at output
      cases output
    | executed txn response decoded _ tags =>
      rw [transaction_of_decoded shows decoded] at viewed
      cases viewed
      obtain ⟨_, _, _, _, _, checked⟩ := decodeTransaction_eq_ok_iff.mp decoded
      rw [senders _ _ (checkTx_eq_ok_iff.mp checked).2.2.1] at unknown
      cases unknown

variable (host) in
/-- The logs of the result that is stored for a transaction. -/
def StoredTx.logs (stored : StoredTx) : List LogEntry :=
  match successOf host stored.result with
  | none => []
  | some result => result.logs

/-- The snapshot of a recorded transaction shows the stored logs. -/
theorem resultLogs_snapshot (cbor : host.CborRoundTrip) (shows : SnapshotsOf host snapshot)
    {stored : StoredTx} (recorded : RecordedCall host stored.call stored.result) :
    resultLogs host (snapshot stored) = stored.logs host := by
  cases recorded with
  | failed failure failed tags =>
    have shown := shownOutput_of_failure cbor shows failed
    have noSuccess : successOf host stored.result = none := by
      simp only [successOf, failed, serializeError, cbor.output]
    simp only [StoredTx.logs, noSuccess, resultLogs, shown]
    cases transaction host (snapshot stored) <;> rfl
  | executed txn response decoded output tags =>
    have decodedOutput : host.outputFromSlice stored.result.output =
        some (.success (host.resultToValue response)) := by
      rw [output]
      exact cbor.output _
    have success : successOf host stored.result = some response := by
      simp only [successOf, decodedOutput, cbor.result]
    simp only [StoredTx.logs, success, resultLogs, transaction_of_decoded shows decoded,
      shows.output stored _ decodedOutput, cbor.result]

theorem hash_of_mem_transactions {stored : StoredTx} (member : stored ∈ block.transactions round) :
    stored.block.hash = block.hash := by
  obtain ⟨txn, _, rfl⟩ := List.mem_map.mp member
  rfl

/-- The numbers in the block start again with every transaction. -/
theorem logIndices_of_transactions (stored : List StoredTx) :
    (stored.flatMap fun stored => shownLogs host (snapshot stored)).map (·.logIndex) =
      (stored.map fun stored => (shownLogs host (snapshot stored)).length).flatMap List.range := by
  rw [List.map_flatMap, List.flatMap_map]
  exact List.flatMap_congr fun stored _ => (indices_of_shownLogs host (snapshot stored)).1

/-- Only these numbers tell the logs of a block apart. -/
theorem logPlaces_of_transactions (shows : SnapshotsOf host snapshot) :
    ((block.transactions round).flatMap fun stored => shownLogs host (snapshot stored)).map
        (fun entry => (entry.blockHash, entry.logIndex)) =
      (((block.transactions round).flatMap fun stored => shownLogs host (snapshot stored)).map
        (·.logIndex)).map fun number => (block.hash, number) := by
  rw [List.map_map]
  apply List.map_congr_left
  intro entry member
  obtain ⟨stored, inBlock, inLogs⟩ := List.mem_flatMap.mp member
  rw [(place_of_mem_shownLogs inLogs).2.1, shows.block, hash_of_mem_transactions inBlock]
  rfl

/-- Every entry has its position as its number when the numbers count up. -/
theorem positions_iff {listed : List LocalizedLogEntry} :
    (∀ (position : Nat) entry, listed[position]? = some entry → entry.logIndex = position) ↔
      listed.map (·.logIndex) = List.range listed.length := by
  constructor
  · intro numbered
    apply List.ext_getElem (by simp)
    intro position inside _
    rw [List.length_map] at inside
    rw [List.getElem_map, List.getElem_range]
    exact numbered position _ (List.getElem?_eq_getElem inside)
  · intro counted position entry located
    obtain ⟨inside, rfl⟩ := List.getElem?_eq_some_iff.mp located
    have there : (listed.map (·.logIndex))[position]? = some position := by
      rw [counted, List.getElem?_range inside]
    simpa [located] using there

/-- A search for everything returns the logs of the receipts. -/
theorem logs_perm_receiptLogs (cbor : host.CborRoundTrip) {client : NodeClient V}
    (shows : SnapshotsOf host snapshot) (senders : ethcore.KnowsSenders host)
    (answersExactly : QueryExact client chain snapshot) (located : chain[round]? = some block)
    (all : filter.MatchesAll) {fromBlock toBlock : EthereumBlock}
    (resolvedFrom : getBlockUnwrap client filter.fromBlock = .ok fromBlock)
    (resolvedTo : getBlockUnwrap client filter.toBlock = .ok toBlock)
    (startsThere : fromBlock.round = round) (endsThere : toBlock.round = round)
    (indexed : client.waitBlockIndexed toBlock.round = .ok ()) :
    ∃ found, logs host client filter = .ok found ∧
      found.Perm ((block.transactions round).flatMap fun stored =>
        receiptLogs host ethcore (snapshot stored)) := by
  obtain ⟨found, returned, perm⟩ := logs_of_resolved cbor shows answersExactly all.limit
    resolvedFrom resolvedTo indexed
  rw [referenceScan_of_filled cbor all.noEmptyList, startsThere, endsThere, referenceScan] at perm
  refine ⟨found, returned, perm.trans (List.Perm.of_eq ?_)⟩
  rw [← storedTxs_single located]
  apply List.flatMap_congr
  intro stored member
  have recorded := recorded_of_mem_storedTxs member
  rw [← transactionLogs_snapshot cbor shows filter recorded, transactionLogs_eq,
    receiptLogs_snapshot cbor shows senders recorded, List.filter_eq_self]
  exact fun entry _ => all.matches entry.entry

/-- A search for everything in a block returns the logs of the receipts of its transactions, and
every log has its position in the transaction as its number there. In either view the logs have
different numbers in the block, and these are their positions in the block, exactly when at most
one result of the block has logs. -/
theorem logs_addressed_iff (cbor : host.CborRoundTrip) (client : NodeClient V)
    (chain : List (ChainBlock host)) (snapshot : StoredTx → TransactionSnapshot V)
    (shows : SnapshotsOf host snapshot) (answersExactly : QueryExact client chain snapshot)
    (ethcore : Ethcore) (senders : ethcore.KnowsSenders host) (round : Nat)
    (block : ChainBlock host) (located : chain[round]? = some block) (filter : Filter)
    (all : filter.MatchesAll) (fromBlock toBlock : EthereumBlock)
    (resolvedFrom : getBlockUnwrap client filter.fromBlock = .ok fromBlock)
    (resolvedTo : getBlockUnwrap client filter.toBlock = .ok toBlock)
    (startsThere : fromBlock.round = round) (endsThere : toBlock.round = round)
    (indexed : client.waitBlockIndexed toBlock.round = .ok ()) :
    let logsOf := fun stored => receiptLogs host ethcore (snapshot stored)
    let listed := (block.transactions round).flatMap logsOf
    let single := (block.transactions round).Pairwise fun a b => a.logs host = [] ∨ b.logs host = []
    ∃ found, logs host client filter = .ok found ∧ found.Perm listed ∧
      (∀ stored ∈ block.transactions round,
        (logsOf stored).map (·.transactionLogIndex) = List.range (logsOf stored).length) ∧
      ((found.map fun entry => (entry.blockHash, entry.logIndex)).Nodup ↔ single) ∧
      ((listed.map fun entry => (entry.blockHash, entry.logIndex)).Nodup ↔ single) ∧
      ((∀ (position : Nat) entry, listed[position]? = some entry → entry.logIndex = position) ↔
        single) := by
  intro logsOf listed single
  obtain ⟨found, returned, perm⟩ := logs_perm_receiptLogs cbor shows senders answersExactly located
    all resolvedFrom resolvedTo startsThere endsThere indexed
  have recorded : ∀ stored ∈ block.transactions round,
      RecordedCall host stored.call stored.result := by
    intro stored member
    rw [← storedTxs_single located] at member
    exact recorded_of_mem_storedTxs member
  have shown : ∀ stored ∈ block.transactions round,
      logsOf stored = shownLogs host (snapshot stored) :=
    fun stored member => receiptLogs_snapshot cbor shows senders (recorded stored member)
  have same : listed = (block.transactions round).flatMap fun stored =>
      shownLogs host (snapshot stored) := List.flatMap_congr shown
  have counted : ((block.transactions round).map fun stored =>
        (shownLogs host (snapshot stored)).length) =
      (block.transactions round).map fun stored => (stored.logs host).length := by
    apply List.map_congr_left
    intro stored member
    rw [← resultLogs_snapshot cbor shows (recorded stored member), ← entries_shownLogs,
      List.length_map]
  have numbers : listed.map (·.logIndex) =
      ((block.transactions round).map fun stored => (stored.logs host).length).flatMap
        List.range := by
    rw [same, logIndices_of_transactions, counted]
  have length : listed.length =
      ((block.transactions round).map fun stored => (stored.logs host).length).sum := by
    rw [same, List.length_flatMap, counted]
  have sizes : ((block.transactions round).map fun stored => (stored.logs host).length).Pairwise
      (fun a b => a = 0 ∨ b = 0) ↔ single := by
    simp only [List.pairwise_map, List.length_eq_zero_iff, single]
  have different : (listed.map fun entry => (entry.blockHash, entry.logIndex)).Nodup ↔ single := by
    rw [same, logPlaces_of_transactions shows, ← same,
      List.nodup_map_iff (fun a b equal => congrArg Prod.snd equal), numbers,
      nodup_flatMap_range_iff, sizes]
  refine ⟨found, returned, perm, ?_, ?_, different, ?_⟩
  · intro stored member
    rw [shown stored member]
    exact (indices_of_shownLogs host (snapshot stored)).2
  · rw [(perm.map _).nodup_iff]
    exact different
  · rw [positions_iff, numbers, length, flatMap_range_eq_iff, sizes]

end Block

theorem sampleFilter_matchesAll : (sampleFilter none).MatchesAll where
  address := rfl
  topics := by decide
  limit := rfl

/-- A node that stores a single block. -/
def storingClient (block : ChainBlock sampleHost) : NodeClient SampleValue :=
  { sampleClient with
    queryTxs := fun query => .ok (((storedTxs [block] query.roundMin query.roundMax).filter
      fun stored => query.met stored.result.tags).map sampleSnapshot) }

theorem storingClient_exact (block : ChainBlock sampleHost) :
    QueryExact (storingClient block) [block] sampleSnapshot :=
  fun _ _ => ⟨_, rfl, .refl _⟩

/-- A block with a transaction that emits two logs and one that emits none. -/
def loneBlock : ChainBlock sampleHost where
  hash := FixedBytes.filled 32 9
  batch := [[5, 1, 7, 0, 6, 8], [5, 1, 8, 1]]
  results :=
    [⟨sampleHost.outputToVec (.success (.result ⟨1, 1, [], sampleLogs [0, 6, 8], 1, []⟩)),
        txTags (FixedBytes.filled 32 7) (sampleLogs [0, 6, 8])⟩,
      ⟨sampleHost.outputToVec (.success (.result ⟨2, 1, [], sampleLogs [1], 1, []⟩)),
        txTags (FixedBytes.filled 32 8) (sampleLogs [1])⟩]
  produced := ⟨⟨none⟩, sampleContext, [], _, ⟨rfl, rfl⟩, rfl⟩

/-- A log of the first transaction of the block. -/
def loneEntry (byte : UInt8) (index : Nat) : LocalizedLogEntry :=
  ⟨⟨FixedBytes.filled 20 byte, [FixedBytes.filled 32 byte], []⟩, FixedBytes.filled 32 9, 0,
    FixedBytes.filled 32 7, 0, index, index⟩

-- the outputs are decoded byte by byte
set_option maxRecDepth 4096 in
theorem loneBlock_logs :
    (loneBlock.transactions 0).map (StoredTx.logs sampleHost) = [sampleLogs [0, 6, 8], []] := rfl

theorem loneBlock_single :
    (loneBlock.transactions 0).Pairwise fun a b =>
      a.logs sampleHost = [] ∨ b.logs sampleHost = [] := by
  have single : [sampleLogs [0, 6, 8], []].Pairwise fun a b => a = [] ∨ b = [] := by simp
  rwa [← loneBlock_logs, List.pairwise_map] at single

set_option maxRecDepth 4096 in
theorem logs_loneBlock :
    logs sampleHost (storingClient loneBlock) (sampleFilter none) =
      .ok [loneEntry 6 0, loneEntry 8 1] := by
  have sorted : sortByKey (·.blockNumber) [loneEntry 6 0, loneEntry 8 1] =
      [loneEntry 6 0, loneEntry 8 1] := sortByKey_of_pairwise (by decide)
  exact congrArg Except.ok sorted

/-- Two logs of one transaction, next to one without logs, have different numbers. -/
theorem lone_logs_addressed :
    logs sampleHost (storingClient loneBlock) (sampleFilter none) =
        .ok [loneEntry 6 0, loneEntry 8 1] ∧
      ([loneEntry 6 0, loneEntry 8 1].map fun entry =>
        (entry.blockHash, entry.logIndex)).Nodup := by
  obtain ⟨found, returned, _, _, different, _⟩ := logs_addressed_iff sampleHost_cbor
    (storingClient loneBlock) [loneBlock] sampleSnapshot sampleSnapshot_shows
    (storingClient_exact loneBlock) sampleEthcore sampleEthcore_knowsSenders 0 loneBlock rfl
    (sampleFilter none) sampleFilter_matchesAll _ _ rfl rfl rfl rfl rfl
  cases logs_loneBlock.symm.trans returned
  exact ⟨logs_loneBlock, different.mpr loneBlock_single⟩

/-- A node that stores the block with two logs. -/
def pairClient : NodeClient SampleValue := storingClient pairBlock

/-- The logs of two transactions of a block have the same number, in a search for everything and
in the receipts. -/
theorem two_logs_one_number :
    logs sampleHost pairClient (sampleFilter none) = .ok [pairEntry 7 0, pairEntry 8 1] ∧
      pairSnapshots.map (receiptLogs sampleHost sampleEthcore) =
        [[pairEntry 7 0], [pairEntry 8 1]] ∧
      pairEntry 7 0 ≠ pairEntry 8 1 ∧
      ((pairEntry 7 0).blockHash, (pairEntry 7 0).logIndex) =
        ((pairEntry 8 1).blockHash, (pairEntry 8 1).logIndex) ∧
      QueryExact pairClient [pairBlock] sampleSnapshot ∧
      SnapshotsOf sampleHost sampleSnapshot := by
  have sorted : sortByKey (·.blockNumber) [pairEntry 7 0, pairEntry 8 1] =
      [pairEntry 7 0, pairEntry 8 1] := sortByKey_of_pairwise (by decide)
  exact ⟨congrArg Except.ok sorted, rfl, by decide, rfl, storingClient_exact pairBlock,
    sampleSnapshot_shows⟩

end Ethwasi.Gateway
