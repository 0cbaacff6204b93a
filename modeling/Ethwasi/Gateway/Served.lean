import Ethwasi.Runtime.Alignment
import Ethwasi.Gateway.LogSearch

/-!
# Serving what was indexed

The runtime emits the hash of a transaction as a tag when it executes it, and the gateway finds a
transaction by that tag and decodes its call and its output again. The two sides agree on which
transactions these are: a transaction has a hash tag exactly when the gateway can make a receipt
for it, and the receipt has the hash of the tag and the numbers of the execution.
-/

namespace Ethwasi.Gateway

open Ethwasi.Rust Ethwasi.Runtime

/-- `LocalizedTransaction`, without the cache of its sender. -/
structure LocalizedTransaction where
  signed : UnverifiedTransaction
  blockNumber : Nat
  blockHash : H256
  transactionIndex : Nat
  deriving DecidableEq

/-- `LocalizedReceipt`. -/
structure LocalizedReceipt where
  transactionHash : H256
  transactionIndex : Nat
  blockHash : H256
  blockNumber : Nat
  cumulativeGasUsed : Nat
  gasUsed : Nat
  contractAddress : Option Address
  logs : List LocalizedLogEntry
  logBloom : Bytes
  outcome : TransactionOutcome
  deriving DecidableEq

/-- Why a transaction has no Ethereum view. -/
inductive ViewError where
  /-- "not an Ethereum transaction" -/
  | notEthereum
  /-- The text of a CBOR error. -/
  | cbor
  /-- The text of an RLP error. -/
  | rlp (message : String)
  /-- "receipt not available" -/
  | notAvailable
  deriving DecidableEq

/-- The functions of ethcore that the gateway calls on a transaction. -/
structure Ethcore where
  /-- The action is `Action::Create`. -/
  creates : UnverifiedTransaction → Bool
  /-- `LocalizedTransaction::sender`, which panics when there is none. -/
  sender : UnverifiedTransaction → Option Address
  /-- `contract_address` with the scheme of a block number. -/
  contractAddress : Nat → Address → UnverifiedTransaction → Address

variable {σ V : Type} (host : Host σ V)

/-- A transaction with a good signature has a sender. -/
def Ethcore.KnowsSenders (ethcore : Ethcore) : Prop :=
  ∀ signed sender, host.recover signed = .ok sender → ethcore.sender signed = some sender

/-- `EthereumTransaction::transaction`. -/
def transaction (txn : TransactionSnapshot V) : Except ViewError LocalizedTransaction :=
  if txn.input.method ≠ methodTx then .error .notEthereum
  else
    match host.bytesFromValue txn.input.args with
    | none => .error .cbor
    | some raw =>
      match host.rlpDecode raw with
      | .error message => .error (.rlp message)
      | .ok signed => .ok ⟨signed, txn.block.round, txn.block.hash, txn.index⟩

/-- The address of the contract that a transaction creates. -/
def createdContract (ethcore : Ethcore) (tx : LocalizedTransaction) :
    Outcome ViewError (Option Address) :=
  if ethcore.creates tx.signed then do
    let sender ← Outcome.unwrap (ethcore.sender tx.signed)
    return some (ethcore.contractAddress tx.blockNumber sender tx.signed)
  else return none

/-- `EthereumTransaction::receipt`. -/
def receipt (ethcore : Ethcore) (txn : TransactionSnapshot V) :
    Outcome ViewError LocalizedReceipt :=
  match txn.output with
  | .error _ => .err .notAvailable
  | .success value =>
    match host.resultFromValue value with
    | none => .err .cbor
    | some result => do
      let tx ← Outcome.ofExcept (transaction host txn)
      let contractAddress ← createdContract ethcore tx
      return {
        transactionHash := tx.signed.hash
        transactionIndex := tx.transactionIndex
        blockHash := tx.blockHash
        blockNumber := tx.blockNumber
        cumulativeGasUsed := result.cumulativeGasUsed
        gasUsed := result.gasUsed
        contractAddress
        logs := result.logs.zipIdx.map fun log =>
          ⟨log.1, tx.blockHash, tx.blockNumber, tx.signed.hash, tx.transactionIndex, log.2, log.2⟩
        logBloom := result.logBloom
        outcome := .statusCode result.statusCode }

/-- The receipt reports the execution of the transaction in the block that it met. -/
inductive Reports (before : Context σ) (signed : UnverifiedTransaction)
    (shown : LocalizedReceipt) : Prop where
  | intro (sender : Address) (ectx : BlockContext σ) (after : σ) (outcome : ApplyOutcome)
      (runtime : before.runtime = some ectx)
      (applied : host.apply ectx.state ectx.envInfo ⟨signed, sender⟩ = (.ok outcome, after))
      (cumulative : shown.cumulativeGasUsed = outcome.receipt.gasUsed)
      (gasUsed : shown.gasUsed = outcome.receipt.gasUsed - ectx.envInfo.gasUsed)
      (status : shown.outcome = outcome.receipt.outcome)
      (logBloom : shown.logBloom = outcome.receipt.logBloom)
      (logs : shown.logs.map (·.entry) = outcome.receipt.logs)

variable {host}

/-- The tags of logs are no hash tags. -/
theorem key_ne_of_mem_logTags {log : LogEntry} {tag : Tag} (member : tag ∈ logTags log) :
    tag.key ≠ tagEthTxHash := by
  have topicTags : ∀ key ∈ tagEthLogTopics, key ≠ tagEthTxHash := by decide
  have addressTag : tagEthLogAddress ≠ tagEthTxHash := by decide
  rcases List.mem_cons.mp member with rfl | topic
  · exact addressTag
  · obtain ⟨pair, paired, rfl⟩ := List.mem_map.mp topic
    exact topicTags _ (List.of_mem_zip (List.mem_of_mem_take paired)).2

/-- An executed transaction has one hash tag. -/
theorem hashTags_of_txTags (hash : H256) (logs : List LogEntry) :
    (txTags hash logs).filter (fun tag => tag.key = tagEthTxHash) =
      [⟨tagEthTxHash, hash.bytes⟩] := by
  have noOthers : (logs.flatMap logTags).filter (fun tag => tag.key = tagEthTxHash) = [] := by
    rw [List.filter_eq_nil_iff]
    intro tag member
    obtain ⟨log, _, inLog⟩ := List.mem_flatMap.mp member
    simpa using key_ne_of_mem_logTags inLog
  rw [txTags, List.filter_cons_of_pos (by simp), noOthers]

/-- The only hash tag of an executed transaction is that of its own hash. -/
theorem hash_of_mem_txTags {hash other : H256} {logs : List LogEntry}
    (member : ⟨tagEthTxHash, other.bytes⟩ ∈ txTags hash logs) : other = hash := by
  have filtered : (⟨tagEthTxHash, other.bytes⟩ : Tag) ∈
      (txTags hash logs).filter (fun tag => tag.key = tagEthTxHash) :=
    List.mem_filter.mpr ⟨member, by simp⟩
  rw [hashTags_of_txTags, List.mem_singleton] at filtered
  exact FixedBytes.ext (Tag.mk.inj filtered).2

theorem successOf_eq_some {result : ExecuteTxResult} {response : ExecutionResult}
    (success : successOf host result = some response) :
    ∃ value, host.outputFromSlice result.output = some (.success value) ∧
      host.resultFromValue value = some response := by
  unfold successOf at success
  split at success
  · rename_i value decoded
    exact ⟨value, decoded, success⟩
  · cases success

/-- The contract of a transaction with a good signature is known. -/
theorem createdContract_of_recovered {ethcore : Ethcore} (senders : ethcore.KnowsSenders host)
    (tx : LocalizedTransaction) {sender : Address}
    (recovered : host.recover tx.signed = .ok sender) :
    ∃ contract, createdContract ethcore tx = .ok contract := by
  unfold createdContract
  split
  · rw [senders _ _ recovered]
    exact ⟨_, rfl⟩
  · exact ⟨_, rfl⟩

section Snapshots

variable {snapshot : StoredTx → TransactionSnapshot V} {stored : StoredTx} {ethcore : Ethcore}

/-- The gateway decodes an admitted call as the dispatcher did. -/
theorem transaction_of_decoded (shows : SnapshotsOf host snapshot) {txn : SignedTransaction}
    (decoded : decodeTransaction host stored.call = .ok ⟨txn⟩) :
    transaction host (snapshot stored) =
      .ok ⟨txn.transaction, stored.block.round, stored.block.hash, stored.index⟩ := by
  obtain ⟨input, raw, found, method, args, checked⟩ := decodeTransaction_eq_ok_iff.mp decoded
  have rlp := (checkTx_eq_ok_iff.mp checked).1
  simp only [transaction, shows.input stored input found, method, args, rlp, ne_eq,
    not_true_eq_false, if_false, shows.block, shows.index]

/-- The receipt of a successful call has the numbers of its response. -/
theorem receipt_of_success (shows : SnapshotsOf host snapshot)
    (senders : ethcore.KnowsSenders host)
    {txn : SignedTransaction} (decoded : decodeTransaction host stored.call = .ok ⟨txn⟩)
    {response : ExecutionResult} (success : successOf host stored.result = some response) :
    ∃ shown, receipt host ethcore (snapshot stored) = .ok shown ∧
      shown.transactionHash = txn.transaction.hash ∧
      shown.cumulativeGasUsed = response.cumulativeGasUsed ∧
      shown.gasUsed = response.gasUsed ∧ shown.outcome = .statusCode response.statusCode ∧
      shown.logBloom = response.logBloom ∧ shown.logs.map (·.entry) = response.logs := by
  obtain ⟨value, output, result⟩ := successOf_eq_some success
  have shownOutput := shows.output stored _ output
  have shownInput := transaction_of_decoded shows decoded
  obtain ⟨_, _, _, _, _, checked⟩ := decodeTransaction_eq_ok_iff.mp decoded
  obtain ⟨_, _, recovered, _⟩ := checkTx_eq_ok_iff.mp checked
  obtain ⟨contract, created⟩ := createdContract_of_recovered senders
    ⟨txn.transaction, stored.block.round, stored.block.hash, stored.index⟩ recovered
  simp only [receipt, shownOutput, result, shownInput, Outcome.ofExcept, Outcome.ok_bind, created,
    Outcome.pure_eq_ok]
  refine ⟨_, rfl, rfl, rfl, rfl, rfl, rfl, ?_⟩
  simp [List.map_map, Function.comp_def]

/-- A receipt is only made from a successful output. -/
theorem output_of_receipt {txn : TransactionSnapshot V}
    {shown : LocalizedReceipt} (returned : receipt host ethcore txn = .ok shown) :
    ∃ value tx, txn.output = .success value ∧ transaction host txn = .ok tx ∧
      shown.transactionHash = tx.signed.hash := by
  unfold receipt at returned
  cases output : txn.output with
  | error message => simp [output] at returned
  | success value =>
    cases result : host.resultFromValue value with
    | none => simp [output, result] at returned
    | some response =>
      cases viewed : transaction host txn with
      | error reason => simp [output, result, viewed, Outcome.ofExcept] at returned
      | ok tx =>
        simp only [output, result, viewed, Outcome.ofExcept, Outcome.ok_bind, Outcome.bind_eq_ok,
          Outcome.pure_eq_ok, Outcome.ok.injEq] at returned
        obtain ⟨_, _, rfl⟩ := returned
        exact ⟨value, tx, rfl, rfl, rfl⟩

/-- The receipt of a successful call reports the execution that produced its response. -/
theorem reports_of_produced (shows : SnapshotsOf host snapshot)
    (senders : ethcore.KnowsSenders host) {before : Context σ} {txn : SignedTransaction}
    (decoded : decodeTransaction host stored.call = .ok ⟨txn⟩)
    {response : ExecutionResult} (success : successOf host stored.result = some response)
    (produced : Produced host before txn response) :
    ∃ shown, receipt host ethcore (snapshot stored) = .ok shown ∧
      shown.transactionHash = txn.transaction.hash ∧
      Reports host before txn.transaction shown := by
  obtain ⟨shown, returned, hash, cumulative, gasUsed, status, bloom, logs⟩ :=
    receipt_of_success shows senders decoded success
  obtain ⟨ectx, after, outcome, runtime, applied, code, total, used, sameBloom, sameLogs, _⟩ :=
    produced
  refine ⟨shown, returned, hash, ?_⟩
  exact .intro txn.sender ectx after outcome runtime applied (cumulative.trans total)
    (gasUsed.trans used) (status.trans code.symm) (bloom.trans sameBloom) (logs.trans sameLogs)

/-- A recorded call with a receipt has the tag of its hash and no other hash tag. -/
theorem hashTags_of_receipt (cbor : host.CborRoundTrip) (shows : SnapshotsOf host snapshot)
    (recorded : RecordedCall host stored.call stored.result) {shown : LocalizedReceipt}
    (returned : receipt host ethcore (snapshot stored) = .ok shown) :
    stored.result.tags.filter (fun tag => tag.key = tagEthTxHash) =
      [⟨tagEthTxHash, shown.transactionHash.bytes⟩] := by
  obtain ⟨value, tx, shownOutput, viewed, hash⟩ := output_of_receipt returned
  cases recorded with
  | failed failure output tags =>
    rw [shownOutput_of_failure cbor shows output] at shownOutput
    cases shownOutput
  | executed txn response decoded output tags =>
    rw [transaction_of_decoded shows decoded] at viewed
    cases viewed
    rw [tags, hash, hashTags_of_txTags]

end Snapshots

/-- What the runtime indexes the gateway serves. When a batch is stored as a block, a call that
carries a hash tag has a transaction and a receipt with that hash, and the receipt reports what
the execution of the call produced; and a call with a receipt carries the tag of its hash and no
other hash tag. -/
theorem indexed_transactions_served (cbor : host.CborRoundTrip)
    (snapshot : StoredTx → TransactionSnapshot V) (shows : SnapshotsOf host snapshot)
    (ethcore : Ethcore) (senders : ethcore.KnowsSenders host) (dispatcher : Dispatcher)
    (ctx : Context σ) (clean : Clean ctx) (batch : List Bytes) (result : ExecuteBatchResult)
    (final : Context σ) (ran : executeBatch host dispatcher ctx batch = .ok (result, final))
    (block : EthereumBlock) :
    ∃ events, BatchRun host dispatcher ctx batch events ∧
      ∀ (index : Nat) call output, batch[index]? = some call →
        result.results[index]? = some output →
        ∃ event, events[index]? = some event ∧
          (∀ hash : H256, ⟨tagEthTxHash, hash.bytes⟩ ∈ output.tags →
            ∃ tx shown, transaction host (snapshot ⟨block, index, call, output⟩) = .ok tx ∧
              receipt host ethcore (snapshot ⟨block, index, call, output⟩) = .ok shown ∧
              tx.signed.hash = hash ∧ shown.transactionHash = hash ∧
              Reports host event.before tx.signed shown) ∧
          ∀ shown, receipt host ethcore (snapshot ⟨block, index, call, output⟩) = .ok shown →
            output.tags.filter (fun tag => tag.key = tagEthTxHash) =
              [⟨tagEthTxHash, shown.transactionHash.bytes⟩] := by
  obtain ⟨started, _, _, opened, _⟩ := executeBatch_eq_ok_iff.mp ran
  refine ⟨_, ⟨started, opened, rfl⟩, ?_⟩
  intro index call output called answered
  obtain ⟨event, found, fits⟩ :=
    tagsFit_of_executeBatch cbor clean.tags opened ran called answered
  refine ⟨event, found, ?_, ?_⟩
  · intro hash tagged
    cases success : successOf host output with
    | none =>
      rw [fits.failed clean.executing success] at tagged
      cases tagged
    | some response =>
      obtain ⟨txn, decoded, produced, tags⟩ := fits.executed clean.executing response success
      rw [tags] at tagged
      obtain rfl := hash_of_mem_txTags tagged
      obtain ⟨shown, returned, sameHash, reports⟩ :=
        @reports_of_produced _ _ _ _ ⟨block, index, call, output⟩ _ shows senders _ _ decoded _
          success produced
      exact ⟨_, shown, transaction_of_decoded shows decoded, returned, rfl, sameHash, reports⟩
  · intro shown returned
    have recorded := recordedCall_at clean ran called answered
    exact @hashTags_of_receipt _ _ _ _ ⟨block, index, call, output⟩ _ cbor shows recorded _ returned

/-- The senders are those of the sample host, and no transaction creates a contract. -/
def sampleEthcore : Ethcore where
  creates _ := false
  sender signed := (sampleHost.recover signed).toOption
  contractAddress _ sender _ := sender

theorem sampleEthcore_knowsSenders : sampleEthcore.KnowsSenders sampleHost := by
  intro signed sender recovered
  simp [sampleEthcore, recovered, Except.toOption]

/-- The transaction of the sample block is served. -/
theorem sample_transaction_served :
    ∃ stored ∈ sampleBlock.transactions 0, ∃ tx shown,
      transaction sampleHost (sampleSnapshot stored) = .ok tx ∧
        receipt sampleHost sampleEthcore (sampleSnapshot stored) = .ok shown ∧
        tx.signed.hash = FixedBytes.filled 32 7 := by
  refine ⟨_, List.mem_cons_self, ?_⟩
  obtain ⟨events, _, served⟩ := indexed_transactions_served sampleHost_cbor sampleSnapshot
    sampleSnapshot_shows sampleEthcore sampleEthcore_knowsSenders ⟨none⟩ sampleContext ⟨rfl, rfl⟩
    sampleBlock.batch ⟨sampleBlock.results, []⟩ _ rfl ⟨0, sampleBlock.hash⟩
  obtain ⟨event, _, tagged, _⟩ := served 0 _ _ rfl rfl
  obtain ⟨tx, shown, viewed, returned, hash, _⟩ :=
    tagged (FixedBytes.filled 32 7) List.mem_cons_self
  exact ⟨tx, shown, viewed, returned, hash⟩

end Ethwasi.Gateway
