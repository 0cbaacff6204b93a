import Ethwasi.Rust.StableSort
import Ethwasi.Runtime.Dispatcher

/-!
# The translator

The gateway answers Ethereum queries from an Oasis Core node. What the node answers is collected
in `NodeClient`, one field for each request; an answer is a function of the request, so a client
stands for the answers given to one call, at whatever moments they were given. Futures that are
joined are run one after the other; which of two errors is reported is the only difference.
-/

namespace Ethwasi.Gateway

open Ethwasi.Rust Ethwasi.Runtime

/-- `BlockId`. -/
inductive BlockId where
  | hash (hash : H256)
  | number (round : Nat)
  | latest
  | earliest
  deriving DecidableEq

/-- `EthereumBlock`, by the fields of its snapshot that are read here. -/
structure EthereumBlock where
  round : Nat
  hash : H256
  deriving DecidableEq

/-- `TransactionSnapshot`. -/
structure TransactionSnapshot (V : Type) where
  block : EthereumBlock
  index : Nat
  input : TxnCall V
  output : TxnOutput V

/-- `QueryCondition`: the transaction emitted the key with one of the values. -/
structure QueryCondition where
  key : Bytes
  values : List Bytes
  deriving DecidableEq

/-- `Query`. A limit of zero is no limit. -/
structure Query where
  roundMin : Nat
  roundMax : Nat
  conditions : List QueryCondition
  limit : Nat
  deriving DecidableEq

/-- `Filter` of ethcore. -/
structure Filter where
  fromBlock : BlockId
  toBlock : BlockId
  address : Option (List Address)
  topics : List (Option (List H256))
  limit : Option Nat
  deriving DecidableEq

/-- `LocalizedLogEntry`. -/
structure LocalizedLogEntry where
  entry : LogEntry
  blockHash : H256
  blockNumber : Nat
  transactionHash : H256
  transactionIndex : Nat
  logIndex : Nat
  transactionLogIndex : Nat
  deriving DecidableEq

/-- An absent or an empty list of candidates allows everything. -/
def allows {α : Type} [DecidableEq α] (candidates : Option (List α)) (value : Option α) : Bool :=
  match candidates with
  | none => true
  | some [] => true
  | some (first :: rest) => value.any fun found => (first :: rest).contains found

/-- `Filter::matches`: the address is allowed, and so is the topic at every listed position. -/
def Filter.matches (filter : Filter) (entry : LogEntry) : Bool :=
  allows filter.address (some entry.address) &&
    filter.topics.zipIdx.all fun candidates => allows candidates.1 entry.topics[candidates.2]?

/-- The answers of the node. -/
structure NodeClient (V : Type) where
  getLatestBlock : Except String EthereumBlock
  getBlock : Nat → Except String (Option EthereumBlock)
  getBlockByHash : H256 → Except String (Option EthereumBlock)
  waitBlockIndexed : Nat → Except String Unit
  queryTxs : Query → Except String (List (TransactionSnapshot V))

variable {σ V : Type} (host : Host σ V) (client : NodeClient V)

/-- `get_block`. -/
def getBlock : BlockId → Except String (Option EthereumBlock)
  | .hash hash => client.getBlockByHash hash
  | .number round => client.getBlock round
  | .latest => client.getLatestBlock.map some
  | .earliest => client.getBlock 0

/-- `get_block_unwrap`. -/
def getBlockUnwrap (id : BlockId) : Except String EthereumBlock :=
  match getBlock client id with
  | .error message => .error message
  | .ok none => .error "block not found"
  | .ok (some block) => .ok block

/-- The transaction must emit logs for any of the given addresses. -/
def addressConditions (filter : Filter) : List QueryCondition :=
  match filter.address with
  | none => []
  | some addresses => [⟨tagEthLogAddress, addresses.map (·.bytes)⟩]

/-- The transaction must emit logs for all of the given topics. -/
def topicConditions (filter : Filter) : List QueryCondition :=
  ((filter.topics.zip tagEthLogTopics).take 4).filterMap fun pair =>
    pair.1.map fun topics => ⟨pair.2, topics.map (·.bytes)⟩

/-- The query that `logs` makes for a range of rounds. -/
def logQuery (filter : Filter) (roundMin roundMax : Nat) : Query :=
  { roundMin, roundMax
    conditions := addressConditions filter ++ topicConditions filter
    limit := filter.limit.getD 0 }

/-- The matching logs of an execution result, with their places. -/
def localizeLogs (filter : Filter) (block : EthereumBlock) (transactionHash : H256)
    (transactionIndex : Nat) (logs : List LogEntry) : List LocalizedLogEntry :=
  logs.zipIdx.filterMap fun log =>
    if filter.matches log.1 then
      some
        { entry := log.1
          blockHash := block.hash
          blockNumber := block.round
          transactionHash
          transactionIndex
          logIndex := log.2
          transactionLogIndex := log.2 }
    else none

/-- The matching logs of one transaction that the query returned. -/
def transactionLogs (filter : Filter) (txn : TransactionSnapshot V) : List LocalizedLogEntry :=
  if txn.input.method ≠ methodTx then []
  else
    match host.bytesFromValue txn.input.args with
    | none => []
    | some raw =>
      match host.rlpDecode raw with
      | .error _ => []
      | .ok ethTx =>
        match txn.output with
        | .error _ => []
        | .success value =>
          match host.resultFromValue value with
          | none => []
          | some result => localizeLogs filter txn.block ethTx.hash txn.index result.logs

/-- `Translator::logs`. -/
def logs (filter : Filter) : Except String (List LocalizedLogEntry) := do
  let fromBlock ← getBlockUnwrap client filter.fromBlock
  let toBlock ← getBlockUnwrap client filter.toBlock
  client.waitBlockIndexed toBlock.round
  let txns ← client.queryTxs (logQuery filter fromBlock.round toBlock.round)
  let found := txns.flatMap (transactionLogs host filter)
  return found.mergeSort fun a b => decide (a.blockNumber ≤ b.blockNumber)

variable {host client}

/-- A log search succeeds exactly when all its requests do, and its result is made from the
transactions that the query returned. -/
theorem logs_eq_ok_iff {filter : Filter} {found : List LocalizedLogEntry} :
    logs host client filter = .ok found ↔
      ∃ fromBlock toBlock txns, getBlockUnwrap client filter.fromBlock = .ok fromBlock ∧
        getBlockUnwrap client filter.toBlock = .ok toBlock ∧
        client.waitBlockIndexed toBlock.round = .ok () ∧
        client.queryTxs (logQuery filter fromBlock.round toBlock.round) = .ok txns ∧
        found = sortByKey (·.blockNumber) (txns.flatMap (transactionLogs host filter)) := by
  constructor
  · intro returned
    simp only [logs, bind, Except.bind, pure, Except.pure] at returned
    split at returned
    · cases returned
    rename_i fromBlock resolvedFrom
    split at returned
    · cases returned
    rename_i toBlock resolvedTo
    split at returned
    · cases returned
    rename_i indexed
    split at returned
    · cases returned
    rename_i txns answered
    cases returned
    exact ⟨fromBlock, toBlock, txns, resolvedFrom, resolvedTo, indexed, answered, rfl⟩
  · rintro ⟨fromBlock, toBlock, txns, resolvedFrom, resolvedTo, indexed, answered, rfl⟩
    simp only [logs, resolvedFrom, resolvedTo, indexed, answered, bind, Except.bind, pure,
      Except.pure]
    rfl

end Ethwasi.Gateway
