import Ethwasi.Runtime.Host

/-!
# Checking and executing transactions

`check::tx` admits a transaction on its own; `execute::tx` applies it to the block that is being
built. A method takes `&mut ctx` and returns a `Result`, so it is modelled as a function that
returns its outcome together with the context after the call. Tags are emitted as in the
production build; the test build emits none.
-/

namespace Ethwasi.Runtime

open Ethwasi.Rust

/-- `TransactionError`. -/
inductive TransactionError where
  | blockGasLimitReached
  | duplicateTransaction
  | executionFailure (message : String)
  | gasPrice
  | tooMuchGas
  deriving DecidableEq

/-- The text of a transaction error. -/
def TransactionError.display : TransactionError → String
  | .blockGasLimitReached => "block gas limit reached"
  | .duplicateTransaction => "duplicate transaction"
  | .executionFailure message => "execution failed: " ++ message
  | .gasPrice => "insufficient gas price"
  | .tooMuchGas => "requested gas greater than block gas limit"

/-- Why a call was refused. -/
inductive Failure where
  | unableToParseCall
  | methodNotFound (method : String)
  | unableToParseArguments
  /-- The decoder error of `rlp`, by its text. -/
  | rlp (message : String)
  /-- The error of `SignedTransaction::new`, by its text. -/
  | signature (message : String)
  | transaction (error : TransactionError)
  | batchAborted
  deriving DecidableEq

/-- `format!("{}", err)`. A context replaces the text of the error it was put on. -/
def Failure.display : Failure → String
  | .unableToParseCall => "unable to parse call"
  | .methodNotFound method => "method not found: " ++ method
  | .unableToParseArguments => "unable to parse call arguments"
  | .rlp message => message
  | .signature message => message
  | .transaction error => error.display
  | .batchAborted => "batch aborted"

/-- `AnyError`: a check-only request returns its success as an error. -/
inductive AnyError where
  | checkOnlySuccess
  | failure (failure : Failure)
  deriving DecidableEq

/-- `BlockContext`. -/
structure BlockContext (σ : Type) where
  /-- Ethereum state for the current batch. -/
  state : σ
  envInfo : EnvInfo
  /-- Hashes of the executed transactions. -/
  transactionSet : Finset H256

/-- `TxnContext`, with the storage of the thread that runs the batch. -/
structure Context (σ : Type) where
  header : Header
  checkOnly : Bool
  tags : List Tag
  messages : List Bytes
  storage : σ
  /-- The runtime context; `None` until a batch starts. -/
  runtime : Option (BlockContext σ)

variable {σ V : Type} (host : Host σ V)

/-- `start_batch`. -/
def startBatch (ctx : Context σ) : Outcome AnyError (Context σ) :=
  match host.fromExisting ctx.storage ctx.header.previousHash with
  | .error _ => .panic .unwrapFailed
  | .ok state =>
    let envInfo : EnvInfo :=
      { number := ctx.header.round + 1
        author := FixedBytes.filled 20 0
        timestamp := ctx.header.timestamp
        difficulty := 0
        gasLimit := blockGasLimit
        lastHashes := [ctx.header.previousHash]
        gasUsed := 0 }
    .ok { ctx with runtime := some ⟨state, envInfo, ∅⟩ }

/-- `end_batch`. -/
def endBatch (ctx : Context σ) : Outcome AnyError (Context σ) :=
  match ctx.runtime with
  | none => .panic .unwrapFailed
  | some ectx =>
    match host.commit ectx.state with
    | .error _ => .panic .unwrapFailed
    | .ok stored => .ok { ctx with storage := stored }

/-- `check::tx`. -/
def checkTx (txn : Bytes) : Except Failure SignedTransaction :=
  match host.rlpDecode txn with
  | .error message => .error (.rlp message)
  | .ok decoded =>
    if decoded.gas > blockGasLimit then .error (.transaction .tooMuchGas)
    else
      match host.recover decoded with
      | .error message => .error (.signature message)
      | .ok sender =>
        -- A price in wei is compared with a number of gwei.
        if decoded.gasPrice < minGasPriceGwei then .error (.transaction .gasPrice)
        else .ok ⟨decoded, sender⟩

/-- What `check::tx` admits. -/
theorem checkTx_eq_ok_iff {host : Host σ V} {txn : Bytes} {signed : SignedTransaction} :
    checkTx host txn = .ok signed ↔
      host.rlpDecode txn = .ok signed.transaction ∧
        signed.transaction.gas ≤ blockGasLimit ∧
        host.recover signed.transaction = .ok signed.sender ∧
        minGasPriceGwei ≤ signed.transaction.gasPrice := by
  constructor
  · intro checked
    unfold checkTx at checked
    split at checked
    · cases checked
    rename_i decoded rlp
    split at checked
    · cases checked
    rename_i within
    split at checked
    · cases checked
    rename_i sender recovered
    split at checked
    · cases checked
    rename_i priced
    cases checked
    exact ⟨rlp, Nat.not_lt.mp within, recovered, Nat.not_lt.mp priced⟩
  · intro admitted
    obtain ⟨rlp, within, recovered, priced⟩ := admitted
    simp only [checkTx, rlp, if_neg (Nat.not_lt.mpr within), recovered,
      if_neg (Nat.not_lt.mpr priced)]

/-- The tags of one log: its address, then its topics under the topic tags. -/
def logTags (log : LogEntry) : List Tag :=
  ⟨tagEthLogAddress, log.address.bytes⟩ ::
    ((log.topics.zip tagEthLogTopics).take 4).map fun pair => ⟨pair.2, pair.1.bytes⟩

/-- The tags of an executed transaction. -/
def txTags (hash : H256) (logs : List LogEntry) : List Tag :=
  ⟨tagEthTxHash, hash.bytes⟩ :: logs.flatMap logTags

/-- The part of `execute::tx` after the transaction was applied. -/
def recordOutcome (ctx : Context σ) (ectx : BlockContext σ) (hash : H256)
    (outcome : ApplyOutcome) : Outcome AnyError ExecutionResult × Context σ :=
  let receipt := outcome.receipt
  let ectx := { ectx with transactionSet := insert hash ectx.transactionSet }
  match u256Sub receipt.gasUsed ectx.envInfo.gasUsed with
  | .panic cause => (.panic cause, { ctx with runtime := some ectx })
  | .err error => (.err error, { ctx with runtime := some ectx })
  | .ok gasUsed =>
    let ectx := { ectx with envInfo := { ectx.envInfo with gasUsed := receipt.gasUsed } }
    let ctx := { ctx with runtime := some ectx, tags := ctx.tags ++ txTags hash receipt.logs }
    match receipt.outcome with
    | .statusCode code =>
      (.ok { cumulativeGasUsed := receipt.gasUsed, gasUsed, logBloom := receipt.logBloom,
             logs := receipt.logs, statusCode := code, output := outcome.output }, ctx)
    | _ => (.panic .unreachableCode, ctx)

/-- `execute::tx`. -/
def executeTx (txn : SignedTransaction) (ctx : Context σ) :
    Outcome AnyError ExecutionResult × Context σ :=
  if ctx.checkOnly then (.err .checkOnlySuccess, ctx)
  else
    match ctx.runtime with
    | none => (.panic .unwrapFailed, ctx)
    | some ectx =>
      let hash := txn.transaction.hash
      if hash ∈ ectx.transactionSet then
        (.err (.failure (.transaction .duplicateTransaction)), ctx)
      else
        match u256Sub blockGasLimit ectx.envInfo.gasUsed with
        | .panic cause => (.panic cause, ctx)
        | .err error => (.err error, ctx)
        | .ok gasRemaining =>
          if txn.transaction.gas > gasRemaining then
            (.err (.failure (.transaction .blockGasLimitReached)), ctx)
          else
            match host.apply ectx.state ectx.envInfo txn with
            | (.error message, state) =>
              (.err (.failure (.transaction (.executionFailure message))),
                { ctx with runtime := some { ectx with state } })
            | (.ok outcome, state) => recordOutcome ctx { ectx with state } hash outcome

end Ethwasi.Runtime
