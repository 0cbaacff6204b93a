import Mathlib.Data.Finset.Insert
import Ethwasi.Common

/-!
# Data of the runtime and the crates it calls

The runtime is a thin layer over other crates: CBOR and RLP decode its input, the signer checks
signatures, and the Ethereum state applies transactions. What they do is collected in one
structure, `Host`, so that every statement about the runtime holds for all of them; what a
statement needs to know about them is a hypothesis with a name. Gas and timestamps are natural
numbers. A 256-bit subtraction panics on underflow in every build.
-/

namespace Ethwasi.Runtime

open Ethwasi.Rust

/-- `LogEntry`. Receipts and execution results use the same three fields. -/
structure LogEntry where
  /-- The contract executing at the point of the `LOG` operation. -/
  address : Address
  topics : List H256
  data : Bytes
  deriving DecidableEq

/-- `TransactionOutcome` of a receipt. -/
inductive TransactionOutcome where
  | unknown
  | stateRoot (root : H256)
  | statusCode (code : UInt8)
  deriving DecidableEq

/-- `Receipt`. -/
structure Receipt where
  /-- Gas used by the block up to and including the transaction. -/
  gasUsed : Nat
  logBloom : Bytes
  logs : List LogEntry
  outcome : TransactionOutcome
  deriving DecidableEq

/-- `ApplyOutcome`, as far as the runtime reads it. -/
structure ApplyOutcome where
  receipt : Receipt
  output : Bytes
  deriving DecidableEq

/-- `ExecutionResult`, the value of a successful call. -/
structure ExecutionResult where
  cumulativeGasUsed : Nat
  gasUsed : Nat
  logBloom : Bytes
  logs : List LogEntry
  statusCode : UInt8
  output : Bytes
  deriving DecidableEq

/-- `UnverifiedTransaction`. The body stands for the fields that only the state reads. -/
structure UnverifiedTransaction where
  gas : Nat
  gasPrice : Nat
  hash : H256
  body : Bytes
  deriving DecidableEq

/-- `SignedTransaction`: a transaction with the sender recovered from its signature. -/
structure SignedTransaction where
  transaction : UnverifiedTransaction
  sender : Address
  deriving DecidableEq

/-- `TxnCall`. -/
structure TxnCall (V : Type) where
  method : String
  args : V

/-- `TxnOutput`. -/
inductive TxnOutput (V : Type) where
  | success (value : V)
  | error (message : String)
  deriving DecidableEq

/-- A tag emitted by a transaction. -/
structure Tag where
  key : Bytes
  value : Bytes
  deriving DecidableEq

/-- The fields of the block header that the runtime reads. -/
structure Header where
  round : Nat
  timestamp : Nat
  previousHash : H256
  deriving DecidableEq

/-- `EnvInfo`. -/
structure EnvInfo where
  number : Nat
  author : Address
  timestamp : Nat
  difficulty : Nat
  gasLimit : Nat
  lastHashes : List H256
  /-- Gas used by the block so far. -/
  gasUsed : Nat
  deriving DecidableEq

/-- The crates behind the runtime, over a type of Ethereum states and a type of CBOR values. -/
structure Host (σ V : Type) where
  /-- `cbor::from_slice::<TxnCall>`. -/
  callFromSlice : Bytes → Option (TxnCall V)
  /-- `cbor::from_value::<ByteBuf>`. -/
  bytesFromValue : V → Option Bytes
  /-- `cbor::to_value` of an execution result. -/
  resultToValue : ExecutionResult → V
  /-- `cbor::from_value::<ExecutionResult>`. -/
  resultFromValue : V → Option ExecutionResult
  /-- `cbor::to_value` of the default check result. -/
  checkOnlyValue : V
  /-- `cbor::to_vec` of a transaction output. -/
  outputToVec : TxnOutput V → Bytes
  /-- `cbor::from_slice::<TxnOutput>`. -/
  outputFromSlice : Bytes → Option (TxnOutput V)
  /-- `rlp::decode::<UnverifiedTransaction>`. -/
  rlpDecode : Bytes → Except String UnverifiedTransaction
  /-- `SignedTransaction::new`: recover the sender. -/
  recover : UnverifiedTransaction → Except String Address
  /-- `State::from_existing` over the stored state, with a confidential context for the block. -/
  fromExisting : σ → H256 → Except String σ
  /-- `State::apply`, with the state it leaves. -/
  apply : σ → EnvInfo → SignedTransaction → Except String ApplyOutcome × σ
  /-- `State::commit`: the state that is stored. -/
  commit : σ → Except String σ

variable {σ V : Type}

/-- CBOR decodes what it encodes. -/
structure Host.CborRoundTrip (host : Host σ V) : Prop where
  output : ∀ output, host.outputFromSlice (host.outputToVec output) = some output
  result : ∀ result, host.resultFromValue (host.resultToValue result) = some result

/-- `State::apply` leaves the state unchanged when it returns an error. -/
def Host.ApplyAtomic (host : Host σ V) : Prop :=
  ∀ state env txn message after, host.apply state env txn = (.error message, after) → after = state

/-- A receipt reports the gas used before plus at most the transaction's own gas limit. -/
def Host.ApplyGas (host : Host σ V) : Prop :=
  ∀ state env txn outcome after, host.apply state env txn = (.ok outcome, after) →
    ∃ used ≤ txn.transaction.gas, outcome.receipt.gasUsed = env.gasUsed + used

/-- `U256` subtraction. -/
def u256Sub {ε : Type} (left right : Nat) : Outcome ε Nat :=
  if right ≤ left then .ok (left - right) else .panic .arithmeticOverflow

theorem u256Sub_of_le {ε : Type} {left right : Nat} (ordered : right ≤ left) :
    (u256Sub left right : Outcome ε Nat) = .ok (left - right) := if_pos ordered

/-- Encoded outputs are equal only if the outputs are. -/
theorem Host.CborRoundTrip.outputToVec_inj {host : Host σ V} (cbor : host.CborRoundTrip)
    {first second : TxnOutput V} (same : host.outputToVec first = host.outputToVec second) :
    first = second := by
  have decoded := cbor.output first
  rw [same, cbor.output second] at decoded
  exact (Option.some.inj decoded).symm

end Ethwasi.Runtime
