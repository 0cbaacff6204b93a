import Ethwasi.Runtime.Methods

/-!
# The dispatcher

`execute_batch` decodes every call first and then processes the decoded calls in order. Both
passes look at the abort flag once for every call; `abortBatch` gives the value that the n-th
look finds, so every moment at which the flag may be set is covered. Prefetching only fills a
cache between the passes; what it asks for is in a module of its own.
-/

namespace Ethwasi.Runtime

open Ethwasi.Rust

/-- `DecodedCall`. -/
structure DecodedCall where
  transaction : SignedTransaction
  deriving DecidableEq

/-- `ExecuteTxResult`. -/
structure ExecuteTxResult where
  output : Bytes
  tags : List Tag
  deriving DecidableEq

/-- `ExecuteBatchResult`. -/
structure ExecuteBatchResult where
  results : List ExecuteTxResult
  messages : List Bytes
  deriving DecidableEq

/-- `RuntimeError`. -/
structure RuntimeError where
  module : String
  code : Nat
  message : String
  deriving DecidableEq

/-- `Dispatcher`: the abort flag, by the values that successive loads return. -/
structure Dispatcher where
  abortBatch : Option (Nat → Bool)

/-- What the n-th load of the abort flag says; a flag that was never configured is not set. -/
def Dispatcher.aborted (dispatcher : Dispatcher) (load : Nat) : Bool :=
  (dispatcher.abortBatch.map fun flag => flag load).getD false

variable {σ V : Type} (host : Host σ V) (dispatcher : Dispatcher)

/-- `METHOD_TX`. -/
def methodTx : String := "tx"

/-- `decode_transaction`. -/
def decodeTransaction (call : Bytes) : Except Failure DecodedCall :=
  match host.callFromSlice call with
  | none => .error .unableToParseCall
  | some call =>
    if call.method ≠ methodTx then .error (.methodNotFound call.method)
    else
      match host.bytesFromValue call.args with
      | none => .error .unableToParseArguments
      | some args =>
        match checkTx host args with
        | .error failure => .error failure
        | .ok signed => .ok ⟨signed⟩

/-- What `decode_transaction` admits. -/
theorem decodeTransaction_eq_ok_iff {host : Host σ V} {call : Bytes} {txn : SignedTransaction} :
    decodeTransaction host call = .ok ⟨txn⟩ ↔
      ∃ input raw, host.callFromSlice call = some input ∧ input.method = methodTx ∧
        host.bytesFromValue input.args = some raw ∧ checkTx host raw = .ok txn := by
  constructor
  · intro decoded
    unfold decodeTransaction at decoded
    split at decoded
    · cases decoded
    rename_i input found
    split at decoded
    · cases decoded
    rename_i method
    split at decoded
    · cases decoded
    rename_i raw args
    split at decoded
    · cases decoded
    rename_i signed checked
    cases decoded
    exact ⟨input, raw, found, Decidable.not_not.mp method, args, checked⟩
  · intro admitted
    obtain ⟨input, raw, found, method, args, checked⟩ := admitted
    simp only [decodeTransaction, found, method, ne_eq, not_true_eq_false, if_false, args,
      checked]

/-- `encode_response`. -/
def encodeResponse (call : DecodedCall) (ctx : Context σ) : Outcome AnyError Bytes × Context σ :=
  match executeTx host call.transaction ctx with
  | (.ok response, ctx) => (.ok (host.outputToVec (.success (host.resultToValue response))), ctx)
  | (.err error, ctx) => (.err error, ctx)
  | (.panic cause, ctx) => (.panic cause, ctx)

/-- `serialize_error`. -/
def serializeError : AnyError → Bytes
  | .checkOnlySuccess => host.outputToVec (.success host.checkOnlyValue)
  | .failure failure => host.outputToVec (.error failure.display)

/-- One call of the first pass. -/
def decodeCall (aborted : Bool) (call : Bytes) : Except Failure DecodedCall :=
  if aborted then .error .batchAborted else decodeTransaction host call

/-- One call of the second pass. -/
def processCall (aborted : Bool) (call : Except Failure DecodedCall) (ctx : Context σ) :
    Outcome AnyError (ExecuteTxResult × Context σ) :=
  if aborted then .ok (⟨serializeError host (.failure .batchAborted), []⟩, ctx)
  else
    match call with
    | .error failure => .ok (⟨serializeError host (.failure failure), []⟩, ctx)
    | .ok call =>
      match encodeResponse host call ctx with
      | (.ok response, ctx) => .ok (⟨response, ctx.tags⟩, { ctx with tags := [] })
      | (.err error, ctx) => .ok (⟨serializeError host error, []⟩, ctx)
      | (.panic cause, _) => .panic cause

/-- The first pass. -/
def decodeCalls (batch : List Bytes) : List (Except Failure DecodedCall) :=
  batch.mapIdx fun index call => decodeCall host (dispatcher.aborted index) call

/-- The second pass, from a given load of the abort flag on. -/
def processCalls (load : Nat) :
    List (Except Failure DecodedCall) → Context σ →
      Outcome AnyError (List ExecuteTxResult × Context σ)
  | [], ctx => .ok ([], ctx)
  | call :: calls, ctx => do
    let (result, ctx) ← processCall host (dispatcher.aborted load) call ctx
    let (results, ctx) ← processCalls (load + 1) calls ctx
    return (result :: results, ctx)

/-- `execute_batch`, with the context it leaves. It has no path that returns an error. -/
def executeBatch (ctx : Context σ) (batch : List Bytes) :
    Outcome AnyError (ExecuteBatchResult × Context σ) := do
  let ctx ← startBatch host ctx
  let calls := decodeCalls host dispatcher batch
  let (results, ctx) ← processCalls host dispatcher batch.length calls ctx
  let ctx ← endBatch host ctx
  return (⟨results, ctx.messages⟩, ctx)

/-- `CheckTxResult`; there is never any metadata. -/
structure CheckTxResult where
  error : RuntimeError
  deriving DecidableEq

/-- The result of `check_batch` for one call; the default error has code zero. -/
def checkResult : Except Failure DecodedCall → CheckTxResult
  | .ok _ => ⟨⟨"", 0, ""⟩⟩
  | .error failure => ⟨⟨"", 1, failure.display⟩⟩

/-- `check_batch`. -/
def checkBatch (ctx : Context σ) (batch : List Bytes) : Outcome AnyError (List CheckTxResult) := do
  let ctx ← startBatch host ctx
  let calls := decodeCalls host dispatcher batch
  let _ ← endBatch host ctx
  return calls.map checkResult

end Ethwasi.Runtime
