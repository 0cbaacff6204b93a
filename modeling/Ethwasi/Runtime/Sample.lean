import Ethwasi.Wire.Codec
import Ethwasi.Runtime.Methods

/-!
# A host that can be evaluated

Results about the runtime assume laws of the crates behind it. This host satisfies all of them
and is small enough to be evaluated: a raw call is its own argument, the first three bytes of a
transaction are its gas limit, its gas price and its hash, and the Ethereum state is a number,
the nonce that the next transaction has to carry. Every further byte of a transaction makes it
emit one log.
-/

namespace Ethwasi.Runtime

open Ethwasi.Rust Ethwasi.Wire

/-- CBOR values of the sample host. -/
inductive SampleValue where
  | bytes (value : Bytes)
  | result (value : ExecutionResult)
  deriving DecidableEq

def logCodec : Codec LogEntry :=
  (((Codec.fixed 20).pair (Codec.fixed 32).list).pair Codec.byte.list).map
    (fun fields => ⟨fields.1.1, fields.1.2, fields.2⟩)
    (fun log => ((log.address, log.topics), log.data)) (fun _ => rfl)

def resultCodec : Codec ExecutionResult :=
  ((Codec.unary.pair Codec.unary).pair
      ((Codec.byte.list.pair logCodec.list).pair (Codec.byte.pair Codec.byte.list))).map
    (fun fields => ⟨fields.1.1, fields.1.2, fields.2.1.1, fields.2.1.2, fields.2.2.1,
      fields.2.2.2⟩)
    (fun result => ((result.cumulativeGasUsed, result.gasUsed),
      ((result.logBloom, result.logs), (result.statusCode, result.output)))) (fun _ => rfl)

def valueCodec : Codec SampleValue :=
  (Codec.byte.list.either resultCodec).map
    (fun
      | .inl value => .bytes value
      | .inr value => .result value)
    (fun
      | .bytes value => .inl value
      | .result value => .inr value)
    (fun value => by cases value <;> rfl)

def outputCodec : Codec (TxnOutput SampleValue) :=
  (valueCodec.either Codec.text).map
    (fun
      | .inl value => .success value
      | .inr message => .error message)
    (fun
      | .success value => .inl value
      | .error message => .inr message)
    (fun output => by cases output <;> rfl)

/-- One log for every byte after the nonce. -/
def sampleLogs (body : Bytes) : List LogEntry :=
  body.tail.map fun byte => ⟨FixedBytes.filled 20 byte, [FixedBytes.filled 32 byte], []⟩

/-- A transaction with the right nonce uses one unit of gas, if it has it. -/
def sampleApply (nonce : Nat) (env : EnvInfo) (txn : SignedTransaction) :
    Except String ApplyOutcome × Nat :=
  if txn.transaction.body.head? = some (UInt8.ofNat nonce) then
    (.ok
      { receipt :=
          { gasUsed := env.gasUsed + min 1 txn.transaction.gas
            logBloom := []
            logs := sampleLogs txn.transaction.body
            outcome := .statusCode 1 }
        output := [] },
      nonce + 1)
  else (.error "invalid nonce", nonce)

def sampleHost : Host Nat SampleValue where
  callFromSlice call := if call = [] then none else some ⟨"tx", .bytes call⟩
  bytesFromValue
    | .bytes value => some value
    | .result _ => none
  resultToValue := .result
  resultFromValue
    | .bytes _ => none
    | .result value => some value
  checkOnlyValue := .bytes []
  outputToVec := outputCodec.put
  outputFromSlice := outputCodec.read
  rlpDecode
    | gas :: gasPrice :: hash :: body =>
      .ok ⟨gas.toNat, gasPrice.toNat, FixedBytes.filled 32 hash, body⟩
    | _ => .error "too few bytes"
  recover txn := .ok ⟨txn.hash.bytes.take 20, by simp [txn.hash.length_eq]⟩
  fromExisting state _ := .ok state
  apply := sampleApply
  commit state := .ok state

theorem sampleHost_cbor : sampleHost.CborRoundTrip where
  output output := outputCodec.read_put output
  result _ := rfl

theorem sampleHost_applyAtomic : sampleHost.ApplyAtomic := by
  intro nonce env txn message after failed
  change sampleApply nonce env txn = _ at failed
  unfold sampleApply at failed
  split at failed
  · cases failed
  · cases failed
    rfl

theorem sampleHost_applyGas : sampleHost.ApplyGas := by
  intro nonce env txn outcome after applied
  change sampleApply nonce env txn = _ at applied
  unfold sampleApply at applied
  split at applied
  · cases applied
    exact ⟨min 1 txn.transaction.gas, Nat.min_le_right _ _, rfl⟩
  · cases applied

/-- A context of the sample host before its first batch. -/
def sampleContext : Context Nat :=
  { header := ⟨4, 100, FixedBytes.filled 32 3⟩, checkOnly := false, tags := [], messages := [],
    storage := 0, runtime := none }

/-- An executed call, an empty one, one with a wrong nonce, the first one again, and one more
that is executed. -/
def mixedBatch : List Bytes := [[5, 1, 7, 0], [], [5, 1, 8, 9], [5, 1, 7, 0], [5, 1, 9, 1, 6]]

end Ethwasi.Runtime
