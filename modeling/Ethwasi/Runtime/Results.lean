import Mathlib.Data.List.Forall2
import Ethwasi.Runtime.Batch

/-!
# What a block records of its calls

A block keeps the calls of a batch with their results. Whatever happened before in the batch,
and whenever it is aborted, the result of a call is one of two things: the response of its
execution with the tags of its transaction and its logs, or an error without tags. No tag of
one call ever reaches the result of another.
-/

namespace Ethwasi.Runtime

open Ethwasi.Rust Ethwasi.Transition

variable {σ V : Type} (host : Host σ V)

/-- The execution result that a `Success` output carries. -/
def successOf (result : ExecuteTxResult) : Option ExecutionResult :=
  match host.outputFromSlice result.output with
  | some (.success value) => host.resultFromValue value
  | _ => none

/-- What a block records of a decoded or refused call. -/
inductive Recorded (call : Except Failure DecodedCall) (result : ExecuteTxResult) : Prop where
  | executed (txn : SignedTransaction) (response : ExecutionResult)
      (decoded : call = .ok ⟨txn⟩)
      (output : result.output = host.outputToVec (.success (host.resultToValue response)))
      (tags : result.tags = txTags txn.transaction.hash response.logs)
  | failed (failure : Failure)
      (output : result.output = serializeError host (.failure failure))
      (tags : result.tags = [])

/-- The context executes its calls and holds no tags of an earlier one. -/
structure Clean (ctx : Context σ) : Prop where
  executing : ctx.checkOnly = false
  tags : ctx.tags = []

variable {host} {dispatcher : Dispatcher}

theorem successOf_failure (cbor : host.CborRoundTrip) (failure : Failure) (tags : List Tag) :
    successOf host ⟨serializeError host (.failure failure), tags⟩ = none := by
  simp only [successOf, serializeError, cbor.output]

theorem successOf_response (cbor : host.CborRoundTrip) (response : ExecutionResult)
    (tags : List Tag) :
    successOf host ⟨host.outputToVec (.success (host.resultToValue response)), tags⟩ =
      some response := by
  simp only [successOf, cbor.output, cbor.result]

/-- Equal error outputs have the same text. -/
theorem display_of_serializeError (cbor : host.CborRoundTrip) {failure other : Failure}
    (same : serializeError host (.failure failure) = serializeError host (.failure other)) :
    failure.display = other.display :=
  TxnOutput.error.inj (cbor.outputToVec_inj same)

/-- One call of a clean context is recorded and leaves the context clean. -/
theorem recorded_step {event : CallEvent σ} (step : event.Of (callMachine host))
    (clean : Clean event.before) :
    Recorded host event.input.call event.output ∧ Clean event.after := by
  cases callEffect_of step with
  | refused failure why output after =>
    rw [output, after]
    exact ⟨.failed failure rfl rfl, clean⟩
  | checked call running decoded checkOnly output after =>
    rw [clean.executing] at checkOnly
    cases checkOnly
  | failed txn ectx message state admitted applied output after =>
    rw [output, after]
    exact ⟨.failed _ rfl rfl, ⟨clean.executing, clean.tags⟩⟩
  | executed txn ectx outcome state code admitted applied cumulative status output after =>
    rw [output, after]
    refine ⟨.executed txn _ admitted.decoded rfl ?_, ⟨clean.executing, rfl⟩⟩
    rw [clean.tags]
    rfl

/-- The second pass records every call. -/
theorem recorded_of_processCalls {calls : List (Except Failure DecodedCall)} {load : Nat}
    {ctx after : Context σ} {results : List ExecuteTxResult} (clean : Clean ctx)
    (processed : processCalls host dispatcher load calls ctx = .ok (results, after)) :
    List.Forall₂ (Recorded host) calls results := by
  induction calls generalizing load ctx results with
  | nil =>
    cases processed
    exact .nil
  | cons call calls ih =>
    simp only [processCalls, Outcome.bind_eq_ok, Outcome.pure_eq_ok, Outcome.ok.injEq,
      Prod.mk.injEq] at processed
    obtain ⟨⟨result, next⟩, first, ⟨rest, last⟩, later, rfl, rfl⟩ := processed
    have step : Event.Of (callMachine host)
        ⟨ctx, ⟨dispatcher.aborted load, call⟩, result, next⟩ := callMachine_of_ok first
    obtain ⟨recorded, cleanNext⟩ := recorded_step step clean
    exact .cons recorded (ih cleanNext later)

/-- A call that is decoded in the first pass is decoded as on its own. -/
theorem decodeCall_eq_ok {aborted : Bool} {call : Bytes} {decoded : DecodedCall}
    (returned : decodeCall host aborted call = .ok decoded) :
    decodeTransaction host call = .ok decoded := by
  unfold decodeCall at returned
  split at returned
  · cases returned
  · exact returned

/-- What a block records of a call that it was given as bytes. -/
def RecordedCall (host : Host σ V) (call : Bytes) (result : ExecuteTxResult) : Prop :=
  Recorded host (decodeTransaction host call) result

/-- A batch of a fresh context records every call, one result for each and in order. -/
theorem recorded_of_executeBatch {ctx final : Context σ} {batch : List Bytes}
    {result : ExecuteBatchResult} (clean : Clean ctx)
    (ran : executeBatch host dispatcher ctx batch = .ok (result, final)) :
    List.Forall₂ (RecordedCall host) batch result.results := by
  obtain ⟨started, results, after, opened, processed, _, rfl⟩ := executeBatch_eq_ok_iff.mp ran
  have cleanStarted : Clean started := by
    obtain ⟨state, _, rfl⟩ := startBatch_eq_ok_iff.mp opened
    exact ⟨clean.executing, clean.tags⟩
  have recorded := recorded_of_processCalls cleanStarted processed
  rw [List.forall₂_iff_get] at recorded ⊢
  obtain ⟨length, each⟩ := recorded
  have decodedLength : (decodeCalls host dispatcher batch).length = batch.length := by
    simp [decodeCalls]
  refine ⟨decodedLength.symm.trans length, ?_⟩
  intro index inBatch inResults
  have recorded := each index (by rw [decodedLength]; exact inBatch) inResults
  have call : (decodeCalls host dispatcher batch).get
      ⟨index, by rw [decodedLength]; exact inBatch⟩ =
      decodeCall host (dispatcher.aborted index) (batch.get ⟨index, inBatch⟩) := by
    simp [decodeCalls]
  rw [call] at recorded
  cases recorded with
  | executed txn response decoded output tags =>
    exact .executed txn response (decodeCall_eq_ok decoded) output tags
  | failed failure output tags => exact .failed failure output tags

/-- The result at the position of a call is what is recorded of it. -/
theorem recordedCall_at {ctx final : Context σ} {batch : List Bytes}
    {result : ExecuteBatchResult} (clean : Clean ctx)
    (ran : executeBatch host dispatcher ctx batch = .ok (result, final)) {index : Nat}
    {call : Bytes} {output : ExecuteTxResult} (called : batch[index]? = some call)
    (answered : result.results[index]? = some output) : RecordedCall host call output := by
  have paired : (call, output) ∈ batch.zip result.results :=
    List.mem_of_getElem? (List.getElem?_zip_eq_some.mpr ⟨called, answered⟩)
  exact (List.forall₂_iff_zip.mp (recorded_of_executeBatch clean ran)).2 paired

end Ethwasi.Runtime
