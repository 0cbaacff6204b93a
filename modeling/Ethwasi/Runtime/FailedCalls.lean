import Ethwasi.Runtime.Batch
import Ethwasi.Runtime.Sample

/-!
# Failed calls are invisible

A call that ends in an error changes neither the block nor the tags waiting in the context.
Deleting such calls from a batch therefore changes nothing for the others: they return the same
outputs and tags, and the block ends in the same state.
-/

namespace Ethwasi.Runtime

open Ethwasi.Rust Ethwasi.Transition

variable {σ V : Type} {host : Host σ V} {dispatcher : Dispatcher}

/-- The result of the call is `TxnOutput::Error`. -/
def IsError (host : Host σ V) (result : ExecuteTxResult) : Prop :=
  ∃ message, host.outputFromSlice result.output = some (.error message)

theorem isError_of_failure (cbor : host.CborRoundTrip) (failure : Failure) (tags : List Tag) :
    IsError host ⟨serializeError host (.failure failure), tags⟩ :=
  ⟨failure.display, cbor.output (.error failure.display)⟩

/-- No call leaves the mode of its batch. -/
theorem checkOnly_step (event : CallEvent σ) (step : event.Of (callMachine host)) :
    event.after.checkOnly = event.before.checkOnly := by
  cases callEffect_of step with
  | refused failure why output after => rw [after]
  | checked call running decoded checkOnly output after => rw [after]
  | failed txn ectx message state admitted applied output after => rw [after]
  | executed txn ectx outcome state code admitted applied cumulative status output after =>
    rw [after]

/-- A batch that starts to execute its calls goes on executing them. -/
theorem executing_of_mem_run {started : Context σ} (executing : started.checkOnly = false)
    {inputs : List CallInput} {event : CallEvent σ}
    (member : event ∈ run (callMachine host) started inputs) : event.before.checkOnly = false :=
  ((run_invariant (fun ctx : Context σ => ctx.checkOnly = false)
    (fun event step held => (checkOnly_step event step).trans held) executing).1 event member).1

theorem startBatch_checkOnly {ctx started : Context σ}
    (opened : startBatch host ctx = .ok started) :
    started.checkOnly = ctx.checkOnly := by
  obtain ⟨state, _, rfl⟩ := startBatch_eq_ok_iff.mp opened
  rfl

/-- A call that ends in an error leaves the context as it was. -/
theorem unchanged_of_isError (cbor : host.CborRoundTrip) (atomic : host.ApplyAtomic)
    (event : CallEvent σ) (step : event.Of (callMachine host))
    (executing : event.before.checkOnly = false) (failing : IsError host event.output) :
    event.after = event.before := by
  obtain ⟨message, decoded⟩ := failing
  cases callEffect_of step with
  | refused failure why output after => exact after
  | checked call running callDecoded checkOnly output after =>
    rw [executing] at checkOnly
    cases checkOnly
  | failed txn ectx reason state admitted applied output after =>
    have kept : state = ectx.state := atomic _ _ _ _ _ applied
    rw [after, kept, ← admitted.runtime]
  | executed txn ectx outcome state code admitted applied cumulative status output after =>
    rw [output, cbor.output] at decoded
    cases decoded

/-- While the abort flag is not set, the second pass gets every decoded call. -/
theorem callInputs_of_running (running : ∀ load, dispatcher.aborted load = false) (load : Nat)
    (calls : List (Except Failure DecodedCall)) :
    callInputs dispatcher load calls = calls.map fun call => ⟨false, call⟩ := by
  induction calls generalizing load with
  | nil => rfl
  | cons call calls ih => rw [callInputs, running, ih, List.map_cons]

/-- While the abort flag is not set, the first pass decodes every call on its own. -/
theorem decodeCalls_of_running (running : ∀ load, dispatcher.aborted load = false)
    (batch : List Bytes) :
    decodeCalls host dispatcher batch = batch.map (decodeTransaction host) := by
  apply List.ext_getElem?
  intro index
  simp [decodeCalls, decodeCall, running]

/-- Deleting calls whose result is an error from a batch that is not aborted changes nothing for
the other calls: they return the same outputs and tags, and the batch leaves the same context,
with the same Ethereum state, gas used and set of executed transactions. -/
theorem failed_calls_invisible (cbor : host.CborRoundTrip) (atomic : host.ApplyAtomic)
    (running : ∀ load, dispatcher.aborted load = false) (ctx : Context σ)
    (executing : ctx.checkOnly = false) (batch : List Bytes) (result : ExecuteBatchResult)
    (final : Context σ) (ran : executeBatch host dispatcher ctx batch = .ok (result, final))
    (mask : List Bool) (sized : mask.length = batch.length)
    (deleted : ∀ (i : Nat) (failing : ExecuteTxResult), mask[i]? = some false →
      result.results[i]? = some failing → IsError host failing) :
    executeBatch host dispatcher ctx (select mask batch) =
      .ok (⟨select mask result.results, result.messages⟩, final) := by
  obtain ⟨started, results, after, opened, processed, closed, rfl⟩ :=
    executeBatch_eq_ok_iff.mp ran
  have inputs (calls : List Bytes) :
      callInputs dispatcher calls.length (decodeCalls host dispatcher calls) =
        calls.map fun call => ⟨false, decodeTransaction host call⟩ := by
    rw [callInputs_of_running running, decodeCalls_of_running running, List.map_map]
    rfl
  have decodedLength (calls : List Bytes) :
      (decodeCalls host dispatcher calls).length = calls.length := by simp [decodeCalls]
  obtain ⟨complete, outputs, last⟩ := processCalls_eq_ok_iff.mp processed
  rw [inputs] at complete outputs last
  rw [decodedLength] at complete
  have startedMode : started.checkOnly = false := by
    rw [startBatch_checkOnly opened, executing]
  -- Every deleted event is one of an error, and so it left the context alone.
  have idle : ∀ (i : Nat) (event : CallEvent σ), mask[i]? = some false →
      (run (callMachine host) started
        (batch.map fun call => ⟨false, decodeTransaction host call⟩))[i]? = some event →
        event.after = event.before := by
    intro i event unmarked found
    have member := List.mem_of_getElem? found
    have mode := (run_invariant (fun ctx : Context σ => ctx.checkOnly = false)
      (fun event step held => (checkOnly_step event step).trans held) startedMode).1 event member
    have failing := deleted i event.output unmarked (by rw [outputs]; simp [found])
    exact unchanged_of_isError cbor atomic event (of_mem_run member) mode.1 failing
  obtain ⟨events, sameLast⟩ := run_select mask (by simpa using sized) (by simpa using complete)
    idle
  rw [executeBatch_eq_ok_iff]
  refine ⟨started, select mask results, after, opened, ?_, closed, rfl⟩
  rw [processCalls_eq_ok_iff, inputs, decodedLength, ← select_map, events]
  refine ⟨?_, ?_, ?_⟩
  · exact select_length mask complete
  · rw [outputs, select_map]
  · rw [last, sameLast]

/-- The empty call and the one with the wrong nonce can be deleted. -/
theorem mixed_batch_pruned :
    ∃ result final, executeBatch sampleHost ⟨none⟩ sampleContext mixedBatch = .ok (result, final) ∧
      executeBatch sampleHost ⟨none⟩ sampleContext
          (select [true, false, false, true, true] mixedBatch) =
        .ok (⟨select [true, false, false, true, true] result.results, result.messages⟩,
          final) := by
  refine ⟨_, _, rfl, failed_calls_invisible sampleHost_cbor sampleHost_applyAtomic
    (fun _ => rfl) sampleContext rfl mixedBatch _ _ rfl _ rfl ?_⟩
  intro i failing unmarked found
  match i with
  | 0 => cases unmarked
  | 1 =>
    cases found
    exact isError_of_failure sampleHost_cbor _ _
  | 2 =>
    cases found
    exact isError_of_failure sampleHost_cbor _ _
  | 3 => cases unmarked
  | 4 => cases unmarked
  | rest + 5 => cases unmarked

end Ethwasi.Runtime
