import Ethwasi.Runtime.Alignment
import Ethwasi.Runtime.FailedCalls

/-!
# Checking a call and executing it

A call is checked when it is submitted, among other calls and against some state, and executed
later, in another batch and against another state. `check_batch` decides it by the bytes of the
call alone. What it rejects fails with the same message in every block, and what it accepts can
only fail for a reason that depends on the block. A batch executed in check-only mode gives the
verdicts of `check_batch` and leaves the state as it found it.
-/

namespace Ethwasi.Runtime

open Ethwasi.Rust Ethwasi.Transition

variable {σ V : Type}

/-- The outputs of a transaction that depend on the block in which it is executed, by what the
block says about it: it is executed there, it was executed there before, the block has not enough
gas left for it, or the Ethereum state refuses it. -/
inductive BlockOutput (host : Host σ V) (before : Context σ) (txn : SignedTransaction) :
    ExecuteTxResult → Prop where
  | executed (response : ExecutionResult) (produced : Produced host before txn response) :
      BlockOutput host before txn
        ⟨host.outputToVec (.success (host.resultToValue response)),
          before.tags ++ txTags txn.transaction.hash response.logs⟩
  | duplicate (ectx : BlockContext σ) (runtime : before.runtime = some ectx)
      (seen : txn.transaction.hash ∈ ectx.transactionSet) :
      BlockOutput host before txn
        ⟨host.outputToVec (.error TransactionError.duplicateTransaction.display), []⟩
  | blockFull (ectx : BlockContext σ) (runtime : before.runtime = some ectx)
      (large : blockGasLimit - ectx.envInfo.gasUsed < txn.transaction.gas) :
      BlockOutput host before txn
        ⟨host.outputToVec (.error TransactionError.blockGasLimitReached.display), []⟩
  | failed (message : String) (ectx : BlockContext σ) (runtime : before.runtime = some ectx)
      (state : σ) (applied : host.apply ectx.state ectx.envInfo txn = (.error message, state)) :
      BlockOutput host before txn
        ⟨host.outputToVec (.error (TransactionError.executionFailure message).display), []⟩

/-- The output of a call that `check_batch` decided on: a rejected call fails with the message of
the check, and an accepted one depends on its block. -/
inductive Follows (host : Host σ V) (before : Context σ) (call : Except Failure DecodedCall)
    (verdict : CheckTxResult) (output : ExecuteTxResult) : Prop where
  | rejected (code : verdict.error.code = 1)
      (same : output = ⟨host.outputToVec (.error verdict.error.message), []⟩)
  | accepted (code : verdict.error.code = 0) (txn : SignedTransaction)
      (decoded : call = .ok ⟨txn⟩) (depends : BlockOutput host before txn output)

variable {host : Host σ V} {dispatcher : Dispatcher}

/-- A batch is checked exactly when the state can be opened and stored again. -/
theorem checkBatch_eq_ok_iff {ctx : Context σ} {batch : List Bytes}
    {verdicts : List CheckTxResult} :
    checkBatch host dispatcher ctx batch = .ok verdicts ↔
      ∃ started final, startBatch host ctx = .ok started ∧ endBatch host started = .ok final ∧
        verdicts = (decodeCalls host dispatcher batch).map checkResult := by
  unfold checkBatch
  simp only [Outcome.bind_eq_ok, Outcome.pure_eq_ok, Outcome.ok.injEq]
  constructor
  · rintro ⟨started, opened, final, closed, rfl⟩
    exact ⟨started, final, opened, closed, rfl⟩
  · rintro ⟨started, final, opened, closed, rfl⟩
    exact ⟨started, opened, final, closed, rfl⟩

/-- The verdict on a call at which the abort flag was not set. -/
theorem verdict_at {ctx : Context σ} {batch : List Bytes} {verdicts : List CheckTxResult}
    (checked : checkBatch host dispatcher ctx batch = .ok verdicts) {index : Nat} {call : Bytes}
    (called : batch[index]? = some call) (running : dispatcher.aborted index = false) :
    verdicts[index]? = some (checkResult (decodeTransaction host call)) := by
  obtain ⟨started, final, _, _, rfl⟩ := checkBatch_eq_ok_iff.mp checked
  simp [decodeCalls, decodeCall, called, running]

/-- What a processed call returns follows the verdict on it. -/
theorem follows_of_step {event : CallEvent σ} (step : event.Of (callMachine host))
    (executing : event.before.checkOnly = false) (running : event.input.aborted = false) :
    Follows host event.before event.input.call (checkResult event.input.call) event.output := by
  have accepted {txn : SignedTransaction} {ectx : BlockContext σ}
      (attempted : Attempted event.input event.before txn ectx) :
      (checkResult event.input.call).error.code = 0 := by rw [attempted.decoded]; rfl
  cases callEffect_of step with
  | refused failure why output after =>
    cases why with
    | aborted set =>
      rw [running] at set
      cases set
    | undecodable failure _ refused =>
      rw [refused]
      exact .rejected rfl output
    | duplicate txn ectx attempted seen =>
      exact .accepted (accepted attempted) txn attempted.decoded
        (output ▸ .duplicate ectx attempted.runtime seen)
    | blockFull txn ectx attempted fresh large =>
      exact .accepted (accepted attempted) txn attempted.decoded
        (output ▸ .blockFull ectx attempted.runtime large)
  | checked call _ decoded checkOnly output after =>
    rw [executing] at checkOnly
    cases checkOnly
  | failed txn ectx message state admitted applied output after =>
    exact .accepted (accepted admitted.toAttempted) txn admitted.decoded
      (output ▸ .failed message ectx admitted.runtime state applied)
  | executed txn ectx outcome state code admitted applied cumulative status output after =>
    exact .accepted (accepted admitted.toAttempted) txn admitted.decoded (output ▸ .executed _
      (.intro ectx state outcome admitted.runtime applied status rfl rfl rfl rfl rfl))

/-- Checking binds execution. Let a call be checked in some batch and executed in another, each
with its own context, state, neighbours and abort flag, which is not set when the call is looked
at. If the check rejected the call, its output in the block is the error with the same message and
no tags; if the check accepted it, its output reports the execution of its own transaction in the
block that it met there, or is the error of a duplicate, of a full block or of the execution
itself, and each of these errors has its reason in that block. -/
theorem execution_follows_check (checker executor : Dispatcher) (checking executing : Context σ)
    (mode : executing.checkOnly = false) (pool block : List Bytes)
    (verdicts : List CheckTxResult) (result : ExecuteBatchResult) (final : Context σ)
    (checked : checkBatch host checker checking pool = .ok verdicts)
    (executed : executeBatch host executor executing block = .ok (result, final))
    (i j : Nat) (call : Bytes) (pooled : pool[i]? = some call) (included : block[j]? = some call)
    (checkerRuns : checker.aborted i = false) (decoderRuns : executor.aborted j = false)
    (executorRuns : executor.aborted (block.length + j) = false) :
    ∃ verdict output events event, verdicts[i]? = some verdict ∧
      result.results[j]? = some output ∧ BatchRun host executor executing block events ∧
      events[j]? = some event ∧
      Follows host event.before (decodeTransaction host call) verdict output := by
  have verdict := verdict_at checked pooled checkerRuns
  obtain ⟨started, _, _, opened, _⟩ := executeBatch_eq_ok_iff.mp executed
  have complete := run_inputs_of_executeBatch opened executed
  have input : (batchInputs host executor block)[j]? =
      some ⟨false, decodeTransaction host call⟩ := by
    simp [batchInputs, callInputs_getElem?, decodeCalls, decodeCall, included, decoderRuns,
      executorRuns]
  rw [← complete, List.getElem?_map, Option.map_eq_some_iff] at input
  obtain ⟨event, found, given⟩ := input
  have member := List.mem_of_getElem? found
  have startedMode : started.checkOnly = false := by rw [startBatch_checkOnly opened, mode]
  have follows := follows_of_step (of_mem_run member) (executing_of_mem_run startedMode member)
    (by rw [given])
  rw [given] at follows
  refine ⟨_, event.output, _, event, verdict, ?_, ⟨started, opened, rfl⟩, found, follows⟩
  rw [results_of_executeBatch opened executed, List.getElem?_map, found]
  rfl

/-- The last call of the mixed batch, checked among other calls, is accepted and executed. -/
theorem accepted_call_executed :
    ∃ verdicts result final,
      checkBatch sampleHost ⟨none⟩ sampleContext [[], [5, 1, 9, 1, 6]] = .ok verdicts ∧
      executeBatch sampleHost ⟨none⟩ sampleContext mixedBatch = .ok (result, final) ∧
      ∃ verdict output events event, verdicts[1]? = some verdict ∧
        result.results[4]? = some output ∧
        BatchRun sampleHost ⟨none⟩ sampleContext mixedBatch events ∧ events[4]? = some event ∧
        Follows sampleHost event.before (decodeTransaction sampleHost [5, 1, 9, 1, 6])
          verdict output :=
  ⟨_, _, _, rfl, rfl, execution_follows_check ⟨none⟩ ⟨none⟩ sampleContext sampleContext rfl
    [[], [5, 1, 9, 1, 6]] mixedBatch _ _ _ rfl rfl 1 4 [5, 1, 9, 1, 6] rfl rfl rfl rfl rfl⟩

/-- What check-only execution returns for a call that was decided like this. -/
def checkOnlyOutput (host : Host σ V) (verdict : CheckTxResult) : ExecuteTxResult :=
  if verdict.error.code = 0 then ⟨host.outputToVec (.success host.checkOnlyValue), []⟩
  else ⟨host.outputToVec (.error verdict.error.message), []⟩

/-- What check-only execution returns for a call, by what the abort flag says. -/
def checkOnlyResult (host : Host σ V) (aborted : Bool) (verdict : CheckTxResult) :
    ExecuteTxResult :=
  if aborted then ⟨serializeError host (.failure .batchAborted), []⟩
  else checkOnlyOutput host verdict

/-- In check-only mode one call is answered by its verdict and changes nothing. -/
theorem processCall_checkOnly {ctx : Context σ} (mode : ctx.checkOnly = true) (aborted : Bool)
    (call : Except Failure DecodedCall) :
    processCall host aborted call ctx =
      .ok (checkOnlyResult host aborted (checkResult call), ctx) := by
  cases aborted with
  | true => rfl
  | false =>
    cases call with
    | error failure => rfl
    | ok decoded =>
      simp [processCall, encodeResponse, executeTx, mode, checkOnlyResult, checkOnlyOutput,
        checkResult, serializeError]

/-- In check-only mode the second pass is answered by the verdicts and changes nothing. -/
theorem processCalls_checkOnly {ctx : Context σ} (mode : ctx.checkOnly = true) (load : Nat)
    (calls : List (Except Failure DecodedCall)) :
    processCalls host dispatcher load calls ctx =
      .ok ((calls.map checkResult).mapIdx fun index verdict =>
        checkOnlyResult host (dispatcher.aborted (load + index)) verdict, ctx) := by
  induction calls generalizing load with
  | nil => rfl
  | cons call calls ih =>
    have shifted : (fun index verdict =>
          checkOnlyResult host (dispatcher.aborted (load + 1 + index)) verdict) =
        fun index verdict =>
          checkOnlyResult host (dispatcher.aborted (load + (index + 1))) verdict := by
      funext index verdict
      rw [Nat.add_assoc, Nat.add_comm 1 index]
    simp only [processCalls, processCall_checkOnly mode, ih, shifted, Outcome.ok_bind,
      List.map_cons, List.mapIdx_cons, Nat.add_zero]
    rfl

/-- What check-only execution returns for a list of verdicts. -/
def checkOnlyResults (host : Host σ V) (dispatcher : Dispatcher) (verdicts : List CheckTxResult) :
    List ExecuteTxResult :=
  verdicts.mapIdx fun index verdict =>
    checkOnlyResult host (dispatcher.aborted (verdicts.length + index)) verdict

theorem checkOnlyResults_tags {verdicts : List CheckTxResult} {output : ExecuteTxResult}
    (member : output ∈ checkOnlyResults host dispatcher verdicts) : output.tags = [] := by
  obtain ⟨index, inside, rfl⟩ := List.mem_mapIdx.mp member
  unfold checkOnlyResult checkOnlyOutput
  split
  · rfl
  · split <;> rfl

/-- A batch that is executed in check-only mode is opened and closed around its verdicts. -/
theorem executeBatch_checkOnly {ctx : Context σ} (mode : ctx.checkOnly = true)
    (batch : List Bytes) :
    executeBatch host dispatcher ctx batch = (do
      let started ← startBatch host ctx
      let final ← endBatch host started
      return (⟨checkOnlyResults host dispatcher
        ((decodeCalls host dispatcher batch).map checkResult), final.messages⟩, final)) := by
  unfold executeBatch
  cases opened : startBatch host ctx with
  | ok started =>
    have startedMode : started.checkOnly = true := by rw [startBatch_checkOnly opened, mode]
    have length : ((decodeCalls host dispatcher batch).map checkResult).length = batch.length := by
      simp [decodeCalls]
    simp only [Outcome.ok_bind, processCalls_checkOnly startedMode, checkOnlyResults, length]
  | err error => rfl
  | panic cause => rfl

/-- A batch that is executed in check-only mode is checked, and not executed. It panics exactly
when `check_batch` does; otherwise its outputs report the verdicts of `check_batch`, unless the
abort flag is set in the second pass, no call has tags, and the state that was opened is stored
again. -/
theorem check_only_execution_checks (host : Host σ V) (dispatcher : Dispatcher) (ctx : Context σ)
    (mode : ctx.checkOnly = true) (batch : List Bytes) :
    (∃ cause, checkBatch host dispatcher ctx batch = .panic cause ∧
      executeBatch host dispatcher ctx batch = .panic cause) ∨
    ∃ verdicts state final,
      checkBatch host dispatcher ctx batch = .ok verdicts ∧
      executeBatch host dispatcher ctx batch =
        .ok (⟨checkOnlyResults host dispatcher verdicts, ctx.messages⟩, final) ∧
      (∀ output ∈ checkOnlyResults host dispatcher verdicts, output.tags = []) ∧
      host.fromExisting ctx.storage ctx.header.previousHash = .ok state ∧
      host.commit state = .ok final.storage ∧ final.tags = ctx.tags := by
  rw [executeBatch_checkOnly mode, checkBatch]
  cases opened : host.fromExisting ctx.storage ctx.header.previousHash with
  | error message =>
    left
    simp only [startBatch, opened]
    exact ⟨_, rfl, rfl⟩
  | ok state =>
    simp only [startBatch, opened, Outcome.ok_bind, endBatch]
    cases closed : host.commit state with
    | error message => exact .inl ⟨_, rfl, rfl⟩
    | ok stored =>
      exact .inr ⟨_, state, _, rfl, rfl, fun _ => checkOnlyResults_tags, rfl, closed, rfl⟩

/-- The mixed batch, checked only. -/
theorem mixed_batch_checked :
    ∃ verdicts final, checkBatch sampleHost ⟨none⟩ { sampleContext with checkOnly := true }
        mixedBatch = .ok verdicts ∧
      executeBatch sampleHost ⟨none⟩ { sampleContext with checkOnly := true } mixedBatch =
        .ok (⟨checkOnlyResults sampleHost ⟨none⟩ verdicts, []⟩, final) := by
  rcases check_only_execution_checks sampleHost ⟨none⟩ { sampleContext with checkOnly := true }
    rfl mixedBatch with ⟨cause, crashed, _⟩ | ⟨verdicts, state, final, checked, executed, _⟩
  · cases crashed
  · exact ⟨verdicts, final, checked, executed⟩

end Ethwasi.Runtime
