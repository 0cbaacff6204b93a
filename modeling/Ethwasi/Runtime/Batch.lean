import Ethwasi.Transition.Run
import Ethwasi.Runtime.Dispatcher

/-!
# A batch as a run

The second pass of `execute_batch` is a run of a machine whose state is the context and whose
inputs are the decoded calls, each with what the abort flag says when its turn comes.
`CallEffect` says once what one call can do; the results about batches are derived from it and
do not open the dispatcher again.
-/

namespace Ethwasi.Runtime

open Ethwasi.Rust Ethwasi.Transition

/-- A decoded call, and whether the batch is aborted when its turn comes. -/
structure CallInput where
  aborted : Bool
  call : Except Failure DecodedCall

variable {σ V : Type} (host : Host σ V) (dispatcher : Dispatcher)

/-- One call of the second pass; a panic stops the machine. -/
def callMachine : Machine (Context σ) CallInput ExecuteTxResult := fun ctx input =>
  match processCall host input.aborted input.call ctx with
  | .ok answer => some answer
  | _ => none

/-- A processed call. -/
abbrev CallEvent (σ : Type) := Event (Context σ) CallInput ExecuteTxResult

/-- The inputs of the second pass, from a given load of the abort flag on. -/
def callInputs (load : Nat) : List (Except Failure DecodedCall) → List CallInput
  | [] => []
  | call :: calls => ⟨dispatcher.aborted load, call⟩ :: callInputs (load + 1) calls

/-- The inputs of the second pass of a batch. -/
def batchInputs (batch : List Bytes) : List CallInput :=
  callInputs dispatcher batch.length (decodeCalls host dispatcher batch)

/-- The call got as far as the block it is to be executed in. -/
structure Attempted (input : CallInput) (before : Context σ) (txn : SignedTransaction)
    (ectx : BlockContext σ) : Prop where
  running : input.aborted = false
  decoded : input.call = .ok ⟨txn⟩
  executing : before.checkOnly = false
  runtime : before.runtime = some ectx

/-- The call is new to the block and fits into it. -/
structure Admitted (input : CallInput) (before : Context σ) (txn : SignedTransaction)
    (ectx : BlockContext σ) : Prop extends Attempted input before txn ectx where
  fresh : txn.transaction.hash ∉ ectx.transactionSet
  withinLimit : ectx.envInfo.gasUsed ≤ blockGasLimit
  fits : txn.transaction.gas ≤ blockGasLimit - ectx.envInfo.gasUsed

/-- Why a call is refused before it reaches the Ethereum state. -/
inductive Refusal (input : CallInput) (before : Context σ) : Failure → Prop where
  | aborted (set : input.aborted = true) : Refusal input before .batchAborted
  | undecodable (failure : Failure) (running : input.aborted = false)
      (refused : input.call = .error failure) : Refusal input before failure
  | duplicate (txn : SignedTransaction) (ectx : BlockContext σ)
      (attempted : Attempted input before txn ectx)
      (seen : txn.transaction.hash ∈ ectx.transactionSet) :
      Refusal input before (.transaction .duplicateTransaction)
  | blockFull (txn : SignedTransaction) (ectx : BlockContext σ)
      (attempted : Attempted input before txn ectx)
      (fresh : txn.transaction.hash ∉ ectx.transactionSet)
      (large : blockGasLimit - ectx.envInfo.gasUsed < txn.transaction.gas) :
      Refusal input before (.transaction .blockGasLimitReached)

/-- What one call does. -/
inductive CallEffect (event : CallEvent σ) : Prop where
  /-- It is refused and nothing changes. -/
  | refused (failure : Failure) (why : Refusal event.input event.before failure)
      (output : event.output = ⟨serializeError host (.failure failure), []⟩)
      (after : event.after = event.before)
  /-- In check-only mode a decoded call succeeds without being executed. -/
  | checked (call : DecodedCall) (running : event.input.aborted = false)
      (decoded : event.input.call = .ok call) (checkOnly : event.before.checkOnly = true)
      (output : event.output = ⟨serializeError host .checkOnlySuccess, []⟩)
      (after : event.after = event.before)
  /-- The Ethereum state refuses it. -/
  | failed (txn : SignedTransaction) (ectx : BlockContext σ) (message : String) (state : σ)
      (admitted : Admitted event.input event.before txn ectx)
      (applied : host.apply ectx.state ectx.envInfo txn = (.error message, state))
      (output : event.output =
        ⟨serializeError host (.failure (.transaction (.executionFailure message))), []⟩)
      (after : event.after = { event.before with runtime := some { ectx with state } })
  /-- It is executed and recorded in the block. -/
  | executed (txn : SignedTransaction) (ectx : BlockContext σ) (outcome : ApplyOutcome)
      (state : σ) (code : UInt8) (admitted : Admitted event.input event.before txn ectx)
      (applied : host.apply ectx.state ectx.envInfo txn = (.ok outcome, state))
      (cumulative : ectx.envInfo.gasUsed ≤ outcome.receipt.gasUsed)
      (status : outcome.receipt.outcome = .statusCode code)
      (output : event.output =
        ⟨host.outputToVec (.success (host.resultToValue
            { cumulativeGasUsed := outcome.receipt.gasUsed
              gasUsed := outcome.receipt.gasUsed - ectx.envInfo.gasUsed
              logBloom := outcome.receipt.logBloom
              logs := outcome.receipt.logs
              statusCode := code
              output := outcome.output })),
          event.before.tags ++ txTags txn.transaction.hash outcome.receipt.logs⟩)
      (after : event.after =
        { event.before with
          tags := []
          runtime := some
            { state
              envInfo := { ectx.envInfo with gasUsed := outcome.receipt.gasUsed }
              transactionSet := insert txn.transaction.hash ectx.transactionSet } })

variable {host dispatcher}

theorem processCall_of_step {event : CallEvent σ} (step : event.Of (callMachine host)) :
    processCall host event.input.aborted event.input.call event.before =
      .ok (event.output, event.after) := by
  unfold Event.Of callMachine at step
  split at step
  · rename_i answer processed
    rw [processed, Option.some.inj step]
  · cases step

/-- What recording an applied transaction returns and leaves, unless it panics. -/
theorem recordOutcome_cases (ctx : Context σ) (ectx : BlockContext σ) (hash : H256)
    (outcome : ApplyOutcome) :
    (∃ cause after, recordOutcome ctx ectx hash outcome = (.panic cause, after)) ∨
    ∃ code, ectx.envInfo.gasUsed ≤ outcome.receipt.gasUsed ∧
      outcome.receipt.outcome = .statusCode code ∧
      recordOutcome ctx ectx hash outcome =
        (.ok { cumulativeGasUsed := outcome.receipt.gasUsed
               gasUsed := outcome.receipt.gasUsed - ectx.envInfo.gasUsed
               logBloom := outcome.receipt.logBloom
               logs := outcome.receipt.logs
               statusCode := code
               output := outcome.output },
          { ctx with
            tags := ctx.tags ++ txTags hash outcome.receipt.logs
            runtime := some
              { state := ectx.state
                envInfo := { ectx.envInfo with gasUsed := outcome.receipt.gasUsed }
                transactionSet := insert hash ectx.transactionSet } }) := by
  unfold recordOutcome
  by_cases ordered : ectx.envInfo.gasUsed ≤ outcome.receipt.gasUsed
  · simp only [u256Sub_of_le ordered]
    cases status : outcome.receipt.outcome with
    | statusCode code => exact .inr ⟨code, ordered, rfl, rfl⟩
    | unknown => exact .inl ⟨_, _, rfl⟩
    | stateRoot root => exact .inl ⟨_, _, rfl⟩
  · have underflow : (u256Sub outcome.receipt.gasUsed ectx.envInfo.gasUsed : Outcome AnyError Nat) =
        .panic .arithmeticOverflow := if_neg ordered
    simp only [underflow]
    exact .inl ⟨_, _, rfl⟩

/-- The outcome of `execute::tx` once the block is known, by the checks it makes in order. -/
theorem executeTx_of_attempted {input : CallInput} {before : Context σ} {txn : SignedTransaction}
    {ectx : BlockContext σ} (attempted : Attempted input before txn ectx) :
    executeTx host txn before =
      if txn.transaction.hash ∈ ectx.transactionSet then
        (.err (.failure (.transaction .duplicateTransaction)), before)
      else if blockGasLimit < ectx.envInfo.gasUsed then (.panic .arithmeticOverflow, before)
      else if blockGasLimit - ectx.envInfo.gasUsed < txn.transaction.gas then
        (.err (.failure (.transaction .blockGasLimitReached)), before)
      else
        match host.apply ectx.state ectx.envInfo txn with
        | (.error message, state) =>
          (.err (.failure (.transaction (.executionFailure message))),
            { before with runtime := some { ectx with state } })
        | (.ok outcome, state) =>
          recordOutcome before { ectx with state } txn.transaction.hash outcome := by
  have executing : ¬before.checkOnly = true := by simp [attempted.executing]
  unfold executeTx
  rw [if_neg executing]
  simp only [attempted.runtime]
  by_cases seen : txn.transaction.hash ∈ ectx.transactionSet
  · rw [if_pos seen, if_pos seen]
  · rw [if_neg seen, if_neg seen]
    by_cases within : ectx.envInfo.gasUsed ≤ blockGasLimit
    · rw [if_neg (Nat.not_lt.mpr within)]
      rcases host.apply ectx.state ectx.envInfo txn with ⟨message | outcome, state⟩
      · simp only [u256Sub_of_le within, gt_iff_lt]
      · simp only [u256Sub_of_le within, gt_iff_lt]
    · have underflow : (u256Sub blockGasLimit ectx.envInfo.gasUsed : Outcome AnyError Nat) =
          .panic .arithmeticOverflow := if_neg within
      rw [if_pos (Nat.not_le.mp within)]
      simp only [underflow]

/-- Every processed call has one of the effects. -/
theorem callEffect_of {event : CallEvent σ} (step : event.Of (callMachine host)) :
    CallEffect host event := by
  have processed := processCall_of_step step
  obtain ⟨before, ⟨aborted, call⟩, output, after⟩ := event
  simp only at processed
  cases aborted with
  | true =>
    cases processed
    exact .refused .batchAborted (.aborted rfl) rfl rfl
  | false =>
    cases call with
    | error failure =>
      cases processed
      exact .refused failure (.undecodable failure rfl rfl) rfl rfl
    | ok call =>
      obtain ⟨txn⟩ := call
      simp only [processCall, encodeResponse, Bool.false_eq_true, if_false] at processed
      cases checkOnly : before.checkOnly with
      | true =>
        simp only [executeTx, checkOnly, if_true, Outcome.ok.injEq, Prod.mk.injEq] at processed
        exact .checked ⟨txn⟩ rfl rfl checkOnly processed.1.symm processed.2.symm
      | false =>
        cases runtime : before.runtime with
        | none => simp [executeTx, checkOnly, runtime] at processed
        | some ectx =>
          have attempted : Attempted ⟨false, .ok ⟨txn⟩⟩ before txn ectx :=
            ⟨rfl, rfl, checkOnly, runtime⟩
          rw [executeTx_of_attempted attempted] at processed
          by_cases seen : txn.transaction.hash ∈ ectx.transactionSet
          · simp only [if_pos seen, Outcome.ok.injEq, Prod.mk.injEq] at processed
            exact .refused _ (.duplicate txn ectx attempted seen) processed.1.symm
              processed.2.symm
          by_cases above : blockGasLimit < ectx.envInfo.gasUsed
          · simp [if_neg seen, if_pos above] at processed
          by_cases large : blockGasLimit - ectx.envInfo.gasUsed < txn.transaction.gas
          · simp only [if_neg seen, if_neg above, if_pos large, Outcome.ok.injEq,
              Prod.mk.injEq] at processed
            exact .refused _ (.blockFull txn ectx attempted seen large) processed.1.symm
              processed.2.symm
          have admitted : Admitted ⟨false, .ok ⟨txn⟩⟩ before txn ectx :=
            ⟨attempted, seen, Nat.not_lt.mp above, Nat.not_lt.mp large⟩
          simp only [if_neg seen, if_neg above, if_neg large] at processed
          cases applied : host.apply ectx.state ectx.envInfo txn with
          | mk result state =>
            cases result with
            | error message =>
              simp only [applied, Outcome.ok.injEq, Prod.mk.injEq] at processed
              exact .failed txn ectx message state admitted applied processed.1.symm
                processed.2.symm
            | ok outcome =>
              simp only [applied] at processed
              rcases recordOutcome_cases before { ectx with state } txn.transaction.hash outcome
                with ⟨cause, left, crashed⟩ | ⟨code, cumulative, status, recorded⟩
              · simp [crashed] at processed
              · simp only [recorded, Outcome.ok.injEq, Prod.mk.injEq] at processed
                exact .executed txn ectx outcome state code admitted applied cumulative status
                  processed.1.symm processed.2.symm

theorem callMachine_of_ok {input : CallInput} {ctx after : Context σ} {result : ExecuteTxResult}
    (processed : processCall host input.aborted input.call ctx = .ok (result, after)) :
    callMachine host ctx input = some (result, after) := by
  simp only [callMachine, processed]

theorem callMachine_of_panic {input : CallInput} {ctx : Context σ} {cause : Panic}
    (crashed : processCall host input.aborted input.call ctx = .panic cause) :
    callMachine host ctx input = none := by
  simp only [callMachine, crashed]

/-- A call ends in a result or in a panic: its errors are results. -/
theorem processCall_cases (host : Host σ V) (input : CallInput) (ctx : Context σ) :
    (∃ result after, processCall host input.aborted input.call ctx = .ok (result, after)) ∨
      ∃ cause, processCall host input.aborted input.call ctx = .panic cause := by
  unfold processCall
  split
  · exact .inl ⟨_, _, rfl⟩
  · split
    · exact .inl ⟨_, _, rfl⟩
    · split
      · exact .inl ⟨_, _, rfl⟩
      · exact .inl ⟨_, _, rfl⟩
      · exact .inr ⟨_, rfl⟩

/-- The second pass is the run of its calls: it returns the outputs of a run that answers them
all, and it panics as the call does on which the run stops. -/
theorem processCalls_run (host : Host σ V) (dispatcher : Dispatcher)
    (calls : List (Except Failure DecodedCall)) (load : Nat) (ctx : Context σ) :
    ((run (callMachine host) ctx (callInputs dispatcher load calls)).length = calls.length ∧
      processCalls host dispatcher load calls ctx =
        .ok ((run (callMachine host) ctx (callInputs dispatcher load calls)).map (·.output),
          lastState ctx (run (callMachine host) ctx (callInputs dispatcher load calls)))) ∨
    ∃ (input : CallInput) (cause : Panic),
      (run (callMachine host) ctx (callInputs dispatcher load calls)).length < calls.length ∧
      processCalls host dispatcher load calls ctx = .panic cause ∧
      processCall host input.aborted input.call
        (lastState ctx (run (callMachine host) ctx (callInputs dispatcher load calls))) =
          .panic cause := by
  induction calls generalizing load ctx with
  | nil => exact .inl ⟨rfl, rfl⟩
  | cons call calls ih =>
    have unfolded : callInputs dispatcher load (call :: calls) =
        ⟨dispatcher.aborted load, call⟩ :: callInputs dispatcher (load + 1) calls := rfl
    rcases processCall_cases host ⟨dispatcher.aborted load, call⟩ ctx with
      ⟨result, next, processed⟩ | ⟨cause, crashed⟩
    · rw [unfolded, run_cons_some (callMachine_of_ok processed)]
      simp only [processCalls, processed, Outcome.ok_bind, lastState]
      rcases ih (load + 1) next with ⟨length, rest⟩ | ⟨input, cause, short, rest, crashed⟩
      · left
        rw [rest]
        exact ⟨by simp [length], rfl⟩
      · right
        rw [rest]
        exact ⟨input, cause, by simpa using short, rfl, crashed⟩
    · right
      rw [unfolded, run_cons_none (callMachine_of_panic crashed)]
      refine ⟨⟨dispatcher.aborted load, call⟩, cause, by simp, ?_, crashed⟩
      simp only [processCalls, crashed, Outcome.panic_bind]

/-- The second pass returns exactly when the run answers all its calls. -/
theorem processCalls_eq_ok_iff {calls : List (Except Failure DecodedCall)} {load : Nat}
    {ctx after : Context σ} {results : List ExecuteTxResult} :
    processCalls host dispatcher load calls ctx = .ok (results, after) ↔
      (run (callMachine host) ctx (callInputs dispatcher load calls)).length = calls.length ∧
      results = (run (callMachine host) ctx (callInputs dispatcher load calls)).map (·.output) ∧
      after = lastState ctx (run (callMachine host) ctx (callInputs dispatcher load calls)) := by
  rcases processCalls_run host dispatcher calls load ctx with
    ⟨length, returned⟩ | ⟨input, cause, short, returned, _⟩
  · rw [returned, Outcome.ok.injEq, Prod.mk.injEq]
    exact ⟨fun same => ⟨length, same.1.symm, same.2.symm⟩,
      fun same => ⟨same.2.1.symm, same.2.2.symm⟩⟩
  · rw [returned]
    constructor
    · intro impossible
      cases impossible
    · intro same
      exact absurd same.1 (Nat.ne_of_lt short)

/-- A batch starts exactly when the stored state can be opened, with nothing used or executed. -/
theorem startBatch_eq_ok_iff {ctx started : Context σ} :
    startBatch host ctx = .ok started ↔
      ∃ state, host.fromExisting ctx.storage ctx.header.previousHash = .ok state ∧
        started = { ctx with
          runtime := some
            { state
              envInfo :=
                { number := ctx.header.round + 1
                  author := FixedBytes.filled 20 0
                  timestamp := ctx.header.timestamp
                  difficulty := 0
                  gasLimit := blockGasLimit
                  lastHashes := [ctx.header.previousHash]
                  gasUsed := 0 }
              transactionSet := ∅ } } := by
  unfold startBatch
  cases host.fromExisting ctx.storage ctx.header.previousHash with
  | error message => simp
  | ok state => simp [eq_comm]

/-- A batch returns exactly when it starts, processes its calls and ends. -/
theorem executeBatch_eq_ok_iff {ctx final : Context σ} {batch : List Bytes}
    {result : ExecuteBatchResult} :
    executeBatch host dispatcher ctx batch = .ok (result, final) ↔
      ∃ started results after, startBatch host ctx = .ok started ∧
        processCalls host dispatcher batch.length (decodeCalls host dispatcher batch) started =
          .ok (results, after) ∧
        endBatch host after = .ok final ∧ result = ⟨results, final.messages⟩ := by
  unfold executeBatch
  simp only [Outcome.bind_eq_ok, Outcome.pure_eq_ok, Outcome.ok.injEq, Prod.mk.injEq]
  constructor
  · rintro ⟨started, opened, ⟨results, after⟩, processed, left, closed, rfl, rfl⟩
    exact ⟨started, results, after, opened, processed, closed, rfl⟩
  · rintro ⟨started, results, after, opened, processed, closed, rfl⟩
    exact ⟨started, opened, (results, after), processed, final, closed, rfl, rfl⟩

/-- What a call was decoded to and the block it meets are unique. -/
theorem Attempted.eq_of {input : CallInput} {before : Context σ} {txn other : SignedTransaction}
    {ectx block : BlockContext σ} (attempted : Attempted input before other block)
    (decoded : input.call = .ok ⟨txn⟩) (runtime : before.runtime = some ectx) :
    other = txn ∧ block = ectx := by
  have sameCall := attempted.decoded
  have sameBlock := attempted.runtime
  rw [decoded] at sameCall
  rw [runtime] at sameBlock
  cases sameCall
  cases sameBlock
  exact ⟨rfl, rfl⟩

/-- What a decoded call does in the block that it meets. -/
inductive DecodedEffect (host : Host σ V) (event : CallEvent σ) (txn : SignedTransaction)
    (ectx : BlockContext σ) : Prop where
  | aborted (set : event.input.aborted = true)
      (output : event.output = ⟨serializeError host (.failure .batchAborted), []⟩)
      (after : event.after = event.before)
  | duplicate (running : event.input.aborted = false)
      (seen : txn.transaction.hash ∈ ectx.transactionSet)
      (output : event.output =
        ⟨serializeError host (.failure (.transaction .duplicateTransaction)), []⟩)
      (after : event.after = event.before)
  | blockFull (running : event.input.aborted = false)
      (large : blockGasLimit - ectx.envInfo.gasUsed < txn.transaction.gas)
      (fresh : txn.transaction.hash ∉ ectx.transactionSet)
      (output : event.output =
        ⟨serializeError host (.failure (.transaction .blockGasLimitReached)), []⟩)
  | failed (message : String) (admitted : Admitted event.input event.before txn ectx)
      (output : event.output =
        ⟨serializeError host (.failure (.transaction (.executionFailure message))), []⟩)
  | executed (response : ExecutionResult)
      (admitted : Admitted event.input event.before txn ectx)
      (output : event.output.output =
        host.outputToVec (.success (host.resultToValue response)))

/-- Every decoded call of an executed batch has one of the effects. -/
theorem decodedEffect_of {event : CallEvent σ} (step : event.Of (callMachine host))
    {txn : SignedTransaction} {ectx : BlockContext σ}
    (executing : event.before.checkOnly = false) (runtime : event.before.runtime = some ectx)
    (decoded : event.input.call = .ok ⟨txn⟩) : DecodedEffect host event txn ectx := by
  cases callEffect_of step with
  | refused failure why output after =>
    cases why with
    | aborted set => exact .aborted set output after
    | undecodable failure running refused =>
      rw [decoded] at refused
      cases refused
    | duplicate other block attempted seen =>
      obtain ⟨rfl, rfl⟩ := attempted.eq_of decoded runtime
      exact .duplicate attempted.running seen output after
    | blockFull other block attempted fresh large =>
      obtain ⟨rfl, rfl⟩ := attempted.eq_of decoded runtime
      exact .blockFull attempted.running large fresh output
  | checked call running callDecoded checkOnly output after =>
    rw [executing] at checkOnly
    cases checkOnly
  | failed other block message state admitted applied output after =>
    obtain ⟨rfl, rfl⟩ := admitted.toAttempted.eq_of decoded runtime
    exact .failed message admitted output
  | executed other block outcome state code admitted applied cumulative status output after =>
    obtain ⟨rfl, rfl⟩ := admitted.toAttempted.eq_of decoded runtime
    exact .executed _ admitted (by rw [output])

/-- The results of a batch are the outputs of the run of its calls. -/
theorem results_of_executeBatch {ctx started final : Context σ} {batch : List Bytes}
    {result : ExecuteBatchResult} (opened : startBatch host ctx = .ok started)
    (returned : executeBatch host dispatcher ctx batch = .ok (result, final)) :
    result.results =
      (run (callMachine host) started (batchInputs host dispatcher batch)).map (·.output) := by
  obtain ⟨other, results, after, otherOpened, processed, _, rfl⟩ :=
    executeBatch_eq_ok_iff.mp returned
  rw [opened] at otherOpened
  cases otherOpened
  exact (processCalls_eq_ok_iff.mp processed).2.1

theorem callInputs_getElem? (dispatcher : Dispatcher) (load : Nat)
    (calls : List (Except Failure DecodedCall)) (index : Nat) :
    (callInputs dispatcher load calls)[index]? =
      calls[index]?.map fun call => ⟨dispatcher.aborted (load + index), call⟩ := by
  induction calls generalizing load index with
  | nil => rfl
  | cons call calls ih =>
    cases index with
    | zero => rfl
    | succ index =>
      have shifted : load + 1 + index = load + (index + 1) := by omega
      simpa [callInputs, shifted] using ih (load + 1) index

theorem callInputs_length (dispatcher : Dispatcher) (load : Nat)
    (calls : List (Except Failure DecodedCall)) :
    (callInputs dispatcher load calls).length = calls.length := by
  induction calls generalizing load with
  | nil => rfl
  | cons call calls ih => simp [callInputs, ih]

theorem batchInputs_length (host : Host σ V) (dispatcher : Dispatcher) (batch : List Bytes) :
    (batchInputs host dispatcher batch).length = batch.length := by
  simp [batchInputs, callInputs_length, decodeCalls]

/-- A batch that returns answered every call, in order. -/
theorem run_inputs_of_executeBatch {ctx started final : Context σ} {batch : List Bytes}
    {result : ExecuteBatchResult} (opened : startBatch host ctx = .ok started)
    (returned : executeBatch host dispatcher ctx batch = .ok (result, final)) :
    (run (callMachine host) started (batchInputs host dispatcher batch)).map (·.input) =
      batchInputs host dispatcher batch := by
  obtain ⟨other, results, after, otherOpened, processed, _, rfl⟩ :=
    executeBatch_eq_ok_iff.mp returned
  rw [opened] at otherOpened
  cases otherOpened
  have complete := (processCalls_eq_ok_iff.mp processed).1
  rw [run_map_input, batchInputs, complete, ← callInputs_length dispatcher batch.length,
    List.take_length]

/-- The result of a call is what the run returned for the call decoded from it. -/
theorem event_of_result {ctx started final : Context σ} {batch : List Bytes}
    {result : ExecuteBatchResult} (opened : startBatch host ctx = .ok started)
    (returned : executeBatch host dispatcher ctx batch = .ok (result, final)) {index : Nat}
    {call : Bytes} (called : batch[index]? = some call) {output : ExecuteTxResult}
    (answered : result.results[index]? = some output) :
    ∃ event, (run (callMachine host) started (batchInputs host dispatcher batch))[index]? =
        some event ∧
      event.output = output ∧
      event.input = ⟨dispatcher.aborted (batch.length + index),
        decodeCall host (dispatcher.aborted index) call⟩ := by
  rw [results_of_executeBatch opened returned, List.getElem?_map, Option.map_eq_some_iff]
    at answered
  obtain ⟨event, found, same⟩ := answered
  refine ⟨event, found, same, ?_⟩
  have input : (batchInputs host dispatcher batch)[index]? = some event.input := by
    rw [← run_inputs_of_executeBatch opened returned, List.getElem?_map, found]
    rfl
  rw [batchInputs, callInputs_getElem?, decodeCalls, List.getElem?_mapIdx, called] at input
  exact (Option.some.inj input).symm

theorem call_mem_of_mem_callInputs {load : Nat} {calls : List (Except Failure DecodedCall)}
    {input : CallInput} (member : input ∈ callInputs dispatcher load calls) :
    input.call ∈ calls := by
  induction calls generalizing load with
  | nil => cases member
  | cons call calls ih =>
    rcases List.mem_cons.mp member with rfl | later
    · exact List.mem_cons_self
    · exact List.mem_cons_of_mem _ (ih later)

/-- A decoded call of the second pass was decoded from a call of the batch. -/
theorem decoded_of_mem_batchInputs {batch : List Bytes} {input : CallInput} {decoded : DecodedCall}
    (member : input ∈ batchInputs host dispatcher batch) (call : input.call = .ok decoded) :
    ∃ raw ∈ batch, decodeTransaction host raw = .ok decoded := by
  have inCalls := call_mem_of_mem_callInputs member
  rw [decodeCalls, List.mem_mapIdx] at inCalls
  obtain ⟨index, inside, same⟩ := inCalls
  rw [call] at same
  unfold decodeCall at same
  split at same
  · cases same
  · exact ⟨batch[index], List.getElem_mem inside, same⟩

end Ethwasi.Runtime
