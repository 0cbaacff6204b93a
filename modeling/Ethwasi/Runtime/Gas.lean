import Mathlib.Algebra.BigOperators.Group.List.Basic
import Ethwasi.Runtime.Results
import Ethwasi.Runtime.Sample

/-!
# Gas accounting within a block

The gas used by a block is carried in the environment that every transaction is executed with.
The invariant joins the three places that keep it: the admission bound of a single transaction,
the remaining gas of the block, and the cumulative gas that receipts report. It is stated over
the results returned so far, so it says what a client can add up from them.
-/

namespace Ethwasi.Runtime

open Ethwasi.Rust Ethwasi.Transition

variable {σ V : Type} (host : Host σ V)

/-- The sum of the gas used by the successful results. -/
def successGas (results : List ExecuteTxResult) : Nat :=
  ((results.filterMap (successOf host)).map (·.gasUsed)).sum

/-- A call with this transaction hash succeeded. -/
def Succeeded (past : List (CallEvent σ)) (hash : H256) : Prop :=
  ∃ event ∈ past, ∃ txn, event.input.call = .ok ⟨txn⟩ ∧ txn.transaction.hash = hash ∧
    (successOf host event.output).isSome

/-- The block's own accounts agree with the results returned so far. -/
structure Accounted (past : List (CallEvent σ)) (ctx : Context σ) (ectx : BlockContext σ) :
    Prop where
  executing : ctx.checkOnly = false
  runtime : ctx.runtime = some ectx
  used : ectx.envInfo.gasUsed = successGas host (past.map (·.output))
  withinLimit : ectx.envInfo.gasUsed ≤ blockGasLimit
  executed : ∀ hash, hash ∈ ectx.transactionSet ↔ Succeeded host past hash

/-- What one call does to the accounts of its block. -/
inductive AccountEffect (event : CallEvent σ) (ectx : BlockContext σ) : Prop where
  /-- It has no success, and the accounts stay as they are. -/
  | unchanged (noSuccess : successOf host event.output = none) (after : BlockContext σ)
      (runtime : event.after.runtime = some after) (envInfo : after.envInfo = ectx.envInfo)
      (transactionSet : after.transactionSet = ectx.transactionSet)
  /-- It succeeds, and its gas and its hash are recorded. -/
  | charged (txn : SignedTransaction) (outcome : ApplyOutcome) (state : σ)
      (response : ExecutionResult) (admitted : Admitted event.input event.before txn ectx)
      (applied : host.apply ectx.state ectx.envInfo txn = (.ok outcome, state))
      (success : successOf host event.output = some response)
      (cumulative : response.cumulativeGasUsed = outcome.receipt.gasUsed)
      (gasUsed : response.gasUsed = outcome.receipt.gasUsed - ectx.envInfo.gasUsed)
      (runtime : event.after.runtime = some
        { state
          envInfo := { ectx.envInfo with gasUsed := outcome.receipt.gasUsed }
          transactionSet := insert txn.transaction.hash ectx.transactionSet })

variable {host}

theorem successGas_append (first second : List ExecuteTxResult) :
    successGas host (first ++ second) = successGas host first + successGas host second := by
  simp [successGas]

theorem successGas_of_none {result : ExecuteTxResult} (noSuccess : successOf host result = none) :
    successGas host [result] = 0 := by
  simp [successGas, noSuccess]

theorem successGas_of_some {result : ExecuteTxResult} {response : ExecutionResult}
    (success : successOf host result = some response) :
    successGas host [result] = response.gasUsed := by
  simp [successGas, success]

/-- Results without success add up to nothing. -/
theorem successGas_eq_zero {events : List (CallEvent σ)}
    (noSuccess : ∀ event ∈ events, successOf host event.output = none) :
    successGas host (events.map (·.output)) = 0 := by
  have nothing : (events.map (·.output)).filterMap (successOf host) = [] := by
    rw [List.filterMap_eq_nil_iff]
    intro output member
    obtain ⟨event, inEvents, rfl⟩ := List.mem_map.mp member
    exact noSuccess event inEvents
  rw [successGas, nothing]
  rfl

theorem not_succeeded_of_none {events : List (CallEvent σ)}
    (noSuccess : ∀ event ∈ events, successOf host event.output = none) (hash : H256) :
    ¬Succeeded host events hash := by
  rintro ⟨event, member, _, _, _, success⟩
  rw [noSuccess event member] at success
  cases success

/-- A call without success adds no hash. -/
theorem succeeded_snoc_of_none {past : List (CallEvent σ)} {event : CallEvent σ}
    (noSuccess : successOf host event.output = none) (hash : H256) :
    Succeeded host (past ++ [event]) hash ↔ Succeeded host past hash := by
  constructor
  · rintro ⟨earlier, member, txn, decoded, same, success⟩
    rcases List.mem_append.mp member with before | last
    · exact ⟨earlier, before, txn, decoded, same, success⟩
    · rw [List.mem_singleton.mp last, noSuccess] at success
      cases success
  · rintro ⟨earlier, member, rest⟩
    exact ⟨earlier, List.mem_append_left _ member, rest⟩

/-- A successful call adds its own hash. -/
theorem succeeded_snoc_of_some {past : List (CallEvent σ)} {event : CallEvent σ}
    {txn : SignedTransaction} (decoded : event.input.call = .ok ⟨txn⟩)
    (success : (successOf host event.output).isSome) (hash : H256) :
    Succeeded host (past ++ [event]) hash ↔
      hash = txn.transaction.hash ∨ Succeeded host past hash := by
  constructor
  · rintro ⟨earlier, member, other, otherDecoded, same, otherSuccess⟩
    rcases List.mem_append.mp member with before | last
    · exact .inr ⟨earlier, before, other, otherDecoded, same, otherSuccess⟩
    · rw [List.mem_singleton.mp last, decoded] at otherDecoded
      cases otherDecoded
      exact .inl same.symm
  · rintro (rfl | ⟨earlier, member, rest⟩)
    · exact ⟨event, by simp, txn, decoded, rfl, success⟩
    · exact ⟨earlier, List.mem_append_left _ member, rest⟩

/-- Every call of an executed batch has one of the effects. -/
theorem accountEffect_of (cbor : host.CborRoundTrip) {event : CallEvent σ}
    (step : event.Of (callMachine host)) {ectx : BlockContext σ}
    (executing : event.before.checkOnly = false) (runtime : event.before.runtime = some ectx) :
    event.after.checkOnly = false ∧ AccountEffect host event ectx := by
  cases callEffect_of step with
  | refused failure why output after =>
    rw [after]
    refine ⟨executing, .unchanged ?_ ectx (by rw [after, runtime]) rfl rfl⟩
    rw [output, successOf_failure cbor]
  | checked call running decoded checkOnly output after =>
    rw [executing] at checkOnly
    cases checkOnly
  | failed txn block message state admitted applied output after =>
    obtain ⟨_, rfl⟩ := admitted.toAttempted.eq_of admitted.decoded runtime
    refine ⟨by rw [after, executing], .unchanged ?_ { block with state } (by rw [after]) rfl rfl⟩
    rw [output, successOf_failure cbor]
  | executed txn block outcome state code admitted applied cumulative status output after =>
    obtain ⟨_, rfl⟩ := admitted.toAttempted.eq_of admitted.decoded runtime
    have success := congrArg (successOf host) output
    rw [successOf_response cbor] at success
    exact ⟨by rw [after, executing], .charged txn outcome state _ admitted applied success rfl rfl
      (by rw [after])⟩

/-- Every call keeps the accounts in order. -/
theorem accounted_step (gas : host.ApplyGas) (cbor : host.CborRoundTrip)
    (past : List (CallEvent σ)) (event : CallEvent σ) (step : event.Of (callMachine host))
    (held : ∃ ectx, Accounted host past event.before ectx) :
    ∃ ectx, Accounted host (past ++ [event]) event.after ectx := by
  obtain ⟨ectx, accounted⟩ := held
  obtain ⟨executing, effect⟩ := accountEffect_of cbor step accounted.executing accounted.runtime
  have total : successGas host ((past ++ [event]).map (·.output)) =
      ectx.envInfo.gasUsed + successGas host [event.output] := by
    rw [List.map_append, successGas_append, List.map_singleton, accounted.used]
  have withinLimit := accounted.withinLimit
  cases effect with
  | unchanged noSuccess after runtime envInfo transactionSet =>
    rw [successGas_of_none noSuccess] at total
    refine ⟨after, executing, runtime, ?_, ?_, ?_⟩
    · rw [envInfo, total]
      rfl
    · rw [envInfo]
      exact withinLimit
    · intro hash
      rw [transactionSet, succeeded_snoc_of_none noSuccess, accounted.executed]
  | charged txn outcome state response admitted applied success cumulative gasUsed runtime =>
    obtain ⟨used, bound, receipt⟩ := gas _ _ _ _ _ applied
    have fits := admitted.fits
    have isSome : (successOf host event.output).isSome := by
      rw [success]
      rfl
    rw [successGas_of_some success, gasUsed] at total
    refine ⟨_, executing, runtime, ?_, ?_, ?_⟩
    · show outcome.receipt.gasUsed = _
      omega
    · show outcome.receipt.gasUsed ≤ blockGasLimit
      omega
    · intro hash
      rw [succeeded_snoc_of_some admitted.decoded isSome, ← accounted.executed]
      exact Finset.mem_insert

/-- A batch starts with empty accounts. -/
theorem accounted_start {ctx started : Context σ} (executing : ctx.checkOnly = false)
    (opened : startBatch host ctx = .ok started) : ∃ ectx, Accounted host [] started ectx := by
  obtain ⟨state, _, rfl⟩ := startBatch_eq_ok_iff.mp opened
  refine ⟨_, executing, rfl, rfl, Nat.zero_le _, ?_⟩
  intro hash
  simp [Succeeded]

/-- While the accounts are in order, a call panics only on a receipt without a status code. -/
theorem Accounted.status_of_panic (gas : host.ApplyGas) {past : List (CallEvent σ)}
    {ctx : Context σ} {ectx : BlockContext σ} (held : Accounted host past ctx ectx)
    {input : CallInput} {cause : Panic}
    (crashed : processCall host input.aborted input.call ctx = .panic cause) :
    cause = .unreachableCode ∧ ∃ txn outcome state,
      host.apply ectx.state ectx.envInfo txn = (.ok outcome, state) ∧
        ∀ code, outcome.receipt.outcome ≠ .statusCode code := by
  obtain ⟨aborted, call⟩ := input
  cases aborted with
  | true => cases crashed
  | false =>
    cases call with
    | error failure => cases crashed
    | ok call =>
      obtain ⟨txn⟩ := call
      have attempted : Attempted ⟨false, .ok ⟨txn⟩⟩ ctx txn ectx :=
        ⟨rfl, rfl, held.executing, held.runtime⟩
      have below : ¬blockGasLimit < ectx.envInfo.gasUsed := Nat.not_lt.mpr held.withinLimit
      simp only [processCall, encodeResponse, Bool.false_eq_true, if_false,
        executeTx_of_attempted attempted, if_neg below] at crashed
      by_cases seen : txn.transaction.hash ∈ ectx.transactionSet
      · simp [if_pos seen] at crashed
      by_cases large : blockGasLimit - ectx.envInfo.gasUsed < txn.transaction.gas
      · simp [if_neg seen, if_pos large] at crashed
      simp only [if_neg seen, if_neg large] at crashed
      cases applied : host.apply ectx.state ectx.envInfo txn with
      | mk result state =>
        cases result with
        | error message => simp [applied] at crashed
        | ok outcome =>
          obtain ⟨used, _, receipt⟩ := gas _ _ _ _ _ applied
          have ordered : ectx.envInfo.gasUsed ≤ outcome.receipt.gasUsed := by omega
          simp only [applied, recordOutcome, u256Sub_of_le ordered] at crashed
          cases status : outcome.receipt.outcome with
          | statusCode code => simp [status] at crashed
          | unknown =>
            simp only [status, Outcome.panic.injEq] at crashed
            exact ⟨crashed.symm, txn, outcome, state, applied, by simp [status]⟩
          | stateRoot root =>
            simp only [status, Outcome.panic.injEq] at crashed
            exact ⟨crashed.symm, txn, outcome, state, applied, by simp [status]⟩

/-- The text of a failed execution starts with its own letter. -/
theorem executionFailure_display_ne (message : String) {failure : Failure}
    (other : failure.display.toList.head? ≠ some 'e') :
    (Failure.transaction (.executionFailure message)).display ≠ failure.display := by
  intro same
  apply other
  rw [← same]
  change ("execution failed: " ++ message).toList.head? = some 'e'
  rw [String.toList_append]
  rfl

/-- A decoded call that did not succeed before is refused for lack of block gas exactly when it
is processed and asks for more than the results so far have left. -/
theorem Accounted.refused_iff (cbor : host.CborRoundTrip) {past : List (CallEvent σ)}
    {event : CallEvent σ} {ectx : BlockContext σ} (held : Accounted host past event.before ectx)
    (step : event.Of (callMachine host)) {txn : SignedTransaction}
    (decoded : event.input.call = .ok ⟨txn⟩)
    (fresh : ¬Succeeded host past txn.transaction.hash) :
    event.output.output =
        serializeError host (.failure (.transaction .blockGasLimitReached)) ↔
      event.input.aborted = false ∧
        blockGasLimit - successGas host (past.map (·.output)) < txn.transaction.gas := by
  have notSeen : txn.transaction.hash ∉ ectx.transactionSet := by
    rw [held.executed]
    exact fresh
  rw [← held.used]
  cases decodedEffect_of step held.executing held.runtime decoded with
  | aborted set output after =>
    rw [output]
    constructor
    · intro same
      exact absurd (display_of_serializeError cbor same) (by decide)
    · intro both
      rw [set] at both
      cases both.1
  | duplicate running seen output after => exact absurd seen notSeen
  | blockFull running large fresh output =>
    rw [output]
    exact ⟨fun _ => ⟨running, large⟩, fun _ => rfl⟩
  | failed message admitted output =>
    have fits := admitted.fits
    rw [output]
    constructor
    · intro same
      exact absurd (display_of_serializeError cbor same)
        (executionFailure_display_ne message (by decide))
    · intro both
      omega
  | executed response admitted output =>
    have fits := admitted.fits
    rw [output]
    constructor
    · intro same
      have outputs := cbor.outputToVec_inj same
      cases outputs
    · intro both
      omega

/-- A successful result reports the sum over the results up to and including it. -/
theorem Accounted.cumulative (gas : host.ApplyGas) (cbor : host.CborRoundTrip)
    {past : List (CallEvent σ)} {event : CallEvent σ} {ectx : BlockContext σ}
    (held : Accounted host past event.before ectx) (step : event.Of (callMachine host))
    {result : ExecutionResult} (success : successOf host event.output = some result) :
    result.cumulativeGasUsed = successGas host ((past ++ [event]).map (·.output)) := by
  obtain ⟨next, heldAfter⟩ := accounted_step gas cbor past event step ⟨ectx, held⟩
  rw [← heldAfter.used]
  cases (accountEffect_of cbor step held.executing held.runtime).2 with
  | unchanged noSuccess after runtime envInfo transactionSet =>
    rw [success] at noSuccess
    cases noSuccess
  | charged txn outcome state response admitted applied found cumulative gasUsed runtime =>
    rw [success] at found
    cases found
    rw [heldAfter.runtime] at runtime
    cases runtime
    exact cumulative

/-- The accounts are in order after every start of a batch. -/
theorem accounted_run (gas : host.ApplyGas) (cbor : host.CborRoundTrip) {ctx started : Context σ}
    (executing : ctx.checkOnly = false) (opened : startBatch host ctx = .ok started)
    (inputs : List CallInput) :
    ∃ ectx, Accounted host (run (callMachine host) started inputs)
      (lastState started (run (callMachine host) started inputs)) ectx :=
  (run_history_always (fun past ctx => ∃ ectx, Accounted host past ctx ectx)
    (accounted_step gas cbor) (accounted_start executing opened)).2

/-- No subtraction of a batch underflows. -/
theorem executeBatch_no_overflow (gas : host.ApplyGas) (cbor : host.CborRoundTrip)
    (dispatcher : Dispatcher) {ctx : Context σ} (executing : ctx.checkOnly = false)
    (batch : List Bytes) :
    executeBatch host dispatcher ctx batch ≠ .panic .arithmeticOverflow := by
  intro crashed
  unfold executeBatch at crashed
  cases opened : startBatch host ctx with
  | err error => simp [opened] at crashed
  | panic cause =>
    unfold startBatch at opened
    split at opened
    · cases opened
      simp [startBatch, *] at crashed
    · cases opened
  | ok started =>
    simp only [opened, Outcome.ok_bind] at crashed
    rcases processCalls_run host dispatcher (decodeCalls host dispatcher batch) batch.length
      started with ⟨_, returned⟩ | ⟨input, cause, _, returned, stopped⟩
    · simp only [returned, Outcome.ok_bind] at crashed
      unfold endBatch at crashed
      split at crashed
      · cases crashed
      · split at crashed
        · cases crashed
        · cases crashed
    · rw [returned, Outcome.panic_bind] at crashed
      cases crashed
      obtain ⟨ectx, held⟩ := accounted_run gas cbor executing opened
        (callInputs dispatcher batch.length (decodeCalls host dispatcher batch))
      cases (held.status_of_panic gas stopped).1

/-- Gas accounting of a batch, for every moment at which it may be aborted. No subtraction
underflows. After any number of calls the gas used by the block is the sum over the successful
results so far and within the limit, and each successful result reports that sum. A decoded call
whose hash did not succeed before is refused for lack of block gas exactly when it is processed
and asks for more than is left, and so never before the first success. -/
theorem block_gas_accounting (gas : host.ApplyGas) (cbor : host.CborRoundTrip)
    (dispatcher : Dispatcher) (ctx : Context σ) (executing : ctx.checkOnly = false)
    (batch : List Bytes) :
    executeBatch host dispatcher ctx batch ≠ .panic .arithmeticOverflow ∧
    ∀ started, startBatch host ctx = .ok started →
    ∀ events, run (callMachine host) started (batchInputs host dispatcher batch) = events →
      (∀ result final, executeBatch host dispatcher ctx batch = .ok (result, final) →
        result.results = events.map (·.output)) ∧
      (∀ count, ∃ ectx, (lastState started (events.take count)).runtime = some ectx ∧
        ectx.envInfo.gasUsed = successGas host ((events.take count).map (·.output)) ∧
        ectx.envInfo.gasUsed ≤ blockGasLimit) ∧
      (∀ (index : Nat) event result, events[index]? = some event →
        successOf host event.output = some result →
        result.cumulativeGasUsed =
          successGas host ((events.take (index + 1)).map (·.output))) ∧
      (∀ (index : Nat) event txn, events[index]? = some event →
        event.input.call = .ok ⟨txn⟩ →
        ¬Succeeded host (events.take index) txn.transaction.hash →
        (event.output.output =
            serializeError host (.failure (.transaction .blockGasLimitReached)) ↔
          event.input.aborted = false ∧
            blockGasLimit - successGas host ((events.take index).map (·.output)) <
              txn.transaction.gas)) ∧
      ∀ (index : Nat) event txn, events[index]? = some event →
        event.input.call = .ok ⟨txn⟩ →
        (∀ past ∈ events.take index, successOf host past.output = none) →
        event.output.output ≠
          serializeError host (.failure (.transaction .blockGasLimitReached)) := by
  refine ⟨executeBatch_no_overflow gas cbor dispatcher executing batch, ?_⟩
  intro started opened events ran
  subst ran
  have accountedAt {index : Nat} {event : CallEvent σ}
      (found : (run (callMachine host) started (batchInputs host dispatcher batch))[index]? =
        some event) :
      ∃ ectx, Accounted host
        ((run (callMachine host) started (batchInputs host dispatcher batch)).take index)
        event.before ectx :=
    (run_history_always (fun past ctx => ∃ ectx, Accounted host past ctx ectx)
      (accounted_step gas cbor) (accounted_start executing opened)).1 index event found
  refine ⟨?_, ?_, ?_, ?_, ?_⟩
  · intro result final returned
    exact results_of_executeBatch opened returned
  · intro count
    rw [run_take]
    obtain ⟨ectx, held⟩ := accounted_run gas cbor executing opened
      ((batchInputs host dispatcher batch).take count)
    exact ⟨ectx, held.runtime, held.used, held.withinLimit⟩
  · intro index event result found success
    obtain ⟨ectx, held⟩ := accountedAt found
    obtain ⟨inside, same⟩ := List.getElem?_eq_some_iff.mp found
    rw [List.take_succ_eq_append_getElem inside, same]
    exact held.cumulative gas cbor (of_mem_run (List.mem_of_getElem? found)) success
  · intro index event txn found decoded fresh
    obtain ⟨ectx, held⟩ := accountedAt found
    exact held.refused_iff cbor (of_mem_run (List.mem_of_getElem? found)) decoded fresh
  · intro index event txn found decoded noSuccess refused
    obtain ⟨ectx, held⟩ := accountedAt found
    have member := List.mem_of_getElem? found
    have fresh := not_succeeded_of_none noSuccess txn.transaction.hash
    have large := ((held.refused_iff cbor (of_mem_run member) decoded fresh).mp refused).2
    obtain ⟨raw, _, rawDecoded⟩ :=
      decoded_of_mem_batchInputs (input_mem_of_mem_run member) decoded
    obtain ⟨_, _, _, _, _, checked⟩ := decodeTransaction_eq_ok_iff.mp rawDecoded
    have small := (checkTx_eq_ok_iff.mp checked).2.1
    rw [successGas_eq_zero noSuccess] at large
    omega

/-- Five calls of which two are executed use two units of gas. -/
theorem mixed_batch_gas :
    ∃ started, startBatch sampleHost sampleContext = .ok started ∧
      ∃ ectx, (lastState started ((run (callMachine sampleHost) started
          (batchInputs sampleHost ⟨none⟩ mixedBatch)).take 5)).runtime = some ectx ∧
        ectx.envInfo.gasUsed = 2 := by
  refine ⟨_, rfl, ?_⟩
  obtain ⟨_, accounting⟩ := block_gas_accounting sampleHost_applyGas sampleHost_cbor ⟨none⟩
    sampleContext rfl mixedBatch
  obtain ⟨ectx, runtime, used, _⟩ := (accounting _ rfl _ rfl).2.1 5
  refine ⟨ectx, runtime, ?_⟩
  rw [used]
  rfl

/-- The abort flag is set between the two executions of a batch of two calls. -/
def abortedInBetween : Dispatcher := ⟨some fun load => decide (3 ≤ load)⟩

/-- The sample host with gas limits in units of a hundred thousand. -/
def largeGasHost : Host Nat SampleValue :=
  { sampleHost with
    rlpDecode := fun
      | gas :: gasPrice :: hash :: body =>
        .ok ⟨gas.toNat * 100000, gasPrice.toNat, FixedBytes.filled 32 hash, body⟩
      | _ => .error "too few bytes" }

/-- A call that asks for more gas than is left is not refused for it once the batch is aborted. -/
theorem large_call_aborted :
    largeGasHost.ApplyGas ∧ largeGasHost.CborRoundTrip ∧
    ∃ started, startBatch largeGasHost sampleContext = .ok started ∧
      ∃ first second txn,
        run (callMachine largeGasHost) started
            (batchInputs largeGasHost abortedInBetween [[160, 1, 7, 0], [160, 1, 8, 1]]) =
          [first, second] ∧
        second.input.call = .ok ⟨txn⟩ ∧
        ¬Succeeded largeGasHost [first] txn.transaction.hash ∧
        blockGasLimit - successGas largeGasHost [first.output] < txn.transaction.gas ∧
        second.output.output = serializeError largeGasHost (.failure .batchAborted) ∧
        second.output.output ≠
          serializeError largeGasHost (.failure (.transaction .blockGasLimitReached)) := by
  refine ⟨sampleHost_applyGas, ⟨sampleHost_cbor.output, sampleHost_cbor.result⟩, _, rfl, _, _,
    ⟨⟨16000000, 1, FixedBytes.filled 32 8, [1]⟩, FixedBytes.filled 20 8⟩, rfl, rfl, ?_, ?_, rfl, ?_⟩
  · rintro ⟨event, member, txn, decoded, same, _⟩
    cases List.mem_singleton.mp member
    cases decoded
    exact absurd same (by decide)
  · decide
  · intro same
    exact absurd (display_of_serializeError sampleHost_cbor same) (by decide)

end Ethwasi.Runtime
