import Ethwasi.Runtime.Gas

/-!
# Results line up with their calls

Tags go through a buffer of the context that all calls of a batch share. It is drained when a call
succeeds and is not touched when a call fails, so it is empty between any two calls, and the tags
of a result are those of its own call. This holds in both modes and for every moment at which the
batch is aborted. A batch returns one result for each call unless the Ethereum state cannot be
opened or stored, or breaks a law of its receipts.
-/

namespace Ethwasi.Runtime

open Ethwasi.Rust Ethwasi.Transition

variable {σ V : Type} (host : Host σ V)

/-- The stored state can be opened, and every state can be stored. -/
structure Host.Available (host : Host σ V) : Prop where
  opens : ∀ storage hash, ∃ state, host.fromExisting storage hash = .ok state
  commits : ∀ state, ∃ stored, host.commit state = .ok stored

/-- The response reports the execution of the transaction in the block that it met. -/
inductive Produced (before : Context σ) (txn : SignedTransaction) (response : ExecutionResult) :
    Prop where
  | intro (ectx : BlockContext σ) (after : σ) (outcome : ApplyOutcome)
      (runtime : before.runtime = some ectx)
      (applied : host.apply ectx.state ectx.envInfo txn = (.ok outcome, after))
      (status : outcome.receipt.outcome = .statusCode response.statusCode)
      (cumulative : response.cumulativeGasUsed = outcome.receipt.gasUsed)
      (gasUsed : response.gasUsed = outcome.receipt.gasUsed - ectx.envInfo.gasUsed)
      (logBloom : response.logBloom = outcome.receipt.logBloom)
      (logs : response.logs = outcome.receipt.logs)
      (output : response.output = outcome.output)

/-- The tags of a result are determined by its own call and the context that it met. -/
structure TagsFit (checkOnly : Bool) (before : Context σ) (call : Except Failure DecodedCall)
    (result : ExecuteTxResult) : Prop where
  /-- A successful execution has the tags of its transaction and its logs. -/
  executed : checkOnly = false → ∀ response, successOf host result = some response →
    ∃ txn, call = .ok ⟨txn⟩ ∧ Produced host before txn response ∧
      result.tags = txTags txn.transaction.hash response.logs
  /-- Every other result of an executed batch has none. -/
  failed : checkOnly = false → successOf host result = none → result.tags = []
  /-- No result of a checked batch has any. -/
  checked : checkOnly = true → result.tags = []

/-- The processed calls of a batch, each with the context before and after it. -/
def BatchRun (dispatcher : Dispatcher) (ctx : Context σ) (batch : List Bytes)
    (events : List (CallEvent σ)) : Prop :=
  ∃ started, startBatch host ctx = .ok started ∧
    events = run (callMachine host) started (batchInputs host dispatcher batch)

/-- Between two calls the tag buffer is empty, and the block is there. -/
structure Between (checkOnly : Bool) (ctx : Context σ) : Prop where
  mode : ctx.checkOnly = checkOnly
  tags : ctx.tags = []
  runtime : ∃ ectx, ctx.runtime = some ectx

variable {host}

theorem between_start {ctx started : Context σ} (fresh : ctx.tags = [])
    (opened : startBatch host ctx = .ok started) : Between ctx.checkOnly started := by
  obtain ⟨state, _, rfl⟩ := startBatch_eq_ok_iff.mp opened
  exact ⟨rfl, fresh, _, rfl⟩

/-- Every call leaves the buffer empty. -/
theorem between_step {checkOnly : Bool} (event : CallEvent σ) (step : event.Of (callMachine host))
    (held : Between checkOnly event.before) : Between checkOnly event.after := by
  cases callEffect_of step with
  | refused failure why output after =>
    rw [after]
    exact held
  | checked call running decoded mode output after =>
    rw [after]
    exact held
  | failed txn ectx message state admitted applied output after =>
    rw [after]
    exact ⟨held.mode, held.tags, _, rfl⟩
  | executed txn ectx outcome state code admitted applied cumulative status output after =>
    rw [after]
    exact ⟨held.mode, rfl, _, rfl⟩

/-- The tags of a result fit its call. -/
theorem tagsFit_of_step (cbor : host.CborRoundTrip) {checkOnly : Bool} {event : CallEvent σ}
    (step : event.Of (callMachine host)) (held : Between checkOnly event.before) :
    TagsFit host checkOnly event.before event.input.call event.output := by
  cases callEffect_of step with
  | refused failure why output after =>
    rw [output]
    refine ⟨?_, fun _ _ => rfl, fun _ => rfl⟩
    intro _ response success
    rw [successOf_failure cbor] at success
    cases success
  | checked call running decoded mode output after =>
    rw [output]
    refine ⟨?_, fun _ _ => rfl, fun _ => rfl⟩
    intro executing
    rw [held.mode, executing] at mode
    cases mode
  | failed txn ectx message state admitted applied output after =>
    rw [output]
    refine ⟨?_, fun _ _ => rfl, fun _ => rfl⟩
    intro _ response success
    rw [successOf_failure cbor] at success
    cases success
  | executed txn ectx outcome state code admitted applied cumulative status output after =>
    have executing : checkOnly = false := held.mode.symm.trans admitted.executing
    rw [output, held.tags]
    refine ⟨?_, ?_, ?_⟩
    · intro _ response success
      rw [successOf_response cbor] at success
      cases success
      exact ⟨txn, admitted.decoded,
        .intro ectx state outcome admitted.runtime applied status rfl rfl rfl rfl rfl, rfl⟩
    · intro _ noSuccess
      rw [successOf_response cbor] at noSuccess
      cases noSuccess
    · intro checking
      rw [executing] at checking
      cases checking

theorem between_run {ctx started : Context σ} (fresh : ctx.tags = [])
    (opened : startBatch host ctx = .ok started) (inputs : List CallInput) :
    (∀ event ∈ run (callMachine host) started inputs,
        Between ctx.checkOnly event.before ∧ Between ctx.checkOnly event.after) ∧
      Between ctx.checkOnly (lastState started (run (callMachine host) started inputs)) :=
  run_invariant (Between ctx.checkOnly) between_step (between_start fresh opened)

/-- The tags of every result of a batch fit the call at its position. -/
theorem tagsFit_of_executeBatch (cbor : host.CborRoundTrip) {dispatcher : Dispatcher}
    {ctx started final : Context σ} (fresh : ctx.tags = [])
    (opened : startBatch host ctx = .ok started) {batch : List Bytes}
    {result : ExecuteBatchResult}
    (returned : executeBatch host dispatcher ctx batch = .ok (result, final)) {index : Nat}
    {call : Bytes} (called : batch[index]? = some call) {output : ExecuteTxResult}
    (answered : result.results[index]? = some output) :
    ∃ event, (run (callMachine host) started (batchInputs host dispatcher batch))[index]? =
        some event ∧
      TagsFit host ctx.checkOnly event.before (decodeTransaction host call) output := by
  obtain ⟨event, found, same, input⟩ := event_of_result opened returned called answered
  have member := List.mem_of_getElem? found
  obtain ⟨between, _⟩ := between_run fresh opened (batchInputs host dispatcher batch)
  have fits := tagsFit_of_step cbor (of_mem_run member) (between event member).1
  rw [same, input] at fits
  refine ⟨event, found, ?_, fits.failed, fits.checked⟩
  intro executing response success
  obtain ⟨txn, decoded, rest⟩ := fits.executed executing response success
  exact ⟨txn, decodeCall_eq_ok decoded, rest⟩

/-- The tags of the mixed batch: only its two executed calls have any. -/
example : (executeBatch sampleHost ⟨none⟩ sampleContext mixedBatch).bind
    (fun ran => .ok (ran.1.results.map (·.tags.length))) = .ok [1, 0, 0, 0, 3] := rfl

end Ethwasi.Runtime
