import Ethwasi.Runtime.Gas

/-!
# No transaction twice

The block keeps the hashes of the transactions it executed and refuses a transaction that it
already has. The set is exactly the set of hashes of the successful results so far, so a call that
failed does not stand in the way of a later one, and a hash succeeds at most once. A batch that is
aborted refuses its remaining calls as aborted, duplicates included.
-/

namespace Ethwasi.Runtime

open Ethwasi.Rust Ethwasi.Transition

variable {σ V : Type} (host : Host σ V)

/-- The block remembers exactly the transactions that succeeded. -/
structure Remembers (past : List (CallEvent σ)) (ctx : Context σ) (ectx : BlockContext σ) :
    Prop where
  executing : ctx.checkOnly = false
  runtime : ctx.runtime = some ectx
  executed : ∀ hash, hash ∈ ectx.transactionSet ↔ Succeeded host past hash

/-- How a transaction that already succeeded is refused. -/
def repeatFailure (input : CallInput) : Failure :=
  if input.aborted then .batchAborted else .transaction .duplicateTransaction

variable {host}

theorem remembers_start {ctx started : Context σ} (executing : ctx.checkOnly = false)
    (opened : startBatch host ctx = .ok started) : ∃ ectx, Remembers host [] started ectx := by
  obtain ⟨ectx, accounted⟩ := accounted_start executing opened
  exact ⟨ectx, accounted.executing, accounted.runtime, accounted.executed⟩

/-- Every call keeps the memory of the block exact. -/
theorem remembers_step (cbor : host.CborRoundTrip) (past : List (CallEvent σ))
    (event : CallEvent σ) (step : event.Of (callMachine host))
    (held : ∃ ectx, Remembers host past event.before ectx) :
    ∃ ectx, Remembers host (past ++ [event]) event.after ectx := by
  obtain ⟨ectx, remembers⟩ := held
  obtain ⟨executing, effect⟩ := accountEffect_of cbor step remembers.executing remembers.runtime
  cases effect with
  | unchanged noSuccess after runtime envInfo transactionSet =>
    refine ⟨after, executing, runtime, ?_⟩
    intro hash
    rw [transactionSet, succeeded_snoc_of_none noSuccess, remembers.executed]
  | charged txn outcome state response admitted applied success cumulative gasUsed runtime =>
    have isSome : (successOf host event.output).isSome := by
      rw [success]
      rfl
    refine ⟨_, executing, runtime, ?_⟩
    intro hash
    rw [succeeded_snoc_of_some admitted.decoded isSome, ← remembers.executed]
    exact Finset.mem_insert

/-- A transaction that already succeeded is refused, and nothing changes. -/
theorem Remembers.refuses {past : List (CallEvent σ)} {event : CallEvent σ}
    {ectx : BlockContext σ} (held : Remembers host past event.before ectx)
    (step : event.Of (callMachine host)) {txn : SignedTransaction}
    (decoded : event.input.call = .ok ⟨txn⟩)
    (before : Succeeded host past txn.transaction.hash) :
    event.output = ⟨serializeError host (.failure (repeatFailure event.input)), []⟩ ∧
      event.after = event.before := by
  have seen : txn.transaction.hash ∈ ectx.transactionSet := (held.executed _).mpr before
  cases decodedEffect_of step held.executing held.runtime decoded with
  | aborted set output after =>
    rw [output]
    exact ⟨by simp [repeatFailure, set], after⟩
  | duplicate running duplicate output after =>
    rw [output]
    exact ⟨by simp [repeatFailure, running], after⟩
  | blockFull running large fresh output => exact absurd seen fresh
  | failed message admitted output => exact absurd seen admitted.fresh
  | executed response admitted output => exact absurd seen admitted.fresh

/-- A decoded call is refused as a duplicate exactly when it is processed and its hash
succeeded. -/
theorem Remembers.duplicate_iff (cbor : host.CborRoundTrip) {past : List (CallEvent σ)}
    {event : CallEvent σ} {ectx : BlockContext σ} (held : Remembers host past event.before ectx)
    (step : event.Of (callMachine host)) {txn : SignedTransaction}
    (decoded : event.input.call = .ok ⟨txn⟩) :
    event.output.output =
        serializeError host (.failure (.transaction .duplicateTransaction)) ↔
      event.input.aborted = false ∧ Succeeded host past txn.transaction.hash := by
  constructor
  · intro duplicate
    cases decodedEffect_of step held.executing held.runtime decoded with
    | aborted set output after =>
      rw [output] at duplicate
      exact absurd (display_of_serializeError cbor duplicate) (by decide)
    | duplicate running seen output after => exact ⟨running, (held.executed _).mp seen⟩
    | blockFull running large fresh output =>
      rw [output] at duplicate
      exact absurd (display_of_serializeError cbor duplicate) (by decide)
    | failed message admitted output =>
      rw [output] at duplicate
      exact absurd (display_of_serializeError cbor duplicate)
        (executionFailure_display_ne message (by decide))
    | executed response admitted output =>
      rw [output] at duplicate
      have outputs := cbor.outputToVec_inj duplicate
      cases outputs
  · rintro ⟨running, before⟩
    rw [(held.refuses step decoded before).1]
    simp [repeatFailure, running]

/-- A successful call is among the calls before a later one. -/
theorem succeeded_take {events : List (CallEvent σ)} {i j : Nat} (ordered : i < j)
    {first : CallEvent σ} (found : events[i]? = some first) {txn : SignedTransaction}
    (decoded : first.input.call = .ok ⟨txn⟩) (success : (successOf host first.output).isSome) :
    Succeeded host (events.take j) txn.transaction.hash := by
  have member : first ∈ events.take j := by
    apply List.mem_of_getElem?
    rw [List.getElem?_take, if_pos ordered, found]
  exact ⟨first, member, txn, decoded, rfl, success⟩

/-- No transaction takes effect twice in a batch, whenever it is aborted. Once a call succeeded,
every later call with its hash is refused, as a duplicate or as aborted, and changes nothing. A
decoded call is refused as a duplicate only if its hash succeeded before, however often it failed.
After any number of calls the block remembers exactly the hashes of the successful results. -/
theorem no_transaction_twice (cbor : host.CborRoundTrip) (dispatcher : Dispatcher)
    (ctx : Context σ) (executing : ctx.checkOnly = false) (batch : List Bytes) :
    ∀ started, startBatch host ctx = .ok started →
    ∀ events, run (callMachine host) started (batchInputs host dispatcher batch) = events →
      (∀ result final, executeBatch host dispatcher ctx batch = .ok (result, final) →
        result.results = events.map (·.output)) ∧
      (∀ (i j : Nat) first second txn other, i < j → events[i]? = some first →
        events[j]? = some second → first.input.call = .ok ⟨txn⟩ →
        second.input.call = .ok ⟨other⟩ → other.transaction.hash = txn.transaction.hash →
        (successOf host first.output).isSome →
        successOf host second.output = none ∧
          second.output = ⟨serializeError host (.failure (repeatFailure second.input)), []⟩ ∧
          second.after = second.before) ∧
      (∀ (index : Nat) event txn, events[index]? = some event →
        event.input.call = .ok ⟨txn⟩ →
        (event.output.output =
            serializeError host (.failure (.transaction .duplicateTransaction)) ↔
          event.input.aborted = false ∧
            Succeeded host (events.take index) txn.transaction.hash)) ∧
      ∀ count, ∃ ectx, (lastState started (events.take count)).runtime = some ectx ∧
        ∀ hash, hash ∈ ectx.transactionSet ↔ Succeeded host (events.take count) hash := by
  intro started opened events ran
  subst ran
  have remembersAt {index : Nat} {event : CallEvent σ}
      (found : (run (callMachine host) started (batchInputs host dispatcher batch))[index]? =
        some event) :
      ∃ ectx, Remembers host
        ((run (callMachine host) started (batchInputs host dispatcher batch)).take index)
        event.before ectx :=
    (run_history_always (fun past ctx => ∃ ectx, Remembers host past ctx ectx)
      (remembers_step cbor) (remembers_start executing opened)).1 index event found
  refine ⟨?_, ?_, ?_, ?_⟩
  · intro result final returned
    exact results_of_executeBatch opened returned
  · intro i j first second txn other ordered firstFound secondFound decoded otherDecoded same
      success
    obtain ⟨ectx, held⟩ := remembersAt secondFound
    have before := succeeded_take ordered firstFound decoded success
    rw [← same] at before
    obtain ⟨output, after⟩ :=
      held.refuses (of_mem_run (List.mem_of_getElem? secondFound)) otherDecoded before
    exact ⟨by rw [output, successOf_failure cbor], output, after⟩
  · intro index event txn found decoded
    obtain ⟨ectx, held⟩ := remembersAt found
    exact held.duplicate_iff cbor (of_mem_run (List.mem_of_getElem? found)) decoded
  · intro count
    rw [run_take]
    obtain ⟨ectx, held⟩ :=
      (run_history_always (fun past ctx => ∃ ectx, Remembers host past ctx ectx)
        (remembers_step cbor) (remembers_start executing opened)).2
    exact ⟨ectx, held.runtime, held.executed⟩

/-- The fourth call of the mixed batch repeats the first one and is refused as a duplicate. -/
theorem repeated_call_refused :
    ∃ started, startBatch sampleHost sampleContext = .ok started ∧
      ∃ event, (run (callMachine sampleHost) started
          (batchInputs sampleHost ⟨none⟩ mixedBatch))[3]? = some event ∧
        event.output =
          ⟨serializeError sampleHost (.failure (.transaction .duplicateTransaction)), []⟩ ∧
        event.after = event.before := by
  refine ⟨_, rfl, _, rfl, ?_⟩
  have twice := no_transaction_twice sampleHost_cbor ⟨none⟩ sampleContext rfl mixedBatch _ rfl _ rfl
  exact (twice.2.1 0 3 _ _ ⟨⟨5, 1, FixedBytes.filled 32 7, [0]⟩, FixedBytes.filled 20 7⟩
    ⟨⟨5, 1, FixedBytes.filled 32 7, [0]⟩, FixedBytes.filled 20 7⟩ (by decide) rfl rfl rfl rfl rfl
    rfl).2

/-- A call that repeats an executed one is not refused as a duplicate once the batch is aborted. -/
theorem repeated_call_aborted :
    ∃ first second messages final,
      executeBatch sampleHost abortedInBetween sampleContext [[5, 1, 7, 0], [5, 1, 7, 0]] =
          .ok (⟨[first, second], messages⟩, final) ∧
        (successOf sampleHost first).isSome ∧
        second.output = serializeError sampleHost (.failure .batchAborted) ∧
        second.output ≠
          serializeError sampleHost (.failure (.transaction .duplicateTransaction)) := by
  refine ⟨_, _, _, _, rfl, rfl, rfl, ?_⟩
  intro same
  exact absurd (display_of_serializeError sampleHost_cbor same) (by decide)

end Ethwasi.Runtime
