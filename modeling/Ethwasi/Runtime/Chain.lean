import Ethwasi.Transition.Tickets
import Ethwasi.Runtime.FailedCalls
import Ethwasi.Runtime.Results

/-!
# A chain of blocks

Every block is executed in a context of its own, over the state that the block before it stored.
The set of executed transactions is forgotten between blocks, so what keeps a transaction from
being executed again in a later block is its nonce: the Ethereum state applies a transaction only
with the nonce that its sender has, and then counts on. Along a chain the executed transactions of
one sender have increasing nonces, within blocks and across them, and nothing is executed twice.
-/

namespace Ethwasi.Runtime

open Ethwasi.Rust Ethwasi.Transition

variable {σ V : Type}

/-- What the node gives to the runtime for a block. -/
structure BlockInput where
  header : Header
  dispatcher : Dispatcher
  batch : List Bytes

/-- The context in which the batch of a block is executed. -/
def blockContext (storage : σ) (header : Header) : Context σ :=
  { header, checkOnly := false, tags := [], messages := [], storage, runtime := none }

/-- One block over the stored state; a panic stops the chain. -/
def blockMachine (host : Host σ V) : Machine σ BlockInput ExecuteBatchResult :=
  fun storage input =>
    match executeBatch host input.dispatcher (blockContext storage input.header) input.batch with
    | .ok (result, final) => some (result, final.storage)
    | _ => none

/-- An executed block. -/
abbrev BlockEvent (σ : Type) := Event σ BlockInput ExecuteBatchResult

/-- The transaction of a decoded call, if it was executed. -/
def executedOf (host : Host σ V) (call : Except Failure DecodedCall) (result : ExecuteTxResult) :
    Option SignedTransaction :=
  match call, successOf host result with
  | .ok decoded, some _ => some decoded.transaction
  | _, _ => none

/-- The executed transactions of a batch, in order. -/
def executedTxs (host : Host σ V) (batch : List Bytes) (results : List ExecuteTxResult) :
    List SignedTransaction :=
  (batch.zip results).filterMap fun call => executedOf host (decodeTransaction host call.1) call.2

/-- The address can be recovered from the signature of a transaction. -/
def Host.Signs (host : Host σ V) (address : Address) : Prop :=
  ∃ txn, host.recover txn = .ok address

/-- The nonces of transactions and accounts: a transaction with a good signature is applied only
with the nonce of its sender, which is counted on, and no nonce of a sender goes down. Nothing is
said about other addresses: the nonce of a contract is gone when the contract is destroyed. -/
structure Host.Nonces (host : Host σ V) where
  account : σ → Address → Nat
  transaction : UnverifiedTransaction → Nat
  opened : ∀ storage hash state, host.fromExisting storage hash = .ok state →
    account state = account storage
  applied : ∀ state env txn outcome after, host.recover txn.transaction = .ok txn.sender →
    host.apply state env txn = (.ok outcome, after) →
    account state txn.sender = transaction txn.transaction ∧
      transaction txn.transaction < account after txn.sender
  grows : ∀ state env txn result after, host.recover txn.transaction = .ok txn.sender →
    host.apply state env txn = (result, after) →
    ∀ address, host.Signs address → account state address ≤ account after address
  committed : ∀ state stored, host.commit state = .ok stored → account stored = account state

variable {host : Host σ V}

/-- The nonces of the accounts while a batch is executed. -/
def Host.Nonces.counted (nonces : host.Nonces) (ctx : Context σ) : Address → Nat :=
  match ctx.runtime with
  | none => nonces.account ctx.storage
  | some ectx => nonces.account ectx.state

/-- The transactions are executed in the order of their nonces while the nonces of the accounts
change like this. -/
abbrev Host.Nonces.Advance (nonces : host.Nonces) (before : Address → Nat)
    (executed : List SignedTransaction) (after : Address → Nat) : Prop :=
  Advances host.Signs SignedTransaction.sender (fun txn => nonces.transaction txn.transaction)
    before executed after

theorem executedOf_of_none {call : Except Failure DecodedCall} {result : ExecuteTxResult}
    (noSuccess : successOf host result = none) : executedOf host call result = none := by
  unfold executedOf
  rw [noSuccess]
  cases call <;> rfl

/-- The sender of a decoded call was recovered from its signature. -/
def CallInput.Recovered (host : Host σ V) (input : CallInput) : Prop :=
  ∀ txn, input.call = .ok ⟨txn⟩ → host.recover txn.transaction = .ok txn.sender

theorem recovered_of_mem_batchInputs {dispatcher : Dispatcher} {batch : List Bytes}
    {input : CallInput} (member : input ∈ batchInputs host dispatcher batch) :
    input.Recovered host := by
  intro txn call
  obtain ⟨raw, _, decoded⟩ := decoded_of_mem_batchInputs member call
  obtain ⟨_, _, _, _, _, checked⟩ := decodeTransaction_eq_ok_iff.mp decoded
  exact (checkTx_eq_ok_iff.mp checked).2.2.1

/-- One call executes at most one transaction, with the nonce of its sender. -/
theorem advance_step (cbor : host.CborRoundTrip) (nonces : host.Nonces) {event : CallEvent σ}
    (step : event.Of (callMachine host)) (executing : event.before.checkOnly = false)
    (recovered : event.input.Recovered host) :
    nonces.Advance (nonces.counted event.before)
      (executedOf host event.input.call event.output).toList (nonces.counted event.after) := by
  cases callEffect_of step with
  | refused failure why output after =>
    rw [executedOf_of_none (output ▸ successOf_failure cbor failure []), after]
    exact advances_nil fun _ _ => Nat.le_refl _
  | checked call running decoded checkOnly output after =>
    rw [executing] at checkOnly
    cases checkOnly
  | failed txn ectx message state admitted applied output after =>
    rw [executedOf_of_none (output ▸ successOf_failure cbor _ []), after]
    unfold Host.Nonces.counted
    rw [admitted.runtime]
    exact advances_nil (nonces.grows _ _ _ _ _ (recovered txn admitted.decoded) applied)
  | executed txn ectx outcome state code admitted applied cumulative status output after =>
    have executed : executedOf host event.input.call event.output = some txn := by
      unfold executedOf
      rw [output, successOf_response cbor, admitted.decoded]
    rw [executed, after]
    unfold Host.Nonces.counted
    rw [admitted.runtime]
    have signed := recovered txn admitted.decoded
    obtain ⟨current, counted⟩ := nonces.applied _ _ _ _ _ signed applied
    exact advances_singleton (nonces.grows _ _ _ _ _ signed applied) ⟨_, signed⟩
      (Nat.le_of_eq current) counted

/-- A call that could not be decoded is not executed. -/
theorem successOf_of_undecoded (cbor : host.CborRoundTrip) {event : CallEvent σ}
    (step : event.Of (callMachine host)) {failure : Failure}
    (undecoded : event.input.call = .error failure) : successOf host event.output = none := by
  have contradicts {decoded : DecodedCall} (call : event.input.call = .ok decoded) : False := by
    rw [undecoded] at call
    cases call
  cases callEffect_of step with
  | refused failure why output after => rw [output, successOf_failure cbor]
  | checked call running decoded checkOnly output after => exact (contradicts decoded).elim
  | failed txn ectx message state admitted applied output after =>
    exact (contradicts admitted.decoded).elim
  | executed txn ectx outcome state code admitted applied cumulative status output after =>
    exact (contradicts admitted.decoded).elim

/-- What was executed of a call can be told from its bytes. -/
theorem executedOf_eq (cbor : host.CborRoundTrip) {event : CallEvent σ}
    (step : event.Of (callMachine host)) {aborted : Bool} {call : Bytes}
    (given : event.input.call = decodeCall host aborted call) :
    executedOf host (decodeTransaction host call) event.output =
      executedOf host event.input.call event.output := by
  cases aborted with
  | false =>
    rw [given]
    rfl
  | true =>
    have noSuccess := successOf_of_undecoded cbor step given
    rw [executedOf_of_none noSuccess, executedOf_of_none noSuccess]

theorem filterMap_eq_of_forall₂ {α β γ : Type} {first : α → Option γ} {second : β → Option γ}
    {values : List α} {others : List β}
    (same : List.Forall₂ (fun value other => first value = second other) values others) :
    values.filterMap first = others.filterMap second := by
  induction same with
  | nil => rfl
  | cons head _ ih => rw [List.filterMap_cons, List.filterMap_cons, head, ih]

/-- The executed transactions of a batch are those of the run of its calls. -/
theorem executedTxs_eq (cbor : host.CborRoundTrip) {dispatcher : Dispatcher}
    {ctx started final : Context σ} {batch : List Bytes} {result : ExecuteBatchResult}
    (opened : startBatch host ctx = .ok started)
    (returned : executeBatch host dispatcher ctx batch = .ok (result, final)) :
    executedTxs host batch result.results =
      (run (callMachine host) started (batchInputs host dispatcher batch)).flatMap
        fun event => (executedOf host event.input.call event.output).toList := by
  have inputs := run_inputs_of_executeBatch opened returned
  have length := congrArg List.length inputs
  rw [List.length_map, batchInputs_length] at length
  have results := results_of_executeBatch opened returned
  rw [← List.filterMap_eq_flatMap_toList]
  apply filterMap_eq_of_forall₂
  rw [List.forall₂_iff_zip]
  refine ⟨by simp [results, length], ?_⟩
  intro call event paired
  obtain ⟨index, located⟩ := List.mem_iff_getElem?.mp paired
  obtain ⟨placed, found⟩ := List.getElem?_zip_eq_some.mp located
  obtain ⟨called, answered⟩ := List.getElem?_zip_eq_some.mp placed
  obtain ⟨other, sameEvent, output, given⟩ := event_of_result opened returned called answered
  rw [found] at sameEvent
  cases sameEvent
  have step := of_mem_run (List.mem_of_getElem? found)
  rw [← output]
  exact executedOf_eq cbor step (congrArg CallInput.call given)

/-- A batch starts with the nonces that are stored. -/
theorem counted_start (nonces : host.Nonces) {ctx started : Context σ}
    (opened : startBatch host ctx = .ok started) :
    nonces.counted started = nonces.account ctx.storage := by
  obtain ⟨state, found, rfl⟩ := startBatch_eq_ok_iff.mp opened
  exact nonces.opened _ _ _ found

/-- The nonces of the accounts are stored when a batch ends. -/
theorem counted_end (nonces : host.Nonces) {ctx final : Context σ}
    (closed : endBatch host ctx = .ok final) :
    nonces.counted ctx = nonces.account final.storage := by
  unfold endBatch at closed
  unfold Host.Nonces.counted
  cases runtime : ctx.runtime with
  | none => simp [runtime] at closed
  | some ectx =>
    cases committed : host.commit ectx.state with
    | error message => simp [runtime, committed] at closed
    | ok stored =>
      simp only [runtime, committed, Outcome.ok.injEq] at closed
      rw [← closed]
      exact (nonces.committed _ _ committed).symm

/-- An executed block is a batch that returned. -/
theorem executeBatch_of_block {event : BlockEvent σ} (step : event.Of (blockMachine host)) :
    ∃ final, executeBatch host event.input.dispatcher
        (blockContext event.before event.input.header) event.input.batch =
          .ok (event.output, final) ∧ final.storage = event.after := by
  unfold Event.Of blockMachine at step
  split at step
  · rename_i result final returned
    obtain ⟨output, stored⟩ := Prod.mk.inj (Option.some.inj step)
    exact ⟨final, by rw [returned, output], stored⟩
  · cases step

/-- What every call does to the nonces, a block does. -/
theorem block_composes (cbor : host.CborRoundTrip) (nonces : host.Nonces)
    {relation : (Address → Nat) → List SignedTransaction → (Address → Nat) → Prop}
    (composes : Composes relation)
    (calls : ∀ event : CallEvent σ, event.Of (callMachine host) → event.before.checkOnly = false →
      event.input.Recovered host → relation (nonces.counted event.before)
        (executedOf host event.input.call event.output).toList (nonces.counted event.after))
    {event : BlockEvent σ} (step : event.Of (blockMachine host)) :
    relation (nonces.account event.before)
      (executedTxs host event.input.batch event.output.results) (nonces.account event.after) := by
  obtain ⟨final, returned, stored⟩ := executeBatch_of_block step
  obtain ⟨started, results, after, opened, processed, closed, _⟩ :=
    executeBatch_eq_ok_iff.mp returned
  have executing : started.checkOnly = false := startBatch_checkOnly opened
  have last := (processCalls_eq_ok_iff.mp processed).2.2
  have composed := @run_composes _ _ _ _ _ (callMachine host) started
    (batchInputs host event.input.dispatcher event.input.batch) _ composes nonces.counted _
    fun event member => calls event (of_mem_run member) (executing_of_mem_run executing member)
      (recovered_of_mem_batchInputs (input_mem_of_mem_run member))
  rw [batchInputs, ← last, counted_end nonces closed, counted_start nonces opened, stored]
    at composed
  rw [executedTxs_eq cbor opened returned]
  exact composed

/-- The executed transactions of a chain, in order. -/
def chainTxs (host : Host σ V) (blocks : List (BlockEvent σ)) : List SignedTransaction :=
  blocks.flatMap fun block => executedTxs host block.input.batch block.output.results

/-- A chain executes transactions in the order of their nonces. -/
theorem advance_chain (cbor : host.CborRoundTrip) (nonces : host.Nonces) (genesis : σ)
    (inputs : List BlockInput) :
    nonces.Advance (nonces.account genesis) (chainTxs host (run (blockMachine host) genesis inputs))
      (nonces.account (lastState genesis (run (blockMachine host) genesis inputs))) :=
  run_composes advances_composes nonces.account _ fun _ member =>
    block_composes cbor nonces advances_composes (fun _ => advance_step cbor nonces)
      (of_mem_run member)

/-- The hash of a transaction of the sample chain shows its three bytes. -/
def plainHash (gas gasPrice nonce : UInt8) : H256 :=
  ⟨[gas, gasPrice, nonce] ++ List.replicate 29 0, by simp⟩

/-- A transaction with the right nonce is applied and uses no gas. -/
def chainApply (nonce : Nat) (env : EnvInfo) (txn : SignedTransaction) :
    Except String ApplyOutcome × Nat :=
  match txn.transaction.body with
  | [given] =>
    if given.toNat = nonce then
      (.ok ⟨⟨env.gasUsed, [], [], .statusCode 1⟩, []⟩, nonce + 1)
    else (.error "invalid nonce", nonce)
  | _ => (.error "invalid nonce", nonce)

/-- A host with one account, whose transactions are a gas limit, a gas price and a nonce. -/
def chainHost : Host Nat SampleValue :=
  { sampleHost with
    rlpDecode := fun raw =>
      match raw with
      | [gas, gasPrice, nonce] =>
        .ok ⟨gas.toNat, gasPrice.toNat, plainHash gas gasPrice nonce, [nonce]⟩
      | _ => .error "not three bytes"
    apply := chainApply }

theorem chainHost_cbor : chainHost.CborRoundTrip := ⟨sampleHost_cbor.output, sampleHost_cbor.result⟩

theorem chainApply_cases (nonce : Nat) (env : EnvInfo) (txn : SignedTransaction) :
    (∃ given outcome, txn.transaction.body = [given] ∧ given.toNat = nonce ∧
      chainApply nonce env txn = (.ok outcome, nonce + 1)) ∨
    ∃ message, chainApply nonce env txn = (.error message, nonce) := by
  unfold chainApply
  split
  · rename_i given body
    split
    · rename_i current
      exact .inl ⟨given, _, body, current, rfl⟩
    · exact .inr ⟨_, rfl⟩
  · exact .inr ⟨_, rfl⟩

/-- The nonces of the sample chain. -/
def chainNonces : chainHost.Nonces where
  account nonce _ := nonce
  transaction txn := (txn.body.headD 0).toNat
  opened storage hash state opened := by
    cases opened
    rfl
  applied nonce env txn outcome after _ applied := by
    change chainApply nonce env txn = _ at applied
    rcases chainApply_cases nonce env txn with ⟨given, other, body, current, ran⟩ | ⟨message, ran⟩
    · rw [ran] at applied
      cases applied
      simp [body, current]
    · rw [ran] at applied
      cases applied
  grows nonce env txn result after _ applied address _ := by
    change chainApply nonce env txn = _ at applied
    rcases chainApply_cases nonce env txn with ⟨given, other, body, current, ran⟩ | ⟨message, ran⟩
    · rw [ran] at applied
      cases applied
      exact Nat.le_succ _
    · rw [ran] at applied
      cases applied
      exact Nat.le_refl _
  committed state stored committed := by
    cases committed
    rfl

/-- Nothing is executed twice. Along every chain, whatever its headers, its batches and the moments
at which they are aborted, the executed transactions of one sender have increasing nonces, none of
them below the nonce that the sender had at the genesis; and a call whose transaction was executed
in an earlier block has no success in any later one. -/
theorem chain_executes_in_nonce_order (cbor : host.CborRoundTrip) (nonces : host.Nonces)
    (genesis : σ) (inputs : List BlockInput) (blocks : List (BlockEvent σ))
    (ran : run (blockMachine host) genesis inputs = blocks) :
    (chainTxs host blocks).Pairwise (fun first second => first.sender = second.sender →
      nonces.transaction first.transaction < nonces.transaction second.transaction) ∧
    (∀ txn ∈ chainTxs host blocks,
      nonces.account genesis txn.sender ≤ nonces.transaction txn.transaction) ∧
    ∀ (earlier later : List (BlockEvent σ)) (block : BlockEvent σ) (i : Nat) (call : Bytes)
      (result : ExecuteTxResult) (txn : SignedTransaction),
      blocks = earlier ++ block :: later → txn ∈ chainTxs host earlier →
      block.input.batch[i]? = some call → block.output.results[i]? = some result →
      decodeTransaction host call = .ok ⟨txn⟩ → successOf host result = none := by
  subst ran
  have advance := advance_chain cbor nonces genesis inputs
  refine ⟨advance.ordered, advance.lower, ?_⟩
  intro earlier later block i call result txn split before called answered decoded
  cases success : successOf host result with
  | none => rfl
  | some response =>
    have executed : txn ∈ executedTxs host block.input.batch block.output.results := by
      refine List.mem_filterMap.mpr ⟨(call, result), ?_, ?_⟩
      · exact List.mem_of_getElem? (List.getElem?_zip_eq_some.mpr ⟨called, answered⟩)
      · simp only [executedOf, decoded, success]
    have once := advance.nodup
    rw [split, chainTxs, List.flatMap_append, List.flatMap_cons] at once
    have disjoint := (List.nodup_append.mp once).2.2 txn before txn
      (List.mem_append_left _ executed)
    exact absurd rfl disjoint

/-- A block in which a transaction is executed, and one in which it is sent again. -/
def replayInputs : List BlockInput :=
  [⟨⟨4, 100, FixedBytes.filled 32 3⟩, ⟨none⟩, [[5, 1, 0]]⟩,
    ⟨⟨5, 101, FixedBytes.filled 32 4⟩, ⟨none⟩, [[5, 1, 0], [5, 1, 1]]⟩]

/-- The transaction that is sent again fails, and the one after it is executed. -/
theorem replayed_transaction_fails :
    ∃ first second replayed next,
      run (blockMachine chainHost) 0 replayInputs = [first, second] ∧
      second.output.results = [replayed, next] ∧ successOf chainHost replayed = none ∧
      (successOf chainHost next).isSome := by
  refine ⟨_, _, _, _, rfl, rfl, ?_, rfl⟩
  exact (chain_executes_in_nonce_order chainHost_cbor chainNonces 0 replayInputs _ rfl).2.2 [_] []
    _ 0 [5, 1, 0] _ _ rfl List.mem_cons_self rfl rfl rfl

end Ethwasi.Runtime
