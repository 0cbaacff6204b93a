import Ethwasi.Runtime.Chain

/-!
# The nonces of an external account

The nonce of an account without code goes up with every transaction that the account signs, by one,
and never else. Along a chain the executed transactions of such an account then have consecutive
nonces, and the nonce of the account is the number of them, counted from the genesis.
-/

namespace Ethwasi.Runtime

open Ethwasi.Rust Ethwasi.Transition

variable {σ V : Type} {host : Host σ V}

/-- The account has no code: only its own executed transactions count its nonce on. -/
structure Host.Nonces.External (nonces : host.Nonces) (address : Address) : Prop where
  executed : ∀ state env txn outcome after, host.recover txn.transaction = .ok txn.sender →
    host.apply state env txn = (.ok outcome, after) →
    nonces.account after address =
      nonces.account state address + if txn.sender = address then 1 else 0
  failed : ∀ state env txn message after, host.recover txn.transaction = .ok txn.sender →
    host.apply state env txn = (.error message, after) →
    nonces.account after address = nonces.account state address

variable {nonces : host.Nonces} {address : Address}

/-- The transactions of the account have the nonces from one to the other. -/
abbrev Host.Nonces.Consecutive (nonces : host.Nonces) (address : Address)
    (before : Address → Nat) (executed : List SignedTransaction) (after : Address → Nat) : Prop :=
  Transition.Consecutive SignedTransaction.sender (fun txn => nonces.transaction txn.transaction)
    address before executed after

/-- One call executes a transaction of the account only with its nonce, and counts it. -/
theorem consecutive_step (cbor : host.CborRoundTrip) (external : nonces.External address)
    {event : CallEvent σ} (step : event.Of (callMachine host))
    (executing : event.before.checkOnly = false) (recovered : event.input.Recovered host) :
    nonces.Consecutive address (nonces.counted event.before)
      (executedOf host event.input.call event.output).toList (nonces.counted event.after) := by
  cases callEffect_of step with
  | refused failure why output after =>
    rw [executedOf_of_none (output ▸ successOf_failure cbor failure []), after]
    exact consecutive_nil rfl
  | checked call running decoded checkOnly output after =>
    rw [executing] at checkOnly
    cases checkOnly
  | failed txn ectx message state admitted applied output after =>
    rw [executedOf_of_none (output ▸ successOf_failure cbor _ []), after]
    unfold Host.Nonces.counted
    rw [admitted.runtime]
    exact consecutive_nil (external.failed _ _ _ _ _ (recovered txn admitted.decoded) applied)
  | executed txn ectx outcome state code admitted applied cumulative status output after =>
    have executed : executedOf host event.input.call event.output = some txn := by
      unfold executedOf
      rw [output, successOf_response cbor, admitted.decoded]
    rw [executed, after]
    unfold Host.Nonces.counted
    rw [admitted.runtime]
    have signed := recovered txn admitted.decoded
    refine consecutive_singleton ?_ (external.executed _ _ _ _ _ signed applied)
    intro own
    rw [← own]
    exact (nonces.applied _ _ _ _ _ signed applied).1.symm

/-- Along a chain the transactions of the account have consecutive nonces. -/
theorem consecutive_chain (cbor : host.CborRoundTrip) (external : nonces.External address)
    (genesis : σ) (inputs : List BlockInput) :
    nonces.Consecutive address (nonces.account genesis)
      (chainTxs host (run (blockMachine host) genesis inputs))
      (nonces.account (lastState genesis (run (blockMachine host) genesis inputs))) :=
  run_composes consecutive_composes nonces.account _ fun _ member =>
    block_composes cbor nonces consecutive_composes (fun _ => consecutive_step cbor external)
      (of_mem_run member)

/-- The environment in which the block after a header starts. -/
def nextEnv (header : Header) : EnvInfo :=
  { number := header.round + 1
    author := FixedBytes.filled 20 0
    timestamp := header.timestamp
    difficulty := 0
    gasLimit := blockGasLimit
    lastHashes := [header.previousHash]
    gasUsed := 0 }

/-- The environment stays the same while a batch is executed, but for the gas that it has used. -/
def InEnv (env : EnvInfo) (ctx : Context σ) : Prop :=
  ∀ ectx, ctx.runtime = some ectx → ectx.envInfo = { env with gasUsed := ectx.envInfo.gasUsed }

theorem inEnv_step (env : EnvInfo) (event : CallEvent σ) (step : event.Of (callMachine host))
    (held : InEnv env event.before) : InEnv env event.after := by
  cases callEffect_of step with
  | refused failure why output after =>
    rw [after]
    exact held
  | checked call running decoded checkOnly output after =>
    rw [after]
    exact held
  | failed txn ectx message state admitted applied output after =>
    rw [after]
    rintro _ ⟨⟩
    exact held ectx admitted.runtime
  | executed txn ectx outcome state code admitted applied cumulative status output after =>
    rw [after]
    rintro _ ⟨⟩
    have same := held ectx admitted.runtime
    change { ectx.envInfo with gasUsed := outcome.receipt.gasUsed } = _
    rw [same]

/-- A batch is executed in the environment of the block after its header. -/
theorem inEnv_of_mem_run {ctx started : Context σ} (opened : startBatch host ctx = .ok started)
    {inputs : List CallInput} {event : CallEvent σ}
    (member : event ∈ run (callMachine host) started inputs) :
    InEnv (nextEnv ctx.header) event.before := by
  have start : InEnv (nextEnv ctx.header) started := by
    obtain ⟨state, _, rfl⟩ := startBatch_eq_ok_iff.mp opened
    rintro _ ⟨⟩
    rfl
  exact ((run_invariant (InEnv (nextEnv ctx.header)) (inEnv_step _) start).1 event member).1

end Ethwasi.Runtime
