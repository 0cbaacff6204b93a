import Ethwasi.Runtime.Senders
import Ethwasi.Gateway.BlockViews
import Ethwasi.Gateway.Invocation

/-!
# Questions about the state at a block

The gateway answers questions about accounts from the state that a block left behind, and it
simulates a transaction over that state. Both open the stored state without a confidential context.
What is asked at a block is what the next block starts from: the nonce of an external account is
the one that its next transaction needs, and a simulation is run in the environment in which the
transactions of the next block are executed, but for the gas limit and the gas that is used.
-/

namespace Ethwasi.Gateway

open Ethwasi.Rust Ethwasi.Runtime Ethwasi.Transition

/-- `Executed`, by the fields that are read here. -/
structure Executed where
  exception : Option String
  gasUsed : Nat
  refunded : Nat
  output : Bytes
  deriving DecidableEq

/-- `CallError`, as far as the gateway makes it. -/
inductive CallError where
  | stateCorrupt
  | statePruned
  | execution (message : String)
  deriving DecidableEq

/-- What `State` answers when it is opened without a confidential context. -/
structure StateReader (σ : Type) where
  /-- `State::from_existing`. -/
  fromExisting : σ → Except String σ
  balance : σ → Address → Except String Nat
  nonce : σ → Address → Except String Nat
  /-- `storage_at`, with the position as a number. -/
  storageAt : σ → Address → Nat → Except String H256
  code : σ → Address → Except String (Option Bytes)
  storageExpiry : σ → Address → Except String Nat
  /-- `transact_virtual`, without a check of the nonce. -/
  transactVirtual : σ → EnvInfo → SignedTransaction → Except String Executed

/-- The header and the state of a snapshot. -/
structure Snapshots (σ : Type) where
  header : EthereumBlock → Header
  storage : EthereumBlock → σ

/-- `jsonrpc_error`. -/
def jsonrpcError (message : String) : CodedError := ⟨-32603, message, none⟩

/-- `U256::max_value`. -/
def u256Max : Nat := 2 ^ 256 - 1

/-- `U256` addition. -/
def u256Add {ε : Type} (left right : Nat) : Outcome ε Nat :=
  if left + right ≤ u256Max then .ok (left + right) else .panic .arithmeticOverflow

section Queries

variable {σ V α : Type} (client : NodeClient V) (snapshots : Snapshots σ) (reader : StateReader σ)

/-- `EthereumBlock::state`. -/
def blockState (block : EthereumBlock) : Except String σ :=
  reader.fromExisting (snapshots.storage block)

/-- What a question about the state at a block is answered. -/
def readState (read : σ → Except String α) (num : BlockNumber) : Except CodedError α :=
  Except.mapError jsonrpcError do
    let block ← getBlockUnwrap client (blockNumberToId num)
    let state ← blockState snapshots reader block
    read state

/-- `balance`. -/
def balance (address : Address) : BlockNumber → Except CodedError Nat :=
  readState client snapshots reader fun state => reader.balance state address

/-- `storage_at`. -/
def storageAt (address : Address) (pos : Nat) : BlockNumber → Except CodedError H256 :=
  readState client snapshots reader fun state => reader.storageAt state address pos

/-- `transaction_count`. -/
def transactionCount (address : Address) : BlockNumber → Except CodedError Nat :=
  readState client snapshots reader fun state => reader.nonce state address

/-- `code_at`. -/
def codeAt (address : Address) : BlockNumber → Except CodedError Bytes :=
  readState client snapshots reader fun state => (reader.code state address).map (·.getD [])

/-- `get_expiry`. -/
def getExpiry (address : Address) : BlockNumber → Except CodedError Nat :=
  readState client snapshots reader fun state => reader.storageExpiry state address

/-- The environment of a simulation. -/
def simulationEnv (header : Header) : EnvInfo :=
  { number := header.round + 1
    author := FixedBytes.filled 20 0
    timestamp := header.timestamp
    difficulty := 0
    lastHashes := [header.previousHash]
    gasUsed := 0
    gasLimit := u256Max }

/-- `simulate_transaction`. -/
def simulateTransaction (transaction : SignedTransaction) (id : BlockId) :
    Except CallError Executed :=
  match getBlock client id with
  | .error _ => .error .stateCorrupt
  | .ok none => .error .statePruned
  | .ok (some block) =>
    match blockState snapshots reader block with
    | .error _ => .error .stateCorrupt
    | .ok state =>
      (reader.transactVirtual state (simulationEnv (snapshots.header block)) transaction).mapError
        .execution

/-- `Translator::estimate_gas`. -/
def estimateGas (transaction : SignedTransaction) (id : BlockId) : Outcome CallError Nat := do
  let executed ← Outcome.ofExcept (simulateTransaction client snapshots reader transaction id)
  u256Add executed.gasUsed executed.refunded

/-- `errors::call` and `errors::vm`. -/
structure CallErrors where
  call : CallError → CodedError
  vm : String → Bytes → CodedError

/-- `EthClient::call`, when the request is signed. -/
def ethCall (errors : CallErrors) (signed : SignedTransaction) (num : BlockNumber) :
    Except CodedError Bytes :=
  match simulateTransaction client snapshots reader signed (blockNumberToId num) with
  | .error error => .error (errors.call error)
  | .ok executed =>
    match executed.exception with
    | some exception => .error (errors.vm exception executed.output)
    | none => .ok executed.output

/-- `EthClient::estimate_gas`, when the request is signed. An exception is not looked at. -/
def ethEstimateGas (display : CallError → String) (signed : SignedTransaction)
    (num : BlockNumber) : Outcome CodedError Nat :=
  (estimateGas client snapshots reader signed (blockNumberToId num)).mapErr fun error =>
    executionError (display error)

end Queries

/-- The node has a chain: at every round it holds the state that the block of the round left, with
the header over which the next block is executed. -/
structure HoldsChain {σ V : Type} (client : NodeClient V) (snapshots : Snapshots σ) (genesis : σ)
    (blocks : List (BlockEvent σ)) : Prop where
  within : ∀ id block, getBlock client id = .ok (some block) → block.round ≤ blocks.length
  storage : ∀ id block, getBlock client id = .ok (some block) →
    snapshots.storage block = lastState genesis (blocks.take block.round)
  header : ∀ id block, getBlock client id = .ok (some block) →
    ∀ next, blocks[block.round]? = some next → next.input.header = snapshots.header block

/-- Nonces are read as they were stored. -/
def StateReader.ReadsNonces {σ V : Type} {host : Host σ V} (reader : StateReader σ)
    (nonces : host.Nonces) : Prop :=
  ∀ storage state address count, reader.fromExisting storage = .ok state →
    reader.nonce state address = .ok count → count = nonces.account storage address

/-- The transactions that an account sent. -/
def sentBy (address : Address) (txns : List SignedTransaction) : List SignedTransaction :=
  txns.filter (·.sender = address)

section Main

variable {σ V α : Type} {host : Host σ V} {client : NodeClient V} {snapshots : Snapshots σ}
  {reader : StateReader σ}

/-- A question about the state is answered from the block that it names. -/
theorem readState_eq_ok_iff {read : σ → Except String α} {num : BlockNumber} {answer : α} :
    readState client snapshots reader read num = .ok answer ↔
      ∃ block state, getBlock client (blockNumberToId num) = .ok (some block) ∧
        reader.fromExisting (snapshots.storage block) = .ok state ∧ read state = .ok answer := by
  unfold readState getBlockUnwrap blockState
  cases found : getBlock client (blockNumberToId num) with
  | error message => simp [Except.mapError, bind, Except.bind]
  | ok answer =>
    cases answer with
    | none => simp [Except.mapError, bind, Except.bind]
    | some block =>
      cases opened : reader.fromExisting (snapshots.storage block) with
      | error message => simp [Except.mapError, bind, Except.bind, opened]
      | ok state =>
        cases answered : read state with
        | error message => simp [Except.mapError, bind, Except.bind, opened, answered]
        | ok value => simp [Except.mapError, bind, Except.bind, opened, answered]

/-- On a chain a question about the state is answered from the state that its block left. -/
theorem readState_of_chain {genesis : σ} {blocks : List (BlockEvent σ)}
    (holds : HoldsChain client snapshots genesis blocks) {read : σ → Except String α}
    {num : BlockNumber} {answer : α}
    (answered : readState client snapshots reader read num = .ok answer) :
    ∃ block state, getBlock client (blockNumberToId num) = .ok (some block) ∧
      reader.fromExisting (lastState genesis (blocks.take block.round)) = .ok state ∧
      read state = .ok answer := by
  obtain ⟨block, state, found, opened, asked⟩ := readState_eq_ok_iff.mp answered
  rw [holds.storage _ _ found] at opened
  exact ⟨block, state, found, opened, asked⟩

/-- The transactions of an external account are counted by its nonce. However a chain came about,
what the gateway returns as the transaction count of the account at a block is the nonce that the
account had at the genesis and the number of its transactions that were executed up to the block.
They have the nonces below the count, one after the other, and those that are executed after the
block go on with the count. -/
theorem transaction_count_exact (cbor : host.CborRoundTrip) (nonces : host.Nonces)
    (address : Address) (external : nonces.External address) (reads : reader.ReadsNonces nonces)
    (genesis : σ) (inputs : List BlockInput) (blocks : List (BlockEvent σ))
    (ran : run (blockMachine host) genesis inputs = blocks)
    (holds : HoldsChain client snapshots genesis blocks) (num : BlockNumber) (count : Nat)
    (counted : transactionCount client snapshots reader address num = .ok count) :
    ∃ block, getBlock client (blockNumberToId num) = .ok (some block) ∧
      count = nonces.account genesis address +
        (sentBy address (chainTxs host (blocks.take block.round))).length ∧
      (sentBy address (chainTxs host (blocks.take block.round))).map
          (fun txn => nonces.transaction txn.transaction) =
        List.range' (nonces.account genesis address)
          (sentBy address (chainTxs host (blocks.take block.round))).length ∧
      (sentBy address (chainTxs host (blocks.drop block.round))).map
          (fun txn => nonces.transaction txn.transaction) =
        List.range' count (sentBy address (chainTxs host (blocks.drop block.round))).length := by
  subst ran
  obtain ⟨block, state, found, opened, answer⟩ := readState_of_chain holds counted
  have stored := reads _ _ _ _ opened answer
  rw [run_take] at stored
  have upTo := consecutive_chain cbor external genesis (inputs.take block.round)
  have whole := consecutive_chain cbor external genesis inputs
  rw [← run_take] at upTo
  rw [← run_take, upTo.total, List.countP_eq_length_filter] at stored
  have below := upTo.numbers
  have all := whole.numbers
  rw [List.countP_eq_length_filter] at below all
  have split : chainTxs host (run (blockMachine host) genesis inputs) =
      chainTxs host ((run (blockMachine host) genesis inputs).take block.round) ++
        chainTxs host ((run (blockMachine host) genesis inputs).drop block.round) := by
    rw [chainTxs, chainTxs, chainTxs, ← List.flatMap_append, List.take_append_drop]
  refine ⟨block, found, stored, below, ?_⟩
  rw [split, List.filter_append, List.map_append, List.length_append, ← List.range'_append_1,
    below] at all
  rw [stored]
  exact List.append_cancel_left all

end Main

/-- The only account that sends transactions in the sample. -/
def soleSender : Address := FixedBytes.filled 20 1

/-- Only transactions of the account are applied. -/
def senderApply (nonce : Nat) (env : EnvInfo) (txn : SignedTransaction) :
    Except String ApplyOutcome × Nat :=
  if txn.sender = soleSender then chainApply nonce env txn else (.error "unknown sender", nonce)

/-- A host whose transactions are all signed by the account. -/
def senderHost : Host Nat SampleValue :=
  { chainHost with
    recover := fun _ => .ok soleSender
    apply := senderApply }

theorem senderApply_cases (nonce : Nat) (env : EnvInfo) (txn : SignedTransaction) :
    (txn.sender = soleSender ∧ (txn.transaction.body.headD 0).toNat = nonce ∧
      ∃ outcome, senderApply nonce env txn = (.ok outcome, nonce + 1)) ∨
    ∃ message, senderApply nonce env txn = (.error message, nonce) := by
  unfold senderApply
  by_cases own : txn.sender = soleSender
  · rw [if_pos own]
    rcases chainApply_cases nonce env txn with ⟨given, outcome, body, current, ran⟩ | refused
    · exact .inl ⟨own, by simp [body, current], outcome, ran⟩
    · exact .inr refused
  · rw [if_neg own]
    exact .inr ⟨_, rfl⟩

/-- The nonces of the sample. -/
def senderNonces : senderHost.Nonces where
  account nonce address := if address = soleSender then nonce else 0
  transaction txn := (txn.body.headD 0).toNat
  opened storage hash state opened := by
    cases opened
    rfl
  applied nonce env txn outcome after _ applied := by
    change senderApply nonce env txn = _ at applied
    rcases senderApply_cases nonce env txn with ⟨own, current, _, ran⟩ | ⟨message, ran⟩
    · rw [ran] at applied
      cases applied
      rw [if_pos own, if_pos own, current]
      exact ⟨rfl, Nat.lt_succ_self _⟩
    · rw [ran] at applied
      cases applied
  grows nonce env txn result after _ applied address _ := by
    change senderApply nonce env txn = _ at applied
    rcases senderApply_cases nonce env txn with ⟨_, _, _, ran⟩ | ⟨message, ran⟩
    · rw [ran] at applied
      cases applied
      split
      · exact Nat.le_succ _
      · exact Nat.le_refl _
    · rw [ran] at applied
      cases applied
      exact Nat.le_refl _
  committed state stored committed := by
    cases committed
    rfl

theorem senderNonces_external : senderNonces.External soleSender := by
  constructor
  · intro nonce env txn outcome after _ applied
    change senderApply nonce env txn = _ at applied
    rcases senderApply_cases nonce env txn with ⟨own, _, _, ran⟩ | ⟨message, ran⟩
    · rw [ran] at applied
      cases applied
      simp [senderNonces, own]
    · rw [ran] at applied
      cases applied
  · intro nonce env txn message after _ failed
    change senderApply nonce env txn = _ at failed
    rcases senderApply_cases nonce env txn with ⟨_, _, _, ran⟩ | ⟨message, ran⟩
    · rw [ran] at failed
      cases failed
    · rw [ran] at failed
      cases failed
      rfl

theorem senderHost_cbor : senderHost.CborRoundTrip := ⟨chainHost_cbor.output, chainHost_cbor.result⟩

/-- The blocks of the sample. -/
def senderBlocks : List (BlockEvent Nat) := run (blockMachine senderHost) 0 replayInputs

/-- A node that has the blocks. -/
def senderClient : NodeClient SampleValue where
  getLatestBlock := .ok ⟨2, FixedBytes.filled 32 9⟩
  getBlock round := .ok (if round ≤ 2 then some ⟨round, FixedBytes.filled 32 9⟩ else none)
  getBlockByHash _ := .ok none
  waitBlockIndexed _ := .ok ()
  queryTxs _ := .ok []

/-- The snapshots of the node. -/
def senderSnapshots : Snapshots Nat where
  header block := (senderBlocks[block.round]?.map (·.input.header)).getD
    ⟨block.round, 0, FixedBytes.filled 32 0⟩
  storage block := lastState 0 (senderBlocks.take block.round)

/-- States that are read as they are stored. -/
def senderReader : StateReader Nat where
  fromExisting state := .ok state
  balance _ _ := .ok 0
  nonce state address := .ok (if address = soleSender then state else 0)
  storageAt _ _ _ := .ok (FixedBytes.filled 32 0)
  code _ _ := .ok none
  storageExpiry _ _ := .ok 0
  transactVirtual _ env _ := .ok ⟨none, env.number, 0, []⟩

theorem senderReader_reads : senderReader.ReadsNonces senderNonces := by
  intro storage state address count opened answer
  cases opened
  cases answer
  rfl

theorem senderClient_holds : HoldsChain senderClient senderSnapshots 0 senderBlocks := by
  refine ⟨?_, fun _ _ _ => rfl, ?_⟩
  · intro id block found
    have length : senderBlocks.length = 2 := rfl
    rw [length]
    cases id with
    | hash hash => cases found
    | number round =>
      simp only [getBlock, senderClient, Except.ok.injEq] at found
      split at found
      · rename_i known
        cases found
        exact known
      · cases found
    | latest =>
      cases found
      exact Nat.le_refl _
    | earliest =>
      cases found
      exact Nat.zero_le _
  · intro id block found next successor
    simp [senderSnapshots, successor]

/-- Two transactions of the account were executed, and two is its transaction count. -/
theorem two_transactions_counted :
    ∃ block, getBlock senderClient .latest = .ok (some block) ∧
      2 = (sentBy soleSender (chainTxs senderHost (senderBlocks.take block.round))).length := by
  obtain ⟨block, found, count, _⟩ := transaction_count_exact senderHost_cbor senderNonces soleSender
    senderNonces_external senderReader_reads 0 replayInputs senderBlocks rfl senderClient_holds
    .latest 2 rfl
  refine ⟨block, found, count.trans ?_⟩
  rw [show senderNonces.account 0 soleSender = 0 from rfl, Nat.zero_add]

section Simulation

variable {σ V : Type} {host : Host σ V} {client : NodeClient V} {snapshots : Snapshots σ}
  {reader : StateReader σ}

/-- A simulation succeeds when the block is there, its state opens and the transaction is run. -/
theorem simulateTransaction_eq_ok_iff {transaction : SignedTransaction} {id : BlockId}
    {executed : Executed} :
    simulateTransaction client snapshots reader transaction id = .ok executed ↔
      ∃ block state, getBlock client id = .ok (some block) ∧
        reader.fromExisting (snapshots.storage block) = .ok state ∧
        reader.transactVirtual state (simulationEnv (snapshots.header block)) transaction =
          .ok executed := by
  unfold simulateTransaction blockState
  cases found : getBlock client id with
  | error message => simp
  | ok answer =>
    cases answer with
    | none => simp
    | some block =>
      cases opened : reader.fromExisting (snapshots.storage block) with
      | error message => simp [opened]
      | ok state =>
        cases ran : reader.transactVirtual state (simulationEnv (snapshots.header block))
            transaction with
        | error message => simp [opened, ran, Except.mapError]
        | ok value => simp [opened, ran, Except.mapError]

theorem ethCall_eq_ok_iff {errors : CallErrors} {signed : SignedTransaction} {num : BlockNumber}
    {output : Bytes} :
    ethCall client snapshots reader errors signed num = .ok output ↔
      ∃ executed, simulateTransaction client snapshots reader signed (blockNumberToId num) =
          .ok executed ∧ executed.exception = none ∧ executed.output = output := by
  unfold ethCall
  cases simulateTransaction client snapshots reader signed (blockNumberToId num) with
  | error error => simp
  | ok executed =>
    cases raised : executed.exception with
    | none => simp [raised]
    | some exception => simp [raised]

theorem ethEstimateGas_eq_ok_iff {display : CallError → String} {signed : SignedTransaction}
    {num : BlockNumber} {gas : Nat} :
    ethEstimateGas client snapshots reader display signed num = .ok gas ↔
      ∃ executed, simulateTransaction client snapshots reader signed (blockNumberToId num) =
          .ok executed ∧ executed.gasUsed + executed.refunded = gas ∧ gas ≤ u256Max := by
  unfold ethEstimateGas estimateGas
  cases simulateTransaction client snapshots reader signed (blockNumberToId num) with
  | error error => simp [Outcome.ofExcept, Outcome.mapErr]
  | ok executed =>
    simp only [Outcome.ofExcept, Outcome.ok_bind, u256Add, Except.ok.injEq, exists_eq_left']
    by_cases fits : executed.gasUsed + executed.refunded ≤ u256Max
    · simp only [if_pos fits, Outcome.mapErr, Outcome.ok.injEq]
      exact ⟨fun same => ⟨same, same ▸ fits⟩, And.left⟩
    · simp only [if_neg fits, Outcome.mapErr, reduceCtorEq, false_iff]
      rintro ⟨rfl, small⟩
      exact fits small

theorem ethEstimateGas_panics_iff {display : CallError → String} {signed : SignedTransaction}
    {num : BlockNumber} :
    (ethEstimateGas client snapshots reader display signed num).Panics ↔
      ∃ executed, simulateTransaction client snapshots reader signed (blockNumberToId num) =
          .ok executed ∧ u256Max < executed.gasUsed + executed.refunded := by
  unfold ethEstimateGas estimateGas
  rw [Outcome.panics_mapErr]
  cases simulateTransaction client snapshots reader signed (blockNumberToId num) with
  | error error => simp [Outcome.ofExcept]
  | ok executed =>
    simp only [Outcome.ofExcept, Outcome.ok_bind, u256Add, Except.ok.injEq, exists_eq_left']
    by_cases fits : executed.gasUsed + executed.refunded ≤ u256Max
    · simp [if_pos fits, Nat.not_lt.mpr fits]
    · simp [if_neg fits, Nat.not_le.mp fits]

/-- The transaction is run over a stored state, in an environment without a gas limit. -/
def RunsOver (reader : StateReader σ) (storage : σ) (env : EnvInfo) (signed : SignedTransaction)
    (executed : Executed) : Prop :=
  ∃ state, reader.fromExisting storage = .ok state ∧
    reader.transactVirtual state { env with gasLimit := u256Max } signed = .ok executed

/-- Calls and estimates are made where the next block is. Let a block have a successor in the chain.
What is called or estimated at the block is run over the state that the successor was executed over,
in the environment in which the successor was started but for the gas limit; and during the
successor nothing of this environment changes but the gas that is used. A call returns the output
of such a run without an exception; an estimate returns the gas of any such run, with what was
refunded, and panics exactly when that sum leaves the word. -/
theorem simulation_in_next_block (genesis : σ) (inputs : List BlockInput)
    (blocks : List (BlockEvent σ)) (ran : run (blockMachine host) genesis inputs = blocks)
    (holds : HoldsChain client snapshots genesis blocks) (num : BlockNumber)
    (block : EthereumBlock) (found : getBlock client (blockNumberToId num) = .ok (some block))
    (next : BlockEvent σ) (successor : blocks[block.round]? = some next) :
    ∃ started start, startBatch host (blockContext next.before next.input.header) = .ok started ∧
      started.runtime = some start ∧
      (∀ errors signed output,
        ethCall client snapshots reader errors signed num = .ok output ↔
          ∃ executed, RunsOver reader next.before start.envInfo signed executed ∧
            executed.exception = none ∧ executed.output = output) ∧
      (∀ display signed gas,
        ethEstimateGas client snapshots reader display signed num = .ok gas ↔
          ∃ executed, RunsOver reader next.before start.envInfo signed executed ∧
            executed.gasUsed + executed.refunded = gas ∧ gas ≤ u256Max) ∧
      (∀ display signed,
        (ethEstimateGas client snapshots reader display signed num).Panics ↔
          ∃ executed, RunsOver reader next.before start.envInfo signed executed ∧
            u256Max < executed.gasUsed + executed.refunded) ∧
      ∀ call ∈ run (callMachine host) started
          (batchInputs host next.input.dispatcher next.input.batch),
        ∀ ectx, call.before.runtime = some ectx →
          ectx.envInfo = { start.envInfo with gasUsed := ectx.envInfo.gasUsed } := by
  subst ran
  obtain ⟨final, returned, _⟩ :=
    executeBatch_of_block (of_mem_run (List.mem_of_getElem? successor))
  obtain ⟨started, _, _, opened, _⟩ := executeBatch_eq_ok_iff.mp returned
  obtain ⟨state, _, isStarted⟩ := startBatch_eq_ok_iff.mp opened
  have simulated (signed : SignedTransaction) (executed : Executed) :
      simulateTransaction client snapshots reader signed (blockNumberToId num) = .ok executed ↔
        RunsOver reader next.before (nextEnv next.input.header) signed executed := by
    have storage := holds.storage _ _ found
    rw [← before_eq_lastState successor] at storage
    have header := holds.header _ _ found _ successor
    rw [simulateTransaction_eq_ok_iff, RunsOver]
    constructor
    · rintro ⟨other, state, isBlock, opens, runs⟩
      cases found.symm.trans isBlock
      rw [storage] at opens
      rw [← header] at runs
      exact ⟨state, opens, runs⟩
    · rintro ⟨state, opens, runs⟩
      rw [← storage] at opens
      rw [header] at runs
      exact ⟨block, state, found, opens, runs⟩
  refine ⟨started, ⟨state, nextEnv next.input.header, ∅⟩, opened, by rw [isStarted]; rfl,
    ?_, ?_, ?_, ?_⟩
  · intro errors signed output
    simp only [ethCall_eq_ok_iff, simulated]
  · intro display signed gas
    simp only [ethEstimateGas_eq_ok_iff, simulated]
  · intro display signed
    simp only [ethEstimateGas_panics_iff, simulated]
  · intro call member ectx runtime
    exact inEnv_of_mem_run opened member ectx runtime

end Simulation

/-- An estimate at the first block of the sample, whose gas is the number of the block it is made
in, is made in the environment of the second. -/
theorem simulated_in_second_block :
    ∃ next started start executed, senderBlocks[1]? = some next ∧
      startBatch senderHost (blockContext next.before next.input.header) = .ok started ∧
      started.runtime = some start ∧
      RunsOver senderReader next.before start.envInfo
        ⟨⟨5, 1, FixedBytes.filled 32 0, []⟩, soleSender⟩ executed ∧
      executed.gasUsed + executed.refunded = 6 := by
  obtain ⟨started, start, opened, runtime, _, estimated, _⟩ := @simulation_in_next_block _ _
    senderHost senderClient senderSnapshots senderReader 0 replayInputs senderBlocks rfl
    senderClient_holds (.num 1) _ rfl _ rfl
  obtain ⟨executed, runs, gas, _⟩ := (estimated (fun _ => "")
    ⟨⟨5, 1, FixedBytes.filled 32 0, []⟩, soleSender⟩ 6).mp rfl
  exact ⟨_, started, start, executed, rfl, opened, runtime, runs, gas⟩

end Ethwasi.Gateway
