import Ethwasi.Runtime.Chain
import Ethwasi.Gateway.BlockViews
import Ethwasi.Gateway.LogViews
import Ethwasi.Gateway.Submission

/-!
# Invoking a transaction and asking for it

A client submits a raw transaction, waits until a block has executed it, and later asks for it by
the hash that it was given. The answer passes through everything: the gateway sends the call, the
runtime executes it in some block of the chain and emits the tag of its hash, the node indexes the
tag, and the gateway decodes what the node finds. What the client finds is the very execution that
it was told about. There is only one, since the nonce of the sender keeps a transaction from being
executed again.
-/

namespace Ethwasi.Gateway

open Ethwasi.Rust Ethwasi.Runtime Ethwasi.Transition

variable {σ V : Type}

/-- The answers of the node to a query for one transaction, by a tag and its value. -/
structure TagClient (V : Type) where
  /-- `query_tx`. -/
  queryTx : Bytes → Bytes → Except String (Option (TransactionSnapshot V))

/-- An error of the JSON-RPC interface with its code and its data. -/
structure CodedError where
  code : Int
  message : String
  data : Option String
  deriving DecidableEq

/-- `codes::EXECUTION_ERROR`. -/
def executionErrorCode : Int := -32015

/-- The text of an error. -/
def SendError.display : SendError → String
  | .transaction error => error.display
  | .client message => message
  | .invalid message => message

/-- `execution_error`, with the text of its cause. -/
def executionError (cause : String) : CodedError where
  code := executionErrorCode
  message := "Transaction execution error with cause: " ++ cause
  data := some cause

/-- `RpcExecutionPayload`. -/
structure RpcExecutionPayload where
  transactionHash : H256
  statusCode : Nat
  output : Bytes
  deriving DecidableEq

section Requests

variable (host : Host σ V) (ethcore : Ethcore) (client : TagClient V)
  (submit : Nat → Bytes → Except SendError ExecutionResult)

/-- `send_raw_transaction` of the Ethereum interface; `submit_transaction` is the same. -/
def ethSendRawTransaction (raw : Bytes) : Except CodedError H256 :=
  match (sendRawTransaction host submit raw).2 with
  | .ok (hash, _) => .ok hash
  | .error error => .error (executionError error.display)

/-- `invoke`. -/
def invoke (raw : Bytes) : Except CodedError RpcExecutionPayload :=
  match (sendRawTransaction host submit raw).2 with
  | .ok (hash, result) => .ok ⟨hash, result.statusCode.toNat, result.output⟩
  | .error error => .error (executionError error.display)

/-- `get_txn_by_hash`. -/
def getTxnByHash (hash : H256) : Except String (Option (TransactionSnapshot V)) :=
  client.queryTx tagEthTxHash hash.bytes

/-- `transaction_by_hash`. -/
def transactionByHash (hash : H256) : Outcome LookupError (Option RpcTransaction) :=
  showTransaction host ethcore (getTxnByHash client hash)

/-- `transaction_receipt`. -/
def transactionReceipt (hash : H256) : Outcome LookupError (Option LocalizedReceipt) :=
  match getTxnByHash client hash with
  | .error message => .err (.node message)
  | .ok none => .ok none
  | .ok (some txn) => do
    let shown ← (receipt host ethcore txn).mapErr .view
    return some shown

end Requests

/-- Different transactions have different hashes. -/
def HashesDiffer (host : Host σ V) : Prop :=
  ∀ first second txn other, host.rlpDecode first = .ok txn → host.rlpDecode second = .ok other →
    txn.hash = other.hash → txn = other

/-- All transactions of a chain. -/
def allTxs {host : Host σ V} (chain : List (ChainBlock host)) : List StoredTx :=
  storedTxs chain 0 chain.length

/-- The chain keeps the executed blocks. -/
def KeepsBlocks {host : Host σ V} (blocks : List (BlockEvent σ))
    (chain : List (ChainBlock host)) : Prop :=
  List.Forall₂ (fun block kept => kept.batch = block.input.batch ∧
    kept.results = block.output.results) blocks chain

/-- The call carries the payload to the method of transactions. -/
def Carries (host : Host σ V) (call payload : Bytes) : Prop :=
  ∃ input, host.callFromSlice call = some input ∧ input.method = methodTx ∧
    host.bytesFromValue input.args = some payload

/-- A result that the client returns for a payload is the result of a call of the chain that
carries the payload. -/
def AnsweredFrom {host : Host σ V} (chain : List (ChainBlock host))
    (submit : Nat → Bytes → Except SendError ExecutionResult) : Prop :=
  ∀ attempt payload result, submit attempt payload = .ok result →
    ∃ stored ∈ allTxs chain, Carries host stored.call payload ∧
      clientResult host stored.result.output = .ok result

/-- The node finds a transaction with the tag, if there is one. -/
def TagQueryExact {host : Host σ V} (client : TagClient V) (chain : List (ChainBlock host))
    (snapshot : StoredTx → TransactionSnapshot V) : Prop :=
  ∀ key value stored, stored ∈ allTxs chain → ⟨key, value⟩ ∈ stored.result.tags →
    ∃ found ∈ allTxs chain, ⟨key, value⟩ ∈ found.result.tags ∧
      client.queryTx key value = .ok (some (snapshot found))

variable {host : Host σ V}

/-- Where elements are kept under different values, a value tells its element. -/
theorem eq_of_nodup_filterMap {α β : Type} {keep : α → Option β} {values : List α}
    (once : (values.filterMap keep).Nodup) {first second : α} (inFirst : first ∈ values)
    (inSecond : second ∈ values) {value : β} (keepsFirst : keep first = some value)
    (keepsSecond : keep second = some value) : first = second := by
  induction values with
  | nil => cases inFirst
  | cons head rest ih =>
    have later {other : α} (member : other ∈ rest) (kept : keep other = some value)
        (keptHead : keep head = some value) : False := by
      rw [List.filterMap_cons_some keptHead, List.nodup_cons] at once
      exact once.1 (List.mem_filterMap.mpr ⟨other, member, kept⟩)
    have restOnce : (rest.filterMap keep).Nodup := by
      cases kept : keep head with
      | none => rwa [List.filterMap_cons_none kept] at once
      | some kept' =>
        rw [List.filterMap_cons_some kept] at once
        exact (List.nodup_cons.mp once).2
    rcases List.mem_cons.mp inFirst with rfl | firstLater
    · rcases List.mem_cons.mp inSecond with rfl | secondLater
      · rfl
      · exact (later secondLater keepsSecond keepsFirst).elim
    · rcases List.mem_cons.mp inSecond with rfl | secondLater
      · exact (later firstLater keepsFirst keepsSecond).elim
      · exact ih restOnce firstLater secondLater

/-- The transaction of a stored call, if it was executed. -/
def StoredTx.executed (host : Host σ V) (stored : StoredTx) : Option SignedTransaction :=
  executedOf host (decodeTransaction host stored.call) stored.result

theorem filterMap_transactions (block : ChainBlock host) (round : Nat) :
    (block.transactions round).filterMap (StoredTx.executed host) =
      executedTxs host block.batch block.results := by
  rw [ChainBlock.transactions, List.filterMap_map, executedTxs]
  conv_rhs => rw [← List.zipIdx_map_fst 0 (block.batch.zip block.results), List.filterMap_map]
  rfl

theorem allTxs_eq (chain : List (ChainBlock host)) :
    allTxs chain = chain.zipIdx.flatMap fun block => block.1.transactions block.2 := by
  have inRange : (chain.zipIdx.filter fun block => 0 ≤ block.2 && block.2 ≤ chain.length) =
      chain.zipIdx := by
    rw [List.filter_eq_self]
    intro block member
    have below := List.snd_lt_of_mem_zipIdx member
    simp only [Bool.and_eq_true, decide_eq_true_eq]
    omega
  rw [allTxs, storedTxs, inRange]

/-- The executed transactions of a chain are those of its blocks. -/
theorem filterMap_allTxs {blocks : List (BlockEvent σ)} {chain : List (ChainBlock host)}
    (keeps : KeepsBlocks blocks chain) :
    (allTxs chain).filterMap (StoredTx.executed host) = chainTxs host blocks := by
  have fromRound : ∀ first, ((chain.zipIdx first).flatMap fun block =>
      block.1.transactions block.2).filterMap (StoredTx.executed host) = chainTxs host blocks := by
    induction keeps with
    | nil => exact fun _ => rfl
    | cons kept _ ih =>
      intro first
      rw [List.zipIdx_cons, List.flatMap_cons, List.filterMap_append, filterMap_transactions,
        ih (first + 1), kept.1, kept.2]
      rfl
  rw [allTxs_eq]
  exact fromRound 0

/-- A result that the client returns is the success of the output it was made from. -/
theorem successOf_of_clientResult {result : ExecuteTxResult} {response : ExecutionResult}
    (returned : clientResult host result.output = .ok response) :
    successOf host result = some response := by
  unfold clientResult at returned
  unfold successOf
  cases decoded : host.outputFromSlice result.output with
  | none => simp [decoded] at returned
  | some output =>
    cases output with
    | error message => simp [decoded] at returned
    | success value =>
      cases converted : host.resultFromValue value with
      | none => simp [decoded, converted] at returned
      | some response' =>
        simp only [decoded, converted, Except.ok.injEq] at returned ⊢
        rw [returned]

/-- What a successful submission returns was answered by the client. -/
theorem answered_of_sendRawTransaction
    {submit : Nat → Bytes → Except SendError ExecutionResult} {raw : Bytes} {hash : H256}
    {result : ExecutionResult}
    (sent : (sendRawTransaction host submit raw).2 = .ok (hash, result)) :
    ∃ decoded attempt, host.rlpDecode raw = .ok decoded ∧ decoded.hash = hash ∧
      submit attempt raw = .ok result := by
  unfold sendRawTransaction at sent
  cases rlp : host.rlpDecode raw with
  | error message => simp [rlp] at sent
  | ok decoded =>
    cases signed : host.recover decoded with
    | error message => simp [rlp, signed] at sent
    | ok sender =>
      simp only [rlp, signed] at sent
      obtain ⟨last, _, _, _, loop⟩ := sendLoop_spec submit raw decoded.hash maxRetries 0
      rw [loop] at sent
      cases answer : submit (0 + last) raw with
      | error error =>
        rw [answer] at sent
        cases sent
      | ok response =>
        rw [answer] at sent
        cases sent
        exact ⟨decoded, _, rfl, rfl, answer⟩

/-- A recorded call that carries a transaction and succeeded was executed with the tag of its
hash. -/
theorem executed_of_carries (cbor : host.CborRoundTrip) {stored : StoredTx}
    (recorded : RecordedCall host stored.call stored.result) {raw : Bytes}
    (carries : Carries host stored.call raw) {decoded : UnverifiedTransaction}
    (rlp : host.rlpDecode raw = .ok decoded) {response : ExecutionResult}
    (success : successOf host stored.result = some response) :
    ∃ txn, decodeTransaction host stored.call = .ok ⟨txn⟩ ∧ txn.transaction = decoded ∧
      ⟨tagEthTxHash, decoded.hash.bytes⟩ ∈ stored.result.tags := by
  cases recorded with
  | failed failure output tags =>
    have noSuccess : successOf host stored.result = none := by
      simp only [successOf, output, serializeError, cbor.output]
    rw [noSuccess] at success
    cases success
  | executed txn other decodes output tags =>
    obtain ⟨input, called, method, args⟩ := carries
    obtain ⟨input', raw', called', _, args', checked⟩ := decodeTransaction_eq_ok_iff.mp decodes
    rw [called] at called'
    cases called'
    rw [args] at args'
    cases args'
    have same := (checkTx_eq_ok_iff.mp checked).1
    rw [rlp] at same
    cases same
    refine ⟨txn, decodes, rfl, ?_⟩
    rw [tags]
    exact List.mem_cons_self

/-- Two stored executions with the same hash tag are of the same transaction. -/
theorem executed_of_tagged (cbor : host.CborRoundTrip) (different : HashesDiffer host)
    {found : StoredTx} (recorded : RecordedCall host found.call found.result)
    {stored : StoredTx} {txn : SignedTransaction}
    (decodes : decodeTransaction host stored.call = .ok ⟨txn⟩)
    (tagged : ⟨tagEthTxHash, txn.transaction.hash.bytes⟩ ∈ found.result.tags) :
    StoredTx.executed host found = some txn := by
  cases recorded with
  | failed failure output tags =>
    rw [tags] at tagged
    cases tagged
  | executed other response otherDecodes output tags =>
    rw [tags] at tagged
    have sameHash := hash_of_mem_txTags tagged
    obtain ⟨_, raw, _, _, _, checked⟩ := decodeTransaction_eq_ok_iff.mp decodes
    obtain ⟨_, otherRaw, _, _, _, otherChecked⟩ := decodeTransaction_eq_ok_iff.mp otherDecodes
    obtain ⟨rlp, _, recovered, _⟩ := checkTx_eq_ok_iff.mp checked
    obtain ⟨otherRlp, _, otherRecovered, _⟩ := checkTx_eq_ok_iff.mp otherChecked
    have same : txn.transaction = other.transaction := different _ _ _ _ rlp otherRlp sameHash
    rw [← same] at otherRecovered
    rw [recovered] at otherRecovered
    have sameTxn : other = txn := by
      cases other
      cases txn
      simp_all
    have success : successOf host found.result = some response := by
      simp only [successOf, output, cbor.output, cbor.result]
    simp only [StoredTx.executed, executedOf, otherDecodes, success, sameTxn]

/-- A receipt has the place of its transaction. -/
theorem place_of_receipt {ethcore : Ethcore} {txn : TransactionSnapshot V}
    {shown : LocalizedReceipt} (returned : receipt host ethcore txn = .ok shown) :
    shown.blockHash = txn.block.hash ∧ shown.blockNumber = txn.block.round ∧
      shown.transactionIndex = txn.index := by
  unfold receipt at returned
  cases output : txn.output with
  | error message => simp [output] at returned
  | success value =>
    cases result : host.resultFromValue value with
    | none => simp [output, result] at returned
    | some response =>
      cases viewed : transaction host txn with
      | error reason => simp [output, result, viewed, Outcome.ofExcept] at returned
      | ok tx =>
        obtain ⟨number, hash, index⟩ := place_of_transaction viewed
        simp only [output, result, viewed, Outcome.ofExcept, Outcome.ok_bind, Outcome.bind_eq_ok,
          Outcome.pure_eq_ok, Outcome.ok.injEq] at returned
        obtain ⟨_, _, rfl⟩ := returned
        exact ⟨hash, number, index⟩

/-- What the gateway shows of an execution. -/
structure ShowsExecution (stored : StoredTx) (hash : H256) (result : ExecutionResult)
    (tx : RpcTransaction) (shown : LocalizedReceipt) : Prop where
  hashes : tx.hash = hash ∧ shown.transactionHash = hash
  txPlace : tx.blockHash = stored.block.hash ∧ tx.blockNumber = stored.block.round ∧
    tx.transactionIndex = stored.index
  receiptPlace : shown.blockHash = stored.block.hash ∧ shown.blockNumber = stored.block.round ∧
    shown.transactionIndex = stored.index
  gas : shown.gasUsed = result.gasUsed ∧ shown.cumulativeGasUsed = result.cumulativeGasUsed
  status : shown.outcome = .statusCode result.statusCode
  logs : shown.logs.map (·.entry) = result.logs ∧ shown.logBloom = result.logBloom

/-- A transaction that was invoked is found as it was executed. Let the chain be what the runtime
made of any inputs, let the results of submissions come from its blocks, and let the node find
transactions by their tags. When a submission returns a hash and a status, the chain has a block
with the call and its execution, and asking for the hash finds the transaction and the receipt of
this execution, at its place, with its status, gas and logs. -/
theorem invoked_transaction_served (cbor : host.CborRoundTrip) (nonces : host.Nonces)
    (different : HashesDiffer host) (snapshot : StoredTx → TransactionSnapshot V)
    (shows : SnapshotsOf host snapshot) (ethcore : Ethcore) (senders : ethcore.KnowsSenders host)
    (genesis : σ) (inputs : List BlockInput) (chain : List (ChainBlock host))
    (keeps : KeepsBlocks (run (blockMachine host) genesis inputs) chain)
    (submit : Nat → Bytes → Except SendError ExecutionResult)
    (answered : AnsweredFrom chain submit) (client : TagClient V)
    (finds : TagQueryExact client chain snapshot) (raw : Bytes) (payload : RpcExecutionPayload)
    (invoked : invoke host submit raw = .ok payload) :
    ethSendRawTransaction host submit raw = .ok payload.transactionHash ∧
    ∃ stored ∈ allTxs chain, ∃ result tx shown, Carries host stored.call raw ∧
      successOf host stored.result = some result ∧
      payload.statusCode = result.statusCode.toNat ∧ payload.output = result.output ∧
      transactionByHash host ethcore client payload.transactionHash = .ok (some tx) ∧
      transactionReceipt host ethcore client payload.transactionHash = .ok (some shown) ∧
      ShowsExecution stored payload.transactionHash result tx shown := by
  unfold invoke at invoked
  cases sent : (sendRawTransaction host submit raw).2 with
  | error error => simp [sent] at invoked
  | ok answer =>
    obtain ⟨hash, result⟩ := answer
    simp only [sent, Except.ok.injEq] at invoked
    subst invoked
    refine ⟨by simp [ethSendRawTransaction, sent], ?_⟩
    obtain ⟨decoded, attempt, rlp, rfl, answer⟩ := answered_of_sendRawTransaction sent
    obtain ⟨stored, member, carries, returned⟩ := answered attempt raw result answer
    have success := successOf_of_clientResult returned
    have recorded := recorded_of_mem_storedTxs member
    obtain ⟨txn, decodes, rfl, tagged⟩ := executed_of_carries cbor recorded carries rlp success
    obtain ⟨found, foundMember, foundTagged, query⟩ := finds _ _ stored member tagged
    -- The node found the same execution, since the transaction was executed once.
    have same : found = stored := by
      have once := (advance_chain cbor nonces genesis inputs).nodup
      rw [← filterMap_allTxs keeps] at once
      refine eq_of_nodup_filterMap once foundMember member
        (executed_of_tagged cbor different (recorded_of_mem_storedTxs foundMember) decodes
          foundTagged) ?_
      simp only [StoredTx.executed, executedOf, decodes, success]
    subst same
    obtain ⟨shown, shownReceipt, hash, cumulative, gas, status, bloom, logs⟩ :=
      receipt_of_success shows senders decodes success
    obtain ⟨_, _, _, _, _, checked⟩ := decodeTransaction_eq_ok_iff.mp decodes
    obtain ⟨_, _, recovered, _⟩ := checkTx_eq_ok_iff.mp checked
    have place := place_of_receipt shownReceipt
    rw [shows.block, shows.index] at place
    refine ⟨found, member, result, ⟨txn.transaction.hash, found.block.hash, found.block.round,
      found.index, txn.sender⟩, shown, carries, success, rfl, rfl, ?_, ?_, ?_⟩
    · simp [transactionByHash, getTxnByHash, query, showTransaction,
        transaction_of_decoded shows decodes, fromLocalized, senders _ _ recovered,
        Outcome.ofExcept, Outcome.mapErr, Outcome.unwrap]
    · simp [transactionReceipt, getTxnByHash, query, shownReceipt, Outcome.mapErr]
    · exact ⟨⟨rfl, hash⟩, ⟨rfl, rfl, rfl⟩, place, ⟨gas, cumulative⟩, status, logs, bloom⟩

/-- A node that looks through the whole chain for a tag. -/
def scanningClient (chain : List (ChainBlock host)) (snapshot : StoredTx → TransactionSnapshot V) :
    TagClient V where
  queryTx key value :=
    .ok (((allTxs chain).find? fun stored => ⟨key, value⟩ ∈ stored.result.tags).map snapshot)

theorem scanningClient_exact (chain : List (ChainBlock host))
    (snapshot : StoredTx → TransactionSnapshot V) :
    TagQueryExact (scanningClient chain snapshot) chain snapshot := by
  intro key value stored member tagged
  have present : ((allTxs chain).find? fun stored => ⟨key, value⟩ ∈ stored.result.tags).isSome :=
    List.find?_isSome.mpr ⟨stored, member, by simpa using tagged⟩
  obtain ⟨found, isFound⟩ := Option.isSome_iff_exists.mp present
  refine ⟨found, List.mem_of_find?_eq_some isFound, by simpa using List.find?_some isFound, ?_⟩
  simp [scanningClient, isFound]

/-- A block of the sample chain, with one executed transaction. -/
def chainBlock : ChainBlock chainHost where
  hash := FixedBytes.filled 32 9
  batch := [[5, 1, 0]]
  results := [⟨chainHost.outputToVec (.success (.result ⟨0, 0, [], [], 1, []⟩)),
    txTags (plainHash 5 1 0) []⟩]
  produced := ⟨⟨none⟩, blockContext 0 ⟨4, 100, FixedBytes.filled 32 3⟩, [], _, ⟨rfl, rfl⟩, rfl⟩

theorem chainHost_rlpDecode {raw : Bytes} {txn : UnverifiedTransaction}
    (decodes : chainHost.rlpDecode raw = .ok txn) :
    ∃ gas gasPrice nonce, txn =
      ⟨gas.toNat, gasPrice.toNat, plainHash gas gasPrice nonce, [nonce]⟩ := by
  simp only [chainHost] at decodes
  split at decodes
  · cases decodes
    exact ⟨_, _, _, rfl⟩
  · cases decodes

theorem chainHost_hashesDiffer : HashesDiffer chainHost := by
  intro first second txn other decodes otherDecodes same
  obtain ⟨gas, gasPrice, nonce, rfl⟩ := chainHost_rlpDecode decodes
  obtain ⟨otherGas, otherPrice, otherNonce, rfl⟩ := chainHost_rlpDecode otherDecodes
  have bytes := congrArg FixedBytes.bytes same
  simp only [plainHash, List.cons_append, List.cons.injEq] at bytes
  obtain ⟨rfl, rfl, rfl, _⟩ := bytes
  rfl

/-- The client knows the result of the transaction of the sample chain. -/
def chainSubmit (_ : Nat) (payload : Bytes) : Except SendError ExecutionResult :=
  if payload = [5, 1, 0] then .ok ⟨0, 0, [], [], 1, []⟩ else .error (.client "timed out")

theorem chainSubmit_answered : AnsweredFrom [chainBlock] chainSubmit := by
  intro attempt payload result returned
  unfold chainSubmit at returned
  split at returned
  · rename_i same
    cases returned
    subst same
    exact ⟨_, List.mem_cons_self, ⟨_, rfl, rfl, rfl⟩, rfl⟩
  · cases returned

/-- The transaction of the sample chain is invoked and found. -/
theorem chain_transaction_found :
    ∃ tx shown, transactionByHash chainHost sampleEthcore
        (scanningClient [chainBlock] sampleSnapshot) (plainHash 5 1 0) = .ok (some tx) ∧
      transactionReceipt chainHost sampleEthcore (scanningClient [chainBlock] sampleSnapshot)
        (plainHash 5 1 0) = .ok (some shown) ∧ shown.blockHash = FixedBytes.filled 32 9 := by
  obtain ⟨_, stored, member, result, tx, shown, _, _, _, _, found, foundReceipt, same⟩ :=
    invoked_transaction_served chainHost_cbor chainNonces chainHost_hashesDiffer sampleSnapshot
      ⟨fun _ => rfl, fun _ => rfl, sampleSnapshot_shows.input, sampleSnapshot_shows.output⟩
      sampleEthcore (fun signed sender => sampleEthcore_knowsSenders signed sender) 0
      [⟨⟨4, 100, FixedBytes.filled 32 3⟩, ⟨none⟩, [[5, 1, 0]]⟩] [chainBlock]
      (.cons ⟨rfl, rfl⟩ .nil) chainSubmit chainSubmit_answered
      (scanningClient [chainBlock] sampleSnapshot) (scanningClient_exact _ _) [5, 1, 0]
      ⟨plainHash 5 1 0, 1, []⟩ rfl
  refine ⟨tx, shown, found, foundReceipt, ?_⟩
  rw [same.receiptPlace.1]
  obtain rfl := List.mem_singleton.mp member
  rfl

end Ethwasi.Gateway
