import Ethwasi.Gateway.Served

/-!
# Views of a block

A client sees the transactions of a block in four ways: as a list of full transactions, as a list
of hashes, as a count, and one by one by their index. All four start from the raw calls of the
block, which may be anything: a call that the dispatcher could not decode is in the block with an
error as its result. The two lists leave out what does not decode and number what is left, the
count leaves out only calls of other methods, and the index counts every raw call, after it has
been cut to 32 bits. So the views agree on a block of transactions that all decode, for indices
below 2^32, and on nothing more.
-/

namespace Ethwasi.Gateway

open Ethwasi.Rust Ethwasi.Runtime

/-- `BlockNumber` of the JSON-RPC interface. -/
inductive BlockNumber where
  | num (round : Nat)
  | earliest
  | latest
  | pending
  deriving DecidableEq

/-- `block_number_to_id`. -/
def blockNumberToId : BlockNumber → BlockId
  | .num round => .number round
  | .earliest => .earliest
  | .latest => .latest
  | .pending => .latest

/-- `ROUND_LATEST` of the node. -/
def roundLatest : Nat := 2 ^ 64 - 1

/-- The answers of the node, with those about the calls of a block. -/
structure BlockClient (V : Type) extends NodeClient V where
  /-- `get_txs`, with the round and the I/O root of a block. -/
  getTxs : EthereumBlock → Except String (List Bytes)
  /-- `get_tx`. -/
  getTx : Nat → Nat → Except String (Option (TransactionSnapshot V))
  /-- `get_tx_by_block_hash`. -/
  getTxByBlockHash : H256 → Nat → Except String (Option (TransactionSnapshot V))

/-- `RpcTransaction`, by the fields that place and identify it. -/
structure RpcTransaction where
  hash : H256
  blockHash : H256
  blockNumber : Nat
  transactionIndex : Nat
  sender : Address
  deriving DecidableEq

/-- `EthRpcBlockTransactions`. -/
inductive BlockTransactions where
  | hashes (hashes : List H256)
  | full (transactions : List RpcTransaction)
  deriving DecidableEq

/-- Why a request for transactions fails. -/
inductive LookupError where
  /-- The node reports an error. -/
  | node (message : String)
  /-- The transaction has no Ethereum view. -/
  | view (error : ViewError)
  deriving DecidableEq

variable {σ V : Type} (host : Host σ V) (ethcore : Ethcore) (client : BlockClient V)

/-- `RpcTransaction::from_localized`. -/
def fromLocalized {ε : Type} (tx : LocalizedTransaction) : Outcome ε RpcTransaction := do
  let sender ← Outcome.unwrap (ethcore.sender tx.signed)
  return ⟨tx.signed.hash, tx.blockHash, tx.blockNumber, tx.transactionIndex, sender⟩

/-- What `raw_transactions` keeps of a raw call. -/
def rawTransaction (txn : Bytes) : Option (TxnCall V) :=
  match host.callFromSlice txn with
  | none => none
  | some txn => if txn.method ≠ methodTx then none else some txn

/-- What `transactions` keeps of a call. -/
def ethTransaction (txn : TxnCall V) : Option UnverifiedTransaction :=
  match host.bytesFromValue txn.args with
  | none => none
  | some raw => (host.rlpDecode raw).toOption

/-- `EthereumBlock::raw_transactions`. -/
def rawTransactions (block : EthereumBlock) : Except String (List (TxnCall V)) :=
  (client.getTxs block).map fun txns => txns.filterMap (rawTransaction host)

/-- `EthereumBlock::transactions`. -/
def transactions (block : EthereumBlock) : Except String (List UnverifiedTransaction) :=
  (rawTransactions host client block).map fun txns => txns.filterMap (ethTransaction host)

/-- The transactions of `EthereumBlock::rich_block`. -/
def richBlock (block : EthereumBlock) (includeTxns : Bool) :
    Outcome LookupError BlockTransactions := do
  let txns ← (Outcome.ofExcept (transactions host client block)).mapErr .node
  if includeTxns then
    let full ← txns.zipIdx.mapM fun txn =>
      fromLocalized ethcore ⟨txn.1, block.round, block.hash, txn.2⟩
    return .full full
  else return .hashes (txns.map (·.hash))

/-- The transaction that the node found, as it is shown to the client. -/
def showTransaction (answer : Except String (Option (TransactionSnapshot V))) :
    Outcome LookupError (Option RpcTransaction) :=
  match answer with
  | .error message => .err (.node message)
  | .ok none => .ok none
  | .ok (some txn) => do
    let tx ← (Outcome.ofExcept (transaction host txn)).mapErr .view
    return some (← fromLocalized ethcore tx)

/-- `get_txn`. -/
def getTxn (id : BlockId) (index : Nat) : Except String (Option (TransactionSnapshot V)) :=
  match id with
  | .hash hash => client.getTxByBlockHash hash index
  | .number round => client.getTx round index
  | .latest => client.getTx roundLatest index
  | .earliest => client.getTx 0 index

/-- `index.value() as u32`. -/
def asU32 (index : Nat) : Nat := index % 2 ^ 32

/-- `transaction_by_block_hash_and_index`. -/
def transactionByBlockHashAndIndex (hash : H256) (index : Nat) :
    Outcome LookupError (Option RpcTransaction) :=
  showTransaction host ethcore (client.getTxByBlockHash hash (asU32 index))

/-- `transaction_by_block_number_and_index`. There are no pending transactions. -/
def transactionByBlockNumberAndIndex (num : BlockNumber) (index : Nat) :
    Outcome LookupError (Option RpcTransaction) :=
  if num = .pending then .ok none
  else showTransaction host ethcore (getTxn client (blockNumberToId num) (asU32 index))

/-- The number of transactions of the block that the node found. -/
def blockTransactionCount (answer : Except String (Option EthereumBlock)) :
    Except String (Option Nat) :=
  match answer with
  | .error message => .error message
  | .ok none => .ok none
  | .ok (some block) => (rawTransactions host client block).map fun txns => some txns.length

/-- `block_transaction_count_by_hash`. -/
def blockTransactionCountByHash (hash : H256) : Except String (Option Nat) :=
  blockTransactionCount host client (client.getBlockByHash hash)

/-- `block_transaction_count_by_number`. There are no pending transactions. -/
def blockTransactionCountByNumber (num : BlockNumber) : Except String (Option Nat) :=
  if num = .pending then .ok (some 0)
  else blockTransactionCount host client (getBlock client.toNodeClient (blockNumberToId num))

/-- What the node answers when asked for one call of a block: nothing past the end, and otherwise
the call at that position, if it is one. -/
inductive Answers (block : EthereumBlock) (raws : List Bytes) (index : Nat)
    (answer : Except String (Option (TransactionSnapshot V))) : Prop where
  | pastEnd (outside : raws[index]? = none) (nothing : answer = .ok none)
  | notACall (raw : Bytes) (found : raws[index]? = some raw)
      (undecodable : host.callFromSlice raw = none) (message : String)
      (error : answer = .error message)
  | call (raw : Bytes) (found : raws[index]? = some raw) (input : TxnCall V)
      (decoded : host.callFromSlice raw = some input) (output : TxnOutput V)
      (snapshot : answer = .ok (some ⟨block, index, input, output⟩))

/-- The count and the lookups of a block, once it is named. -/
structure Views where
  count : Except String (Option Nat)
  lookup : Nat → Outcome LookupError (Option RpcTransaction)

/-- The views of a block named by its hash. -/
def viewsByHash (hash : H256) : Views :=
  ⟨blockTransactionCountByHash host client hash,
    transactionByBlockHashAndIndex host ethcore client hash⟩

/-- The views of a block named by its number. -/
def viewsByNumber (num : BlockNumber) : Views :=
  ⟨blockTransactionCountByNumber host client num,
    transactionByBlockNumberAndIndex host ethcore client num⟩

/-- The views are of a block with the given raw calls. -/
inductive ViewsOf (block : EthereumBlock) (raws : List Bytes) : Views → Prop where
  | byHash (found : client.getBlockByHash block.hash = .ok (some block))
      (answers : ∀ index < 2 ^ 32,
        Answers host block raws index (client.getTxByBlockHash block.hash index)) :
      ViewsOf block raws (viewsByHash host ethcore client block.hash)
  | byNumber (num : BlockNumber) (named : num ≠ .pending)
      (found : getBlock client.toNodeClient (blockNumberToId num) = .ok (some block))
      (answers : ∀ index < 2 ^ 32,
        Answers host block raws index (getTxn client (blockNumberToId num) index)) :
      ViewsOf block raws (viewsByNumber host ethcore client num)

/-- The transaction of a raw call, if the call decodes. -/
def decoded (raw : Bytes) : Option UnverifiedTransaction :=
  (rawTransaction host raw).bind (ethTransaction host)

/-- Every transaction has a sender. -/
def SendersKnown (raws : List Bytes) : Prop :=
  ∀ raw ∈ raws, ∀ signed, decoded host raw = some signed → (ethcore.sender signed).isSome

/-- What two views of a transaction have in common. -/
def RpcTransaction.identity (tx : RpcTransaction) : H256 × Nat := (tx.hash, tx.transactionIndex)

/-- The count is the length of both lists. -/
def CountAgrees (block : EthereumBlock) (views : Views) : Prop :=
  ∃ full hashes, richBlock host ethcore client block true = .ok (.full full) ∧
    richBlock host ethcore client block false = .ok (.hashes hashes) ∧
    views.count = .ok (some full.length) ∧ views.count = .ok (some hashes.length)

/-- The lookup of an index finds the entry of the list at that index, or nothing past its end. -/
def IndexAgrees (block : EthereumBlock) (views : Views) (index : Nat) : Prop :=
  ∃ full found, richBlock host ethcore client block true = .ok (.full full) ∧
    views.lookup index = .ok found ∧
    found.map RpcTransaction.identity = full[index]?.map RpcTransaction.identity

variable {host ethcore client}

theorem fromLocalized_eq_ok_iff {ε : Type} {tx : LocalizedTransaction} {shown : RpcTransaction} :
    (fromLocalized ethcore tx : Outcome ε RpcTransaction) = .ok shown ↔
      ∃ sender, ethcore.sender tx.signed = some sender ∧
        shown = ⟨tx.signed.hash, tx.blockHash, tx.blockNumber, tx.transactionIndex, sender⟩ := by
  unfold fromLocalized
  cases ethcore.sender tx.signed with
  | none => simp [Outcome.unwrap]
  | some sender => simp [Outcome.unwrap, eq_comm]

/-- The gateway decodes a call that the node found as it decodes the calls of a block. -/
theorem transaction_eq_ok_iff {raw : Bytes} {input : TxnCall V}
    (called : host.callFromSlice raw = some input) {block : EthereumBlock} {index : Nat}
    {output : TxnOutput V} {tx : LocalizedTransaction} :
    transaction host ⟨block, index, input, output⟩ = .ok tx ↔
      ∃ signed, decoded host raw = some signed ∧
        tx = ⟨signed, block.round, block.hash, index⟩ := by
  by_cases other : input.method ≠ methodTx
  · simp [transaction, decoded, rawTransaction, called, other]
  · cases args : host.bytesFromValue input.args with
    | none => simp [transaction, decoded, rawTransaction, ethTransaction, called, other, args]
    | some bytes =>
      cases rlp : host.rlpDecode bytes with
      | error message =>
        simp [transaction, decoded, rawTransaction, ethTransaction, called, other, args, rlp,
          Except.toOption]
      | ok signed =>
        simp [transaction, decoded, rawTransaction, ethTransaction, called, other, args, rlp,
          Except.toOption, eq_comm]

/-- A lookup returns nothing past the end of the raw calls, and otherwise the call at the index,
if it decodes. -/
theorem showTransaction_eq_ok_iff {block : EthereumBlock} {raws : List Bytes} {index : Nat}
    {answer : Except String (Option (TransactionSnapshot V))}
    (answers : Answers host block raws index answer) {found : Option RpcTransaction} :
    showTransaction host ethcore answer = .ok found ↔
      (raws[index]? = none ∧ found = none) ∨
      ∃ raw signed sender, raws[index]? = some raw ∧ decoded host raw = some signed ∧
        ethcore.sender signed = some sender ∧
        found = some ⟨signed.hash, block.hash, block.round, index, sender⟩ := by
  cases answers with
  | pastEnd outside nothing => simp [nothing, showTransaction, outside, eq_comm]
  | notACall raw there undecodable message error =>
    simp [error, showTransaction, there, decoded, rawTransaction, undecodable]
  | call raw there input called output snapshot =>
    simp only [snapshot, showTransaction, there, Outcome.bind_eq_ok, Outcome.mapErr_eq_ok,
      Outcome.ofExcept_eq_ok, transaction_eq_ok_iff called, fromLocalized_eq_ok_iff,
      Outcome.pure_eq_ok, Outcome.ok.injEq]
    constructor
    · rintro ⟨_, ⟨signed, same, rfl⟩, _, ⟨sender, known, rfl⟩, rfl⟩
      exact .inr ⟨raw, signed, sender, rfl, same, known, rfl⟩
    · rintro (⟨outside, _⟩ | ⟨other, signed, sender, there', same, known, rfl⟩)
      · cases outside
      · cases there'
        exact ⟨_, ⟨signed, same, rfl⟩, _, ⟨sender, known, rfl⟩, rfl⟩

/-- The transactions of a block are those of its calls that decode. -/
theorem transactions_of_raws {block : EthereumBlock} {raws : List Bytes}
    (stored : client.getTxs block = .ok raws) :
    transactions host client block = .ok (raws.filterMap (decoded host)) := by
  simp only [transactions, rawTransactions, stored, Except.map, List.filterMap_filterMap]
  rfl

/-- The transactions of a block are converted one by one to make its full list. -/
theorem richBlock_true_iff {block : EthereumBlock} {raws : List Bytes}
    (stored : client.getTxs block = .ok raws) {full : List RpcTransaction} :
    richBlock host ethcore client block true = .ok (.full full) ↔
      (raws.filterMap (decoded host)).zipIdx.mapM (fun txn =>
        (fromLocalized ethcore ⟨txn.1, block.round, block.hash, txn.2⟩ :
          Outcome LookupError RpcTransaction)) = .ok full := by
  simp [richBlock, transactions_of_raws stored, Outcome.ofExcept, Outcome.mapErr,
    Outcome.bind_eq_ok]

/-- The full list of a block is there exactly when every transaction has a sender. -/
theorem richBlock_returns_iff {block : EthereumBlock} {raws : List Bytes}
    (stored : client.getTxs block = .ok raws) :
    (∃ full, richBlock host ethcore client block true = .ok (.full full)) ↔
      SendersKnown host ethcore raws := by
  simp only [richBlock_true_iff stored, Outcome.mapM_returns_iff, fromLocalized_eq_ok_iff]
  constructor
  · intro each raw member signed same
    have listed : signed ∈ raws.filterMap (decoded host) :=
      List.mem_filterMap.mpr ⟨raw, member, same⟩
    obtain ⟨index, there⟩ := List.mem_iff_getElem?.mp listed
    obtain ⟨_, sender, found, _⟩ := each (signed, index) (List.mem_zipIdx_iff_getElem?.mpr there)
    exact Option.isSome_iff_exists.mpr ⟨sender, found⟩
  · intro known txn member
    obtain ⟨raw, inRaws, same⟩ := List.mem_filterMap.mp (List.fst_mem_of_mem_zipIdx member)
    obtain ⟨sender, found⟩ := Option.isSome_iff_exists.mp (known raw inRaws txn.1 same)
    exact ⟨_, sender, found, rfl⟩

/-- The full list of a block numbers the transactions that decode. -/
theorem identity_of_richBlock {block : EthereumBlock} {raws : List Bytes}
    (stored : client.getTxs block = .ok raws) {full : List RpcTransaction}
    (returned : richBlock host ethcore client block true = .ok (.full full)) :
    full.map RpcTransaction.identity =
      (raws.filterMap (decoded host)).zipIdx.map fun txn => (txn.1.hash, txn.2) := by
  have converted := Outcome.forall₂_of_mapM ((richBlock_true_iff stored).mp returned)
  rw [← List.forall₂_eq_eq_eq, List.forall₂_map_left_iff, List.forall₂_map_right_iff]
  apply List.Forall₂.flip
  apply converted.imp
  intro txn shown returned
  obtain ⟨sender, _, rfl⟩ := fromLocalized_eq_ok_iff.mp returned
  rfl

theorem richBlock_false {block : EthereumBlock} {raws : List Bytes}
    (stored : client.getTxs block = .ok raws) :
    richBlock host ethcore client block false =
      .ok (.hashes ((raws.filterMap (decoded host)).map (·.hash))) := by
  simp [richBlock, transactions_of_raws stored, Outcome.ofExcept, Outcome.mapErr]

/-- The count of a block is that of its calls of the right method. -/
theorem ViewsOf.count {block : EthereumBlock} {raws : List Bytes} {views : Views}
    (stored : client.getTxs block = .ok raws) (of : ViewsOf host ethcore client block raws views) :
    views.count = .ok (some (raws.filterMap (rawTransaction host)).length) := by
  have counted : blockTransactionCount host client (.ok (some block)) =
      .ok (some (raws.filterMap (rawTransaction host)).length) := by
    simp [blockTransactionCount, rawTransactions, stored, Except.map]
  cases of with
  | byHash found answers =>
    simp only [viewsByHash, blockTransactionCountByHash, found, counted]
  | byNumber num named found answers =>
    simp only [viewsByNumber, blockTransactionCountByNumber, if_neg named, found, counted]

/-- A lookup shows what the node answers for the index cut to 32 bits. -/
theorem ViewsOf.lookup {block : EthereumBlock} {raws : List Bytes} {views : Views}
    (of : ViewsOf host ethcore client block raws views) (index : Nat) :
    ∃ answer, Answers host block raws (index % 2 ^ 32) answer ∧
      views.lookup index = showTransaction host ethcore answer := by
  have cut : index % 2 ^ 32 < 2 ^ 32 := Nat.mod_lt _ (by decide)
  cases of with
  | byHash found answers => exact ⟨_, answers _ cut, rfl⟩
  | byNumber num named found answers => exact ⟨_, answers _ cut, if_neg named⟩

/-- Where everything up to a position is kept, the element there keeps its position. -/
theorem getElem?_filterMap_of_kept {α β : Type} {keep : α → Option β} {values : List α}
    {index : Nat}
    (kept : ∀ (i : Nat) value, i ≤ index → values[i]? = some value → (keep value).isSome) :
    (values.filterMap keep)[index]? = values[index]?.bind keep := by
  induction values generalizing index with
  | nil => rfl
  | cons value values ih =>
    obtain ⟨first, same⟩ := Option.isSome_iff_exists.mp (kept 0 value (Nat.zero_le _) rfl)
    rw [List.filterMap_cons_some same]
    cases index with
    | zero => exact same.symm
    | succ index =>
      exact ih fun i later below there => kept (i + 1) later (Nat.succ_le_succ below) there

/-- The entries of the full list, by position. -/
theorem identity_at_index {block : EthereumBlock} {raws : List Bytes}
    (stored : client.getTxs block = .ok raws) {full : List RpcTransaction}
    (returned : richBlock host ethcore client block true = .ok (.full full)) (index : Nat) :
    full[index]?.map RpcTransaction.identity =
      (raws.filterMap (decoded host))[index]?.map fun signed => (signed.hash, index) := by
  rw [← List.getElem?_map, identity_of_richBlock stored returned, List.getElem?_map,
    List.getElem?_zipIdx, Option.map_map]
  simp [Function.comp_def]

/-- An index agrees exactly when the lookup is past the end of the raw calls, or it is not cut
and the call there decodes to the transaction that the full list has there. -/
theorem indexAgrees_iff {block : EthereumBlock} {raws : List Bytes} {views : Views}
    (stored : client.getTxs block = .ok raws) (of : ViewsOf host ethcore client block raws views)
    (index : Nat) :
    IndexAgrees host ethcore client block views index ↔
      SendersKnown host ethcore raws ∧
        (raws.length ≤ index % 2 ^ 32 ∨
          index < 2 ^ 32 ∧ ∃ raw signed, raws[index]? = some raw ∧
            decoded host raw = some signed ∧
            (raws.filterMap (decoded host))[index]?.map (·.hash) = some signed.hash) := by
  obtain ⟨answer, answers, looked⟩ := of.lookup index
  have cut : index % 2 ^ 32 < 2 ^ 32 := Nat.mod_lt _ (by decide)
  constructor
  · rintro ⟨full, found, returned, shown, same⟩
    refine ⟨(richBlock_returns_iff stored).mp ⟨full, returned⟩, ?_⟩
    rw [identity_at_index stored returned] at same
    rw [looked, showTransaction_eq_ok_iff answers] at shown
    rcases shown with ⟨outside, _⟩ | ⟨raw, signed, sender, there, decodes, _, rfl⟩
    · exact .inl (List.getElem?_eq_none_iff.mp outside)
    · obtain ⟨entry, listed, equal⟩ := Option.map_eq_some_iff.mp same.symm
      obtain ⟨sameHash, sameIndex⟩ := Prod.mk.inj equal
      have uncut : index % 2 ^ 32 = index := sameIndex.symm
      rw [uncut] at there cut
      exact .inr ⟨cut, raw, signed, there, decodes, by rw [listed]; exact congrArg some sameHash⟩
  · rintro ⟨known, place⟩
    obtain ⟨full, returned⟩ := (richBlock_returns_iff stored).mpr known
    have entry := identity_at_index stored returned index
    rcases place with outside | ⟨below, raw, signed, there, decodes, sameHash⟩
    · refine ⟨full, none, returned, ?_, ?_⟩
      · rw [looked, showTransaction_eq_ok_iff answers]
        exact .inl ⟨List.getElem?_eq_none outside, rfl⟩
      · have short := List.length_filterMap_le (decoded host) raws
        have past : (raws.filterMap (decoded host))[index]? = none :=
          List.getElem?_eq_none (by omega)
        rw [entry, past]
        rfl
    · have uncut : index % 2 ^ 32 = index := Nat.mod_eq_of_lt below
      obtain ⟨sender, found⟩ := Option.isSome_iff_exists.mp
        (known raw (List.mem_of_getElem? there) signed decodes)
      refine ⟨full, some ⟨signed.hash, block.hash, block.round, index, sender⟩, returned, ?_, ?_⟩
      · rw [looked, showTransaction_eq_ok_iff answers, uncut]
        exact .inr ⟨raw, signed, sender, there, decodes, found, rfl⟩
      · obtain ⟨listed, there', equal⟩ := Option.map_eq_some_iff.mp sameHash
        rw [entry, there']
        simp [RpcTransaction.identity, equal]

/-- The count agrees exactly when every call of the right method decodes. -/
theorem countAgrees_iff {block : EthereumBlock} {raws : List Bytes} {views : Views}
    (stored : client.getTxs block = .ok raws) (of : ViewsOf host ethcore client block raws views) :
    CountAgrees host ethcore client block views ↔
      SendersKnown host ethcore raws ∧
        ∀ call ∈ raws.filterMap (rawTransaction host), (ethTransaction host call).isSome := by
  have split : raws.filterMap (decoded host) =
      (raws.filterMap (rawTransaction host)).filterMap (ethTransaction host) :=
    List.filterMap_filterMap.symm
  rw [← List.filterMap_length_eq_length, ← split]
  constructor
  · rintro ⟨full, hashes, returned, listed, _, counted⟩
    rw [richBlock_false stored] at listed
    cases listed
    rw [of.count stored, List.length_map] at counted
    exact ⟨(richBlock_returns_iff stored).mp ⟨full, returned⟩,
      (Option.some.inj (Except.ok.inj counted)).symm⟩
  · rintro ⟨known, same⟩
    obtain ⟨full, returned⟩ := (richBlock_returns_iff stored).mpr known
    have length := congrArg List.length (identity_of_richBlock stored returned)
    simp only [List.length_map, List.length_zipIdx] at length
    refine ⟨full, _, returned, richBlock_false stored, ?_, ?_⟩
    · rw [of.count stored, length, same]
    · rw [of.count stored, List.length_map, same]

/-- The indices of 32 bits agree exactly when every call that they reach decodes. -/
theorem shortIndices_agree_iff {block : EthereumBlock} {raws : List Bytes} {views : Views}
    (stored : client.getTxs block = .ok raws) (of : ViewsOf host ethcore client block raws views) :
    (∀ index < 2 ^ 32, IndexAgrees host ethcore client block views index) ↔
      SendersKnown host ethcore raws ∧
        ∀ (index : Nat) raw, index < 2 ^ 32 → raws[index]? = some raw →
          (decoded host raw).isSome := by
  simp only [indexAgrees_iff stored of]
  constructor
  · intro agree
    refine ⟨(agree 0 (by decide)).1, ?_⟩
    intro index raw below there
    rcases (agree index below).2 with outside | ⟨_, other, signed, there', decodes, _⟩
    · rw [Nat.mod_eq_of_lt below] at outside
      rw [List.getElem?_eq_none outside] at there
      cases there
    · rw [there] at there'
      cases there'
      exact Option.isSome_iff_exists.mpr ⟨signed, decodes⟩
  · rintro ⟨known, decodes⟩ index below
    refine ⟨known, ?_⟩
    cases there : raws[index]? with
    | none =>
      rw [Nat.mod_eq_of_lt below]
      exact .inl (List.getElem?_eq_none_iff.mp there)
    | some raw =>
      obtain ⟨signed, same⟩ := Option.isSome_iff_exists.mp (decodes index raw below there)
      have listed := getElem?_filterMap_of_kept fun i value upTo found =>
        decodes i value (Nat.lt_of_le_of_lt upTo below) found
      refine .inr ⟨below, raw, signed, rfl, same, ?_⟩
      rw [listed, there, Option.bind_some, same]
      rfl

/-- A longer index agrees exactly when what is left of it is past the end of the raw calls. -/
theorem longIndex_agrees_iff {block : EthereumBlock} {raws : List Bytes} {views : Views}
    (stored : client.getTxs block = .ok raws) (of : ViewsOf host ethcore client block raws views)
    {index : Nat} (long : 2 ^ 32 ≤ index) :
    IndexAgrees host ethcore client block views index ↔
      SendersKnown host ethcore raws ∧ raws.length ≤ index % 2 ^ 32 := by
  have cut : ¬index < 2 ^ 32 := Nat.not_lt.mpr long
  rw [indexAgrees_iff stored of]
  simp only [cut, false_and, or_false]

/-- When the views of a block agree. The count is the length of the lists exactly when every call
of the right method decodes. The lookups of 32-bit indices agree with the full list exactly when
every call that they reach decodes. A longer index is cut to 32 bits, and agrees exactly when what
is left of it is past the end of the raw calls. So all views agree on all 64-bit indices only for a
block without calls. -/
theorem block_views_agree_iff (host : Host σ V) (ethcore : Ethcore) (client : BlockClient V)
    (block : EthereumBlock) (raws : List Bytes) (stored : client.getTxs block = .ok raws)
    (views : Views) (of : ViewsOf host ethcore client block raws views) :
    (CountAgrees host ethcore client block views ↔
      SendersKnown host ethcore raws ∧
        ∀ call ∈ raws.filterMap (rawTransaction host), (ethTransaction host call).isSome) ∧
    ((∀ index < 2 ^ 32, IndexAgrees host ethcore client block views index) ↔
      SendersKnown host ethcore raws ∧
        ∀ (index : Nat) raw, index < 2 ^ 32 → raws[index]? = some raw →
          (decoded host raw).isSome) ∧
    (∀ index, 2 ^ 32 ≤ index →
      (IndexAgrees host ethcore client block views index ↔
        SendersKnown host ethcore raws ∧ raws.length ≤ index % 2 ^ 32)) ∧
    ((CountAgrees host ethcore client block views ∧
        ∀ index < 2 ^ 64, IndexAgrees host ethcore client block views index) ↔ raws = []) := by
  refine ⟨countAgrees_iff stored of, shortIndices_agree_iff stored of,
    fun index long => longIndex_agrees_iff stored of long, ?_⟩
  constructor
  -- The index 2^32 is cut to zero and finds the first call of any block that has one.
  · rintro ⟨_, agree⟩
    have outside := ((longIndex_agrees_iff stored of le_rfl).mp (agree (2 ^ 32) (by decide))).2
    exact List.eq_nil_of_length_eq_zero (Nat.le_zero.mp outside)
  · rintro rfl
    have known : SendersKnown host ethcore [] := fun raw member => by cases member
    refine ⟨(countAgrees_iff stored of).mpr ⟨known, by simp⟩, ?_⟩
    intro index _
    exact (indexAgrees_iff stored of index).mpr ⟨known, .inl (Nat.zero_le _)⟩

/-- A block of the sample host. -/
def sampleHeader : EthereumBlock := ⟨0, FixedBytes.filled 32 9⟩

/-- What a node of the sample host answers for one call of a block. -/
def sampleAnswer (raws : List Bytes) (index : Nat) :
    Except String (Option (TransactionSnapshot SampleValue)) :=
  match raws[index]? with
  | none => .ok none
  | some raw =>
    match sampleHost.callFromSlice raw with
    | none => .error "malformed call"
    | some input => .ok (some ⟨sampleHeader, index, input, .error "refused"⟩)

/-- A node that stores one block with the given calls. -/
def sampleBlockClient (raws : List Bytes) : BlockClient SampleValue where
  toNodeClient := sampleClient
  getTxs _ := .ok raws
  getTx _ := sampleAnswer raws
  getTxByBlockHash _ := sampleAnswer raws

theorem sampleAnswer_answers (raws : List Bytes) (index : Nat) :
    Answers sampleHost sampleHeader raws index (sampleAnswer raws index) := by
  cases there : raws[index]? with
  | none => exact .pastEnd there (by simp [sampleAnswer, there])
  | some raw =>
    cases called : sampleHost.callFromSlice raw with
    | none => exact .notACall raw there called _ (by simp [sampleAnswer, there, called]; rfl)
    | some input =>
      exact .call raw there input called _ (by simp [sampleAnswer, there, called]; rfl)

/-- The count and the lookups of the sample block. -/
def sampleViews (raws : List Bytes) : Views :=
  viewsByNumber sampleHost sampleEthcore (sampleBlockClient raws) (.num 0)

theorem sampleViews_of (raws : List Bytes) :
    ViewsOf sampleHost sampleEthcore (sampleBlockClient raws) sampleHeader raws
      (sampleViews raws) :=
  .byNumber (.num 0) (by decide) rfl fun index _ => sampleAnswer_answers raws index

/-- Two transactions. -/
def goodCalls : List Bytes := [[5, 1, 7, 0], [5, 1, 9, 1]]

/-- On a block of two transactions the count agrees, and so does every index of 32 bits. -/
theorem sample_views_agree :
    CountAgrees sampleHost sampleEthcore (sampleBlockClient goodCalls) sampleHeader
        (sampleViews goodCalls) ∧
      ∀ index < 2 ^ 32,
        IndexAgrees sampleHost sampleEthcore (sampleBlockClient goodCalls) sampleHeader
          (sampleViews goodCalls) index := by
  obtain ⟨count, short, _⟩ := block_views_agree_iff sampleHost sampleEthcore
    (sampleBlockClient goodCalls) sampleHeader goodCalls rfl (sampleViews goodCalls)
    (sampleViews_of goodCalls)
  have known : SendersKnown sampleHost sampleEthcore goodCalls := fun _ _ _ _ => rfl
  have decodes : ∀ raw ∈ goodCalls, (decoded sampleHost raw).isSome := by decide
  refine ⟨count.mpr ⟨known, by decide⟩, short.mpr ⟨known, ?_⟩⟩
  intro index raw _ there
  exact decodes raw (List.mem_of_getElem? there)

/-- A call that is no transaction, and a transaction. -/
def badThenGood : List Bytes := [[9], [5, 1, 7, 0]]

/-- The transaction of the bad block, at an index. -/
def entryAt (index : Nat) : RpcTransaction :=
  ⟨FixedBytes.filled 32 7, sampleHeader.hash, 0, index, FixedBytes.filled 20 7⟩

/-- A call that is no transaction is counted but not listed, its lookup fails, and the lookup of
the call after it finds a transaction past the end of the lists, at its index and at that index
plus 2^32. -/
theorem views_differ_after_bad_call :
    ViewsOf sampleHost sampleEthcore (sampleBlockClient badThenGood) sampleHeader badThenGood
        (sampleViews badThenGood) ∧
      richBlock sampleHost sampleEthcore (sampleBlockClient badThenGood) sampleHeader true =
        .ok (.full [entryAt 0]) ∧
      richBlock sampleHost sampleEthcore (sampleBlockClient badThenGood) sampleHeader false =
        .ok (.hashes [FixedBytes.filled 32 7]) ∧
      (sampleViews badThenGood).count = .ok (some 2) ∧
      (sampleViews badThenGood).lookup 0 = .err (.view (.rlp "too few bytes")) ∧
      (sampleViews badThenGood).lookup 1 = .ok (some (entryAt 1)) ∧
      (sampleViews badThenGood).lookup (2 ^ 32 + 1) = .ok (some (entryAt 1)) :=
  ⟨sampleViews_of badThenGood, rfl, rfl, rfl, rfl, rfl, rfl⟩

end Ethwasi.Gateway
