import Ethwasi.Runtime.Results
import Ethwasi.Runtime.Sample

/-!
# The price of admission

The runtime refuses transactions below a minimum gas price, and the gateway advertises a price by
default. Both are made from one constant, a number of gwei. The gateway converts it to wei and the
runtime does not, so that it compares a price in wei with a number of gwei: it admits a transaction
for a billionth of the advertised price. Every other condition is as documented.
-/

namespace Ethwasi.Gateway

open Ethwasi.Rust Ethwasi.Runtime

variable {σ V : Type}

/-- `gwei_to_wei`; the product of a `U256` saturates. -/
def gweiToWei (gwei : Nat) : Nat := min (gwei * 1000000000) (2 ^ 256 - 1)

/-- The price that the gateway advertises by default. -/
def defaultGasPrice : Nat := gweiToWei minGasPriceGwei

/-- The call is a transaction that can be admitted if its price is high enough: it decodes, asks
for no more gas than a block has, and is signed. -/
def Presents (host : Host σ V) (call : Bytes) (txn : SignedTransaction) : Prop :=
  ∃ input raw, host.callFromSlice call = some input ∧ input.method = methodTx ∧
    host.bytesFromValue input.args = some raw ∧ host.rlpDecode raw = .ok txn.transaction ∧
    txn.transaction.gas ≤ blockGasLimit ∧ host.recover txn.transaction = .ok txn.sender

variable {host : Host σ V} {dispatcher : Dispatcher} {call : Bytes}

/-- What `decode_transaction` admits. -/
theorem decodeTransaction_iff_presents {txn : SignedTransaction} :
    decodeTransaction host call = .ok ⟨txn⟩ ↔
      Presents host call txn ∧ minGasPriceGwei ≤ txn.transaction.gasPrice := by
  rw [decodeTransaction_eq_ok_iff]
  constructor
  · intro decoded
    obtain ⟨input, raw, found, method, args, checked⟩ := decoded
    obtain ⟨rlp, gas, recovered, price⟩ := checkTx_eq_ok_iff.mp checked
    exact ⟨⟨input, raw, found, method, args, rlp, gas, recovered⟩, price⟩
  · intro presented
    obtain ⟨⟨input, raw, found, method, args, rlp, gas, recovered⟩, price⟩ := presented
    exact ⟨input, raw, found, method, args, checkTx_eq_ok_iff.mpr ⟨rlp, gas, recovered, price⟩⟩

/-- The advertised price is the higher one. -/
theorem minGasPriceGwei_le_defaultGasPrice : minGasPriceGwei ≤ defaultGasPrice := by
  decide

/-- A call that was executed was admitted. -/
theorem decoded_of_success (cbor : host.CborRoundTrip) {output : ExecuteTxResult}
    (recorded : RecordedCall host call output) {response : ExecutionResult}
    (success : successOf host output = some response) :
    ∃ txn, decodeTransaction host call = .ok ⟨txn⟩ := by
  cases recorded with
  | executed txn _ decoded _ _ => exact ⟨txn, decoded⟩
  | failed failure failed _ =>
    simp only [successOf, failed, serializeError, cbor.output] at success
    cases success

/-- A call that passed `check_batch` was admitted. -/
theorem decoded_of_checkBatch {ctx : Context σ} {batch : List Bytes} {results : List CheckTxResult}
    (ran : checkBatch host dispatcher ctx batch = .ok results) {index : Nat}
    {checked : CheckTxResult} (called : batch[index]? = some call)
    (answered : results[index]? = some checked) (passed : checked.error.code = 0) :
    ∃ txn, decodeTransaction host call = .ok ⟨txn⟩ := by
  simp only [checkBatch, Outcome.bind_eq_ok, Outcome.pure_eq_ok, Outcome.ok.injEq] at ran
  obtain ⟨_, _, _, _, rfl⟩ := ran
  simp only [decodeCalls, List.getElem?_map, List.getElem?_mapIdx, called, Option.map_some,
    Option.some.injEq] at answered
  subst answered
  cases decoded : decodeCall host (dispatcher.aborted index) call with
  | error failure => simp [decoded, checkResult] at passed
  | ok admitted => exact ⟨admitted.transaction, decodeCall_eq_ok decoded⟩

/-- Admission is the documented policy except for the price. A call is admitted exactly when it
presents a transaction whose price in wei is the minimum number of gwei at least; this is the
advertised price at least exactly when the price is not between the two. What passes a check or
succeeds in a batch has paid the lower price. -/
theorem admission_policy_iff (cbor : host.CborRoundTrip) (dispatcher : Dispatcher) (call : Bytes) :
    (∀ txn, decodeTransaction host call = .ok ⟨txn⟩ ↔
      Presents host call txn ∧ minGasPriceGwei ≤ txn.transaction.gasPrice) ∧
    ((∀ txn, decodeTransaction host call = .ok ⟨txn⟩ ↔
        Presents host call txn ∧ defaultGasPrice ≤ txn.transaction.gasPrice) ↔
      ∀ txn, Presents host call txn →
        ¬(minGasPriceGwei ≤ txn.transaction.gasPrice ∧
          txn.transaction.gasPrice < defaultGasPrice)) ∧
    (∀ ctx batch results, checkBatch host dispatcher ctx batch = .ok results →
      ∀ (index : Nat) checked, batch[index]? = some call → results[index]? = some checked →
        checked.error.code = 0 →
        ∃ txn, Presents host call txn ∧ minGasPriceGwei ≤ txn.transaction.gasPrice) ∧
    ∀ ctx batch result final, Clean ctx →
      executeBatch host dispatcher ctx batch = .ok (result, final) →
      ∀ (index : Nat) output response, batch[index]? = some call →
        result.results[index]? = some output → successOf host output = some response →
        ∃ txn, Presents host call txn ∧ minGasPriceGwei ≤ txn.transaction.gasPrice := by
  have admits := fun txn => @decodeTransaction_iff_presents _ _ host call txn
  refine ⟨admits, ?_, ?_, ?_⟩
  · constructor
    · intro policy txn presents between
      have paid := ((policy txn).mp ((admits txn).mpr ⟨presents, between.1⟩)).2
      exact absurd between.2 (Nat.not_lt.mpr paid)
    · intro outside txn
      rw [admits]
      constructor
      · rintro ⟨presents, price⟩
        have above := fun below => outside txn presents ⟨price, below⟩
        exact ⟨presents, Nat.not_lt.mp above⟩
      · rintro ⟨presents, price⟩
        exact ⟨presents, Nat.le_trans minGasPriceGwei_le_defaultGasPrice price⟩
  · intro ctx batch results ran index checked called answered passed
    obtain ⟨txn, decoded⟩ := decoded_of_checkBatch ran called answered passed
    exact ⟨txn, (admits txn).mp decoded⟩
  · intro ctx batch result final clean ran index output response called answered success
    have recorded := recordedCall_at clean ran called answered
    obtain ⟨txn, decoded⟩ := decoded_of_success cbor recorded success
    exact ⟨txn, (admits txn).mp decoded⟩

/-- A transaction of the sample host with a price of one wei. -/
def oneWeiTransaction : SignedTransaction :=
  ⟨⟨5, 1, FixedBytes.filled 32 7, [0]⟩, FixedBytes.filled 20 7⟩

/-- The result of its execution. -/
def oneWeiResult : ExecuteTxResult :=
  ⟨sampleHost.outputToVec (.success (.result ⟨1, 1, [], [], 1, []⟩)),
    txTags (FixedBytes.filled 32 7) []⟩

/-- An executed call of the sample host has paid the minimum. -/
theorem executed_call_paid :
    ∃ txn, Presents sampleHost [5, 1, 7, 0] txn ∧ 1 ≤ txn.transaction.gasPrice := by
  obtain ⟨_, _, _, executed⟩ := admission_policy_iff sampleHost_cbor ⟨none⟩ [5, 1, 7, 0]
  exact executed sampleContext [[5, 1, 7, 0]] ⟨[oneWeiResult], []⟩ _ ⟨rfl, rfl⟩ rfl 0 oneWeiResult
    ⟨1, 1, [], [], 1, []⟩ rfl rfl (successOf_response sampleHost_cbor _ _)

/-- A transaction is admitted and executed for one wei, while a billion are advertised. -/
theorem one_wei_admitted :
    decodeTransaction sampleHost [5, 1, 7, 0] = .ok ⟨oneWeiTransaction⟩ ∧
      oneWeiTransaction.transaction.gasPrice = 1 ∧ defaultGasPrice = 1000000000 ∧
      ∃ final, executeBatch sampleHost ⟨none⟩ sampleContext [[5, 1, 7, 0]] =
        .ok (⟨[oneWeiResult], []⟩, final) := by
  exact ⟨rfl, rfl, by decide, _, rfl⟩

end Ethwasi.Gateway
