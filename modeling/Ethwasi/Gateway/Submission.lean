import Ethwasi.Runtime.Sample
import Ethwasi.Runtime.Dispatcher

/-!
# Submitting a transaction

The gateway submits a raw transaction and submits it again, up to five times, when it was refused
for lack of block gas. It recognises that refusal by the type of the error. The runtime is
another process: it sends the text of an error, and the client makes an error of its own type
from the text. The loop is right for errors that keep their type, but an error that arrives from
the runtime has lost it, so the gateway never submits a transaction twice.
-/

namespace Ethwasi.Gateway

open Ethwasi.Rust Ethwasi.Runtime

/-- An error of the gateway, by its dynamic type. -/
inductive SendError where
  | transaction (error : TransactionError)
  /-- The error type of the client, which carries a text. -/
  | client (message : String)
  /-- An error of `rlp` or of the signature check, by its text. -/
  | invalid (message : String)
  deriving DecidableEq

/-- `err.downcast_ref::<TransactionError>()`. -/
def SendError.downcast : SendError → Option TransactionError
  | .transaction error => some error
  | _ => none

/-- `MAX_RETRIES`. -/
def maxRetries : Nat := 5

/-- The loop of `send_raw_transaction`: the payloads it submits and what it returns. `submit`
gives the answer of the client to the n-th submission. -/
def sendLoop (submit : Nat → Bytes → Except SendError ExecutionResult) (payload : Bytes)
    (hash : H256) : Nat → Nat → List Bytes × Except SendError (H256 × ExecutionResult)
  | retries, attempt =>
    match submit attempt payload with
    | .ok result => ([payload], .ok (hash, result))
    | .error error =>
      match error.downcast, retries with
      | some .blockGasLimitReached, retries + 1 =>
        let (submitted, result) := sendLoop submit payload hash retries (attempt + 1)
        (payload :: submitted, result)
      | _, _ => ([payload], .error error)

variable {σ V : Type} (host : Host σ V)

/-- `send_raw_transaction`. -/
def sendRawTransaction (submit : Nat → Bytes → Except SendError ExecutionResult) (raw : Bytes) :
    List Bytes × Except SendError (H256 × ExecutionResult) :=
  match host.rlpDecode raw with
  | .error message => ([], .error (.invalid message))
  | .ok decoded =>
    match host.recover decoded with
    | .error message => ([], .error (.invalid message))
    | .ok _ => sendLoop submit raw decoded.hash maxRetries 0

/-- The output that the dispatcher returns for a result, from `encode_response` or
`serialize_error`. -/
def dispatcherOutput : Except Failure ExecutionResult → Bytes
  | .ok result => host.outputToVec (.success (host.resultToValue result))
  | .error failure => serializeError host (.failure failure)

/-- What the client makes of an output. -/
def clientResult (output : Bytes) : Except SendError ExecutionResult :=
  match host.outputFromSlice output with
  | none => .error (.client "malformed output")
  | some (.error message) => .error (.client message)
  | some (.success value) =>
    match host.resultFromValue value with
    | none => .error (.client "malformed result")
    | some result => .ok result

/-- The client in front of a runtime that produces the given results one after the other. -/
def runtimeClient (results : Nat → Except Failure ExecutionResult) (attempt : Nat) (_ : Bytes) :
    Except SendError ExecutionResult :=
  clientResult host (dispatcherOutput host (results attempt))

/-- The answer is a refusal for lack of block gas, by its type. -/
def Retryable (answer : Except SendError ExecutionResult) : Prop :=
  ∃ error, answer = .error error ∧ error.downcast = some .blockGasLimitReached

/-- The dispatcher refused a submission for lack of block gas. -/
def BlockFull (result : Except Failure ExecutionResult) : Prop :=
  result = .error (.transaction .blockGasLimitReached)

/-- What the submitter of a transaction is told about a result of the dispatcher. -/
def reported (hash : H256) : Except Failure ExecutionResult →
    Except SendError (H256 × ExecutionResult)
  | .ok result => .ok (hash, result)
  | .error failure => .error (.client failure.display)

/-- The transaction is submitted until the first result that is no refusal for lack of block gas,
six times at most, and the last result is returned. -/
def RetriedToTheEnd (results : Nat → Except Failure ExecutionResult) (raw : Bytes) (hash : H256)
    (sent : List Bytes × Except SendError (H256 × ExecutionResult)) : Prop :=
  ∃ last ≤ maxRetries, (∀ earlier < last, BlockFull (results earlier)) ∧
    (last = maxRetries ∨ ¬BlockFull (results last)) ∧
    sent = (List.replicate (last + 1) raw, reported hash (results last))

section Loop

variable {submit : Nat → Bytes → Except SendError ExecutionResult} {payload : Bytes}
  {retries attempt : Nat}

theorem sendLoop_of_retryable (hash : H256) (retryable : Retryable (submit attempt payload)) :
    sendLoop submit payload hash (retries + 1) attempt =
      (payload :: (sendLoop submit payload hash retries (attempt + 1)).1,
        (sendLoop submit payload hash retries (attempt + 1)).2) := by
  obtain ⟨error, answer, full⟩ := retryable
  rw [sendLoop, answer]
  simp only [full]

theorem sendLoop_of_final (hash : H256)
    (final : retries = 0 ∨ ¬Retryable (submit attempt payload)) :
    sendLoop submit payload hash retries attempt =
      ([payload], (submit attempt payload).map fun result => (hash, result)) := by
  rw [sendLoop]
  cases answer : submit attempt payload with
  | ok result => rfl
  | error error =>
    dsimp only [Except.map]
    cases typed : error.downcast with
    | none => rfl
    | some kind =>
      cases kind with
      | blockGasLimitReached =>
        rcases final with rfl | notRetryable
        · rfl
        · exact absurd ⟨error, answer, typed⟩ notRetryable
      | _ => rfl

/-- The loop submits until the first answer that it does not retry, or to its limit, and returns
that answer. -/
theorem sendLoop_spec (submit : Nat → Bytes → Except SendError ExecutionResult) (payload : Bytes)
    (hash : H256) (retries attempt : Nat) :
    ∃ last ≤ retries, (∀ earlier < last, Retryable (submit (attempt + earlier) payload)) ∧
      (last = retries ∨ ¬Retryable (submit (attempt + last) payload)) ∧
      sendLoop submit payload hash retries attempt =
        (List.replicate (last + 1) payload,
          (submit (attempt + last) payload).map fun result => (hash, result)) := by
  induction retries generalizing attempt with
  | zero =>
    exact ⟨0, Nat.le_refl _, fun _ below => absurd below (Nat.not_lt_zero _), .inl rfl,
      sendLoop_of_final hash (.inl rfl)⟩
  | succ retries ih =>
    by_cases retryable : Retryable (submit attempt payload)
    · obtain ⟨last, bound, before, stopped, sent⟩ := ih (attempt + 1)
      have shifted (index : Nat) : attempt + (index + 1) = attempt + 1 + index := by omega
      refine ⟨last + 1, Nat.succ_le_succ bound, ?_, ?_, ?_⟩
      · intro earlier below
        cases earlier with
        | zero => exact retryable
        | succ earlier =>
          rw [shifted]
          exact before earlier (Nat.lt_of_succ_lt_succ below)
      · rw [shifted]
        exact stopped.imp (congrArg (· + 1)) id
      · rw [sendLoop_of_retryable hash retryable, sent, shifted last]
        rfl
    · exact ⟨0, Nat.zero_le _, fun _ below => absurd below (Nat.not_lt_zero _), .inr retryable,
        sendLoop_of_final hash (.inr retryable)⟩

end Loop

variable {host}

/-- An error of the runtime arrives as a text. -/
theorem runtimeClient_eq (cbor : host.CborRoundTrip)
    (results : Nat → Except Failure ExecutionResult) (attempt : Nat) (payload : Bytes) :
    runtimeClient host results attempt payload =
      match results attempt with
      | .ok result => .ok result
      | .error failure => .error (.client failure.display) := by
  cases result : results attempt with
  | ok value =>
    simp only [runtimeClient, clientResult, dispatcherOutput, result, cbor.output, cbor.result]
  | error failure =>
    simp only [runtimeClient, clientResult, dispatcherOutput, serializeError, result, cbor.output]

/-- No answer of the runtime is retried. -/
theorem not_retryable_of_runtime (cbor : host.CborRoundTrip)
    (results : Nat → Except Failure ExecutionResult) (attempt : Nat) (payload : Bytes) :
    ¬Retryable (runtimeClient host results attempt payload) := by
  rintro ⟨error, answer, full⟩
  rw [runtimeClient_eq cbor] at answer
  cases result : results attempt with
  | ok value =>
    rw [result] at answer
    cases answer
  | error failure =>
    rw [result] at answer
    cases answer
    cases full

/-- A valid transaction is submitted once, and its first result is returned. -/
theorem sendRawTransaction_of_valid (cbor : host.CborRoundTrip)
    (results : Nat → Except Failure ExecutionResult) {raw : Bytes}
    {decoded : UnverifiedTransaction} {sender : Address} (rlp : host.rlpDecode raw = .ok decoded)
    (signed : host.recover decoded = .ok sender) :
    sendRawTransaction host (runtimeClient host results) raw =
      ([raw], reported decoded.hash (results 0)) := by
  obtain ⟨last, _, before, _, sent⟩ := sendLoop_spec (runtimeClient host results) raw
    decoded.hash maxRetries 0
  have once : last = 0 := by
    by_contra more
    exact not_retryable_of_runtime cbor results _ raw (before 0 (Nat.pos_of_ne_zero more))
  subst once
  simp only [sendRawTransaction, rlp, signed, sent, Nat.zero_add, runtimeClient_eq cbor]
  cases results 0 with
  | ok result => rfl
  | error failure => rfl

/-- One submission is not enough when it is refused for lack of block gas. -/
theorem not_retried_of_single {results : Nat → Except Failure ExecutionResult} {raw : Bytes}
    {hash : H256} {answer : Except SendError (H256 × ExecutionResult)}
    (full : BlockFull (results 0)) : ¬RetriedToTheEnd results raw hash ([raw], answer) := by
  rintro ⟨last, _, _, stopped, once⟩
  have lengths := congrArg (fun sent => sent.1.length) once
  simp only [List.length_cons, List.length_nil, List.length_replicate] at lengths
  have first : last = 0 := by omega
  subst first
  rcases stopped with limit | notFull
  · cases limit
  · exact notFull full

/-- A valid transaction is submitted until it fits into a block exactly when its first submission
is not refused for lack of block gas. -/
theorem retried_to_the_end_iff (cbor : host.CborRoundTrip)
    (results : Nat → Except Failure ExecutionResult) (raw : Bytes)
    (decoded : UnverifiedTransaction) (sender : Address)
    (rlp : host.rlpDecode raw = .ok decoded) (signed : host.recover decoded = .ok sender) :
    RetriedToTheEnd results raw decoded.hash
        (sendRawTransaction host (runtimeClient host results) raw) ↔
      ¬BlockFull (results 0) := by
  rw [sendRawTransaction_of_valid cbor results rlp signed]
  constructor
  · intro retried full
    exact not_retried_of_single full retried
  · intro notFull
    exact ⟨0, Nat.zero_le _, fun _ below => absurd below (Nat.not_lt_zero _), .inr notFull, rfl⟩

/-- The block has room at every submission. -/
def roomAtOnce (_ : Nat) : Except Failure ExecutionResult :=
  .ok ⟨1, 1, [], [], 1, []⟩

/-- A transaction that is executed at once is reported as executed. -/
theorem executed_at_once :
    RetriedToTheEnd roomAtOnce [5, 1, 7, 0] (FixedBytes.filled 32 7)
      (sendRawTransaction sampleHost (runtimeClient sampleHost roomAtOnce) [5, 1, 7, 0]) :=
  (retried_to_the_end_iff sampleHost_cbor roomAtOnce [5, 1, 7, 0]
    ⟨5, 1, FixedBytes.filled 32 7, [0]⟩ _ rfl rfl).mpr nofun

/-- The block is full at the first submission and has room at the second. -/
def roomLater : Nat → Except Failure ExecutionResult
  | 0 => .error (.transaction .blockGasLimitReached)
  | _ + 1 => .ok ⟨1, 1, [], [], 1, []⟩

/-- A transaction that would fit into the next block is submitted once and reported as failed. -/
theorem refused_transaction_not_retried :
    sendRawTransaction sampleHost (runtimeClient sampleHost roomLater) [5, 1, 7, 0] =
        ([[5, 1, 7, 0]], .error (.client "block gas limit reached")) ∧
      ¬RetriedToTheEnd roomLater [5, 1, 7, 0] (FixedBytes.filled 32 7)
        (sendRawTransaction sampleHost (runtimeClient sampleHost roomLater) [5, 1, 7, 0]) := by
  have decodes : sampleHost.rlpDecode [5, 1, 7, 0] =
      .ok ⟨5, 1, FixedBytes.filled 32 7, [0]⟩ := rfl
  have sent := sendRawTransaction_of_valid sampleHost_cbor roomLater decodes rfl
  refine ⟨sent, ?_⟩
  rw [sent]
  exact not_retried_of_single rfl

end Ethwasi.Gateway
