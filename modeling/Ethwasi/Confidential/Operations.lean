import Ethwasi.Confidential.Context

/-!
# The context as a machine

A block drives one context through any sequence of calls. `machine` is that sequence one call
at a time: an input is a call with its arguments, an output is what the call returned, and a
panic stops the machine, since the runtime is built to abort. `StorageEffect` says once what a
call does to the contract and to the cipher and nonce of its storage; the results about storage
are derived from it and do not open the calls again.
-/

namespace Ethwasi.Confidential

open Ethwasi.Rust Ethwasi.Transition

/-- A call of a context method with its arguments. -/
inductive Op where
  /-- `activate`, with the answer the key manager gives to it. -/
  | activate (keyManager : KeyManager) (contract : Option Address)
  /-- `deactivate`. -/
  | deactivate
  /-- `encrypt_session`. -/
  | encryptSession (data : Bytes)
  /-- `decrypt_session`. -/
  | decryptSession (encryptedPayload : Bytes)
  /-- `encrypt_storage_key`. -/
  | encryptStorageKey (data : Bytes)
  /-- `encrypt_storage_value`. -/
  | encryptStorageValue (storageKey data : Bytes)
  /-- `decrypt_storage_value`. -/
  | decryptStorageValue (storageKey data : Bytes)

/-- What a successful call returns. -/
inductive Reply where
  /-- The contract that was active before. -/
  | switched (old : Option Address)
  /-- Nothing. -/
  | done
  /-- A byte string. -/
  | bytes (value : Bytes)
  /-- A decrypted payload. -/
  | payload (value : AuthenticatedPayload)
  deriving DecidableEq

variable (P : Primitives) (mode : OverflowMode)

/-- A returned `Result` as an output; a panic has none. -/
def answer {α : Type} (wrap : α → Reply) (called : Method α) :
    Option (Except Error Reply × ConfidentialCtx) :=
  match called with
  | (.ok value, ctx) => some (.ok (wrap value), ctx)
  | (.err error, ctx) => some (.error error, ctx)
  | (.panic _, _) => none

/-- One call. -/
def machine : Machine ConfidentialCtx Op (Except Error Reply) := fun ctx op =>
  match op with
  | .activate keyManager contract => answer .switched (ctx.activate P keyManager contract)
  | .deactivate => some (.ok .done, ctx.deactivate)
  | .encryptSession data => answer .bytes (ctx.encryptSession P data)
  | .decryptSession payload => answer .payload (ctx.decryptSession P mode payload)
  | .encryptStorageKey data => answer .bytes (ctx.encryptStorageKey P data, ctx)
  | .encryptStorageValue key data => answer .bytes (ctx.encryptStorageValue P key data)
  | .decryptStorageValue key data => answer .bytes (ctx.decryptStorageValue P key data, ctx)

/-- A call of a context together with what it returned. -/
abbrev CtxEvent := Event ConfidentialCtx Op (Except Error Reply)

/-- The call replaced the contract: a successful `activate`, or `deactivate`. -/
def isSwitch (event : CtxEvent) : Bool :=
  match event.input, event.output with
  | .activate _ _, .ok _ => true
  | .deactivate, _ => true
  | _, _ => false

/-- The call encrypted a storage value; the result is the stored bytes. -/
def writtenBytes (event : CtxEvent) : Option Bytes :=
  match event.input, event.output with
  | .encryptStorageValue _ _, .ok (.bytes value) => some value
  | _, _ => none

/-- The fields that belong to the storage of the active contract are the same. -/
structure SameStorage (before after : ConfidentialCtx) : Prop where
  /-- The same contract with the same keys. -/
  contract : after.contract = before.contract
  /-- The same cipher. -/
  d2 : after.d2 = before.d2
  /-- The same next nonce. -/
  nextStorageNonce : after.nextStorageNonce = before.nextStorageNonce
  /-- The same previous block. -/
  prevBlockHash : after.prevBlockHash = before.prevBlockHash

/-- What one call does to the storage fields. -/
inductive StorageEffect (event : CtxEvent) : Prop where
  /-- Nothing. -/
  | kept (noSwitch : isSwitch event = false) (noWrite : writtenBytes event = none)
      (same : SameStorage event.before event.after)
  /-- The contract, its cipher and its storage nonce are gone. -/
  | cleared (switch : isSwitch event = true) (noWrite : writtenBytes event = none)
      (contract : event.after.contract = none) (d2 : event.after.d2 = none)
      (nextStorageNonce : event.after.nextStorageNonce = none)
      (prevBlockHash : event.after.prevBlockHash = event.before.prevBlockHash)
  /-- A contract was activated with the keys that the key manager returned. -/
  | activated (keyManager : KeyManager) (address : Address) (keys : KeyPair)
      (input : event.input = .activate keyManager (some address))
      (returned : keyManager (P.keccak address.bytes) = .ok keys)
      (switch : isSwitch event = true) (noWrite : writtenBytes event = none)
      (contract : event.after.contract = some (address, keys))
      (d2 : event.after.d2 = some ⟨keys.stateKey⟩)
      (nextStorageNonce : event.after.nextStorageNonce =
        some (Nonce.new (ConfidentialCtx.storageNonceBase P event.before.prevBlockHash address)))
      (prevBlockHash : event.after.prevBlockHash = event.before.prevBlockHash)
  /-- A value was sealed and the nonce advanced. -/
  | wrote (storageKey data : Bytes) (nonce next : Nonce) (d2 : DeoxysII)
      (input : event.input = .encryptStorageValue storageKey data)
      (noSwitch : isSwitch event = false)
      (written : writtenBytes event =
        some (P.d2Seal d2.key nonce.current data storageKey ++ nonce.current.bytes))
      (usedNonce : event.before.nextStorageNonce = some nonce)
      (usedCipher : event.before.d2 = some d2)
      (incremented : nonce.increment P = .ok next)
      (after : event.after = { event.before with nextStorageNonce := some next })

variable {P mode}

/-- An answered call returned `Ok` or `Err`, and its output says which. -/
theorem answer_eq_some {α : Type} {wrap : α → Reply} {called : Method α}
    {output : Except Error Reply} {after : ConfidentialCtx}
    (answered : answer wrap called = some (output, after)) :
    after = called.2 ∧ ((∃ value, called.1 = .ok value ∧ output = .ok (wrap value)) ∨
      ∃ error, called.1 = .err error ∧ output = .error error) := by
  obtain ⟨outcome, ctx⟩ := called
  cases outcome with
  | ok value =>
    simp only [answer, Option.some.injEq, Prod.mk.injEq] at answered
    exact ⟨answered.2.symm, .inl ⟨value, rfl, answered.1.symm⟩⟩
  | err error =>
    simp only [answer, Option.some.injEq, Prod.mk.injEq] at answered
    exact ⟨answered.2.symm, .inr ⟨error, rfl, answered.1.symm⟩⟩
  | panic cause => simp [answer] at answered

/-- A call that does not panic is answered. -/
theorem answer_of_returns {α : Type} (wrap : α → Reply) {called : Method α}
    (returns : ∀ cause, called.1 ≠ .panic cause) :
    ∃ output, answer wrap called = some (output, called.2) := by
  obtain ⟨outcome, ctx⟩ := called
  cases outcome with
  | ok value => exact ⟨_, rfl⟩
  | err error => exact ⟨_, rfl⟩
  | panic cause => exact absurd rfl (returns cause)

/-- Nothing changes when nothing happens. -/
theorem SameStorage.refl (ctx : ConfidentialCtx) : SameStorage ctx ctx := ⟨rfl, rfl, rfl, rfl⟩

/-- Sealing a session message leaves the storage fields alone. -/
theorem encryptSession_sameStorage (ctx : ConfidentialCtx) (data : Bytes) :
    SameStorage ctx (ctx.encryptSession P data).2 := by
  unfold ConfidentialCtx.encryptSession
  repeat' split
  all_goals exact ⟨rfl, rfl, rfl, rfl⟩

/-- Opening a session message leaves the storage fields alone. -/
theorem decryptSession_sameStorage (ctx : ConfidentialCtx) (payload : Bytes) :
    SameStorage ctx (ctx.decryptSession P mode payload).2 := by
  unfold ConfidentialCtx.decryptSession
  repeat' split
  all_goals exact ⟨rfl, rfl, rfl, rfl⟩

/-- Activation clears the contract, replaces it, or changes nothing but the flag. -/
theorem activate_effect {event : CtxEvent} {keyManager : KeyManager} {contract : Option Address}
    (input : event.input = .activate keyManager contract)
    (answered : answer .switched (event.before.activate P keyManager contract) =
      some (event.output, event.after)) : StorageEffect P event := by
  obtain ⟨before, op, output, after⟩ := event
  simp only at input answered
  subst input
  obtain ⟨rfl, result⟩ := answer_eq_some answered
  cases contract with
  | none =>
    obtain ⟨value, _, rfl⟩ | ⟨error, failed, _⟩ := result
    · exact .cleared rfl rfl rfl rfl rfl rfl
    · simp [ConfidentialCtx.activate] at failed
  | some address =>
    cases returned : keyManager (P.keccak address.bytes) with
    | error message =>
      simp only [ConfidentialCtx.activate, returned] at result ⊢
      obtain ⟨value, impossible, _⟩ | ⟨error, _, rfl⟩ := result
      · cases impossible
      · exact .kept rfl rfl ⟨rfl, rfl, rfl, rfl⟩
    | ok keys =>
      simp only [ConfidentialCtx.activate, returned] at result ⊢
      obtain ⟨value, _, rfl⟩ | ⟨error, failed, _⟩ := result
      · exact .activated keyManager address keys rfl returned rfl rfl rfl rfl rfl rfl
      · cases failed

/-- A storage write seals under the next nonce and advances it, or changes nothing. -/
theorem encryptStorageValue_effect {event : CtxEvent} {storageKey data : Bytes}
    (input : event.input = .encryptStorageValue storageKey data)
    (answered : answer .bytes (event.before.encryptStorageValue P storageKey data) =
      some (event.output, event.after)) : StorageEffect P event := by
  obtain ⟨before, op, output, after⟩ := event
  simp only at input answered
  subst input
  obtain ⟨rfl, result⟩ := answer_eq_some answered
  cases usedNonce : before.nextStorageNonce with
  | none => simp [ConfidentialCtx.encryptStorageValue, usedNonce] at result
  | some nonce =>
    cases usedCipher : before.d2 with
    | none => simp [ConfidentialCtx.encryptStorageValue, usedNonce, usedCipher] at result
    | some d2 =>
      cases incremented : nonce.increment P with
      | error message =>
        simp only [ConfidentialCtx.encryptStorageValue, usedNonce, usedCipher, incremented]
          at result ⊢
        obtain ⟨value, impossible, _⟩ | ⟨error, _, rfl⟩ := result
        · cases impossible
        · exact .kept rfl rfl (.refl before)
      | ok next =>
        simp only [ConfidentialCtx.encryptStorageValue, usedNonce, usedCipher, incremented]
          at result ⊢
        obtain ⟨value, sealed, rfl⟩ | ⟨error, failed, _⟩ := result
        · cases sealed
          exact .wrote storageKey data nonce next d2 rfl rfl rfl usedNonce usedCipher incremented
            (by simp [usedCipher])
        · cases failed

/-- Every call has one of the effects. -/
theorem storageEffect_of {event : CtxEvent} (step : event.Of (machine P mode)) :
    StorageEffect P event := by
  obtain ⟨before, op, output, after⟩ := event
  cases op with
  | activate keyManager contract => exact activate_effect rfl step
  | deactivate =>
    simp only [Event.Of, machine, Option.some.injEq, Prod.mk.injEq] at step
    obtain ⟨rfl, rfl⟩ := step
    exact .cleared rfl rfl rfl rfl rfl rfl
  | encryptSession data =>
    have answered : answer .bytes (before.encryptSession P data) = some (output, after) := step
    obtain ⟨rfl, _⟩ := answer_eq_some answered
    exact .kept rfl rfl (encryptSession_sameStorage before data)
  | decryptSession payload =>
    have answered : answer .payload (before.decryptSession P mode payload) =
        some (output, after) := step
    obtain ⟨rfl, _⟩ := answer_eq_some answered
    exact .kept rfl rfl (decryptSession_sameStorage before payload)
  | encryptStorageKey data =>
    have answered : answer .bytes (before.encryptStorageKey P data, before) =
        some (output, after) := step
    have same : after = before := (answer_eq_some answered).1
    subst same
    exact .kept rfl rfl (.refl after)
  | encryptStorageValue storageKey data => exact encryptStorageValue_effect rfl step
  | decryptStorageValue storageKey data =>
    have answered : answer .bytes (before.decryptStorageValue P storageKey data, before) =
        some (output, after) := step
    have same : after = before := (answer_eq_some answered).1
    subst same
    exact .kept rfl rfl (.refl after)

end Ethwasi.Confidential
