import Ethwasi.Confidential.Crypto
import Ethwasi.Transition.Run

/-!
# The confidential context

One `ConfidentialCtx` serves all transactions of a block. Its methods take `&mut self` and
return a `Result`; a method is modelled as a function that returns its outcome together with
the context after the call, because an error does not undo assignments made before it. The
logger and the I/O context carry no state that the methods read and are left out. The key
manager answers each request on its own, so its answer is an argument of `activate`.
-/

namespace Ethwasi.Confidential

open Ethwasi.Rust Ethwasi.Transition

/-- `vm::Error`, as far as this code builds it. -/
inductive Error where
  /-- `Error::Confidential`. -/
  | confidential (message : String)
  deriving DecidableEq, Repr

/-- `AuthenticatedPayload`. -/
structure AuthenticatedPayload where
  /-- The decrypted call data. -/
  decryptedData : Bytes
  /-- The additional data that was authenticated with it. -/
  additionalData : Bytes
  deriving DecidableEq

/-- A Deoxys-II instance is its key. -/
structure DeoxysII where
  /-- The argument of `DeoxysII::new`. -/
  key : StateKey
  deriving DecidableEq

/-- `ConfidentialCtx`. -/
structure ConfidentialCtx where
  /-- The peer of the encrypted channel, set by `decrypt_session`. -/
  peerPublicKey : Option PublicKey
  /-- The contract encrypted for, with its keys. -/
  contract : Option (Address × KeyPair)
  /-- The next nonce of a message to the peer. -/
  nextNonce : Option Nonce
  /-- A confidential contract was executed at some point of the call hierarchy. -/
  activated : Bool
  /-- Hash of the previous block. -/
  prevBlockHash : H256
  /-- Cipher of the contract's storage. -/
  d2 : Option DeoxysII
  /-- The next nonce of a storage value. -/
  nextStorageNonce : Option Nonce
  deriving DecidableEq

/-- A `&mut self` method: its outcome and the context it leaves. -/
abbrev Method (α : Type) := Outcome Error α × ConfidentialCtx

/-- An answer of the key manager to `get_or_create_keys`. -/
abbrev KeyManager := KeyPairId → Except String KeyPair

namespace ConfidentialCtx

/-- `ConfidentialCtx::new`. -/
def new (prevBlockHash : H256) : ConfidentialCtx :=
  { peerPublicKey := none, contract := none, nextNonce := none, activated := false,
    prevBlockHash, d2 := none, nextStorageNonce := none }

variable (P : Primitives) (mode : OverflowMode)

/-- `H(prev_block_hash || address)[:11] || 0x00000000`. -/
def storageNonceBase (prevBlockHash : H256) (address : Address) : NonceBytes :=
  let hash := P.digestBytes (prevBlockHash.bytes ++ address.bytes)
  joinNonce ⟨hash.bytes.take nonceTagSize, by simp [hash.length_eq, nonceTagSize]⟩
    (FixedBytes.filled 4 0)

/-- `decrypt`. -/
def decrypt (ctx : ConfidentialCtx) (encryptedTxData : Bytes) : Outcome Error Bytes :=
  match ctx.contract with
  | none => .err (.confidential ("The confidential context must have a contract key when " ++
      "opening encrypted transaction data"))
  | some (_, keys) =>
    match Confidential.decrypt P mode (some encryptedTxData) keys.inputKeypair.sk with
    | .ok decryption => .ok decryption.plaintext
    | .err message => .err (.confidential message)
    | .panic cause => .panic cause

/-- `swap_contract`: the address of the old contract and the context with the new one. -/
def swapContract (ctx : ConfidentialCtx) (contract : Option (Address × KeyPair)) :
    Option Address × ConfidentialCtx :=
  (ctx.contract.map (·.1),
    { ctx with
      contract := contract
      d2 := contract.map fun c => ⟨c.2.stateKey⟩
      nextStorageNonce := contract.map fun c =>
        Nonce.new (storageNonceBase P ctx.prevBlockHash c.1) })

/-- `is_encrypting`. -/
def isEncrypting (ctx : ConfidentialCtx) : Bool := ctx.activated && ctx.contract.isSome

/-- `activate`. The flag is set before the key manager is asked. -/
def activate (keyManager : KeyManager) (ctx : ConfidentialCtx) (contract : Option Address) :
    Method (Option Address) :=
  let ctx := { ctx with activated := true }
  match contract with
  | none =>
    let (old, ctx) := swapContract P ctx none
    (.ok old, ctx)
  | some address =>
    match keyManager (P.keccak address.bytes) with
    | .error _ => (.err (.confidential "failed to get or create keys"), ctx)
    | .ok keyPair =>
      let (old, ctx) := swapContract P ctx (some (address, keyPair))
      (.ok old, ctx)

/-- `deactivate`. -/
def deactivate (ctx : ConfidentialCtx) : ConfidentialCtx :=
  { ctx with
    peerPublicKey := none, contract := none, nextNonce := none, activated := false,
    d2 := none, nextStorageNonce := none }

/-- The message that `encrypt_session` collects before it starts. -/
def missingSessionParts (ctx : ConfidentialCtx) : String :=
  (if ctx.peerPublicKey.isNone then "; no peer public key specified" else "") ++
  (if ctx.contract.isNone then
    "; no contract specified from which to extract contract public key" else "") ++
  (if ctx.nextNonce.isNone then "; no next nonce specified" else "")

/-- `encrypt_session`. The payload is sealed before the nonce is incremented. -/
def encryptSession (ctx : ConfidentialCtx) (data : Bytes) : Method Bytes :=
  if missingSessionParts ctx ≠ "" then
    (.err (.confidential ("Cannot encrypt session" ++ missingSessionParts ctx ++ ".")), ctx)
  else
    match ctx.contract, ctx.nextNonce, ctx.peerPublicKey with
    | some (_, keys), some nonce, some peer =>
      match encrypt P data nonce peer keys.inputKeypair.pk keys.inputKeypair.sk [] with
      | .panic cause => (.panic cause, ctx)
      | .err message => (.err (.confidential message), ctx)
      | .ok payload =>
        match nonce.increment P with
        | .error message => (.err (.confidential message), ctx)
        | .ok next => (.ok payload, { ctx with nextNonce := some next })
    | _, _, _ => (.panic .unwrapFailed, ctx)

/-- `decrypt_session`. The peer is replaced before the nonce is incremented. -/
def decryptSession (ctx : ConfidentialCtx) (encryptedPayload : Bytes) :
    Method AuthenticatedPayload :=
  match ctx.contract with
  | none => (.panic .unwrapFailed, ctx)
  | some (_, keys) =>
    match Confidential.decrypt P mode (some encryptedPayload) keys.inputKeypair.sk with
    | .panic cause => (.panic cause, ctx)
    | .err message =>
      (.err (.confidential ("Failed to decrypt session payload (" ++
        toString encryptedPayload.length ++ " bytes): " ++ message)), ctx)
    | .ok decryption =>
      let ctx := { ctx with peerPublicKey := some decryption.peerPublicKey }
      match decryption.nonce.increment P with
      | .error message => (.err (.confidential message), ctx)
      | .ok next =>
        (.ok ⟨decryption.plaintext, decryption.aad⟩, { ctx with nextNonce := some next })

/-- `encrypt_storage_key`. The nonce is zero: the key's identity is not protected. -/
def encryptStorageKey (ctx : ConfidentialCtx) (data : Bytes) : Outcome Error Bytes := do
  let d2 ← Outcome.unwrap ctx.d2
  return P.d2Seal d2.key (FixedBytes.filled nonceSize 0) data []

/-- `encrypt_storage_value`: `ciphertext || tag || nonce`, with the storage key as additional
data. -/
def encryptStorageValue (ctx : ConfidentialCtx) (storageKey data : Bytes) : Method Bytes :=
  match ctx.nextStorageNonce, ctx.d2 with
  | some nonce, some d2 =>
    let ciphertext := P.d2Seal d2.key nonce.current data storageKey ++ nonce.current.bytes
    match nonce.increment P with
    | .error message => (.err (.confidential message), ctx)
    | .ok next => (.ok ciphertext, { ctx with nextStorageNonce := some next })
  | _, _ => (.panic .unwrapFailed, ctx)

/-- `decrypt_storage_value`. -/
def decryptStorageValue (ctx : ConfidentialCtx) (storageKey data : Bytes) :
    Outcome Error Bytes := do
  Outcome.ensure (tagSize + nonceSize ≤ data.length) (.confidential "truncated ciphertext")
  let nonceOffset := data.length - nonceSize
  let nonce ← FixedBytes.copyFromSlice nonceSize (← slice data nonceOffset data.length)
  let ciphertext ← slice data 0 nonceOffset
  let d2 ← Outcome.unwrap ctx.d2
  match P.d2Open d2.key nonce ciphertext storageKey with
  | some value => return value
  | none => .err (.confidential "invalid storage (decryption) key")

end ConfidentialCtx

end Ethwasi.Confidential
