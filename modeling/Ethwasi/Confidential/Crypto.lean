import Ethwasi.Confidential.Primitives

/-!
# The confidential wire format

The framing around the MRAE box: `encrypt`, `decrypt` and the two functions that pack and
split a payload,

  PUBLIC_KEY || CIPHER_LEN || AAD_LEN || CIPHER || AAD || NONCE.

The splitter adds the two untrusted 64-bit lengths to its constants before it compares the
sum with the length of the payload. The build decides what happens when that sum leaves the
machine word, so the splitter takes the build's overflow mode as an argument.
-/

namespace Ethwasi.Confidential

open Ethwasi.Rust

/-- `CIPHER_LEN_SIZE`. -/
def cipherLenSize : Nat := 8

/-- `AAD_LEN_SIZE`. -/
def aadLenSize : Nat := 8

/-- `TryFrom<u64> for usize` on a 64-bit target. -/
def usizeTryFrom (word : Nat) : Outcome String Nat :=
  if word < 2 ^ 64 then .ok word else .err "out of range integral type conversion attempted"

/-- The components that `split_encrypted_payload` returns, in its order. -/
structure SplitPayload where
  /-- Public key of the sender. -/
  peerPublicKey : PublicKey
  /-- The CIPHER_LEN field. -/
  cipherLen : Nat
  /-- The AAD_LEN field. -/
  aadLen : Nat
  /-- The sealed message. -/
  cipher : Bytes
  /-- The additional data. -/
  aad : Bytes
  /-- The nonce, created from the last 15 bytes. -/
  nonce : Nonce
  deriving DecidableEq

/-- `encode_encryption`. -/
def encodeEncryption (ciphertext : Bytes) (nonce : Nonce) (publicKey : PublicKey)
    (aad : Bytes) : Bytes :=
  publicKey.bytes ++ toLeBytes 8 ciphertext.length ++ toLeBytes 8 aad.length ++ ciphertext ++
    aad ++ nonce.current.bytes

/-- `split_encrypted_payload`. -/
def splitEncryptedPayload (mode : OverflowMode) (data : Bytes) : Outcome String SplitPayload := do
  Outcome.ensure (publicKeyLen + nonceSize + cipherLenSize + aadLenSize ≤ data.length)
    "invalid nonce or public key"
  let peerPublicKey ← FixedBytes.copyFromSlice 32 (← slice data 0 publicKeyLen)
  let cipherLenStart := publicKeyLen
  let cipherLenEnd ← usizeAdd mode cipherLenStart cipherLenSize
  let cipherArray ← FixedBytes.copyFromSlice 8 (← slice data cipherLenStart cipherLenEnd)
  let cipherLen ← usizeTryFrom (fromLeBytes cipherArray.bytes)
  let aadLenStart := cipherLenEnd
  let aadLenEnd ← usizeAdd mode aadLenStart aadLenSize
  let aadArray ← FixedBytes.copyFromSlice 8 (← slice data aadLenStart aadLenEnd)
  let aadLen ← usizeTryFrom (fromLeBytes aadArray.bytes)
  let expectedDataLength ← usizeAdd mode
    (← usizeAdd mode
      (← usizeAdd mode
        (← usizeAdd mode (← usizeAdd mode publicKeyLen cipherLenSize) aadLenSize) cipherLen)
      aadLen)
    nonceSize
  Outcome.ensure (data.length = expectedDataLength) "invalid size for ciphertext"
  let cipherStart := aadLenEnd
  let cipherEnd ← usizeAdd mode cipherStart cipherLen
  let cipher ← slice data cipherStart cipherEnd
  let aadStart := cipherEnd
  let aadEnd ← usizeAdd mode aadStart aadLen
  let aad ← slice data aadStart aadEnd
  let nonceStart := aadEnd
  let nonceEnd ← usizeAdd mode nonceStart nonceSize
  let nonceInner ← FixedBytes.copyFromSlice nonceSize (← slice data nonceStart nonceEnd)
  return ⟨peerPublicKey, cipherLen, aadLen, cipher, aad, Nonce.new nonceInner⟩

/-- `Decryption`. -/
structure Decryption where
  /-- The opened message. -/
  plaintext : Bytes
  /-- The nonce it was sealed under. -/
  nonce : Nonce
  /-- The sender. -/
  peerPublicKey : PublicKey
  /-- The additional data. -/
  aad : Bytes
  deriving DecidableEq

variable (P : Primitives)

/-- `crypto::encrypt`. -/
def encrypt (plaintext : Bytes) (nonce : Nonce) (peerPublicKey publicKey : PublicKey)
    (secretKey : PrivateKey) (aad : Bytes) : Outcome String Bytes := do
  let ciphertext ← Outcome.ofExcept
    (P.boxSeal nonce.current plaintext aad peerPublicKey secretKey)
  return encodeEncryption ciphertext nonce publicKey aad

/-- `crypto::decrypt`. The context string replaces the text of the library's error. -/
def decrypt (mode : OverflowMode) (data : Option Bytes) (secretKey : PrivateKey) :
    Outcome String Decryption :=
  match data with
  | none => .ok ⟨[], Nonce.new (FixedBytes.filled nonceSize 0), FixedBytes.filled 32 0, []⟩
  | some data => do
    let split ← splitEncryptedPayload mode data
    let plaintext ← (Outcome.ofExcept (P.boxOpen split.nonce.current split.cipher split.aad
      split.peerPublicKey secretKey)).mapErr fun _ => "payload open failed"
    return ⟨plaintext, split.nonce, split.peerPublicKey, split.aad⟩

end Ethwasi.Confidential
