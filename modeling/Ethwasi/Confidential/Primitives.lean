import Mathlib.Logic.Equiv.Defs
import Mathlib.Logic.Function.Iterate
import Ethwasi.Common

/-!
# Keys, nonces and the cryptographic libraries

The confidential code is written against the key manager client and the MRAE library of
the core runtime. Their sources are not part of this repository, so their functions are
the fields of `Primitives`, and a result that needs a law of one of them states that law
as a hypothesis. The only behaviour fixed here is that of `Nonce::increment`, which the
context relies on: add one modulo 2^32 to the last four bytes, keep the tag, refuse to
come back to the value the nonce was created with. The order of the four bytes is left
to the library.
-/

namespace Ethwasi.Confidential

open Ethwasi.Rust

/-- A public key of the key manager client. -/
abbrev PublicKey := FixedBytes 32

/-- A private key of the key manager client. -/
abbrev PrivateKey := FixedBytes 32

/-- The key under which a contract's storage is encrypted. -/
abbrev StateKey := FixedBytes 32

/-- The identifier under which the key manager files a contract's keys. -/
abbrev KeyPairId := FixedBytes 32

/-- `PublicKey::len()`. -/
def publicKeyLen : Nat := 32

/-- `NONCE_SIZE` of the MRAE library. -/
def nonceSize : Nat := 15

/-- `TAG_SIZE` of a nonce: the bytes before its counter. -/
def nonceTagSize : Nat := 11

/-- `TAG_SIZE` of Deoxys-II: the authentication tag of a sealed message. -/
def tagSize : Nat := 16

/-- The 15 bytes of a nonce. -/
abbrev NonceBytes := FixedBytes nonceSize

/-- `InputKeyPair`. -/
structure InputKeyPair where
  /-- `get_pk`. -/
  pk : PublicKey
  /-- `get_sk`. -/
  sk : PrivateKey
  deriving DecidableEq

/-- `KeyPair`: the keys of one contract, without the checksum and the signature, which the
confidential code never reads. -/
structure KeyPair where
  /-- Keys of the session channel. -/
  inputKeypair : InputKeyPair
  /-- Key of the contract's storage. -/
  stateKey : StateKey
  deriving DecidableEq

/-- The functions of the external libraries that the confidential code calls. -/
structure Primitives where
  /-- `deoxysii::box_seal(nonce, plaintext, additional_data, peer_public_key, private_key)`. -/
  boxSeal : NonceBytes → Bytes → Bytes → PublicKey → PrivateKey → Except String Bytes
  /-- `deoxysii::box_open(nonce, ciphertext, additional_data, peer_public_key, private_key)`. -/
  boxOpen : NonceBytes → Bytes → Bytes → PublicKey → PrivateKey → Except String Bytes
  /-- `DeoxysII::new(key).seal(nonce, plaintext, additional_data)`. -/
  d2Seal : StateKey → NonceBytes → Bytes → Bytes → Bytes
  /-- `DeoxysII::new(key).open(nonce, ciphertext, additional_data)`. -/
  d2Open : StateKey → NonceBytes → Bytes → Bytes → Option Bytes
  /-- `keccak`. -/
  keccak : Bytes → H256
  /-- `Hash::digest_bytes`. -/
  digestBytes : Bytes → H256
  /-- The counter that the last four bytes of a nonce hold. -/
  counter : FixedBytes 4 ≃ Fin (2 ^ 32)
  /-- Text of the error that `Nonce::increment` returns. -/
  incrementError : String

/-- The tag of a nonce: its first 11 bytes. -/
def tagOf (value : NonceBytes) : FixedBytes nonceTagSize :=
  ⟨value.bytes.take nonceTagSize, by simp [value.length_eq, nonceTagSize, nonceSize]⟩

/-- The counter bytes of a nonce: its last four. -/
def counterBytes (value : NonceBytes) : FixedBytes 4 :=
  ⟨value.bytes.drop nonceTagSize, by simp [value.length_eq, nonceTagSize, nonceSize]⟩

/-- The nonce with the given tag and counter bytes. -/
def joinNonce (tag : FixedBytes nonceTagSize) (count : FixedBytes 4) : NonceBytes :=
  ⟨tag.bytes ++ count.bytes, by simp [tag.length_eq, count.length_eq, nonceTagSize, nonceSize]⟩

@[simp] theorem tagOf_joinNonce (tag : FixedBytes nonceTagSize) (count : FixedBytes 4) :
    tagOf (joinNonce tag count) = tag := by
  apply FixedBytes.ext
  simp [tagOf, joinNonce, ← tag.length_eq]

@[simp] theorem counterBytes_joinNonce (tag : FixedBytes nonceTagSize) (count : FixedBytes 4) :
    counterBytes (joinNonce tag count) = count := by
  apply FixedBytes.ext
  simp [counterBytes, joinNonce, ← tag.length_eq]

/-- `Nonce`: the value it was created with and the value it has now. -/
structure Nonce where
  /-- The argument of `Nonce::new`. -/
  start : NonceBytes
  /-- The bytes that the nonce dereferences to. -/
  current : NonceBytes
  deriving DecidableEq

/-- `Nonce::new`. -/
def Nonce.new (value : NonceBytes) : Nonce := ⟨value, value⟩

variable (P : Primitives)

/-- The counter of a nonce as a 32-bit number. -/
def counterOf (value : NonceBytes) : Fin (2 ^ 32) := P.counter (counterBytes value)

/-- Add one to the counter modulo 2^32 and keep the tag. -/
def addOne (value : NonceBytes) : NonceBytes :=
  joinNonce (tagOf value) (P.counter.symm (counterOf P value + 1))

/-- `Nonce::increment`; when it fails the nonce keeps its value. -/
def Nonce.increment (nonce : Nonce) : Except String Nonce :=
  if addOne P nonce.current = nonce.start then .error P.incrementError
  else .ok { nonce with current := addOne P nonce.current }

@[simp] theorem tagOf_addOne (value : NonceBytes) : tagOf (addOne P value) = tagOf value := by
  simp [addOne]

@[simp] theorem counterOf_addOne (value : NonceBytes) :
    counterOf P (addOne P value) = counterOf P value + 1 := by
  simp [addOne, counterOf]

/-- A nonce is its tag and its counter. -/
theorem nonceBytes_ext {left right : NonceBytes} (tags : tagOf left = tagOf right)
    (counters : counterOf P left = counterOf P right) : left = right := by
  have low := congrArg FixedBytes.bytes tags
  have high := congrArg FixedBytes.bytes (P.counter.injective counters)
  simp only [tagOf, counterBytes] at low high
  apply FixedBytes.ext
  rw [← List.take_append_drop nonceTagSize left.bytes, low, high, List.take_append_drop]

/-- Increments keep the tag over any number of steps. -/
@[simp] theorem tagOf_iterate (value : NonceBytes) (steps : Nat) :
    tagOf ((addOne P)^[steps] value) = tagOf value := by
  induction steps with
  | zero => rfl
  | succ steps ih => rw [Function.iterate_succ_apply', tagOf_addOne, ih]

/-- Increments count modulo 2^32. -/
theorem counterOf_iterate (value : NonceBytes) (steps : Nat) :
    (counterOf P ((addOne P)^[steps] value)).val =
      ((counterOf P value).val + steps) % 2 ^ 32 := by
  induction steps with
  | zero => exact (Nat.mod_eq_of_lt (counterOf P value).isLt).symm
  | succ steps ih =>
    rw [Function.iterate_succ_apply', counterOf_addOne, Fin.val_add, ih]
    change (_ % 2 ^ 32 + 1) % 2 ^ 32 = _
    omega

/-- Two points of one orbit are equal exactly when their distances agree modulo 2^32. -/
theorem iterate_addOne_eq_iff (value : NonceBytes) (left right : Nat) :
    (addOne P)^[left] value = (addOne P)^[right] value ↔ left % 2 ^ 32 = right % 2 ^ 32 := by
  have first := counterOf_iterate P value left
  have second := counterOf_iterate P value right
  constructor
  · intro same
    rw [same, second] at first
    omega
  · intro same
    refine nonceBytes_ext P (by simp) (Fin.ext ?_)
    rw [first, second]
    omega

/-- An increment succeeds exactly when it does not come back to the start, and then advances
by one. -/
theorem Nonce.increment_eq_ok_iff {nonce next : Nonce} :
    nonce.increment P = .ok next ↔
      addOne P nonce.current ≠ nonce.start ∧
        next = { nonce with current := addOne P nonce.current } := by
  unfold Nonce.increment
  split
  · rename_i back
    simp [back]
  · rename_i onward
    simp [onward, eq_comm]

/-- Big-endian 32-bit counters. -/
def bigEndianCounter : FixedBytes 4 ≃ Fin (2 ^ 32) where
  toFun digits := ⟨fromLeBytes digits.bytes.reverse, by
    have bound := fromLeBytes_lt digits.bytes.reverse
    rwa [List.length_reverse, digits.length_eq] at bound⟩
  invFun count := ⟨(toLeBytes 4 count.val).reverse, by simp⟩
  left_inv digits := by
    have recovered := toLeBytes_fromLeBytes digits.bytes.reverse
    rw [List.length_reverse, digits.length_eq] at recovered
    apply FixedBytes.ext
    simp [recovered]
  right_inv count := by
    have fits : count.val < 256 ^ 4 := count.isLt
    simp [fromLeBytes_toLeBytes fits]

/-- The first bytes of a string, padded with zeros. -/
def padTo (size : Nat) (bytes : Bytes) : FixedBytes size :=
  ⟨(bytes ++ List.replicate size 0).take size, by simp⟩

/-- A transparent authentication tag: the start of the additional data, of the key and of the
nonce counter. -/
def sampleTag (key : Bytes) (nonce : NonceBytes) (aad : Bytes) : FixedBytes tagSize :=
  padTo tagSize ((padTo 4 aad).bytes ++ (padTo 4 key).bytes ++ nonce.bytes.drop nonceTagSize)

/-- Check a transparent tag and strip it. -/
def sampleOpen (key : Bytes) (nonce : NonceBytes) (sealed aad : Bytes) : Option Bytes :=
  if tagSize ≤ sealed.length ∧
      sealed.drop (sealed.length - tagSize) = (sampleTag key nonce aad).bytes
  then some (sealed.take (sealed.length - tagSize)) else none

/-- The transparent cipher opens exactly what carries its own tag. -/
theorem sampleOpen_append (key : Bytes) (nonce : NonceBytes) (message aad : Bytes)
    (tag : FixedBytes tagSize) :
    sampleOpen key nonce (message ++ tag.bytes) aad =
      if tag = sampleTag key nonce aad then some message else none := by
  have offset : (message ++ tag.bytes).length - tagSize = message.length := by
    simp [tag.length_eq]
  have long : tagSize ≤ (message ++ tag.bytes).length := by
    simp [tag.length_eq]
  unfold sampleOpen
  rw [offset, List.drop_left' rfl, List.take_left' rfl]
  by_cases same : tag = sampleTag key nonce aad
  · rw [if_pos same, if_pos ⟨long, congrArg _ same⟩]
  · rw [if_neg same, if_neg fun both => same (FixedBytes.ext both.2)]

/-- Primitives that can be evaluated. They authenticate and hide nothing; they are there to
show that the laws assumed of the real ones can hold together. -/
def samplePrimitives : Primitives where
  boxSeal nonce plaintext aad peer secret :=
    .ok (plaintext ++ (sampleTag (List.zipWith (· ^^^ ·) peer.bytes secret.bytes) nonce aad).bytes)
  boxOpen nonce ciphertext aad peer secret :=
    match sampleOpen (List.zipWith (· ^^^ ·) peer.bytes secret.bytes) nonce ciphertext aad with
    | some plaintext => .ok plaintext
    | none => .error "message authentication failed"
  d2Seal key nonce plaintext aad := plaintext ++ (sampleTag key.bytes nonce aad).bytes
  d2Open key nonce ciphertext aad := sampleOpen key.bytes nonce ciphertext aad
  keccak bytes := padTo 32 bytes
  digestBytes bytes := padTo 32 bytes.reverse
  counter := bigEndianCounter
  incrementError := "nonce overflow"

end Ethwasi.Confidential
