import Mathlib.Data.List.Lex
import Ethwasi.Rust.StableSort
import Ethwasi.Runtime.Dispatcher
import Ethwasi.Runtime.Sample

/-!
# Prefetching

With the feature `prefetch` the first pass of `execute_batch` collects the storage keys of the
accounts that its calls name, and the keys that are not cached are fetched in one request before
the second pass. A call that is not decoded has no accounts to name. What comes back only fills the
cache, so the request is all there is to say: it has every key that is wanted, once, in order.
-/

namespace Ethwasi.Runtime

open Ethwasi.Rust

variable {σ V : Type}

/-- `Action`. -/
inductive Action where
  | create
  | call (receiver : Address)
  deriving DecidableEq

/-- The crates behind prefetching. -/
structure AccountKeys where
  /-- `MKVS_KEY_CODE`. -/
  code : Bytes
  /-- `MKVS_KEY_METADATA`. -/
  metadata : Bytes
  /-- What a transaction does. -/
  action : UnverifiedTransaction → Action

/-- The order of byte strings. -/
def byteOrder (key : Bytes) : List Nat := key.map UInt8.toNat

theorem byteOrder_injective : Function.Injective byteOrder :=
  List.map_injective_iff.mpr fun _ _ => UInt8.toNat_inj.mp

section Request

variable (keys : AccountKeys) (host : Host σ V) (dispatcher : Dispatcher) (cached : Bytes → Bool)

/-- What a decoded call pushes to `prefixes`. -/
def callPrefixes (call : DecodedCall) : List Bytes :=
  (match keys.action call.transaction.transaction with
    | .call receiver => [receiver.bytes ++ keys.code, receiver.bytes ++ keys.metadata]
    | .create => []) ++
    [call.transaction.sender.bytes ++ keys.metadata]

/-- The keys that the first pass collects. -/
def batchPrefixes (batch : List Bytes) : List Bytes :=
  (decodeCalls host dispatcher batch).flatMap fun call =>
    match call with
    | .ok call => callPrefixes keys call
    | .error _ => []

/-- The arguments of `prefetch_prefixes`, if it is called. -/
def prefetchRequest (batch : List Bytes) : Option (List Bytes × Nat) :=
  let prefixes := dedup (sortByKey byteOrder (batchPrefixes keys host dispatcher batch))
  let prefixes := prefixes.filter fun key => !cached key
  if 0 < prefixes.length then some (prefixes, 10000) else none

/-- The key belongs to an account that the call names. -/
def Names (call : DecodedCall) (key : Bytes) : Prop :=
  key = call.transaction.sender.bytes ++ keys.metadata ∨
    ∃ receiver, keys.action call.transaction.transaction = .call receiver ∧
      (key = receiver.bytes ++ keys.code ∨ key = receiver.bytes ++ keys.metadata)

/-- The key is named by a call that is decoded. -/
def Wanted (batch : List Bytes) (key : Bytes) : Prop :=
  ∃ (index : Nat) (bytes : Bytes) (call : DecodedCall), batch[index]? = some bytes ∧
    dispatcher.aborted index = false ∧ decodeTransaction host bytes = .ok call ∧
    Names keys call key

variable {keys host dispatcher cached} {batch : List Bytes} {key : Bytes}

theorem mem_callPrefixes {call : DecodedCall} :
    key ∈ callPrefixes keys call ↔ Names keys call key := by
  rw [callPrefixes, Names]
  cases keys.action call.transaction.transaction with
  | create => simp
  | call receiver => simp [or_comm, or_assoc]

theorem mem_batchPrefixes :
    key ∈ batchPrefixes keys host dispatcher batch ↔ Wanted keys host dispatcher batch key := by
  rw [batchPrefixes, List.mem_flatMap]
  constructor
  · rintro ⟨decoded, member, pushed⟩
    rw [decodeCalls, List.mem_mapIdx] at member
    obtain ⟨index, inside, rfl⟩ := member
    cases aborted : dispatcher.aborted index with
    | true => simp [decodeCall, aborted] at pushed
    | false =>
      cases decoded : decodeTransaction host batch[index] with
      | error failure => simp [decodeCall, aborted, decoded] at pushed
      | ok call =>
        simp only [decodeCall, aborted, decoded, Bool.false_eq_true, if_false] at pushed
        exact ⟨index, batch[index], call, List.getElem?_eq_getElem inside, aborted, decoded,
          mem_callPrefixes.mp pushed⟩
  · rintro ⟨index, bytes, call, called, running, decoded, named⟩
    refine ⟨.ok call, ?_, mem_callPrefixes.mpr named⟩
    obtain ⟨inside, rfl⟩ := List.getElem?_eq_some_iff.mp called
    rw [decodeCalls, List.mem_mapIdx]
    refine ⟨index, inside, ?_⟩
    rw [decodeCall, running, if_neg (by simp), decoded]

end Request

/-- What is prefetched. For every batch, whenever calls of it are aborted, the keys of one request
are those that some decoded call names and the cache does not have, each once, in the order of byte
strings; and there is no request exactly when the cache has all of them. -/
theorem prefetch_exact (keys : AccountKeys) (host : Host σ V) (dispatcher : Dispatcher)
    (cached : Bytes → Bool) (batch : List Bytes) :
    (∀ requested limit,
      prefetchRequest keys host dispatcher cached batch = some (requested, limit) →
      limit = 10000 ∧ requested ≠ [] ∧
        requested.Pairwise (fun a b => byteOrder a < byteOrder b) ∧
        ∀ key, key ∈ requested ↔ Wanted keys host dispatcher batch key ∧ cached key = false) ∧
    (prefetchRequest keys host dispatcher cached batch = none ↔
      ∀ key, Wanted keys host dispatcher batch key → cached key = true) := by
  let prefixes := (dedup (sortByKey byteOrder (batchPrefixes keys host dispatcher batch))).filter
    fun key => !cached key
  have ordered : prefixes.Pairwise fun a b => byteOrder a < byteOrder b :=
    (pairwise_dedup_sortByKey byteOrder_injective _).filter _
  have member (key : Bytes) :
      key ∈ prefixes ↔ Wanted keys host dispatcher batch key ∧ cached key = false := by
    rw [List.mem_filter, mem_dedup, sortByKey_perm.mem_iff, mem_batchPrefixes, Bool.not_eq_true']
  have request : prefetchRequest keys host dispatcher cached batch =
      if 0 < prefixes.length then some (prefixes, 10000) else none := rfl
  rw [request]
  refine ⟨fun requested limit found => ?_, ?_⟩
  · split at found
    · rename_i positive
      cases found
      exact ⟨rfl, List.length_pos_iff.mp positive, ordered, member⟩
    · cases found
  · have nothing : prefixes = [] ↔ ∀ key, Wanted keys host dispatcher batch key →
        cached key = true := by
      rw [List.eq_nil_iff_forall_not_mem]
      refine forall_congr' fun key => ?_
      rw [member, not_and, Bool.not_eq_false]
    rw [← nothing]
    constructor
    · intro silent
      by_contra wanted
      rw [if_pos (List.length_pos_iff.mpr wanted)] at silent
      cases silent
    · intro empty
      rw [empty]
      rfl

/-- An account key for the sample host. -/
def sampleKeys : AccountKeys := ⟨[1], [2], fun _ => .create⟩

/-- A call that creates a contract: with an empty cache the account of its sender is fetched. -/
theorem sender_prefetched :
    ∃ requested limit, prefetchRequest sampleKeys sampleHost ⟨none⟩ (fun _ => false) [[9, 9, 5]] =
        some (requested, limit) ∧
      List.replicate 20 5 ++ [2] ∈ requested := by
  have wanted : Wanted sampleKeys sampleHost ⟨none⟩ [[9, 9, 5]] (List.replicate 20 5 ++ [2]) :=
    ⟨0, [9, 9, 5], _, rfl, rfl, rfl, .inl rfl⟩
  obtain ⟨found, missing⟩ :=
    prefetch_exact sampleKeys sampleHost ⟨none⟩ (fun _ => false) [[9, 9, 5]]
  cases request : prefetchRequest sampleKeys sampleHost ⟨none⟩ (fun _ => false) [[9, 9, 5]] with
  | none => exact absurd (missing.mp request _ wanted) (by simp)
  | some answer =>
    obtain ⟨requested, limit⟩ := answer
    exact ⟨requested, limit, rfl, ((found requested limit request).2.2.2 _).mpr ⟨wanted, rfl⟩⟩

end Ethwasi.Runtime
