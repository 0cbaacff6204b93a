import Ethwasi.Confidential.StorageNonce

/-!
# Storage nonces along a chain

Every block has a context of its own, which derives the storage nonces of its contracts from the
hash of a block before it. The values that the blocks of a chain write stay side by side in the
storage. As long as the hash does not collide where it is cut to the tag of a nonce, two of these
values share a nonce in one case only: they were written in one block, for one contract, equally
many writes after the contract was activated.
-/

namespace Ethwasi.Confidential

open Ethwasi.Rust Ethwasi.Transition

variable (P : Primitives) (mode : OverflowMode)

/-- What a block does with its context: the hash it is created with, and the calls. -/
structure ConfidentialBlock where
  prevBlockHash : H256
  ops : List Op

/-- The calls of a block with what they returned. -/
def ConfidentialBlock.events (block : ConfidentialBlock) : List CtxEvent :=
  run (machine P mode) (.new block.prevBlockHash) block.ops

/-- A storage value that some block of a chain wrote, and its place. -/
structure ChainWrite (chain : List ConfidentialBlock) where
  /-- The place of the block in the chain. -/
  round : Nat
  block : ConfidentialBlock
  /-- The place of the call in the block. -/
  index : Nat
  event : CtxEvent
  /-- The contract that was active. -/
  address : Address
  stored : Bytes
  placed : chain[round]? = some block
  located : (block.events P mode)[index]? = some event
  active : activeAddress event.before = some address
  wrote : writtenBytes event = some stored

variable {P mode} {chain : List ConfidentialBlock}

namespace ChainWrite

/-- The number of writes since the contract was activated. -/
def count (write : ChainWrite P mode chain) : Nat :=
  writesSinceSwitch ((write.block.events P mode).take write.index)

/-- The nonce of a write, from its block, its contract and its count. -/
theorem nonceTail_eq (write : ChainWrite P mode chain) :
    write.count < 2 ^ 32 ∧
      nonceTail write.stored = ((addOne P)^[write.count] (ConfidentialCtx.storageNonceBase P
        write.block.prevBlockHash write.address)).bytes :=
  nonceTail_of_write P mode write.located write.active write.wrote

/-- The hash of the block is one of the chain's. -/
theorem hash_mem (write : ChainWrite P mode chain) :
    write.block.prevBlockHash ∈ chain.map (·.prevBlockHash) :=
  List.mem_map_of_mem (List.mem_of_getElem? write.placed)

end ChainWrite

variable (P) in
/-- Cut to the tag of a nonce, the hash tells the blocks and the contracts apart. -/
def TagsSeparate (hashes : List H256) (contracts : List Address) : Prop :=
  ∀ hash ∈ hashes, ∀ address ∈ contracts, ∀ otherHash ∈ hashes, ∀ other ∈ contracts,
    tagOf (ConfidentialCtx.storageNonceBase P hash address) =
        tagOf (ConfidentialCtx.storageNonceBase P otherHash other) →
      hash = otherHash ∧ address = other

/-- Blocks with one hash are one block. -/
theorem round_eq_of_hash_eq (distinct : (chain.map (·.prevBlockHash)).Nodup)
    {first second : ChainWrite P mode chain}
    (same : first.block.prevBlockHash = second.block.prevBlockHash) :
    first.round = second.round := by
  have firstAt : (chain.map (·.prevBlockHash))[first.round]? = some first.block.prevBlockHash := by
    rw [List.getElem?_map, first.placed]
    rfl
  have secondAt : (chain.map (·.prevBlockHash))[second.round]? =
      some second.block.prevBlockHash := by
    rw [List.getElem?_map, second.placed]
    rfl
  obtain ⟨inside, _⟩ := List.getElem?_eq_some_iff.mp firstAt
  exact (List.getElem?_inj inside distinct).mp (by rw [firstAt, secondAt, same])

/-- When two stored values share a nonce. Along every chain whose blocks have different hashes, and
for contracts whose tags the hash tells apart, two values carry the same nonce exactly when they
were written in the same block for the same contract, equally many writes after it was activated. -/
theorem storage_nonce_shared_iff (distinct : (chain.map (·.prevBlockHash)).Nodup)
    (contracts : List Address) (separate : TagsSeparate P (chain.map (·.prevBlockHash)) contracts)
    (first second : ChainWrite P mode chain) (firstKnown : first.address ∈ contracts)
    (secondKnown : second.address ∈ contracts) :
    nonceTail first.stored = nonceTail second.stored ↔
      first.round = second.round ∧ first.address = second.address ∧
        first.count = second.count := by
  obtain ⟨firstBound, firstNonce⟩ := first.nonceTail_eq
  obtain ⟨secondBound, secondNonce⟩ := second.nonceTail_eq
  rw [firstNonce, secondNonce]
  constructor
  · intro same
    have nonces := FixedBytes.ext same
    have tags := congrArg tagOf nonces
    rw [tagOf_iterate, tagOf_iterate] at tags
    obtain ⟨hashes, addresses⟩ := separate _ first.hash_mem _ firstKnown _ second.hash_mem _
      secondKnown tags
    rw [hashes, addresses] at nonces
    have counts := (iterate_addOne_eq_iff P _ _ _).mp nonces
    rw [Nat.mod_eq_of_lt firstBound, Nat.mod_eq_of_lt secondBound] at counts
    exact ⟨round_eq_of_hash_eq distinct hashes, addresses, counts⟩
  · rintro ⟨rounds, addresses, counts⟩
    have blocks : first.block = second.block := by
      have firstAt := first.placed
      rw [rounds, second.placed] at firstAt
      exact (Option.some.inj firstAt).symm
    rw [blocks, addresses, counts]

/-- Primitives whose hash starts with the hash of the block. -/
def plainHashing : Primitives := { samplePrimitives with digestBytes := padTo 32 }

/-- A block that writes before and after a call, and one that writes twice. -/
def writingChain : List ConfidentialBlock :=
  [⟨FixedBytes.filled 32 1, callBetweenWrites⟩, ⟨FixedBytes.filled 32 2, twoWrites⟩]

/-- The writes around the call share a nonce, and those of the other block do not have it. -/
theorem nonce_shared_around_call :
    ∃ before after later : ChainWrite plainHashing .checked writingChain,
      before.index = 1 ∧ after.index = 4 ∧ later.round = 1 ∧
      nonceTail before.stored = nonceTail after.stored ∧
      nonceTail before.stored ≠ nonceTail later.stored := by
  have distinct : (writingChain.map (·.prevBlockHash)).Nodup := by decide
  have separate : TagsSeparate plainHashing (writingChain.map (·.prevBlockHash))
      [FixedBytes.filled 20 1] := by
    unfold TagsSeparate
    decide
  have shared := @storage_nonce_shared_iff plainHashing .checked writingChain distinct
    [FixedBytes.filled 20 1] separate
  let before : ChainWrite plainHashing .checked writingChain :=
    ⟨0, _, 1, _, FixedBytes.filled 20 1, _, rfl, rfl, rfl, rfl⟩
  let after : ChainWrite plainHashing .checked writingChain :=
    ⟨0, _, 4, _, FixedBytes.filled 20 1, _, rfl, rfl, rfl, rfl⟩
  let later : ChainWrite plainHashing .checked writingChain :=
    ⟨1, _, 1, _, FixedBytes.filled 20 1, _, rfl, rfl, rfl, rfl⟩
  refine ⟨before, after, later, rfl, rfl, rfl, ?_, ?_⟩
  · exact (shared before after List.mem_cons_self List.mem_cons_self).mpr ⟨rfl, rfl, by decide⟩
  · intro same
    cases ((shared before later List.mem_cons_self List.mem_cons_self).mp same).1

end Ethwasi.Confidential
