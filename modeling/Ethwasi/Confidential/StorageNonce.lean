import Ethwasi.Confidential.Operations

/-!
# Storage nonces within a block

Every activation of a contract derives its storage nonce afresh from the previous block and the
address; after that the nonce counts the writes. The count starts again when the contract is
activated again, so two writes for one contract are guaranteed different nonces only as long as
no switch separates them, or when they stand at different counts after their switches.
-/

namespace Ethwasi.Confidential

open Ethwasi.Rust Ethwasi.Transition

variable (P : Primitives) (mode : OverflowMode)

/-- One event of the count: a switch starts it again, a write adds one. -/
def countWrite (count : Nat) (event : CtxEvent) : Nat :=
  if isSwitch event then 0 else if (writtenBytes event).isSome then count + 1 else count

/-- The number of successful writes since the last switch. -/
def writesSinceSwitch (past : List CtxEvent) : Nat := past.foldl countWrite 0

/-- The last 15 bytes of a stored value: the nonce it was sealed under. -/
def nonceTail (stored : Bytes) : Bytes := stored.drop (stored.length - nonceSize)

/-- The address of the active contract. -/
def activeAddress (ctx : ConfidentialCtx) : Option Address := ctx.contract.map (·.1)

/-- While a contract is active, its storage nonce is the base nonce of the block and the
contract, advanced once for each write since the last switch. -/
structure StorageNonceAt (prevBlockHash : H256) (past : List CtxEvent) (ctx : ConfidentialCtx) :
    Prop where
  /-- The previous block never changes. -/
  block : ctx.prevBlockHash = prevBlockHash
  /-- The nonce counts the writes. -/
  counts : ∀ address keys, ctx.contract = some (address, keys) →
    writesSinceSwitch past < 2 ^ 32 ∧
      ctx.nextStorageNonce = some ⟨ConfidentialCtx.storageNonceBase P prevBlockHash address,
        (addOne P)^[writesSinceSwitch past]
          (ConfidentialCtx.storageNonceBase P prevBlockHash address)⟩

/-- The tail of a stored value is the nonce that was appended to it. -/
theorem nonceTail_append (sealed : Bytes) (nonce : NonceBytes) :
    nonceTail (sealed ++ nonce.bytes) = nonce.bytes := by
  have width : (sealed ++ nonce.bytes).length - nonceSize = sealed.length := by
    simp [nonce.length_eq]
  rw [nonceTail, width, List.drop_left' rfl]

/-- The count after one more event. -/
theorem writesSinceSwitch_snoc (past : List CtxEvent) (event : CtxEvent) :
    writesSinceSwitch (past ++ [event]) = countWrite (writesSinceSwitch past) event := by
  simp [writesSinceSwitch]

/-- Without a switch the count never goes down. -/
theorem writesSinceSwitch_mono (past events : List CtxEvent)
    (noSwitch : ∀ event ∈ events, isSwitch event = false) :
    writesSinceSwitch past ≤ writesSinceSwitch (past ++ events) := by
  induction events generalizing past with
  | nil => simp
  | cons event events ih =>
    have step : writesSinceSwitch past ≤ writesSinceSwitch (past ++ [event]) := by
      rw [writesSinceSwitch_snoc]
      unfold countWrite
      rw [if_neg (by simp [noSwitch event List.mem_cons_self])]
      split <;> omega
    have rest := ih (past ++ [event]) fun later member =>
      noSwitch later (List.mem_cons_of_mem _ member)
    rw [List.append_assoc, List.singleton_append] at rest
    exact Nat.le_trans step rest

/-- A write is no switch. -/
theorem isSwitch_of_writtenBytes {event : CtxEvent} (wrote : (writtenBytes event).isSome = true) :
    isSwitch event = false := by
  unfold writtenBytes at wrote
  split at wrote
  · rename_i input _
    simp [isSwitch, input]
  · cases wrote

/-- A write is counted by every later position that no switch separates from it. -/
theorem writesSinceSwitch_lt {events : List CtxEvent} {i j : Nat} (ordered : i < j)
    {event : CtxEvent} (located : events[i]? = some event)
    (wrote : (writtenBytes event).isSome = true)
    (noSwitch : ∀ k between, i < k → k < j → events[k]? = some between →
      isSwitch between = false) :
    writesSinceSwitch (events.take i) < writesSinceSwitch (events.take j) := by
  obtain ⟨inside, same⟩ := List.getElem?_eq_some_iff.mp located
  have counted : writesSinceSwitch (events.take (i + 1)) =
      writesSinceSwitch (events.take i) + 1 := by
    have plain := isSwitch_of_writtenBytes wrote
    rw [List.take_succ_eq_append_getElem inside, same, writesSinceSwitch_snoc]
    simp [countWrite, plain, wrote]
  have split : events.take j = events.take (i + 1) ++ (events.take j).drop (i + 1) := by
    have earlier : events.take (i + 1) = (events.take j).take (i + 1) := by
      rw [List.take_take, Nat.min_eq_left ordered]
    rw [earlier, List.take_append_drop]
  have later := writesSinceSwitch_mono (events.take (i + 1)) ((events.take j).drop (i + 1)) (by
    intro between member
    obtain ⟨offset, found⟩ := List.getElem?_of_mem member
    rw [List.getElem?_drop, List.getElem?_take] at found
    split at found
    · exact noSwitch _ between (by omega) (by assumption) found
    · cases found)
  rw [← split, counted] at later
  omega

/-- Every call keeps the nonce in step with the count. -/
theorem storageNonceAt_step {prevBlockHash : H256} (past : List CtxEvent) (event : CtxEvent)
    (step : event.Of (machine P mode)) (held : StorageNonceAt P prevBlockHash past event.before) :
    StorageNonceAt P prevBlockHash (past ++ [event]) event.after := by
  cases storageEffect_of step with
  | kept noSwitch noWrite same =>
    refine ⟨same.prevBlockHash.trans held.block, fun address keys contract => ?_⟩
    have unchanged : writesSinceSwitch (past ++ [event]) = writesSinceSwitch past := by
      simp [writesSinceSwitch_snoc, countWrite, noSwitch, noWrite]
    rw [unchanged, same.nextStorageNonce]
    exact held.counts address keys (same.contract ▸ contract)
  | cleared switch noWrite contract d2 nextStorageNonce prevBlockHash' =>
    refine ⟨prevBlockHash'.trans held.block, fun address keys active => ?_⟩
    rw [contract] at active
    cases active
  | activated keyManager address keys input returned switch noWrite contract d2 nextStorageNonce
      prevBlockHash' =>
    refine ⟨prevBlockHash'.trans held.block, fun other otherKeys active => ?_⟩
    rw [contract] at active
    cases active
    have restarted : writesSinceSwitch (past ++ [event]) = 0 := by
      simp [writesSinceSwitch_snoc, countWrite, switch]
    rw [restarted, nextStorageNonce, held.block]
    exact ⟨by decide, rfl⟩
  | wrote storageKey data nonce next d2 input noSwitch written usedNonce usedCipher incremented
      after =>
    refine ⟨by rw [after]; exact held.block, fun address keys active => ?_⟩
    have contract : event.before.contract = some (address, keys) := by simpa [after] using active
    obtain ⟨bound, current⟩ := held.counts address keys contract
    rw [usedNonce] at current
    obtain rfl := Option.some.inj current
    obtain ⟨onward, rfl⟩ := (Nonce.increment_eq_ok_iff P).mp incremented
    have advanced : writesSinceSwitch (past ++ [event]) = writesSinceSwitch past + 1 := by
      simp [writesSinceSwitch_snoc, countWrite, noSwitch, written]
    -- The increment was refused if the counter had come back to the base.
    have notBack : (writesSinceSwitch past + 1) % 2 ^ 32 ≠ 0 % 2 ^ 32 := by
      intro back
      apply onward
      have closed := (iterate_addOne_eq_iff P
        (ConfidentialCtx.storageNonceBase P prevBlockHash address)
        (writesSinceSwitch past + 1) 0).mpr back
      rwa [Function.iterate_succ_apply'] at closed
    rw [advanced]
    refine ⟨by omega, ?_⟩
    rw [after, Function.iterate_succ_apply']

/-- A write made while a contract is active carries the base nonce advanced by the number of
writes since the last switch. -/
theorem nonceTail_of_write {prevBlockHash : H256} {ops : List Op} {index : Nat} {event : CtxEvent}
    (located : (run (machine P mode) (.new prevBlockHash) ops)[index]? = some event)
    {address : Address} (active : activeAddress event.before = some address) {stored : Bytes}
    (wrote : writtenBytes event = some stored) :
    writesSinceSwitch ((run (machine P mode) (.new prevBlockHash) ops).take index) < 2 ^ 32 ∧
      nonceTail stored = ((addOne P)^[writesSinceSwitch
          ((run (machine P mode) (.new prevBlockHash) ops).take index)]
        (ConfidentialCtx.storageNonceBase P prevBlockHash address)).bytes := by
  have held := (run_history_always (StorageNonceAt P prevBlockHash)
    (fun past event step => storageNonceAt_step P mode past event step)
    ⟨rfl, by simp [ConfidentialCtx.new]⟩).1 index event located
  have step := of_mem_run (List.mem_of_getElem? located)
  obtain ⟨⟨owner, keys⟩, contract, rfl⟩ := Option.map_eq_some_iff.mp active
  obtain ⟨bound, current⟩ := held.counts owner keys contract
  refine ⟨bound, ?_⟩
  cases storageEffect_of step with
  | kept noSwitch noWrite same => simp [noWrite] at wrote
  | cleared switch noWrite => simp [noWrite] at wrote
  | activated keyManager address keys input returned switch noWrite => simp [noWrite] at wrote
  | wrote storageKey data nonce next d2 input noSwitch written usedNonce =>
    rw [written] at wrote
    obtain rfl := Option.some.inj wrote
    rw [usedNonce] at current
    obtain rfl := Option.some.inj current
    exact nonceTail_append _ _

/-- Two writes for one contract carry different nonces unless a switch lies between them and
they are equally many writes after their switches. -/
theorem storage_nonces_differ (prevBlockHash : H256) (ops : List Op) (i j : Nat) (ordered : i < j)
    (first second : CtxEvent)
    (firstAt : (run (machine P mode) (.new prevBlockHash) ops)[i]? = some first)
    (secondAt : (run (machine P mode) (.new prevBlockHash) ops)[j]? = some second)
    (address : Address) (firstActive : activeAddress first.before = some address)
    (secondActive : activeAddress second.before = some address)
    (firstStored secondStored : Bytes) (firstWrote : writtenBytes first = some firstStored)
    (secondWrote : writtenBytes second = some secondStored)
    (apart : (∀ k between, i < k → k < j →
        (run (machine P mode) (.new prevBlockHash) ops)[k]? = some between →
          isSwitch between = false) ∨
      writesSinceSwitch ((run (machine P mode) (.new prevBlockHash) ops).take i) ≠
        writesSinceSwitch ((run (machine P mode) (.new prevBlockHash) ops).take j)) :
    nonceTail firstStored ≠ nonceTail secondStored := by
  obtain ⟨firstBound, firstTail⟩ := nonceTail_of_write P mode firstAt firstActive firstWrote
  obtain ⟨secondBound, secondTail⟩ := nonceTail_of_write P mode secondAt secondActive secondWrote
  have counts : writesSinceSwitch ((run (machine P mode) (.new prevBlockHash) ops).take i) ≠
      writesSinceSwitch ((run (machine P mode) (.new prevBlockHash) ops).take j) := by
    rcases apart with noSwitch | counts
    · exact Nat.ne_of_lt (writesSinceSwitch_lt ordered firstAt (by simp [firstWrote]) noSwitch)
    · exact counts
  intro same
  rw [firstTail, secondTail] at same
  have equal := (iterate_addOne_eq_iff P _ _ _).mp (FixedBytes.ext same)
  omega

/-- A key manager that files every contract's keys under its identifier. -/
def sampleKeys (id : KeyPairId) : KeyPair := ⟨⟨id, id⟩, id⟩

/-- A contract is activated and writes twice. -/
def twoWrites : List Op :=
  [.activate (fun id => .ok (sampleKeys id)) (some (FixedBytes.filled 20 1)),
    .encryptStorageValue [1] [5], .encryptStorageValue [1] [6]]

/-- Two writes in a row are sealed under different nonces. -/
theorem consecutive_writes_differ :
    ∃ first second firstStored secondStored,
      (run (machine samplePrimitives .checked) (.new (FixedBytes.filled 32 0)) twoWrites)[1]? =
          some first ∧
        (run (machine samplePrimitives .checked) (.new (FixedBytes.filled 32 0)) twoWrites)[2]? =
          some second ∧
        writtenBytes first = some firstStored ∧ writtenBytes second = some secondStored ∧
        nonceTail firstStored ≠ nonceTail secondStored :=
  ⟨_, _, _, _, rfl, rfl, rfl, rfl,
    storage_nonces_differ samplePrimitives .checked (FixedBytes.filled 32 0) twoWrites 1 2
      (by decide) _ _ rfl rfl (FixedBytes.filled 20 1) rfl rfl _ _ rfl rfl
      (.inl fun _ _ above below _ => absurd below (by omega))⟩

/-- Every pair that the key manager returns to a call is the contract's fixed pair. -/
def ConsistentKeys (keys : KeyPairId → KeyPair) : Op → Prop
  | .activate keyManager _ => ∀ id pair, keyManager id = .ok pair → pair = keys id
  | _ => True

theorem sampleKeys_consistent (contract : Option Address) :
    ConsistentKeys sampleKeys (.activate (fun id => .ok (sampleKeys id)) contract) := by
  intro id pair returned
  exact (Except.ok.inj returned).symm

/-- No two writes of a block for one contract carry the same nonce. -/
def StorageNoncesNeverReused : Prop :=
  ∀ (keys : KeyPairId → KeyPair) (prevBlockHash : H256) (ops : List Op),
    (∀ op ∈ ops, ConsistentKeys keys op) →
    ∀ (i j : Nat) (first second : CtxEvent), i < j →
      (run (machine P mode) (.new prevBlockHash) ops)[i]? = some first →
      (run (machine P mode) (.new prevBlockHash) ops)[j]? = some second →
      ∀ (address : Address), activeAddress first.before = some address →
        activeAddress second.before = some address →
        ∀ firstStored secondStored, writtenBytes first = some firstStored →
          writtenBytes second = some secondStored →
            nonceTail firstStored ≠ nonceTail secondStored

/-- A contract calls another one and writes before and after the call. -/
def callBetweenWrites : List Op :=
  [.activate (fun id => .ok (sampleKeys id)) (some (FixedBytes.filled 20 1)),
    .encryptStorageValue [1] [5],
    .activate (fun id => .ok (sampleKeys id)) (some (FixedBytes.filled 20 2)),
    .activate (fun id => .ok (sampleKeys id)) (some (FixedBytes.filled 20 1)),
    .encryptStorageValue [2] [6]]

/-- Returning from the call derives the nonce of the first write again. -/
theorem storage_nonce_reused_after_call :
    ¬StorageNoncesNeverReused samplePrimitives .checked := by
  intro fresh
  have differ := fresh sampleKeys (FixedBytes.filled 32 0) callBetweenWrites
    (by
      intro op member
      simp only [callBetweenWrites, List.mem_cons, List.not_mem_nil, or_false] at member
      rcases member with rfl | rfl | rfl | rfl | rfl
      · exact sampleKeys_consistent _
      · trivial
      · exact sampleKeys_consistent _
      · exact sampleKeys_consistent _
      · trivial)
    1 4 _ _ (by decide) rfl rfl (FixedBytes.filled 20 1) rfl rfl _ _ rfl rfl
  exact differ rfl

end Ethwasi.Confidential
