import Mathlib.Logic.Function.Basic
import Mathlib.Data.List.Induction
import Mathlib.Data.Set.Basic
import Ethwasi.Confidential.StorageNonce

/-!
# Confidential storage as a plain map

A chain keeps one raw store for all contracts and creates a new context for every block.
`chainMachine` runs any number of contexts over the raw store: `put` and `get` go through the
encryption of the active contract, and `copy` is what an attacker with access to the raw store
can do, moving a raw value from one place to another. The abstract side is a map from a contract
and a storage key to a cell that remembers for which contract and key its value was written.
The result is that every `get` answers as the map says, whatever contexts, blocks, switches and
nonces the two sides went through.
-/

namespace Ethwasi.Confidential

open Ethwasi.Rust Ethwasi.Transition

variable (P : Primitives) (mode : OverflowMode) (keys : KeyPairId → KeyPair)

/-- The state key that the key manager holds for a contract. -/
def stateKeyOf (address : Address) : StateKey := (keys (P.keccak address.bytes)).stateKey

/-- What `encrypt_storage_key` returns while the contract is active. -/
def sealedKeyOf (address : Address) (key : Bytes) : Bytes :=
  P.d2Seal (stateKeyOf P keys address) (FixedBytes.filled nonceSize 0) key []

/-- The slot of a storage key in the raw store of a contract. -/
def slotOf (address : Address) (key : Bytes) : H256 := P.keccak (sealedKeyOf P keys address key)

/-- The raw store and the contexts that were created so far. -/
structure ChainState where
  /-- Contexts by number. -/
  contexts : Nat → Option ConfidentialCtx
  /-- Raw values by contract and slot. -/
  store : Address × H256 → Option Bytes

/-- Nothing has been created or stored. -/
def ChainState.empty : ChainState := ⟨fun _ => none, fun _ => none⟩

/-- What can happen on the chain. -/
inductive ChainOp where
  /-- A block creates a context. -/
  | newContext (id : Nat) (prevBlockHash : H256)
  /-- Any call of a context. -/
  | call (id : Nat) (op : Op)
  /-- Store a value for the active contract. -/
  | put (id : Nat) (key value : Bytes)
  /-- Read a value of the active contract. -/
  | get (id : Nat) (key : Bytes)
  /-- Move a raw value to another place, by contract and storage key. -/
  | copy (source target : Address × Bytes)

/-- What an operation returns. -/
inductive ChainReply where
  /-- Nothing. -/
  | done
  /-- The result of a call. -/
  | called (result : Except Error Reply)
  /-- The result of a `put`. -/
  | stored (result : Except Error Unit)
  /-- The result of a `get`; `none` when the slot is empty. -/
  | value (result : Except Error (Option Bytes))

/-- `store[addr, slot(k)] := encrypt_storage_value(slot(k), v)`. -/
def putValue (state : ChainState) (id : Nat) (ctx : ConfidentialCtx) (address : Address)
    (key value : Bytes) : Option (ChainReply × ChainState) :=
  match ctx.encryptStorageKey P key with
  | .panic _ => none
  | .err error => some (.stored (.error error), state)
  | .ok sealedKey =>
    let slot := P.keccak sealedKey
    match ctx.encryptStorageValue P slot.bytes value with
    | (.panic _, _) => none
    | (.err error, ctx) => some (.stored (.error error),
        { state with contexts := Function.update state.contexts id (some ctx) })
    | (.ok raw, ctx) => some (.stored (.ok ()),
        ⟨Function.update state.contexts id (some ctx),
          Function.update state.store (address, slot) (some raw)⟩)

/-- `decrypt_storage_value(slot(k), store[addr, slot(k)])`. -/
def getValue (state : ChainState) (ctx : ConfidentialCtx) (address : Address) (key : Bytes) :
    Option ChainReply :=
  match ctx.encryptStorageKey P key with
  | .panic _ => none
  | .err error => some (.value (.error error))
  | .ok sealedKey =>
    let slot := P.keccak sealedKey
    match state.store (address, slot) with
    | none => some (.value (.ok none))
    | some raw =>
      match ctx.decryptStorageValue P slot.bytes raw with
      | .panic _ => none
      | .err error => some (.value (.error error))
      | .ok value => some (.value (.ok (some value)))

/-- One operation. It stops on a panic and on a context that does not exist. -/
def chainMachine : Machine ChainState ChainOp ChainReply := fun state op =>
  match op with
  | .newContext id prevBlockHash => some (.done,
      { state with contexts := Function.update state.contexts id (some (.new prevBlockHash)) })
  | .call id op => do
    let ctx ← state.contexts id
    let (result, ctx) ← machine P mode ctx op
    some (.called result, { state with contexts := Function.update state.contexts id (some ctx) })
  | .put id key value => do
    let ctx ← state.contexts id
    let address ← activeAddress ctx
    putValue P state id ctx address key value
  | .get id key => do
    let ctx ← state.contexts id
    let address ← activeAddress ctx
    let reply ← getValue P state ctx address key
    some (reply, state)
  | .copy source target =>
    let raw := state.store (source.1, slotOf P keys source.1 source.2)
    let place := (target.1, slotOf P keys target.1 target.2)
    some (.done, { state with store := Function.update state.store place raw })

/-- An operation of a chain together with what it returned. -/
abbrev ChainEvent := Event ChainState ChainOp ChainReply

/-- The contract that is active in a context. -/
def activeIn (state : ChainState) (id : Nat) : Option Address :=
  state.contexts id >>= activeAddress

/-- A value with the contract and the key it was written for. -/
structure Cell where
  /-- The contract that was active. -/
  owner : Address
  /-- The storage key. -/
  key : Bytes
  /-- The value. -/
  value : Bytes
  deriving DecidableEq

/-- The plain map. -/
abbrev Cells := Address × Bytes → Option Cell

/-- The place and value of a successful `put`. -/
def putAt (event : ChainEvent) : Option ((Address × Bytes) × Bytes) :=
  match event.input, event.output with
  | .put id key value, .stored (.ok _) =>
    (activeIn event.before id).map fun address => ((address, key), value)
  | _, _ => none

/-- One event of the map: a successful `put` writes its place, a copy moves a cell. -/
def applyEvent (cells : Cells) (event : ChainEvent) : Cells :=
  match event.input with
  | .copy source target => Function.update cells target (cells source)
  | _ =>
    match putAt event with
    | some (place, value) => Function.update cells place (some ⟨place.1, place.2, value⟩)
    | none => cells

/-- The map after a list of events. -/
def cellsAfter (past : List ChainEvent) : Cells := past.foldl applyEvent fun _ => none

/-- What reading a place returns: a cell is readable only where it was written. -/
def readCell (place : Address × Bytes) : Option Cell → Except Error (Option Bytes)
  | none => .ok none
  | some cell =>
    if (cell.owner, cell.key) = place then .ok (some cell.value)
    else .error (.confidential "invalid storage (decryption) key")

/-- The laws assumed of the cipher, the hash and the key manager, for the contracts and storage
keys of a history. A 16-byte tag cannot tell all keys and all additional data apart, so the last
three laws are only asked of those that occur. -/
structure IdealStorage (addresses : Set Address) (names : Set Bytes) : Prop where
  /-- Opening undoes sealing. -/
  open_seal : ∀ key nonce message aad,
    P.d2Open key nonce (P.d2Seal key nonce message aad) aad = some message
  /-- Sealing appends a tag. -/
  seal_length : ∀ key nonce message aad,
    (P.d2Seal key nonce message aad).length = message.length + tagSize
  /-- A message sealed for one place does not open under the key or the slot of another. -/
  open_other : ∀ address ∈ addresses, ∀ other ∈ addresses, ∀ key ∈ names, ∀ name ∈ names,
    ∀ nonce message,
    (stateKeyOf P keys address, slotOf P keys address key) ≠
        (stateKeyOf P keys other, slotOf P keys other name) →
      P.d2Open (stateKeyOf P keys address) nonce
        (P.d2Seal (stateKeyOf P keys other) nonce message (slotOf P keys other name).bytes)
        (slotOf P keys address key).bytes = none
  /-- The hash does not collide on the sealed storage keys of a contract. -/
  keccak_injective : ∀ address ∈ addresses, ∀ key ∈ names, ∀ name ∈ names,
    P.keccak (sealedKeyOf P keys address key) = P.keccak (sealedKeyOf P keys address name) →
      sealedKeyOf P keys address key = sealedKeyOf P keys address name
  /-- Different contracts have different state keys. -/
  stateKey_injective : ∀ address ∈ addresses, ∀ other ∈ addresses,
    stateKeyOf P keys address = stateKeyOf P keys other → address = other

/-- An operation uses only the given contracts and storage keys, and the key manager answers
with the contract's fixed keys. -/
def ChainOp.Within (addresses : Set Address) (names : Set Bytes) : ChainOp → Prop
  | .newContext _ _ => True
  | .call _ (.activate keyManager contract) =>
    ConsistentKeys keys (.activate keyManager contract) ∧ ∀ a, contract = some a → a ∈ addresses
  | .call _ _ => True
  | .put _ key _ => key ∈ names
  | .get _ key => key ∈ names
  | .copy source target =>
    source.1 ∈ addresses ∧ source.2 ∈ names ∧ target.1 ∈ addresses ∧ target.2 ∈ names

/-- The contract of a context is one of the given ones, its storage cipher is keyed as the key
manager says, and there is a nonce to write with. -/
def Keyed (addresses : Set Address) (ctx : ConfidentialCtx) : Prop :=
  ∀ address pair, ctx.contract = some (address, pair) →
    address ∈ addresses ∧ ctx.d2 = some ⟨stateKeyOf P keys address⟩ ∧
      ∃ nonce, ctx.nextStorageNonce = some nonce

/-- The raw value holds the cell: sealed for the cell's place, with the nonce appended. -/
def Holds (addresses : Set Address) (names : Set Bytes) : Option Bytes → Option Cell → Prop
  | none, none => True
  | some raw, some cell => cell.owner ∈ addresses ∧ cell.key ∈ names ∧
      ∃ nonce : NonceBytes, raw = P.d2Seal (stateKeyOf P keys cell.owner) nonce cell.value
        (slotOf P keys cell.owner cell.key).bytes ++ nonce.bytes
  | _, _ => False

/-- The chain state implements the map. -/
structure Implements (addresses : Set Address) (names : Set Bytes) (past : List ChainEvent)
    (state : ChainState) : Prop where
  /-- Every context is keyed as the key manager says. -/
  keyed : ∀ id ctx, state.contexts id = some ctx → Keyed P keys addresses ctx
  /-- Every slot in use holds its cell. -/
  holds : ∀ address ∈ addresses, ∀ key ∈ names,
    Holds P keys addresses names (state.store (address, slotOf P keys address key))
      (cellsAfter past (address, key))

variable {P mode keys} {addresses : Set Address} {names : Set Bytes}

/-- A call with consistent keys keeps the context keyed. -/
theorem keyed_of_call (event : CtxEvent) (step : event.Of (machine P mode)) (id : Nat)
    (within : (ChainOp.call id event.input).Within keys addresses names)
    (held : Keyed P keys addresses event.before) : Keyed P keys addresses event.after := by
  intro address pair active
  cases storageEffect_of step with
  | kept noSwitch noWrite same =>
    rw [same.contract] at active
    rw [same.d2, same.nextStorageNonce]
    exact held address pair active
  | cleared switch noWrite contract =>
    rw [contract] at active
    cases active
  | activated keyManager owner ownerKeys input returned switch noWrite contract d2
      nextStorageNonce =>
    rw [contract] at active
    cases active
    rw [input] at within
    have fixed : pair = keys (P.keccak address.bytes) := within.1 _ _ returned
    rw [d2, fixed]
    exact ⟨within.2 address rfl, rfl, _, nextStorageNonce⟩
  | wrote storageKey data nonce next d2 input noSwitch written usedNonce usedCipher incremented
      after =>
    rw [after] at active ⊢
    obtain ⟨member, cipher, _⟩ := held address pair active
    exact ⟨member, cipher, next, rfl⟩

theorem Keyed.of_active {ctx : ConfidentialCtx} (keyed : Keyed P keys addresses ctx)
    {address : Address} (active : activeAddress ctx = some address) :
    address ∈ addresses ∧ ctx.d2 = some ⟨stateKeyOf P keys address⟩ ∧
      ∃ nonce, ctx.nextStorageNonce = some nonce := by
  obtain ⟨⟨owner, pair⟩, contract, rfl⟩ := Option.map_eq_some_iff.mp active
  exact keyed owner pair contract

/-- The slot that a keyed context computes depends on the contract and the key alone. -/
theorem encryptStorageKey_of_cipher {ctx : ConfidentialCtx} {address : Address}
    (cipher : ctx.d2 = some ⟨stateKeyOf P keys address⟩) (key : Bytes) :
    ctx.encryptStorageKey P key = .ok (sealedKeyOf P keys address key) := by
  simp [ConfidentialCtx.encryptStorageKey, cipher, Outcome.unwrap, sealedKeyOf]

/-- What a storage write returns and leaves. -/
theorem encryptStorageValue_cases {ctx : ConfidentialCtx} {d2 : DeoxysII} {nonce : Nonce}
    (cipher : ctx.d2 = some d2) (usedNonce : ctx.nextStorageNonce = some nonce)
    (storageKey data : Bytes) :
    (∃ error, ctx.encryptStorageValue P storageKey data = (.err error, ctx)) ∨
    ∃ next, ctx.encryptStorageValue P storageKey data =
      (.ok (P.d2Seal d2.key nonce.current data storageKey ++ nonce.current.bytes),
        { ctx with nextStorageNonce := some next }) := by
  unfold ConfidentialCtx.encryptStorageValue
  rw [usedNonce, cipher]
  cases incremented : nonce.increment P with
  | error message => exact .inl ⟨.confidential message, by simp only [incremented]⟩
  | ok next => exact .inr ⟨next, by simp only [incremented]⟩

/-- Reading a sealed value with its nonce appended opens it under that nonce. -/
theorem decryptStorageValue_append {ctx : ConfidentialCtx} {d2 : DeoxysII}
    (cipher : ctx.d2 = some d2) (storageKey sealed : Bytes) (nonce : NonceBytes)
    (tagged : tagSize ≤ sealed.length) :
    ctx.decryptStorageValue P storageKey (sealed ++ nonce.bytes) =
      match P.d2Open d2.key nonce sealed storageKey with
      | some value => .ok value
      | none => .err (.confidential "invalid storage (decryption) key") := by
  have total : (sealed ++ nonce.bytes).length = sealed.length + nonceSize := by
    rw [List.length_append, nonce.length_eq]
  have offset : (sealed ++ nonce.bytes).length - nonceSize = sealed.length := by omega
  have guard : tagSize + nonceSize ≤ (sealed ++ nonce.bytes).length := by omega
  have nonceSlice : (slice (sealed ++ nonce.bytes) sealed.length (sealed ++ nonce.bytes).length :
      Outcome Error Bytes) = .ok nonce.bytes := by
    rw [slice_of_range (by omega) (Nat.le_refl _), List.take_length, List.drop_left' rfl]
  have sealedSlice : (slice (sealed ++ nonce.bytes) 0 sealed.length : Outcome Error Bytes) =
      .ok sealed := by
    rw [slice_of_range (Nat.zero_le _) (by omega), List.take_left' rfl, List.drop_zero]
  cases opened : P.d2Open d2.key nonce sealed storageKey <;>
    simp only [ConfidentialCtx.decryptStorageValue, Outcome.ensure, guard, decide_true, if_true,
      Outcome.ok_bind, offset, nonceSlice, sealedSlice, FixedBytes.copyFromSlice_bytes,
      Outcome.unwrap, cipher, Outcome.pure_eq_ok, opened]

/-- Different storage keys of a contract have different slots. -/
theorem IdealStorage.slot_injective (ideal : IdealStorage P keys addresses names)
    {address : Address} {key name : Bytes} (member : address ∈ addresses) (named : key ∈ names)
    (otherNamed : name ∈ names) (same : slotOf P keys address key = slotOf P keys address name) :
    key = name := by
  have sealed : sealedKeyOf P keys address key = sealedKeyOf P keys address name :=
    ideal.keccak_injective address member key named name otherNamed same
  -- Sealing under the fixed nonce is injective, because it can be opened.
  have opened := ideal.open_seal (stateKeyOf P keys address) (FixedBytes.filled nonceSize 0) key []
  have otherOpened :=
    ideal.open_seal (stateKeyOf P keys address) (FixedBytes.filled nonceSize 0) name []
  unfold sealedKeyOf at sealed
  rw [sealed, otherOpened] at opened
  exact (Option.some.inj opened).symm

/-- A held cell is read back where it was written and refused everywhere else. -/
theorem decryptStorageValue_holds (ideal : IdealStorage P keys addresses names)
    {ctx : ConfidentialCtx} {address : Address} (member : address ∈ addresses)
    (cipher : ctx.d2 = some ⟨stateKeyOf P keys address⟩) {key : Bytes} (named : key ∈ names)
    {raw : Bytes} {cell : Cell} (held : Holds P keys addresses names (some raw) (some cell)) :
    ctx.decryptStorageValue P (slotOf P keys address key).bytes raw =
      if (cell.owner, cell.key) = (address, key) then .ok cell.value
      else .err (.confidential "invalid storage (decryption) key") := by
  obtain ⟨ownerIn, keyIn, nonce, rfl⟩ := held
  rw [decryptStorageValue_append cipher _ _ nonce (by rw [ideal.seal_length]; omega)]
  by_cases same : (cell.owner, cell.key) = (address, key)
  · obtain ⟨rfl, rfl⟩ := Prod.mk.inj same
    rw [if_pos rfl, ideal.open_seal]
  · rw [if_neg same]
    have elsewhere : (stateKeyOf P keys address, slotOf P keys address key) ≠
        (stateKeyOf P keys cell.owner, slotOf P keys cell.owner cell.key) := by
      intro equal
      obtain ⟨sameKey, sameSlot⟩ := Prod.mk.inj equal
      obtain rfl := ideal.stateKey_injective address member cell.owner ownerIn sameKey
      obtain rfl := ideal.slot_injective member named keyIn sameSlot
      exact same rfl
    rw [ideal.open_other address member cell.owner ownerIn key named cell.key keyIn nonce
      cell.value elsewhere]

/-- The map after one more event. -/
theorem cellsAfter_snoc (past : List ChainEvent) (event : ChainEvent) :
    cellsAfter (past ++ [event]) = applyEvent (cellsAfter past) event := by
  simp [cellsAfter]

/-- Slots of different places of the given contracts and keys are different. -/
theorem IdealStorage.place_injective (ideal : IdealStorage P keys addresses names)
    {address other : Address} {key name : Bytes} (member : address ∈ addresses)
    (named : key ∈ names) (otherNamed : name ∈ names)
    (same : (address, slotOf P keys address key) = (other, slotOf P keys other name)) :
    (address, key) = (other, name) := by
  obtain ⟨rfl, slots⟩ := Prod.mk.inj same
  rw [ideal.slot_injective member named otherNamed slots]

/-- Writing a slot and the place it belongs to keeps every slot in step with the map. -/
theorem holds_update (ideal : IdealStorage P keys addresses names)
    {store : Address × H256 → Option Bytes} {cells : Cells}
    (held : ∀ address ∈ addresses, ∀ key ∈ names,
      Holds P keys addresses names (store (address, slotOf P keys address key))
        (cells (address, key)))
    (target : Address × Bytes) (named : target.2 ∈ names) {raw : Option Bytes}
    {cell : Option Cell} (fits : Holds P keys addresses names raw cell) :
    ∀ address ∈ addresses, ∀ key ∈ names,
      Holds P keys addresses names
        (Function.update store (target.1, slotOf P keys target.1 target.2) raw
          (address, slotOf P keys address key))
        (Function.update cells target cell (address, key)) := by
  intro address member key keyNamed
  by_cases here : (address, key) = target
  · subst here
    simpa using fits
  · have elsewhere : (address, slotOf P keys address key) ≠
        (target.1, slotOf P keys target.1 target.2) :=
      fun same => here (ideal.place_injective member keyNamed named same)
    rw [Function.update_of_ne elsewhere, Function.update_of_ne here]
    exact held address member key keyNamed

/-- Replacing one context by a keyed one keeps all contexts keyed. -/
theorem keyed_update {contexts : Nat → Option ConfidentialCtx}
    (keyed : ∀ id ctx, contexts id = some ctx → Keyed P keys addresses ctx) {id : Nat}
    {ctx : ConfidentialCtx} (fresh : Keyed P keys addresses ctx) :
    ∀ other found, Function.update contexts id (some ctx) other = some found →
      Keyed P keys addresses found := by
  intro other found lookup
  by_cases same : other = id
  · subst same
    rw [Function.update_self] at lookup
    obtain rfl := Option.some.inj lookup
    exact fresh
  · rw [Function.update_of_ne same] at lookup
    exact keyed other found lookup

/-- What a `put` of a keyed context does: it fails and changes nothing in the store, or it
stores the value sealed for its place. -/
theorem putValue_cases {state : ChainState} {id : Nat} {ctx : ConfidentialCtx}
    (found : state.contexts id = some ctx) {address : Address} {nonce : Nonce}
    (cipher : ctx.d2 = some ⟨stateKeyOf P keys address⟩)
    (usedNonce : ctx.nextStorageNonce = some nonce) (key value : Bytes) :
    (∃ error, putValue P state id ctx address key value = some (.stored (.error error), state)) ∨
    ∃ next, putValue P state id ctx address key value = some (.stored (.ok ()),
      ⟨Function.update state.contexts id (some { ctx with nextStorageNonce := some next }),
        Function.update state.store (address, slotOf P keys address key)
          (some (P.d2Seal (stateKeyOf P keys address) nonce.current value
            (slotOf P keys address key).bytes ++ nonce.current.bytes))⟩) := by
  have slot : P.keccak (sealedKeyOf P keys address key) = slotOf P keys address key := rfl
  unfold putValue
  simp only [encryptStorageKey_of_cipher cipher, slot]
  rcases encryptStorageValue_cases (P := P) cipher usedNonce (slotOf P keys address key).bytes
    value with ⟨error, result⟩ | ⟨next, result⟩
  · left
    have unchanged : Function.update state.contexts id (some ctx) = state.contexts := by
      rw [← found]
      exact Function.update_eq_self id state.contexts
    exact ⟨error, by simp only [result, unchanged]⟩
  · right
    exact ⟨next, by simp only [result]⟩

/-- A `get` of a keyed context reads the cell of its place. -/
theorem getValue_eq (ideal : IdealStorage P keys addresses names) {state : ChainState}
    {ctx : ConfidentialCtx} {address : Address} (member : address ∈ addresses)
    (cipher : ctx.d2 = some ⟨stateKeyOf P keys address⟩) {key : Bytes} (named : key ∈ names)
    {cell : Option Cell}
    (held : Holds P keys addresses names (state.store (address, slotOf P keys address key)) cell) :
    getValue P state ctx address key = some (.value (readCell (address, key) cell)) := by
  have slot : P.keccak (sealedKeyOf P keys address key) = slotOf P keys address key := rfl
  simp only [getValue, encryptStorageKey_of_cipher cipher, slot]
  cases found : state.store (address, slotOf P keys address key) with
  | none =>
    rw [found] at held
    cases cell with
    | none => rfl
    | some cell => exact held.elim
  | some raw =>
    rw [found] at held
    cases cell with
    | none => exact held.elim
    | some cell =>
      simp only [decryptStorageValue_holds ideal member cipher named held, readCell]
      by_cases here : (cell.owner, cell.key) = (address, key)
      · simp only [here, if_true]
      · simp only [here, if_false]

/-- Every operation within the given contracts and keys keeps the chain in step with the map. -/
theorem implements_step (ideal : IdealStorage P keys addresses names) (past : List ChainEvent)
    (event : ChainEvent) (step : event.Of (chainMachine P mode keys))
    (within : event.input.Within keys addresses names)
    (held : Implements P keys addresses names past event.before) :
    Implements P keys addresses names (past ++ [event]) event.after := by
  obtain ⟨before, op, output, after⟩ := event
  simp only [Event.Of, chainMachine] at step
  simp only at within held ⊢
  cases op with
  | newContext id prevBlockHash =>
    simp only [Option.some.injEq, Prod.mk.injEq] at step
    obtain ⟨rfl, rfl⟩ := step
    refine ⟨keyed_update held.keyed ?_, ?_⟩
    · intro address pair active
      simp [ConfidentialCtx.new] at active
    · rw [cellsAfter_snoc]
      exact held.holds
  | call id inner =>
    simp only [Option.bind_eq_bind, Option.bind_eq_some_iff, Option.some.injEq,
      Prod.mk.injEq] at step
    obtain ⟨ctx, found, ⟨result, next⟩, called, rfl, rfl⟩ := step
    refine ⟨keyed_update held.keyed ?_, ?_⟩
    · exact keyed_of_call ⟨ctx, inner, result, next⟩ called id within
        (held.keyed id ctx found)
    · rw [cellsAfter_snoc]
      exact held.holds
  | put id key value =>
    simp only [Option.bind_eq_bind, Option.bind_eq_some_iff] at step
    obtain ⟨ctx, found, address, active, answered⟩ := step
    have keyed := held.keyed id ctx found
    obtain ⟨member, cipher, nonce, usedNonce⟩ := keyed.of_active active
    rcases putValue_cases found cipher usedNonce key value with ⟨error, failed⟩ | ⟨next, written⟩
    · rw [failed] at answered
      cases answered
      refine ⟨held.keyed, ?_⟩
      rw [cellsAfter_snoc]
      exact held.holds
    · rw [written] at answered
      cases answered
      refine ⟨keyed_update held.keyed ?_, ?_⟩
      · intro owner pair contract
        obtain ⟨ownerIn, ownerCipher, _⟩ := keyed owner pair contract
        exact ⟨ownerIn, ownerCipher, next, rfl⟩
      · have placed (result : ChainState) :
            applyEvent (cellsAfter past) ⟨before, .put id key value, .stored (.ok ()), result⟩ =
              Function.update (cellsAfter past) (address, key) (some ⟨address, key, value⟩) := by
          simp [applyEvent, putAt, activeIn, found, active]
        rw [cellsAfter_snoc, placed]
        exact holds_update ideal held.holds (address, key) within
          ⟨member, within, nonce.current, rfl⟩
  | get id key =>
    simp only [Option.bind_eq_bind, Option.bind_eq_some_iff, Option.some.injEq,
      Prod.mk.injEq] at step
    obtain ⟨ctx, found, address, active, reply, answered, rfl, rfl⟩ := step
    refine ⟨held.keyed, ?_⟩
    rw [cellsAfter_snoc]
    exact held.holds
  | copy source target =>
    simp only [Option.some.injEq, Prod.mk.injEq] at step
    obtain ⟨rfl, rfl⟩ := step
    obtain ⟨sourceIn, sourceNamed, targetIn, targetNamed⟩ := within
    refine ⟨held.keyed, ?_⟩
    rw [cellsAfter_snoc]
    exact holds_update ideal held.holds target targetNamed
      (held.holds source.1 sourceIn source.2 sourceNamed)

/-- One event of the search for the last `put` to a place. -/
def laterPut (place : Address × Bytes) (found : Option Bytes) (event : ChainEvent) :
    Option Bytes :=
  match putAt event with
  | some (target, value) => if target = place then some value else found
  | none => found

/-- The value of the last successful `put` to a place. -/
def lastPut (past : List ChainEvent) (place : Address × Bytes) : Option Bytes :=
  past.foldl (laterPut place) none

/-- The event moved a raw value. -/
def isCopy (event : ChainEvent) : Bool :=
  match event.input with
  | .copy _ _ => true
  | _ => false

/-- The event changed what a place holds. -/
def Touches (event : ChainEvent) (place : Address × Bytes) : Prop :=
  (∃ source, event.input = .copy source place) ∨ ∃ value, putAt event = some (place, value)

/-- A copy moves a cell. -/
theorem applyEvent_of_copy {cells : Cells} {event : ChainEvent} {source target : Address × Bytes}
    (input : event.input = .copy source target) :
    applyEvent cells event = Function.update cells target (cells source) := by
  simp only [applyEvent, input]

/-- Any other event writes the place of a successful `put`, if it is one. -/
theorem applyEvent_of_plain {cells : Cells} {event : ChainEvent} (plain : isCopy event = false) :
    applyEvent cells event =
      match putAt event with
      | some (place, value) => Function.update cells place (some ⟨place.1, place.2, value⟩)
      | none => cells := by
  obtain ⟨before, op, output, after⟩ := event
  cases op with
  | copy source target => cases plain
  | newContext id prevBlockHash => rfl
  | call id inner => rfl
  | put id key value => rfl
  | get id key => rfl

/-- An event that does not touch a place leaves its cell. -/
theorem applyEvent_of_not_touches {cells : Cells} {event : ChainEvent} {place : Address × Bytes}
    (untouched : ¬Touches event place) : applyEvent cells event place = cells place := by
  by_cases copies : isCopy event = false
  · rw [applyEvent_of_plain copies]
    cases placed : putAt event with
    | none => rfl
    | some written =>
      obtain ⟨target, value⟩ := written
      have elsewhere : place ≠ target := by
        rintro rfl
        exact untouched (.inr ⟨value, placed⟩)
      exact Function.update_of_ne elsewhere _ _
  · unfold isCopy at copies
    split at copies
    · rename_i source target input
      have elsewhere : place ≠ target := by
        rintro rfl
        exact untouched (.inl ⟨source, input⟩)
      rw [applyEvent_of_copy input, Function.update_of_ne elsewhere]
    · exact absurd rfl copies

/-- Events that do not touch a place leave its cell. -/
theorem cellsAfter_of_not_touches (past events : List ChainEvent) {place : Address × Bytes}
    (untouched : ∀ event ∈ events, ¬Touches event place) :
    cellsAfter (past ++ events) place = cellsAfter past place := by
  induction events generalizing past with
  | nil => simp
  | cons event events ih =>
    have rest := ih (past ++ [event]) fun later member =>
      untouched later (List.mem_cons_of_mem _ member)
    rw [List.append_assoc, List.singleton_append] at rest
    rw [rest, cellsAfter_snoc]
    exact applyEvent_of_not_touches (untouched event List.mem_cons_self)

/-- Without copies the map is the plain one: every place holds its last `put`. -/
theorem cellsAfter_of_no_copy (past : List ChainEvent)
    (noCopy : ∀ event ∈ past, isCopy event = false) (place : Address × Bytes) :
    cellsAfter past place = (lastPut past place).map fun value => ⟨place.1, place.2, value⟩ := by
  induction past using List.reverseRecOn with
  | nil => rfl
  | append_singleton past event ih =>
    have before := ih fun earlier member => noCopy earlier (List.mem_append_left _ member)
    have plain := noCopy event (by simp)
    have found : lastPut (past ++ [event]) place = laterPut place (lastPut past place) event := by
      simp [lastPut]
    rw [cellsAfter_snoc, found, applyEvent_of_plain plain]
    cases placed : putAt event with
    | none => simpa [laterPut, placed] using before
    | some written =>
      obtain ⟨target, value⟩ := written
      by_cases here : target = place
      · subst here
        simp [laterPut, placed]
      · simp only [Function.update_of_ne (Ne.symm here)]
        simpa [laterPut, placed, here] using before

/-- The chain is in step with the map after every history. -/
theorem implements_run (mode : OverflowMode) (ideal : IdealStorage P keys addresses names)
    (ops : List ChainOp) (within : ∀ op ∈ ops, op.Within keys addresses names) :
    Implements P keys addresses names (run (chainMachine P mode keys) .empty ops)
      (lastState .empty (run (chainMachine P mode keys) .empty ops)) := by
  have initial : Implements P keys addresses names [] .empty := by
    constructor
    · intro id ctx found
      cases found
    · intro address _ key _
      trivial
  have goodRun : ∀ event ∈ run (chainMachine P mode keys) .empty ops,
      event.input.Within keys addresses names :=
    fun event member => within _ (input_mem_of_mem_run member)
  exact (run_history (fun event => event.input.Within keys addresses names)
    (Implements P keys addresses names) (implements_step ideal) [] initial goodRun).2

/-- A `get` answers as the map says. -/
theorem get_of_implements (mode : OverflowMode) (ideal : IdealStorage P keys addresses names)
    {past : List ChainEvent} {state : ChainState}
    (held : Implements P keys addresses names past state) {id : Nat} {key : Bytes}
    (named : key ∈ names) {address : Address}
    (active : activeIn state id = some address) :
    chainMachine P mode keys state (.get id key) =
      some (.value (readCell (address, key) (cellsAfter past (address, key))), state) := by
  obtain ⟨ctx, found, owner⟩ := Option.bind_eq_some_iff.mp active
  obtain ⟨member, cipher, _⟩ := (held.keyed id ctx found).of_active owner
  have read := getValue_eq ideal member cipher named (held.holds address member key named)
  simp only [chainMachine, found, owner, read, Option.bind_eq_bind, Option.bind_some]

/-- A `put` fails and changes nothing, or stores its value and leaves every contract active. -/
theorem put_of_implements (mode : OverflowMode) {past : List ChainEvent} {state : ChainState}
    (held : Implements P keys addresses names past state) {id : Nat} {address : Address}
    (active : activeIn state id = some address) (key value : Bytes) :
    (∃ error, chainMachine P mode keys state (.put id key value) =
        some (.stored (.error error), state)) ∨
      ∃ after, chainMachine P mode keys state (.put id key value) =
          some (.stored (.ok ()), after) ∧
        ∀ other, activeIn after other = activeIn state other := by
  obtain ⟨ctx, found, owner⟩ := Option.bind_eq_some_iff.mp active
  obtain ⟨_, cipher, nonce, usedNonce⟩ := (held.keyed id ctx found).of_active owner
  simp only [chainMachine, found, owner, Option.bind_eq_bind, Option.bind_some]
  rcases putValue_cases found cipher usedNonce key value with ⟨error, failed⟩ | ⟨next, written⟩
  · exact .inl ⟨error, failed⟩
  · refine .inr ⟨_, written, ?_⟩
    intro other
    by_cases same : other = id
    · subst same
      simp [activeIn, activeAddress, found]
    · simp [activeIn, Function.update_of_ne same]

/-- A `put` touches no other place than its own. -/
theorem not_touches_of_put {state after : ChainState} {id : Nat} {key value : Bytes}
    {reply : ChainReply} {address : Address} (active : activeIn state id = some address)
    {place : Address × Bytes} (elsewhere : place ≠ (address, key)) :
    ¬Touches ⟨state, .put id key value, reply, after⟩ place := by
  rintro (⟨source, copied⟩ | ⟨written, placed⟩)
  · cases copied
  · unfold putAt at placed
    split at placed
    · rename_i input _
      cases input
      rw [active] at placed
      cases placed
      exact elsewhere rfl
    · cases placed

/-- Confidential storage refines a plain map. After every history of blocks, switches, writes and
reads, with any state it leaves:

* `get` returns the value of the last successful `put` to the same contract and key;
* a `put` that fails changes nothing, and one that succeeds changes no other place;
* a raw value that was copied from another place is refused, until its place is written again. -/
theorem storage_refines_map (ideal : IdealStorage P keys addresses names) (ops : List ChainOp)
    (within : ∀ op ∈ ops, op.Within keys addresses names) (events : List ChainEvent)
    (ran : run (chainMachine P mode keys) .empty ops = events) (state : ChainState)
    (reached : lastState .empty events = state) (id : Nat) (address : Address)
    (active : activeIn state id = some address) (key : Bytes) (named : key ∈ names) :
    ((∀ past ∈ events, isCopy past = false) →
      chainMachine P mode keys state (.get id key) =
        some (.value (.ok (lastPut events (address, key))), state)) ∧
    (∀ value,
      (∃ error, chainMachine P mode keys state (.put id key value) =
        some (.stored (.error error), state)) ∨
      ∃ after, chainMachine P mode keys state (.put id key value) =
          some (.stored (.ok ()), after) ∧
        ∀ other owner name, activeIn state other = some owner → name ∈ names →
          (owner, name) ≠ (address, key) →
          ∃ reply, chainMachine P mode keys state (.get other name) = some (reply, state) ∧
            chainMachine P mode keys after (.get other name) = some (reply, after)) ∧
    (∀ earlier copied later source, events = earlier ++ copied :: later →
      (∀ past ∈ earlier, isCopy past = false) → copied.input = .copy source (address, key) →
      source ≠ (address, key) → (lastPut earlier source).isSome →
      (∀ event ∈ later, ¬Touches event (address, key)) →
      ∃ error, chainMachine P mode keys state (.get id key) =
        some (.value (.error error), state)) := by
  subst ran reached
  have held := implements_run mode ideal ops within
  have read := get_of_implements mode ideal held named active
  refine ⟨?_, ?_, ?_⟩
  · intro noCopy
    rw [read, cellsAfter_of_no_copy _ noCopy]
    cases lastPut (run (chainMachine P mode keys) .empty ops) (address, key) with
    | none => rfl
    | some value => simp [readCell]
  · intro value
    rcases put_of_implements mode held active key value with failed | ⟨after, written, sameActive⟩
    · exact .inl failed
    · refine .inr ⟨after, written, ?_⟩
      intro other owner name otherActive otherNamed elsewhere
      have heldAfter := implements_step ideal _ ⟨_, _, _, after⟩ written named held
      have activeAfter : activeIn after other = some owner := by rw [sameActive, otherActive]
      have readAfter := get_of_implements mode ideal heldAfter otherNamed activeAfter
      rw [cellsAfter_snoc, applyEvent_of_not_touches (not_touches_of_put active elsewhere)]
        at readAfter
      exact ⟨_, get_of_implements mode ideal held otherNamed otherActive, readAfter⟩
  · intro earlier copied later source split noCopy input apart written untouched
    obtain ⟨value, last⟩ := Option.isSome_iff_exists.mp written
    have moved : cellsAfter (run (chainMachine P mode keys) .empty ops) (address, key) =
        some ⟨source.1, source.2, value⟩ := by
      rw [split, ← List.singleton_append, ← List.append_assoc,
        cellsAfter_of_not_touches _ _ untouched, cellsAfter_snoc, applyEvent_of_copy input,
        Function.update_self, cellsAfter_of_no_copy _ noCopy, last, Option.map_some]
    refine ⟨.confidential "invalid storage (decryption) key", ?_⟩
    rw [read, moved]
    simp [readCell, apart]

/-- Equal transparent tags have the same start of the additional data and of the key. -/
theorem sampleTag_inj {key other : Bytes} {nonce : NonceBytes} {aad otherAad : Bytes}
    (same : sampleTag key nonce aad = sampleTag other nonce otherAad) :
    (padTo 4 aad).bytes = (padTo 4 otherAad).bytes ∧
      (padTo 4 key).bytes = (padTo 4 other).bytes := by
  have start (k a : Bytes) : (sampleTag k nonce a).bytes.take 8 =
      (padTo 4 a).bytes ++ (padTo 4 k).bytes := by
    have width : ((padTo 4 a).bytes ++ (padTo 4 k).bytes).length = 8 := by
      simp [FixedBytes.length_eq]
    simp only [sampleTag, padTo, List.append_assoc, List.take_take]
    rw [← List.append_assoc]
    exact List.take_left' width
  have both : (padTo 4 aad).bytes ++ (padTo 4 key).bytes =
      (padTo 4 otherAad).bytes ++ (padTo 4 other).bytes := by
    rw [← start, ← start, same]
  exact List.append_inj both (by simp [FixedBytes.length_eq])

/-- Two contracts and two storage keys of the transparent cipher. -/
def sampleAddresses : List Address := [FixedBytes.filled 20 1, FixedBytes.filled 20 2]

/-- Two storage keys. -/
def sampleNames : List Bytes := [[1], [2]]

/-- The transparent cipher satisfies the assumed laws on the two contracts and keys. -/
theorem sample_idealStorage : IdealStorage samplePrimitives sampleKeys
    {address | address ∈ sampleAddresses} {name | name ∈ sampleNames} where
  open_seal key nonce message aad := by
    show sampleOpen _ _ (message ++ _) _ = _
    rw [sampleOpen_append, if_pos rfl]
  seal_length key nonce message aad := by
    show (message ++ (sampleTag key.bytes nonce aad).bytes).length = _
    rw [List.length_append, FixedBytes.length_eq]
  open_other := by
    intro address member other otherMember key named name otherNamed nonce message elsewhere
    show sampleOpen _ _ (message ++ _) _ = _
    rw [sampleOpen_append, if_neg]
    intro same
    obtain ⟨slots, stateKeys⟩ := sampleTag_inj same
    have distinct : ∀ address ∈ sampleAddresses, ∀ other ∈ sampleAddresses,
        ∀ key ∈ sampleNames, ∀ name ∈ sampleNames,
        (padTo 4 (slotOf samplePrimitives sampleKeys other name).bytes).bytes =
            (padTo 4 (slotOf samplePrimitives sampleKeys address key).bytes).bytes →
          (padTo 4 (stateKeyOf samplePrimitives sampleKeys other).bytes).bytes =
            (padTo 4 (stateKeyOf samplePrimitives sampleKeys address).bytes).bytes →
          (stateKeyOf samplePrimitives sampleKeys address,
              slotOf samplePrimitives sampleKeys address key) =
            (stateKeyOf samplePrimitives sampleKeys other,
              slotOf samplePrimitives sampleKeys other name) := by
      decide
    exact elsewhere
      (distinct address member other otherMember key named name otherNamed slots stateKeys)
  keccak_injective := by
    show ∀ address ∈ sampleAddresses, ∀ key ∈ sampleNames, ∀ name ∈ sampleNames, _ → _
    decide
  stateKey_injective := by
    show ∀ address ∈ sampleAddresses, ∀ other ∈ sampleAddresses, _ → _
    decide

/-- One block activates a contract and writes an empty value; the next block activates it. -/
def writeThenNextBlock : List ChainOp :=
  [.newContext 0 (FixedBytes.filled 32 0),
    .call 0 (.activate (fun id => .ok (sampleKeys id)) (some (FixedBytes.filled 20 1))),
    .put 0 [1] [],
    .newContext 1 (FixedBytes.filled 32 7),
    .call 1 (.activate (fun id => .ok (sampleKeys id)) (some (FixedBytes.filled 20 1)))]

/-- After that the raw value is moved to another storage key. -/
def writeThenMove : List ChainOp :=
  writeThenNextBlock ++ [.copy (FixedBytes.filled 20 1, [1]) (FixedBytes.filled 20 1, [2])]

theorem writeThenMove_within : ∀ op ∈ writeThenMove, op.Within sampleKeys
    {address | address ∈ sampleAddresses} {name | name ∈ sampleNames} := by
  have honest (id : KeyPairId) (pair : KeyPair)
      (returned : (Except.ok (sampleKeys id) : Except String KeyPair) = .ok pair) :
      pair = sampleKeys id := (Except.ok.inj returned).symm
  have listed (a : Address) (same : some (FixedBytes.filled 20 1) = some a) :
      a ∈ sampleAddresses := by
    cases same
    decide
  intro op member
  simp only [writeThenMove, writeThenNextBlock, List.cons_append, List.nil_append, List.mem_cons,
    List.not_mem_nil, or_false] at member
  rcases member with rfl | rfl | rfl | rfl | rfl | rfl
  · trivial
  · exact ⟨honest, listed⟩
  · show [1] ∈ sampleNames
    decide
  · trivial
  · exact ⟨honest, listed⟩
  · exact ⟨listed _ rfl, by decide, listed _ rfl, by decide⟩

/-- The empty value is read back in the next block, and is refused where it was moved to. -/
theorem empty_value_read_back :
    (∃ state, lastState .empty
          (run (chainMachine samplePrimitives .checked sampleKeys) .empty writeThenNextBlock) =
        state ∧
      chainMachine samplePrimitives .checked sampleKeys state (.get 1 [1]) =
        some (.value (.ok (some [])), state)) ∧
    ∃ state error, lastState .empty
          (run (chainMachine samplePrimitives .checked sampleKeys) .empty writeThenMove) =
        state ∧
      chainMachine samplePrimitives .checked sampleKeys state (.get 1 [2]) =
        some (.value (.error error), state) := by
  constructor
  · refine ⟨_, rfl, ?_⟩
    exact (storage_refines_map sample_idealStorage writeThenNextBlock
      (fun op member => writeThenMove_within op (List.mem_append_left _ member)) _ rfl _ rfl 1
      (FixedBytes.filled 20 1) rfl [1] (by decide)).1 (by decide)
  · obtain ⟨error, refused⟩ := (storage_refines_map sample_idealStorage writeThenMove
      writeThenMove_within _ rfl _ rfl 1 (FixedBytes.filled 20 1) rfl [2] (by decide)).2.2
      (run (chainMachine samplePrimitives .checked sampleKeys) .empty writeThenNextBlock) _ []
      (FixedBytes.filled 20 1, [1]) rfl (by decide) rfl (by decide) rfl (by simp)
    exact ⟨_, error, rfl, refused⟩

end Ethwasi.Confidential
