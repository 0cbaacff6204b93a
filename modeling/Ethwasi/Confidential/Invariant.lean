import Ethwasi.Confidential.Session

/-!
# The representation invariant of a context

Five fields of a context are optional and are set by different calls. They move in two groups:
the contract with the cipher and the nonce of its storage, and the peer with the next nonce.
`WellFormed` says so, and says what the first group holds for the contract that is active. The
calls that unwrap a field are safe wherever the invariant holds and a contract is active.
-/

namespace Ethwasi.Confidential

open Ethwasi.Rust Ethwasi.Transition

variable (P : Primitives) (mode : OverflowMode)

/-- The key manager returned the keys to a call that activated the contract. -/
def KeysReturned (past : List CtxEvent) (address : Address) (keys : KeyPair) : Prop :=
  ∃ event ∈ past, ∃ keyManager, event.input = .activate keyManager (some address) ∧
    keyManager (P.keccak address.bytes) = .ok keys

/-- The fields of a context fit together, after the given events. -/
structure WellFormed (prevBlockHash : H256) (past : List CtxEvent) (ctx : ConfidentialCtx) :
    Prop where
  /-- The previous block never changes. -/
  block : ctx.prevBlockHash = prevBlockHash
  /-- The storage cipher is keyed with the state key of the contract. -/
  cipher : ctx.d2 = ctx.contract.map fun active => ⟨active.2.stateKey⟩
  /-- The tag of the storage nonce is that of the block and the contract. -/
  storageNonce : (ctx.nextStorageNonce.map fun nonce => tagOf nonce.current) =
    ctx.contract.map fun active =>
      tagOf (ConfidentialCtx.storageNonceBase P prevBlockHash active.1)
  /-- There is a next nonce exactly when there is a peer. -/
  session : ctx.nextNonce.isSome = ctx.peerPublicKey.isSome
  /-- A context that was not activated has neither contract nor peer. -/
  inactive : ctx.activated = false → ctx.contract = none ∧ ctx.peerPublicKey = none
  /-- The keys of the contract come from the key manager. -/
  keys : ∀ address keys, ctx.contract = some (address, keys) → KeysReturned P past address keys

variable {P mode}

theorem wellFormed_new (prevBlockHash : H256) :
    WellFormed P prevBlockHash [] (.new prevBlockHash) :=
  ⟨rfl, rfl, rfl, rfl, fun _ => ⟨rfl, rfl⟩, nofun⟩

theorem KeysReturned.snoc {past : List CtxEvent} {address : Address} {keys : KeyPair}
    (returned : KeysReturned P past address keys) (event : CtxEvent) :
    KeysReturned P (past ++ [event]) address keys := by
  obtain ⟨earlier, member, rest⟩ := returned
  exact ⟨earlier, List.mem_append_left _ member, rest⟩

/-- `activate` sets the flag before it can fail. -/
theorem activate_activated (ctx : ConfidentialCtx) (keyManager : KeyManager)
    (contract : Option Address) : (ctx.activate P keyManager contract).2.activated = true := by
  cases contract with
  | none => rfl
  | some address =>
    cases returned : keyManager (P.keccak address.bytes) with
    | error message => simp [ConfidentialCtx.activate, returned]
    | ok keys => simp [ConfidentialCtx.activate, ConfidentialCtx.swapContract, returned]

/-- A call that leaves the flag unset is `deactivate`, or found it unset and is no `activate`. -/
theorem inactive_after {event : CtxEvent} (step : event.Of (machine P mode))
    (inactive : event.after.activated = false) :
    event.after = event.before.deactivate ∨
      event.before.activated = false ∧
        ∀ keyManager contract, event.input ≠ .activate keyManager contract := by
  obtain ⟨before, op, output, after⟩ := event
  cases op with
  | activate keyManager contract =>
    have answered : answer .switched (before.activate P keyManager contract) =
        some (output, after) := step
    obtain ⟨rfl, _⟩ := answer_eq_some answered
    simp [activate_activated] at inactive
  | deactivate =>
    simp only [Event.Of, machine, Option.some.injEq, Prod.mk.injEq] at step
    exact .inl step.2.symm
  | encryptSession data =>
    have answered : answer .bytes (before.encryptSession P data) = some (output, after) := step
    obtain ⟨rfl, _⟩ := answer_eq_some answered
    rcases @encryptSession_cases P before data with
      ⟨error, result⟩ | ⟨payload, next, result, sends⟩
    · rw [result] at inactive
      exact .inr ⟨inactive, fun _ _ => by simp⟩
    · obtain ⟨_, _, _, _, _, _, _, _, _, _, _, _, rfl⟩ := sends
      rw [result] at inactive
      exact .inr ⟨inactive, fun _ _ => by simp⟩
  | decryptSession payload =>
    have answered : answer .payload (before.decryptSession P mode payload) =
        some (output, after) := step
    obtain ⟨rfl, _⟩ := answer_eq_some answered
    rcases @decryptSession_cases P mode before payload with
      ⟨cause, result⟩ | ⟨error, result⟩ | ⟨_, _, decryption, _, _, result⟩
    all_goals
      rw [result] at inactive
      exact .inr ⟨inactive, fun _ _ => by simp⟩
  | encryptStorageKey data =>
    have answered : answer .bytes (before.encryptStorageKey P data, before) =
        some (output, after) := step
    obtain ⟨rfl, _⟩ := answer_eq_some answered
    exact .inr ⟨inactive, fun _ _ => by simp⟩
  | encryptStorageValue storageKey data =>
    have answered : answer .bytes (before.encryptStorageValue P storageKey data) =
        some (output, after) := step
    obtain ⟨rfl, _⟩ := answer_eq_some answered
    obtain ⟨nonce, frame⟩ := @encryptStorageValue_frame P before storageKey data
    rw [frame] at inactive
    exact .inr ⟨inactive, fun _ _ => by simp⟩
  | decryptStorageValue storageKey data =>
    have answered : answer .bytes (before.decryptStorageValue P storageKey data, before) =
        some (output, after) := step
    obtain ⟨rfl, _⟩ := answer_eq_some answered
    exact .inr ⟨inactive, fun _ _ => by simp⟩

section Step

variable {prevBlockHash : H256} {past : List CtxEvent} {event : CtxEvent}

/-- Every call keeps the storage cipher and the storage nonce in step with the contract. -/
theorem storage_step (step : event.Of (machine P mode))
    (held : WellFormed P prevBlockHash past event.before) :
    event.after.prevBlockHash = prevBlockHash ∧
      (event.after.d2 = event.after.contract.map fun active => ⟨active.2.stateKey⟩) ∧
      (event.after.nextStorageNonce.map fun nonce => tagOf nonce.current) =
        event.after.contract.map fun active =>
          tagOf (ConfidentialCtx.storageNonceBase P prevBlockHash active.1) := by
  cases storageEffect_of step with
  | kept _ _ same =>
    rw [same.prevBlockHash, same.d2, same.nextStorageNonce, same.contract]
    exact ⟨held.block, held.cipher, held.storageNonce⟩
  | cleared _ _ contract d2 nextStorageNonce block =>
    rw [block, contract, d2, nextStorageNonce]
    exact ⟨held.block, rfl, rfl⟩
  | activated _ _ _ _ _ _ _ contract d2 nextStorageNonce block =>
    rw [block, contract, d2, nextStorageNonce, held.block]
    exact ⟨rfl, rfl, rfl⟩
  | wrote _ _ nonce next _ _ _ _ used _ incremented after =>
    obtain ⟨_, rfl⟩ := (Nonce.increment_eq_ok_iff P).mp incremented
    have tags := held.storageNonce
    rw [used] at tags
    rw [after]
    refine ⟨held.block, held.cipher, ?_⟩
    simpa using tags

/-- Every call leaves a contract whose keys come from the key manager. -/
theorem keys_step (step : event.Of (machine P mode))
    (held : WellFormed P prevBlockHash past event.before) (address : Address) (keys : KeyPair)
    (contract : event.after.contract = some (address, keys)) :
    KeysReturned P (past ++ [event]) address keys := by
  cases storageEffect_of step with
  | kept _ _ same => exact (held.keys address keys (same.contract ▸ contract)).snoc event
  | cleared _ _ cleared =>
    rw [cleared] at contract
    cases contract
  | activated keyManager owner ownerKeys input returned _ _ activated =>
    rw [activated] at contract
    cases contract
    exact ⟨event, by simp, keyManager, input, returned⟩
  | wrote _ _ _ _ _ _ _ _ _ _ _ after =>
    rw [after] at contract
    exact (held.keys address keys contract).snoc event

/-- Every call sets or clears the peer and the next nonce together. -/
theorem session_step (step : event.Of (machine P mode))
    (held : WellFormed P prevBlockHash past event.before) :
    event.after.nextNonce.isSome = event.after.peerPublicKey.isSome := by
  cases sessionEffect_of step with
  | kept _ _ peer nextNonce => rw [peer, nextNonce, held.session]
  | sent _ _ _ _ sends =>
    obtain ⟨_, _, _, _, _, _, _, receiver, _, _, _, _, after⟩ := sends
    simp [after, receiver]
  | opened _ _ _ _ _ _ _ _ after => simp [after]
  | closed _ after =>
    rw [after]
    rfl

/-- A call that leaves the flag unset leaves neither contract nor peer. -/
theorem inactive_step (step : event.Of (machine P mode))
    (held : WellFormed P prevBlockHash past event.before)
    (inactive : event.after.activated = false) :
    event.after.contract = none ∧ event.after.peerPublicKey = none := by
  rcases inactive_after step inactive with after | ⟨before, noActivate⟩
  · rw [after]
    exact ⟨rfl, rfl⟩
  · obtain ⟨noContract, noPeer⟩ := held.inactive before
    constructor
    · cases storageEffect_of step with
      | kept _ _ same => rw [same.contract, noContract]
      | cleared _ _ contract => exact contract
      | activated keyManager address _ input => exact absurd input (noActivate _ _)
      | wrote _ _ _ _ _ _ _ _ _ _ _ after => rw [after, noContract]
    · cases sessionEffect_of step with
      | kept _ _ peer => rw [peer, noPeer]
      | sent _ _ _ _ sends =>
        obtain ⟨_, _, _, _, _, _, contract⟩ := sends
        rw [noContract] at contract
        cases contract
      | opened _ _ _ _ _ contract =>
        rw [noContract] at contract
        cases contract
      | closed _ after =>
        rw [after]
        rfl

end Step

/-- Every call keeps a context well formed. -/
theorem wellFormed_step {prevBlockHash : H256} (past : List CtxEvent) (event : CtxEvent)
    (step : event.Of (machine P mode)) (held : WellFormed P prevBlockHash past event.before) :
    WellFormed P prevBlockHash (past ++ [event]) event.after := by
  obtain ⟨block, cipher, storageNonce⟩ := storage_step step held
  exact ⟨block, cipher, storageNonce, session_step step held, inactive_step step held,
    keys_step step held⟩

/-- A context is well formed after every sequence of calls. -/
theorem wellFormed_run (prevBlockHash : H256) (ops : List Op) :
    WellFormed P prevBlockHash (run (machine P mode) (.new prevBlockHash) ops)
      (lastState (.new prevBlockHash) (run (machine P mode) (.new prevBlockHash) ops)) :=
  (run_history_always (WellFormed P prevBlockHash) wellFormed_step
    (wellFormed_new prevBlockHash)).2

section Unwraps

/-- Neither framing nor decryption unwraps anything. -/
theorem decrypt_ne_unwrapFailed (data : Bytes) (secretKey : PrivateKey) :
    decrypt P mode (some data) secretKey ≠ .panic .unwrapFailed := by
  have split : splitEncryptedPayload mode data ≠ .panic .unwrapFailed := by
    by_cases long : 63 ≤ data.length
    · rw [split_of_long long]
      simp [splitBody, Outcome.bind_eq_panic, usizeAdd_ne_unwrapFailed, slice_ne_unwrapFailed,
        FixedBytes.copyFromSlice_ne_unwrapFailed, Outcome.ensure_ne_panic]
    · simp [split_of_short (Nat.lt_of_not_le long)]
  have opens (nonce : NonceBytes) (cipher aad : Bytes) (peer : PublicKey) :
      (Outcome.ofExcept (P.boxOpen nonce cipher aad peer secretKey)).mapErr
        (fun _ => "payload open failed") ≠ .panic .unwrapFailed := by
    cases P.boxOpen nonce cipher aad peer secretKey <;> simp [Outcome.ofExcept, Outcome.mapErr]
  simp [decrypt, Outcome.bind_eq_panic, split, opens]

variable (P mode)

/-- The call panics in an `unwrap` or `expect`. -/
def UnwrapFails (ctx : ConfidentialCtx) : Op → Prop
  | .activate keyManager contract =>
    (ctx.activate P keyManager contract).1 = .panic .unwrapFailed
  | .deactivate => False
  | .encryptSession data => (ctx.encryptSession P data).1 = .panic .unwrapFailed
  | .decryptSession payload => (ctx.decryptSession P mode payload).1 = .panic .unwrapFailed
  | .encryptStorageKey data => ctx.encryptStorageKey P data = .panic .unwrapFailed
  | .encryptStorageValue storageKey data =>
    (ctx.encryptStorageValue P storageKey data).1 = .panic .unwrapFailed
  | .decryptStorageValue storageKey data =>
    ctx.decryptStorageValue P storageKey data = .panic .unwrapFailed

variable {P mode}

/-- `activate` returns. -/
theorem activate_ne_panic (ctx : ConfidentialCtx) (keyManager : KeyManager)
    (contract : Option Address) (cause : Panic) :
    (ctx.activate P keyManager contract).1 ≠ .panic cause := by
  cases contract with
  | none => nofun
  | some address =>
    cases returned : keyManager (P.keccak address.bytes) with
    | error message => simp [ConfidentialCtx.activate, returned]
    | ok keys => simp [ConfidentialCtx.activate, returned]

/-- With a contract, opening a session message unwraps only what is there. -/
theorem decryptSession_ne_unwrapFailed {ctx : ConfidentialCtx} {address : Address} {keys : KeyPair}
    (contract : ctx.contract = some (address, keys)) (payload : Bytes) :
    (ctx.decryptSession P mode payload).1 ≠ .panic .unwrapFailed := by
  have decryption := @decrypt_ne_unwrapFailed P mode payload keys.inputKeypair.sk
  cases result : decrypt P mode (some payload) keys.inputKeypair.sk with
  | panic cause =>
    rw [result] at decryption
    simpa [ConfidentialCtx.decryptSession, contract, result] using decryption
  | err message => simp [ConfidentialCtx.decryptSession, contract, result]
  | ok opened =>
    cases incremented : opened.nonce.increment P with
    | error message => simp [ConfidentialCtx.decryptSession, contract, result, incremented]
    | ok next => simp [ConfidentialCtx.decryptSession, contract, result, incremented]

/-- With a cipher and a storage nonce, a storage write returns. -/
theorem encryptStorageValue_ne_unwrapFailed {ctx : ConfidentialCtx} {d2 : DeoxysII} {nonce : Nonce}
    (cipher : ctx.d2 = some d2) (next : ctx.nextStorageNonce = some nonce)
    (storageKey data : Bytes) :
    (ctx.encryptStorageValue P storageKey data).1 ≠ .panic .unwrapFailed := by
  cases incremented : nonce.increment P with
  | error message => simp [ConfidentialCtx.encryptStorageValue, cipher, next, incremented]
  | ok advanced => simp [ConfidentialCtx.encryptStorageValue, cipher, next, incremented]

/-- With a cipher, a storage read unwraps only what is there. -/
theorem decryptStorageValue_ne_unwrapFailed {ctx : ConfidentialCtx} {d2 : DeoxysII}
    (cipher : ctx.d2 = some d2) (storageKey data : Bytes) :
    ctx.decryptStorageValue P storageKey data ≠ .panic .unwrapFailed := by
  intro failed
  simp only [ConfidentialCtx.decryptStorageValue, Outcome.bind_eq_panic, Outcome.unwrap, cipher,
    Outcome.ensure_ne_panic, slice_ne_unwrapFailed, FixedBytes.copyFromSlice_ne_unwrapFailed,
    reduceCtorEq, false_or] at failed
  obtain ⟨_, _, _, _, nonce, _, sealed, _, _, ⟨rfl⟩, failed⟩ := failed
  cases opened : P.d2Open d2.key nonce sealed storageKey with
  | none =>
    rw [opened] at failed
    cases failed
  | some value =>
    rw [opened] at failed
    cases failed

/-- In a well-formed context with a contract nothing is unwrapped that is not there. -/
theorem WellFormed.not_unwrapFails {prevBlockHash : H256} {past : List CtxEvent}
    {ctx : ConfidentialCtx} (held : WellFormed P prevBlockHash past ctx)
    (encrypting : ctx.isEncrypting = true) (op : Op) : ¬UnwrapFails P mode ctx op := by
  have hasContract : ctx.contract.isSome = true := by
    simp only [ConfidentialCtx.isEncrypting, Bool.and_eq_true] at encrypting
    exact encrypting.2
  obtain ⟨⟨address, keys⟩, contract⟩ := Option.isSome_iff_exists.mp hasContract
  have cipher : ctx.d2 = some ⟨keys.stateKey⟩ := by simp [held.cipher, contract]
  obtain ⟨nonce, next, _⟩ : ∃ nonce, ctx.nextStorageNonce = some nonce ∧
      tagOf nonce.current = tagOf (ConfidentialCtx.storageNonceBase P prevBlockHash address) := by
    have tags := held.storageNonce
    rw [contract] at tags
    exact Option.map_eq_some_iff.mp tags
  cases op with
  | activate keyManager target => exact activate_ne_panic ctx keyManager target _
  | deactivate => exact id
  | encryptSession data => exact encryptSession_ne_panic ctx data _
  | decryptSession payload => exact decryptSession_ne_unwrapFailed contract payload
  | encryptStorageKey data =>
    simp [UnwrapFails, ConfidentialCtx.encryptStorageKey, Outcome.unwrap, cipher]
  | encryptStorageValue storageKey data =>
    exact encryptStorageValue_ne_unwrapFailed cipher next storageKey data
  | decryptStorageValue storageKey data =>
    exact decryptStorageValue_ne_unwrapFailed cipher storageKey data

end Unwraps

/-- Keys that the key manager returned are those of every assignment its answers agree with. -/
theorem KeysReturned.eq_of_consistent {prevBlockHash : H256} {ops : List Op} {address : Address}
    {pair : KeyPair}
    (returned : KeysReturned P (run (machine P mode) (.new prevBlockHash) ops) address pair)
    {keys : KeyPairId → KeyPair} (consistent : ∀ op ∈ ops, ConsistentKeys keys op) :
    pair = keys (P.keccak address.bytes) := by
  obtain ⟨event, member, keyManager, input, answered⟩ := returned
  have agrees := consistent _ (input_mem_of_mem_run member)
  rw [input] at agrees
  exact agrees _ _ answered

variable (P mode)

/-- The representation invariant: after every sequence of calls the optional fields are set
together, a context that is not activated has none of them, the storage fields are those of the
active contract, and a context that encrypts unwraps nothing that is not there. -/
theorem representation_invariant (prevBlockHash : H256) (ops : List Op) :
    let events := run (machine P mode) (.new prevBlockHash) ops
    let ctx := lastState (.new prevBlockHash) events
    (ctx.d2.isSome = ctx.contract.isSome ∧ ctx.nextStorageNonce.isSome = ctx.contract.isSome) ∧
      ctx.nextNonce.isSome = ctx.peerPublicKey.isSome ∧
      (ctx.activated = false → ctx.contract = none ∧ ctx.d2 = none ∧ ctx.nextStorageNonce = none ∧
        ctx.peerPublicKey = none ∧ ctx.nextNonce = none) ∧
      (∀ address pair, ctx.contract = some (address, pair) →
        KeysReturned P events address pair ∧
          (∀ keys, (∀ op ∈ ops, ConsistentKeys keys op) →
            pair = keys (P.keccak address.bytes)) ∧
          ctx.d2 = some ⟨pair.stateKey⟩ ∧
          ∃ nonce, ctx.nextStorageNonce = some nonce ∧
            nonce.current.bytes.take 11 =
              (P.digestBytes (prevBlockHash.bytes ++ address.bytes)).bytes.take 11) ∧
      (ctx.isEncrypting = true → ∀ op, ¬UnwrapFails P mode ctx op) := by
  intro events ctx
  have held : WellFormed P prevBlockHash events ctx := wellFormed_run prevBlockHash ops
  have nonces : ctx.nextStorageNonce.isSome = ctx.contract.isSome := by
    have sizes := congrArg Option.isSome held.storageNonce
    simpa using sizes
  refine ⟨⟨by simp [held.cipher], nonces⟩, held.session, ?_, ?_, held.not_unwrapFails⟩
  · intro inactive
    obtain ⟨noContract, noPeer⟩ := held.inactive inactive
    have noNonce : ctx.nextNonce.isSome = false := by simp [held.session, noPeer]
    have noStorageNonce : ctx.nextStorageNonce.isSome = false := by simp [nonces, noContract]
    refine ⟨noContract, by simp [held.cipher, noContract], ?_, noPeer, ?_⟩
    · exact Option.isSome_eq_false_iff.mp noStorageNonce |> Option.isNone_iff_eq_none.mp
    · exact Option.isSome_eq_false_iff.mp noNonce |> Option.isNone_iff_eq_none.mp
  · intro address pair contract
    have returned := held.keys address pair contract
    have tags := held.storageNonce
    rw [contract] at tags
    obtain ⟨nonce, next, tag⟩ := Option.map_eq_some_iff.mp tags
    refine ⟨returned, fun keys consistent => returned.eq_of_consistent consistent,
      by simp [held.cipher, contract], nonce, next, ?_⟩
    exact congrArg FixedBytes.bytes (tag.trans (tagOf_joinNonce _ _))

end Ethwasi.Confidential
