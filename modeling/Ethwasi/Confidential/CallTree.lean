import Mathlib.Logic.Function.Iterate
import Ethwasi.Confidential.Invariant
import Ethwasi.Confidential.Storage

/-!
# Calls between contracts

A call of a contract activates the callee and keeps the address that `activate` returns; when it is
done it activates that address again. In between it encrypts messages and storage, and calls other
contracts in the same way, itself included. All that is kept across a call is an address: the keys
and the cipher are asked for and built again. That restores the context of the caller, as long as
the key manager has one pair of keys for every contract. The session with the peer is not part of
what is switched, and goes on through all calls.
-/

namespace Ethwasi.Confidential

open Ethwasi.Rust Ethwasi.Transition

/-- An operation on the storage of the active contract. -/
inductive StorageOp where
  | encryptKey (data : Bytes)
  | encryptValue (storageKey data : Bytes)
  | decryptValue (storageKey data : Bytes)

/-- What a contract does: messages to the peer, storage operations and calls of other contracts,
in any order. -/
inductive Body where
  | done
  | encryptSession (data : Bytes) (rest : Body)
  | storage (op : StorageOp) (rest : Body)
  /-- A call of another contract, with what the key manager answers when the callee is activated
  and when the caller is activated again. -/
  | call (enter leave : KeyManager) (callee : Option Address) (body rest : Body)

variable (P : Primitives)

/-- Perform a storage operation. -/
def StorageOp.perform (ctx : ConfidentialCtx) : StorageOp → Method Bytes
  | .encryptKey data => (ctx.encryptStorageKey P data, ctx)
  | .encryptValue storageKey data => ctx.encryptStorageValue P storageKey data
  | .decryptValue storageKey data => (ctx.decryptStorageValue P storageKey data, ctx)

/-- Run a body; the result is how many messages were sent, and the context after it. A message or a
storage operation may fail, and the body goes on. A failed activation ends the execution. Storage
is only encrypted while `is_encrypting` holds. -/
def Body.exec : Body → ConfidentialCtx → Outcome Error (Nat × ConfidentialCtx)
  | .done, ctx => .ok (0, ctx)
  | .encryptSession data rest, ctx =>
    match ctx.encryptSession P data with
    | (.panic cause, _) => .panic cause
    | (.err _, ctx) => rest.exec ctx
    | (.ok _, ctx) => do
      let (sent, ctx) ← rest.exec ctx
      return (sent + 1, ctx)
  | .storage op rest, ctx =>
    if ctx.isEncrypting then
      match op.perform P ctx with
      | (.panic cause, _) => .panic cause
      | (_, ctx) => rest.exec ctx
    else rest.exec ctx
  | .call enter leave callee body rest, ctx =>
    match ctx.activate P enter callee with
    | (.panic cause, _) => .panic cause
    | (.err error, _) => .err error
    | (.ok old, ctx) => do
      let (inner, ctx) ← body.exec ctx
      match ctx.activate P leave old with
      | (.panic cause, _) => .panic cause
      | (.err error, _) => .err error
      | (.ok _, ctx) =>
        let (outer, ctx) ← rest.exec ctx
        return (inner + outer, ctx)

/-- Every pair that the key manager returns is the fixed pair of its contract. -/
def Body.Consistent (keys : KeyPairId → KeyPair) : Body → Prop
  | .done => True
  | .encryptSession _ rest => rest.Consistent keys
  | .storage _ rest => rest.Consistent keys
  | .call enter leave _ body rest =>
    (∀ id pair, enter id = .ok pair → pair = keys id) ∧
      (∀ id pair, leave id = .ok pair → pair = keys id) ∧
      body.Consistent keys ∧ rest.Consistent keys

/-- The key manager answers every request. -/
def Body.Available : Body → Prop
  | .done => True
  | .encryptSession _ rest => rest.Available
  | .storage _ rest => rest.Available
  | .call enter leave _ body rest =>
    (∀ id, ∃ pair, enter id = .ok pair) ∧ (∀ id, ∃ pair, leave id = .ok pair) ∧
      body.Available ∧ rest.Available

/-- The nonce after a number of increments. -/
def Nonce.advanced (steps : Nat) (nonce : Nonce) : Nonce :=
  { nonce with current := (addOne P)^[steps] nonce.current }

/-- The keys, the cipher and the presence of a storage nonce follow from the address of the
contract. -/
structure Rebuildable (keys : KeyPairId → KeyPair) (ctx : ConfidentialCtx) : Prop where
  keys : ∀ address pair, ctx.contract = some (address, pair) →
    pair = keys (P.keccak address.bytes)
  cipher : ctx.d2 = ctx.contract.map fun active => ⟨active.2.stateKey⟩
  storageNonce : ctx.nextStorageNonce.isSome = ctx.contract.isSome
  inactive : ctx.activated = false → ctx.contract = none

/-- The context is switched back, after a number of messages. -/
structure Restored (sent : Nat) (before after : ConfidentialCtx) : Prop where
  contract : after.contract = before.contract
  d2 : after.d2 = before.d2
  peer : after.peerPublicKey = before.peerPublicKey
  nextNonce : after.nextNonce = before.nextNonce.map (Nonce.advanced P sent)
  unsent : before.nextNonce = none → sent = 0
  activated : before.activated = true → after.activated = true

variable {P} {mode : OverflowMode} {keys : KeyPairId → KeyPair}

/-- The storage nonce is not part of what is switched back. -/
theorem Restored.of_storageNonce (ctx : ConfidentialCtx) (nonce : Option Nonce) :
    Restored P 0 ctx { ctx with nextStorageNonce := nonce } := by
  refine ⟨rfl, rfl, rfl, ?_, fun _ => rfl, id⟩
  cases ctx.nextNonce <;> rfl

theorem Restored.trans {first second : Nat} {before middle after : ConfidentialCtx}
    (one : Restored P first before middle) (two : Restored P second middle after) :
    Restored P (first + second) before after where
  contract := two.contract.trans one.contract
  d2 := two.d2.trans one.d2
  peer := two.peer.trans one.peer
  nextNonce := by
    rw [two.nextNonce, one.nextNonce, Option.map_map]
    cases before.nextNonce with
    | none => rfl
    | some nonce =>
      simp [Nonce.advanced, Nat.add_comm first second, Function.iterate_add_apply]
  unsent := by
    intro silent
    have none : middle.nextNonce = none := by rw [one.nextNonce, silent, Option.map_none]
    rw [one.unsent silent, two.unsent none]
  activated := fun active => two.activated (one.activated active)

/-- A context that is switched back encrypts exactly when it did before. -/
theorem Restored.isEncrypting {sent : Nat} {before after : ConfidentialCtx}
    (restored : Restored P sent before after) (rebuildable : Rebuildable P keys before) :
    after.isEncrypting = before.isEncrypting := by
  unfold ConfidentialCtx.isEncrypting
  rw [restored.contract]
  cases active : before.activated with
  | true => rw [restored.activated active]
  | false => simp [rebuildable.inactive active]

/-- The contexts that calls lead to are rebuildable. -/
theorem WellFormed.rebuildable {prevBlockHash : H256} {ops : List Op} {ctx : ConfidentialCtx}
    (held : WellFormed P prevBlockHash (run (machine P mode) (.new prevBlockHash) ops) ctx)
    (consistent : ∀ op ∈ ops, ConsistentKeys keys op) : Rebuildable P keys ctx where
  keys := fun address pair contract =>
    (held.keys address pair contract).eq_of_consistent consistent
  cipher := held.cipher
  storageNonce := by simpa using congrArg Option.isSome held.storageNonce
  inactive := fun inactive => (held.inactive inactive).1

/-- A successful activation returns the address of the last contract, and installs the new one
with its fixed keys. -/
theorem activate_eq_ok {keyManager : KeyManager} {contract old : Option Address}
    (agrees : ∀ id pair, keyManager id = .ok pair → pair = keys id)
    {ctx after : ConfidentialCtx}
    (succeeded : ctx.activate P keyManager contract = (.ok old, after)) :
    old = ctx.contract.map (·.1) ∧
      after.contract = contract.map (fun address => (address, keys (P.keccak address.bytes))) ∧
      after.peerPublicKey = ctx.peerPublicKey ∧ after.nextNonce = ctx.nextNonce ∧
      after.activated = true ∧ Rebuildable P keys after := by
  cases contract with
  | none =>
    cases succeeded
    exact ⟨rfl, rfl, rfl, rfl, rfl, by simp, rfl, rfl, by simp⟩
  | some address =>
    cases returned : keyManager (P.keccak address.bytes) with
    | error message => simp [ConfidentialCtx.activate, returned] at succeeded
    | ok pair =>
      have fixed : pair = keys (P.keccak address.bytes) := agrees _ _ returned
      simp only [ConfidentialCtx.activate, returned] at succeeded
      cases succeeded
      refine ⟨rfl, by rw [fixed]; rfl, rfl, rfl, rfl, ?_, rfl, rfl, ?_⟩
      · intro other otherPair same
        cases same
        exact fixed
      · intro inactive
        cases inactive

/-- An activation returns: it succeeds, or the key manager did not answer. -/
theorem activate_cases (ctx : ConfidentialCtx) (keyManager : KeyManager)
    (contract : Option Address) :
    (∃ old after, ctx.activate P keyManager contract = (.ok old, after)) ∨
      (∃ error after, ctx.activate P keyManager contract = (.err error, after)) ∧
        ¬∀ id, ∃ pair, keyManager id = .ok pair := by
  cases contract with
  | none => exact .inl ⟨_, _, rfl⟩
  | some address =>
    cases returned : keyManager (P.keccak address.bytes) with
    | ok pair => exact .inl ⟨_, _, by simp only [ConfidentialCtx.activate, returned]; rfl⟩
    | error message =>
      refine .inr ⟨⟨_, _, by simp only [ConfidentialCtx.activate, returned]; rfl⟩, ?_⟩
      intro answers
      obtain ⟨pair, answered⟩ := answers (P.keccak address.bytes)
      rw [returned] at answered
      cases answered

/-- With a cipher, a storage read returns. -/
theorem decryptStorageValue_ne_panic {ctx : ConfidentialCtx} {d2 : DeoxysII}
    (cipher : ctx.d2 = some d2) (storageKey data : Bytes) (cause : Panic) :
    ctx.decryptStorageValue P storageKey data ≠ .panic cause := by
  by_cases long : tagSize + nonceSize ≤ data.length
  · have tail : (data.drop (data.length - nonceSize)).length = nonceSize := by
      rw [List.length_drop]
      omega
    have tagged : tagSize ≤ (data.take (data.length - nonceSize)).length := by
      rw [List.length_take]
      omega
    have opened := @decryptStorageValue_append P ctx d2 cipher storageKey
      (data.take (data.length - nonceSize)) ⟨data.drop (data.length - nonceSize), tail⟩ tagged
    rw [List.take_append_drop] at opened
    rw [opened]
    split <;> simp
  · simp [ConfidentialCtx.decryptStorageValue, Outcome.ensure, long]

/-- While the context encrypts, a storage operation returns, and it changes nothing but the storage
nonce. -/
theorem StorageOp.perform_cases {ctx : ConfidentialCtx} (rebuildable : Rebuildable P keys ctx)
    (encrypting : ctx.isEncrypting = true) (op : StorageOp) :
    (∀ cause, (op.perform P ctx).1 ≠ .panic cause) ∧
      ∃ nonce, (op.perform P ctx).2 = { ctx with nextStorageNonce := nonce } ∧
        nonce.isSome = ctx.nextStorageNonce.isSome := by
  have hasContract : ctx.contract.isSome = true := by
    simp only [ConfidentialCtx.isEncrypting, Bool.and_eq_true] at encrypting
    exact encrypting.2
  obtain ⟨⟨address, pair⟩, contract⟩ := Option.isSome_iff_exists.mp hasContract
  have cipher : ctx.d2 = some ⟨pair.stateKey⟩ := by simp [rebuildable.cipher, contract]
  obtain ⟨nonce, next⟩ := Option.isSome_iff_exists.mp (rebuildable.storageNonce.trans hasContract)
  cases op with
  | encryptKey data =>
    refine ⟨fun cause => ?_, ctx.nextStorageNonce, rfl, rfl⟩
    simp [perform, ConfidentialCtx.encryptStorageKey, Outcome.unwrap, cipher]
  | encryptValue storageKey data =>
    cases incremented : nonce.increment P with
    | error message =>
      simp only [perform, ConfidentialCtx.encryptStorageValue, next, cipher, incremented]
      exact ⟨by simp, some nonce, by rw [← next, ← cipher], rfl⟩
    | ok advanced =>
      simp only [perform, ConfidentialCtx.encryptStorageValue, next, cipher, incremented]
      exact ⟨by simp, some advanced, by rw [← cipher], rfl⟩
  | decryptValue storageKey data =>
    exact ⟨fun cause => decryptStorageValue_ne_panic cipher storageKey data cause,
      ctx.nextStorageNonce, rfl, rfl⟩

/-- After a storage operation the body goes on with another storage nonce at most. -/
theorem Body.exec_storage {ctx : ConfidentialCtx} (rebuildable : Rebuildable P keys ctx)
    (op : StorageOp) (rest : Body) :
    ∃ nonce, (Body.storage op rest).exec P ctx =
        rest.exec P { ctx with nextStorageNonce := nonce } ∧
      nonce.isSome = ctx.nextStorageNonce.isSome := by
  by_cases encrypting : ctx.isEncrypting = true
  · obtain ⟨returns, nonce, frame, present⟩ := op.perform_cases rebuildable encrypting
    rcases performed : op.perform P ctx with ⟨outcome, next⟩
    rw [performed] at returns frame
    obtain rfl : next = { ctx with nextStorageNonce := nonce } := frame
    refine ⟨nonce, ?_, present⟩
    cases outcome with
    | panic cause => exact absurd rfl (returns cause)
    | ok value => simp only [exec, encrypting, performed, if_true]
    | err error => simp only [exec, encrypting, performed, if_true]
  · refine ⟨ctx.nextStorageNonce, ?_, rfl⟩
    simp only [exec, encrypting]
    rfl

/-- A sent message advances the nonce by one. -/
theorem Sends.restored {ctx after : ConfidentialCtx} {data payload : Bytes}
    (sends : Sends P ctx data payload after) (rebuildable : Rebuildable P keys ctx) :
    Restored P 1 ctx after ∧ Rebuildable P keys after := by
  obtain ⟨address, pair, peer, nonce, next, cipher, contract, receiver, used, sealed, incremented,
    encoded, rfl⟩ := sends
  obtain ⟨_, rfl⟩ := (Nonce.increment_eq_ok_iff P).mp incremented
  refine ⟨⟨rfl, rfl, rfl, ?_, ?_, id⟩, ⟨rebuildable.keys, rebuildable.cipher,
    rebuildable.storageNonce, rebuildable.inactive⟩⟩
  · rw [used]
    rfl
  · rw [used]
    exact nofun

/-- Activating the address that the first activation returned brings the caller back. -/
theorem restored_of_switched {enter leave : KeyManager} {callee old : Option Address}
    {ctx inner left back : ConfidentialCtx} {sent : Nat} (rebuildable : Rebuildable P keys ctx)
    (enterAgrees : ∀ id pair, enter id = .ok pair → pair = keys id)
    (leaveAgrees : ∀ id pair, leave id = .ok pair → pair = keys id)
    (entered : ctx.activate P enter callee = (.ok (ctx.contract.map (·.1)), inner))
    (restored : Restored P sent inner left)
    (switched : left.activate P leave (ctx.contract.map (·.1)) = (.ok old, back)) :
    Restored P sent ctx back ∧ Rebuildable P keys back := by
  obtain ⟨_, _, innerPeer, innerNonce, _, _⟩ := activate_eq_ok enterAgrees entered
  obtain ⟨_, contract, peer, nextNonce, active, backRebuildable⟩ :=
    activate_eq_ok leaveAgrees switched
  have sameContract : back.contract = ctx.contract := by
    rw [contract]
    cases caller : ctx.contract with
    | none => rfl
    | some active =>
      obtain ⟨address, pair⟩ := active
      rw [rebuildable.keys address pair caller]
      rfl
  refine ⟨⟨sameContract, ?_, ?_, ?_, ?_, fun _ => active⟩, backRebuildable⟩
  · rw [backRebuildable.cipher, rebuildable.cipher, sameContract]
  · rw [peer, restored.peer, innerPeer]
  · rw [nextNonce, restored.nextNonce, innerNonce]
  · intro silent
    exact restored.unsent (innerNonce.trans silent)

/-- A body switches back everything that it switches. It does not panic, and it fails only when
the key manager does not answer. -/
theorem Body.exec_cases (body : Body) {ctx : ConfidentialCtx} (rebuildable : Rebuildable P keys ctx)
    (consistent : body.Consistent keys) :
    (∃ error, body.exec P ctx = .err error) ∧ ¬body.Available ∨
      ∃ sent after, body.exec P ctx = .ok (sent, after) ∧ Restored P sent ctx after ∧
        Rebuildable P keys after := by
  induction body generalizing ctx with
  | done => exact .inr ⟨0, ctx, rfl, .of_storageNonce ctx ctx.nextStorageNonce, rebuildable⟩
  | encryptSession data rest ih =>
    rcases @encryptSession_cases P ctx data with ⟨error, failed⟩ | ⟨payload, next, sealed, sends⟩
    · simp only [exec, failed]
      exact ih rebuildable consistent
    · obtain ⟨once, nextRebuildable⟩ := sends.restored rebuildable
      simp only [exec, sealed]
      rcases ih nextRebuildable consistent with ⟨⟨error, failed⟩, refused⟩ |
        ⟨sent, after, returned, restored, afterRebuildable⟩
      · exact .inl ⟨⟨error, by rw [failed]; rfl⟩, refused⟩
      · refine .inr ⟨sent + 1, after, by rw [returned]; rfl, ?_, afterRebuildable⟩
        rw [Nat.add_comm]
        exact once.trans restored
  | storage op rest ih =>
    obtain ⟨nonce, continued, present⟩ := exec_storage rebuildable op rest
    have nextRebuildable : Rebuildable P keys { ctx with nextStorageNonce := nonce } :=
      ⟨rebuildable.keys, rebuildable.cipher, present.trans rebuildable.storageNonce,
        rebuildable.inactive⟩
    rw [continued]
    rcases ih nextRebuildable consistent with failed |
      ⟨sent, after, returned, restored, afterRebuildable⟩
    · exact .inl failed
    · refine .inr ⟨sent, after, returned, ?_, afterRebuildable⟩
      have total := (Restored.of_storageNonce ctx nonce).trans restored
      rwa [Nat.zero_add] at total
  | call enter leave callee body rest bodyIh restIh =>
    obtain ⟨enterAgrees, leaveAgrees, bodyConsistent, restConsistent⟩ := consistent
    rcases @activate_cases P ctx enter callee with ⟨old, inner, entered⟩ |
      ⟨⟨error, _, failed⟩, silent⟩
    · obtain ⟨rfl, _, _, _, _, innerRebuildable⟩ := activate_eq_ok enterAgrees entered
      rcases bodyIh innerRebuildable bodyConsistent with ⟨⟨error, failed⟩, refused⟩ |
        ⟨sent, left, returned, restored, _⟩
      · exact .inl ⟨⟨error, by simp only [exec, entered, failed]; rfl⟩,
          fun available => refused available.2.2.1⟩
      · rcases @activate_cases P left leave (ctx.contract.map (·.1)) with
          ⟨_, back, switched⟩ | ⟨⟨error, _, failed⟩, silent⟩
        · obtain ⟨called, backRebuildable⟩ :=
            restored_of_switched rebuildable enterAgrees leaveAgrees entered restored switched
          rcases restIh backRebuildable restConsistent with ⟨⟨error, failed⟩, refused⟩ |
            ⟨more, after, continued, rest, afterRebuildable⟩
          · exact .inl ⟨⟨error, by
              simp only [exec, entered, returned, switched, failed, Outcome.ok_bind]; rfl⟩,
              fun available => refused available.2.2.2⟩
          · exact .inr ⟨sent + more, after, by
              simp only [exec, entered, returned, switched, continued, Outcome.ok_bind]; rfl,
              called.trans rest, afterRebuildable⟩
        · exact .inl ⟨⟨error, by simp only [exec, entered, returned, failed, Outcome.ok_bind]⟩,
            fun available => silent available.2.1⟩
    · exact .inl ⟨⟨error, by simp only [exec, failed]⟩, fun available => silent available.1⟩

variable (P mode)

/-- Context switches nest. From every context that calls lead to, a call of any contract, with any
calls below it, does not panic and returns when the key manager answers. After it the contract with
its keys, the storage cipher and `is_encrypting` are those of the caller, the peer is the same, and
the next nonce has advanced by the number of messages that were sent below the call. -/
theorem calls_nest (keys : KeyPairId → KeyPair) (prevBlockHash : H256) (ops : List Op)
    (consistent : ∀ op ∈ ops, ConsistentKeys keys op) (ctx : ConfidentialCtx)
    (reached : lastState (.new prevBlockHash) (run (machine P mode) (.new prevBlockHash) ops) = ctx)
    (enter leave : KeyManager) (callee : Option Address) (body : Body)
    (fixed : (Body.call enter leave callee body .done).Consistent keys) :
    (∀ cause, (Body.call enter leave callee body .done).exec P ctx ≠ .panic cause) ∧
      ((Body.call enter leave callee body .done).Available →
        ∃ sent after, (Body.call enter leave callee body .done).exec P ctx = .ok (sent, after)) ∧
      ∀ sent after, (Body.call enter leave callee body .done).exec P ctx = .ok (sent, after) →
        after.contract = ctx.contract ∧ after.d2 = ctx.d2 ∧
          after.isEncrypting = ctx.isEncrypting ∧ after.peerPublicKey = ctx.peerPublicKey ∧
          after.nextNonce = ctx.nextNonce.map (Nonce.advanced P sent) ∧
          (ctx.nextNonce = none → sent = 0) := by
  have held : WellFormed P prevBlockHash (run (machine P mode) (.new prevBlockHash) ops) ctx :=
    reached ▸ wellFormed_run prevBlockHash ops
  have rebuildable := held.rebuildable consistent
  rcases Body.exec_cases _ rebuildable fixed with ⟨⟨error, failed⟩, refused⟩ |
    ⟨sent, after, returned, restored, _⟩
  · rw [failed]
    exact ⟨by simp, fun available => absurd available refused, by simp⟩
  · rw [returned]
    refine ⟨by simp, fun _ => ⟨sent, after, rfl⟩, ?_⟩
    intro count last same
    cases same
    exact ⟨restored.contract, restored.d2, restored.isEncrypting rebuildable, restored.peer,
      restored.nextNonce, restored.unsent⟩

/-- The key manager of the sample keys. -/
def sampleKeyManager : KeyManager := fun id => .ok (sampleKeys id)

/-- A contract answers, and calls back the contract that called it, which answers too. -/
def callback : Body :=
  .encryptSession [7] (.call sampleKeyManager sampleKeyManager (some (FixedBytes.filled 20 1))
    (.encryptSession [8] (.storage (.encryptValue [1] [2]) .done)) .done)

/-- The context of the first contract after the request of a peer. -/
def sessionContext : ConfidentialCtx :=
  (openContext.decryptSession samplePrimitives .checked sampleRequest).2

/-- A call with a callback sends two messages to the peer. After it the first contract is active
again, and the nonce is two further. -/
theorem callback_returns :
    ∃ nonce after, sessionContext.nextNonce = some nonce ∧
      (Body.call sampleKeyManager sampleKeyManager (some (FixedBytes.filled 20 2))
        callback .done).exec samplePrimitives sessionContext = .ok (2, after) ∧
      after.contract = sessionContext.contract ∧
      after.isEncrypting = sessionContext.isEncrypting ∧
      after.peerPublicKey = sessionContext.peerPublicKey ∧
      after.nextNonce = some (nonce.advanced samplePrimitives 2) := by
  have agrees : ∀ id pair, sampleKeyManager id = .ok pair → pair = sampleKeys id :=
    fun id pair returned => (Except.ok.inj returned).symm
  have consistent : ∀ op ∈ [Op.activate sampleKeyManager (some (FixedBytes.filled 20 1)),
      .decryptSession sampleRequest], ConsistentKeys sampleKeys op := by
    simpa [ConsistentKeys] using agrees
  obtain ⟨_, _, restores⟩ := calls_nest samplePrimitives .checked sampleKeys
    (FixedBytes.filled 32 0) _ consistent sessionContext rfl sampleKeyManager
    sampleKeyManager (some (FixedBytes.filled 20 2)) callback
    ⟨agrees, agrees, ⟨agrees, agrees, trivial, trivial⟩, trivial⟩
  obtain ⟨contract, _, encrypting, peer, nonce, _⟩ := restores 2 _ rfl
  exact ⟨_, _, rfl, rfl, contract, encrypting, peer, nonce⟩

end Ethwasi.Confidential
