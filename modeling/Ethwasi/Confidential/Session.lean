import Mathlib.Data.List.Nodup
import Ethwasi.Confidential.Framing
import Ethwasi.Confidential.StorageNonce

/-!
# The session with the peer

Opening a payload starts a session: the sender becomes the peer and the nonce of the payload,
advanced by one, becomes the next nonce. `SessionEffect` says once what a call does to these two
fields. Both directions of the channel use one symmetric key, so the nonces of the answers must
avoid each other and the nonce of the request. They do, since they are the steps of one counter
that stops before it comes back to the nonce of the request.
-/

namespace Ethwasi.Confidential

open Ethwasi.Rust Ethwasi.Transition

variable {P : Primitives} {mode : OverflowMode}

/-- The call sealed a session message; the result is the payload. -/
def sentPayload (event : CtxEvent) : Option Bytes :=
  match event.input, event.output with
  | .encryptSession _, .ok (.bytes payload) => some payload
  | _, _ => none

/-- The payloads that a list of events sent. -/
def sentPayloads (events : List CtxEvent) : List Bytes := events.filterMap sentPayload

/-- The call ended the session: it opened another payload, or left the confidential context. -/
def endsSession (event : CtxEvent) : Bool :=
  match event.input, event.output with
  | .decryptSession _, .ok _ => true
  | .deactivate, _ => true
  | _, _ => false

theorem addOne_ne_self (value : NonceBytes) : addOne P value ≠ value := by
  intro same
  have wrapped := (iterate_addOne_eq_iff P value 1 0).mp same
  omega

/-- A nonce that was just created can be incremented. -/
theorem Nonce.increment_new (value : NonceBytes) :
    (Nonce.new value).increment P = .ok ⟨value, addOne P value⟩ :=
  (Nonce.increment_eq_ok_iff P).mpr ⟨addOne_ne_self value, rfl⟩

/-- The splitter creates the nonce that it returns. -/
theorem split_fresh {data : Bytes} {split : SplitPayload}
    (accepted : splitEncryptedPayload mode data = .ok split) :
    split.nonce = Nonce.new split.nonce.current := by
  by_cases long : 63 ≤ data.length
  · rw [split_of_long long] at accepted
    simp only [splitBody, Outcome.bind_eq_ok, Outcome.pure_eq_ok, Outcome.ok.injEq] at accepted
    obtain ⟨_, _, _, _, _, _, _, _, _, _, _, _, _, _, _, _, _, _, _, _, _, _, rfl⟩ := accepted
    rfl
  · rw [split_of_short (Nat.lt_of_not_le long)] at accepted
    cases accepted

/-- A payload that opens is the encoding of what `decrypt` returns, with a nonce that was just
created. -/
theorem decrypt_eq_ok {data : Bytes} {secretKey : PrivateKey} {decryption : Decryption}
    (opened : decrypt P mode (some data) secretKey = .ok decryption) :
    ∃ split, splitEncryptedPayload mode data = .ok split ∧
      P.boxOpen split.nonce.current split.cipher split.aad split.peerPublicKey secretKey =
        .ok decryption.plaintext ∧
      decryption = ⟨decryption.plaintext, Nonce.new split.nonce.current, split.peerPublicKey,
        split.aad⟩ := by
  simp only [decrypt, Outcome.bind_eq_ok, Outcome.mapErr_eq_ok, Outcome.pure_eq_ok,
    Outcome.ok.injEq] at opened
  obtain ⟨split, accepted, plaintext, unsealed, rfl⟩ := opened
  refine ⟨split, accepted, ?_, ?_⟩
  · cases result : P.boxOpen split.nonce.current split.cipher split.aad split.peerPublicKey
      secretKey with
    | ok value =>
      rw [result] at unsealed
      cases unsealed
      rfl
    | error message =>
      rw [result] at unsealed
      cases unsealed
  · rw [← split_fresh accepted]

section Effects

variable (P mode)

/-- `encrypt_session` seals under the next nonce, with the keys of the active contract, and
advances the nonce. -/
inductive Sends (ctx : ConfidentialCtx) (data payload : Bytes) (after : ConfidentialCtx) :
    Prop where
  | intro (address : Address) (keys : KeyPair) (peer : PublicKey) (nonce next : Nonce)
      (cipher : Bytes) (contract : ctx.contract = some (address, keys))
      (receiver : ctx.peerPublicKey = some peer) (used : ctx.nextNonce = some nonce)
      (sealed : P.boxSeal nonce.current data [] peer keys.inputKeypair.sk = .ok cipher)
      (incremented : nonce.increment P = .ok next)
      (encoded : payload = encodeEncryption cipher nonce keys.inputKeypair.pk [])
      (advanced : after = { ctx with nextNonce := some next })

/-- What one call does to the peer and the next nonce. -/
inductive SessionEffect (event : CtxEvent) : Prop where
  /-- Nothing. -/
  | kept (noPayload : sentPayload event = none) (goesOn : endsSession event = false)
      (peer : event.after.peerPublicKey = event.before.peerPublicKey)
      (nextNonce : event.after.nextNonce = event.before.nextNonce)
  /-- A message was sealed and the nonce advanced. -/
  | sent (data payload : Bytes) (input : event.input = .encryptSession data)
      (output : event.output = .ok (.bytes payload))
      (sends : Sends P event.before data payload event.after)
  /-- A payload was opened and its sender became the peer. -/
  | opened (payload : Bytes) (address : Address) (keys : KeyPair) (decryption : Decryption)
      (input : event.input = .decryptSession payload)
      (contract : event.before.contract = some (address, keys))
      (decrypted : decrypt P mode (some payload) keys.inputKeypair.sk = .ok decryption)
      (output : event.output = .ok (.payload ⟨decryption.plaintext, decryption.aad⟩))
      (after : event.after = { event.before with
        peerPublicKey := some decryption.peerPublicKey
        nextNonce := some ⟨decryption.nonce.start, addOne P decryption.nonce.current⟩ })
  /-- Both are gone. -/
  | closed (input : event.input = .deactivate) (after : event.after = event.before.deactivate)

end Effects

/-- The collected message is empty exactly when nothing is missing. -/
theorem missingSessionParts_eq_empty_iff (ctx : ConfidentialCtx) :
    ctx.missingSessionParts = "" ↔
      ctx.peerPublicKey.isSome ∧ ctx.contract.isSome ∧ ctx.nextNonce.isSome := by
  unfold ConfidentialCtx.missingSessionParts
  cases ctx.peerPublicKey <;> cases ctx.contract <;> cases ctx.nextNonce <;> simp

/-- `encrypt_session` once nothing is missing. -/
theorem encryptSession_of_parts {ctx : ConfidentialCtx} {address : Address} {keys : KeyPair}
    {peer : PublicKey} {nonce : Nonce} (contract : ctx.contract = some (address, keys))
    (receiver : ctx.peerPublicKey = some peer) (used : ctx.nextNonce = some nonce)
    (data : Bytes) :
    ctx.encryptSession P data =
      match P.boxSeal nonce.current data [] peer keys.inputKeypair.sk with
      | .error message => (.err (.confidential message), ctx)
      | .ok cipher =>
        match nonce.increment P with
        | .error message => (.err (.confidential message), ctx)
        | .ok next =>
          (.ok (encodeEncryption cipher nonce keys.inputKeypair.pk []),
            { ctx with nextNonce := some next }) := by
  have complete : ctx.missingSessionParts = "" :=
    (missingSessionParts_eq_empty_iff ctx).mpr (by simp [contract, receiver, used])
  cases sealed : P.boxSeal nonce.current data [] peer keys.inputKeypair.sk with
  | error message =>
    simp [ConfidentialCtx.encryptSession, complete, contract, receiver, used, encrypt,
      Outcome.ofExcept, sealed]
  | ok cipher =>
    cases incremented : nonce.increment P with
    | error message =>
      simp [ConfidentialCtx.encryptSession, complete, contract, receiver, used, encrypt,
        Outcome.ofExcept, sealed, incremented]
    | ok next =>
      simp [ConfidentialCtx.encryptSession, complete, contract, receiver, used, encrypt,
        Outcome.ofExcept, sealed, incremented]

/-- `encrypt_session` returns an error and changes nothing, or it sends a payload. It never
panics. -/
theorem encryptSession_cases (ctx : ConfidentialCtx) (data : Bytes) :
    (∃ error, ctx.encryptSession P data = (.err error, ctx)) ∨
      ∃ payload after, ctx.encryptSession P data = (.ok payload, after) ∧
        Sends P ctx data payload after := by
  by_cases complete : ctx.missingSessionParts = ""
  · obtain ⟨hasPeer, hasContract, hasNonce⟩ := (missingSessionParts_eq_empty_iff ctx).mp complete
    obtain ⟨peer, receiver⟩ := Option.isSome_iff_exists.mp hasPeer
    obtain ⟨⟨address, keys⟩, contract⟩ := Option.isSome_iff_exists.mp hasContract
    obtain ⟨nonce, used⟩ := Option.isSome_iff_exists.mp hasNonce
    rw [encryptSession_of_parts contract receiver used]
    cases sealed : P.boxSeal nonce.current data [] peer keys.inputKeypair.sk with
    | error message => exact .inl ⟨_, rfl⟩
    | ok cipher =>
      cases incremented : nonce.increment P with
      | error message => exact .inl ⟨_, rfl⟩
      | ok next =>
        exact .inr ⟨_, _, rfl, address, keys, peer, nonce, next, cipher, contract, receiver, used,
          sealed, incremented, rfl, rfl⟩
  · exact .inl ⟨_, if_pos complete⟩

theorem encryptSession_ne_panic (ctx : ConfidentialCtx) (data : Bytes) (cause : Panic) :
    (ctx.encryptSession P data).1 ≠ .panic cause := by
  rcases @encryptSession_cases P ctx data with ⟨error, result⟩ | ⟨payload, after, result, _⟩
  · simp [result]
  · simp [result]

/-- `decrypt_session` once the payload is opened: the nonce was just created, so the increment
succeeds. -/
theorem decryptSession_of_opened {ctx : ConfidentialCtx} {address : Address} {keys : KeyPair}
    {payload : Bytes} {decryption : Decryption} (contract : ctx.contract = some (address, keys))
    (decrypted : decrypt P mode (some payload) keys.inputKeypair.sk = .ok decryption) :
    ctx.decryptSession P mode payload =
      (.ok ⟨decryption.plaintext, decryption.aad⟩, { ctx with
        peerPublicKey := some decryption.peerPublicKey
        nextNonce := some ⟨decryption.nonce.start, addOne P decryption.nonce.current⟩ }) := by
  obtain ⟨split, _, _, fields⟩ := decrypt_eq_ok decrypted
  have fresh : decryption.nonce = Nonce.new split.nonce.current :=
    congrArg Decryption.nonce fields
  have incremented : decryption.nonce.increment P =
      .ok ⟨decryption.nonce.start, addOne P decryption.nonce.current⟩ := by
    rw [fresh]
    exact Nonce.increment_new _
  simp only [ConfidentialCtx.decryptSession, contract, decrypted, incremented]

/-- `decrypt_session` panics, returns an error and changes nothing, or opens the payload. -/
theorem decryptSession_cases (ctx : ConfidentialCtx) (payload : Bytes) :
    (∃ cause, ctx.decryptSession P mode payload = (.panic cause, ctx)) ∨
      (∃ error, ctx.decryptSession P mode payload = (.err error, ctx)) ∨
      ∃ address keys decryption, ctx.contract = some (address, keys) ∧
        decrypt P mode (some payload) keys.inputKeypair.sk = .ok decryption ∧
        ctx.decryptSession P mode payload =
          (.ok ⟨decryption.plaintext, decryption.aad⟩, { ctx with
            peerPublicKey := some decryption.peerPublicKey
            nextNonce := some ⟨decryption.nonce.start, addOne P decryption.nonce.current⟩ }) := by
  cases contract : ctx.contract with
  | none => exact .inl ⟨.unwrapFailed, by simp [ConfidentialCtx.decryptSession, contract]⟩
  | some active =>
    obtain ⟨address, keys⟩ := active
    cases decrypted : decrypt P mode (some payload) keys.inputKeypair.sk with
    | panic cause =>
      exact .inl ⟨cause, by simp [ConfidentialCtx.decryptSession, contract, decrypted]⟩
    | err message =>
      exact .inr (.inl ⟨.confidential ("Failed to decrypt session payload (" ++
        toString payload.length ++ " bytes): " ++ message), by
          simp only [ConfidentialCtx.decryptSession, contract, decrypted]⟩)
    | ok decryption =>
      have opened := decryptSession_of_opened contract decrypted
      rw [contract] at opened
      exact .inr (.inr ⟨address, keys, decryption, rfl, decrypted, opened⟩)

/-- A contract switch keeps the peer and the next nonce. -/
theorem activate_sameSession (ctx : ConfidentialCtx) (keyManager : KeyManager)
    (contract : Option Address) :
    (ctx.activate P keyManager contract).2.peerPublicKey = ctx.peerPublicKey ∧
      (ctx.activate P keyManager contract).2.nextNonce = ctx.nextNonce := by
  cases contract with
  | none => exact ⟨rfl, rfl⟩
  | some address =>
    cases returned : keyManager (P.keccak address.bytes) with
    | error message => simp [ConfidentialCtx.activate, returned]
    | ok keys => simp [ConfidentialCtx.activate, ConfidentialCtx.swapContract, returned]

/-- A storage write changes nothing but the storage nonce. -/
theorem encryptStorageValue_frame (ctx : ConfidentialCtx) (storageKey data : Bytes) :
    ∃ nonce, (ctx.encryptStorageValue P storageKey data).2 =
      { ctx with nextStorageNonce := nonce } := by
  unfold ConfidentialCtx.encryptStorageValue
  split
  · split
    · exact ⟨_, rfl⟩
    · exact ⟨_, rfl⟩
  · exact ⟨_, rfl⟩

/-- Every call has one of the effects. -/
theorem sessionEffect_of {event : CtxEvent} (step : event.Of (machine P mode)) :
    SessionEffect P mode event := by
  obtain ⟨before, op, output, after⟩ := event
  cases op with
  | activate keyManager contract =>
    have answered : answer .switched (before.activate P keyManager contract) =
        some (output, after) := step
    obtain ⟨rfl, _⟩ := answer_eq_some answered
    obtain ⟨peer, nextNonce⟩ := activate_sameSession before keyManager contract
    exact .kept rfl rfl peer nextNonce
  | deactivate =>
    simp only [Event.Of, machine, Option.some.injEq, Prod.mk.injEq] at step
    obtain ⟨rfl, rfl⟩ := step
    exact .closed rfl rfl
  | encryptSession data =>
    have answered : answer .bytes (before.encryptSession P data) = some (output, after) := step
    rcases @encryptSession_cases P before data with
      ⟨error, result⟩ | ⟨payload, next, result, sends⟩
    · rw [result] at answered
      cases answered
      exact .kept rfl rfl rfl rfl
    · rw [result] at answered
      cases answered
      exact .sent data payload rfl rfl sends
  | decryptSession payload =>
    have answered : answer .payload (before.decryptSession P mode payload) =
        some (output, after) := step
    rcases @decryptSession_cases P mode before payload with
      ⟨cause, result⟩ | ⟨error, result⟩ |
      ⟨address, keys, decryption, contract, decrypted, result⟩
    · rw [result] at answered
      cases answered
    · rw [result] at answered
      cases answered
      exact .kept rfl rfl rfl rfl
    · rw [result] at answered
      cases answered
      exact .opened payload address keys decryption rfl contract decrypted rfl rfl
  | encryptStorageKey data =>
    have answered : answer .bytes (before.encryptStorageKey P data, before) =
        some (output, after) := step
    have same : after = before := (answer_eq_some answered).1
    subst same
    exact .kept rfl rfl rfl rfl
  | encryptStorageValue storageKey data =>
    have answered : answer .bytes (before.encryptStorageValue P storageKey data) =
        some (output, after) := step
    obtain ⟨rfl, _⟩ := answer_eq_some answered
    obtain ⟨nonce, frame⟩ := @encryptStorageValue_frame P before storageKey data
    exact .kept rfl rfl (by rw [frame]) (by rw [frame])
  | decryptStorageValue storageKey data =>
    have answered : answer .bytes (before.decryptStorageValue P storageKey data, before) =
        some (output, after) := step
    have same : after = before := (answer_eq_some answered).1
    subst same
    exact .kept rfl rfl rfl rfl

/-- The tail of a payload that opens is the nonce that `decrypt` returns. -/
theorem nonceTail_of_decrypt {payload : Bytes} (short : payload.length < 2 ^ 63)
    {secretKey : PrivateKey} {decryption : Decryption}
    (opened : decrypt P mode (some payload) secretKey = .ok decryption) :
    nonceTail payload = decryption.nonce.current.bytes := by
  obtain ⟨split, accepted, _, fields⟩ := decrypt_eq_ok opened
  have written := (split_eq_ok_iff mode short split).mp accepted
  rw [fields, written.encoded]
  exact nonceTail_append _ _

section Nonces

variable (P mode)

/-- The events since a payload with the given nonce was opened, and the state they lead to: every
message took the next step of the counter, and the counter has not come back. -/
structure SessionAt (nonce : NonceBytes) (past : List CtxEvent) (ctx : ConfidentialCtx) :
    Prop where
  /-- The next nonce is one step after the last one. -/
  next : ctx.nextNonce = some ⟨nonce, (addOne P)^[(sentPayloads past).length + 1] nonce⟩
  /-- The counter has not come back. -/
  bound : (sentPayloads past).length + 1 < 2 ^ 32
  /-- The nonces sent so far are consecutive. -/
  sent : (sentPayloads past).map nonceTail =
    (List.range (sentPayloads past).length).map fun index => ((addOne P)^[index + 1] nonce).bytes

variable {P mode}

theorem sentPayloads_snoc (past : List CtxEvent) (event : CtxEvent) :
    sentPayloads (past ++ [event]) = sentPayloads past ++ (sentPayload event).toList := by
  cases payload : sentPayload event <;> simp [sentPayloads, payload]

/-- Opening a payload starts the count. -/
theorem sessionAt_start {start ctx : ConfidentialCtx} {payload : Bytes}
    {opened : AuthenticatedPayload} {nonce : NonceBytes} (short : payload.length < 2 ^ 63)
    (carried : nonceTail payload = nonce.bytes)
    (accepted : start.decryptSession P mode payload = (.ok opened, ctx)) :
    SessionAt P nonce [] ctx := by
  rcases @decryptSession_cases P mode start payload with
    ⟨cause, result⟩ | ⟨error, result⟩ | ⟨address, keys, decryption, contract, decrypted, result⟩
  · rw [result] at accepted
    cases accepted
  · rw [result] at accepted
    cases accepted
  · rw [result] at accepted
    cases accepted
    obtain ⟨split, _, _, fields⟩ := decrypt_eq_ok decrypted
    have fresh : decryption.nonce = Nonce.new split.nonce.current :=
      congrArg Decryption.nonce fields
    have same : split.nonce.current = nonce := by
      apply FixedBytes.ext
      rw [← carried, nonceTail_of_decrypt short decrypted, fresh]
      rfl
    refine ⟨?_, by decide, rfl⟩
    rw [fresh, same]
    rfl

/-- Every call of a session keeps the count. -/
theorem sessionAt_step {nonce : NonceBytes} (past : List CtxEvent) (event : CtxEvent)
    (step : event.Of (machine P mode)) (goesOn : endsSession event = false)
    (held : SessionAt P nonce past event.before) :
    SessionAt P nonce (past ++ [event]) event.after := by
  cases sessionEffect_of step with
  | kept noPayload _ _ nextNonce =>
    have unchanged : sentPayloads (past ++ [event]) = sentPayloads past := by
      simp [sentPayloads_snoc, noPayload]
    exact ⟨by rw [unchanged, nextNonce, held.next], by rw [unchanged]; exact held.bound,
      by rw [unchanged]; exact held.sent⟩
  | sent data payload input output sends =>
    obtain ⟨address, keys, peer, used, next, cipher, _, _, current, _, incremented, rfl, after⟩ :=
      sends
    rw [held.next] at current
    obtain rfl := Option.some.inj current
    obtain ⟨onward, rfl⟩ := (Nonce.increment_eq_ok_iff P).mp incremented
    have grown : sentPayloads (past ++ [event]) = sentPayloads past ++ [encodeEncryption cipher
        ⟨nonce, (addOne P)^[(sentPayloads past).length + 1] nonce⟩ keys.inputKeypair.pk []] := by
      simp [sentPayloads_snoc, sentPayload, input, output]
    have length : (sentPayloads (past ++ [event])).length = (sentPayloads past).length + 1 := by
      simp [grown]
    -- The increment was refused if the counter had come back to the nonce of the request.
    have notBack : ((sentPayloads past).length + 1 + 1) % 2 ^ 32 ≠ 0 % 2 ^ 32 := by
      intro back
      apply onward
      have closed := (iterate_addOne_eq_iff P nonce ((sentPayloads past).length + 1 + 1) 0).mpr back
      rwa [Function.iterate_succ_apply'] at closed
    have bound := held.bound
    refine ⟨?_, by omega, ?_⟩
    · rw [after, length, Function.iterate_succ_apply' (addOne P) (_ + 1)]
    · rw [length, grown, List.map_append, held.sent, List.range_succ, List.map_append]
      congr 1
      exact congrArg (fun tail => [tail]) (nonceTail_append _ _)
  | opened payload address keys decryption input contract decrypted output after =>
    simp [endsSession, input, output] at goesOn
  | closed input after => simp [endsSession, input] at goesOn

/-- The nonces of a session and the nonce of the request are points of one orbit. -/
theorem SessionAt.orbit {nonce : NonceBytes} {past : List CtxEvent} {ctx : ConfidentialCtx}
    (held : SessionAt P nonce past ctx) :
    nonce.bytes :: (sentPayloads past).map nonceTail =
      (List.range ((sentPayloads past).length + 1)).map fun index =>
        ((addOne P)^[index] nonce).bytes := by
  rw [held.sent, List.range_succ_eq_map, List.map_cons, List.map_map]
  rfl

theorem SessionAt.nodup {nonce : NonceBytes} {past : List CtxEvent} {ctx : ConfidentialCtx}
    (held : SessionAt P nonce past ctx) :
    (nonce.bytes :: (sentPayloads past).map nonceTail).Nodup := by
  have bound := held.bound
  rw [held.orbit]
  apply List.Nodup.map_on _ List.nodup_range
  intro left leftIn right rightIn same
  have leftBound := List.mem_range.mp leftIn
  have rightBound := List.mem_range.mp rightIn
  have equal := (iterate_addOne_eq_iff P nonce left right).mp (FixedBytes.ext same)
  omega

/-- The counter would come back to the nonce of the request after 2^32 - 2 messages. -/
theorem SessionAt.back_iff {nonce : NonceBytes} {past : List CtxEvent} {ctx : ConfidentialCtx}
    (held : SessionAt P nonce past ctx) :
    addOne P ((addOne P)^[(sentPayloads past).length + 1] nonce) = nonce ↔
      (sentPayloads past).length = 2 ^ 32 - 2 := by
  have bound := held.bound
  have closed := iterate_addOne_eq_iff P nonce ((sentPayloads past).length + 1 + 1) 0
  rw [Function.iterate_succ_apply'] at closed
  exact closed.trans (by omega)

/-- When the counter would come back to the nonce of the request, nothing is sent any more. -/
theorem SessionAt.exhausted {nonce : NonceBytes} {past : List CtxEvent} {ctx : ConfidentialCtx}
    (held : SessionAt P nonce past ctx)
    (back : addOne P ((addOne P)^[(sentPayloads past).length + 1] nonce) = nonce) (data : Bytes) :
    ∃ error, ctx.encryptSession P data = (.err error, ctx) := by
  rcases @encryptSession_cases P ctx data with failed | ⟨payload, after, _, sends⟩
  · exact failed
  · obtain ⟨_, _, _, used, next, _, _, _, current, _, incremented⟩ := sends
    rw [held.next] at current
    obtain rfl := Option.some.inj current
    exact absurd back ((Nonce.increment_eq_ok_iff P).mp incremented).1

/-- A call that returns an error keeps the next nonce. -/
theorem nextNonce_of_error {event : CtxEvent} (step : event.Of (machine P mode)) {error : Error}
    (failed : event.output = .error error) : event.after.nextNonce = event.before.nextNonce := by
  cases sessionEffect_of step with
  | kept _ _ _ nextNonce => exact nextNonce
  | sent _ _ _ output =>
    rw [output] at failed
    cases failed
  | opened _ _ _ _ _ _ _ output =>
    rw [output] at failed
    cases failed
  | closed input after =>
    obtain ⟨before, op, output, state⟩ := event
    simp only at input
    subst input
    simp only [Event.Of, machine, Option.some.injEq, Prod.mk.injEq] at step
    rw [← step.1] at failed
    cases failed

variable (P mode)

/-- The bytes are a nonce so many steps after another one: the tag is the same, and the counters
differ by the steps modulo 2^32. -/
def StepsAfter (nonce : NonceBytes) (steps : Nat) (bytes : Bytes) : Prop :=
  ∃ value : NonceBytes, bytes = value.bytes ∧ tagOf value = tagOf nonce ∧
    (counterOf P value).val = ((counterOf P nonce).val + steps) % 2 ^ 32

/-- The messages of a session carry consecutive nonces that never repeat and never meet the nonce
of the request; failing calls use up none; and before the counter comes back, sending fails. -/
theorem session_nonces_never_repeat (start ctx : ConfidentialCtx) (payload : Bytes)
    (opened : AuthenticatedPayload) (nonce : NonceBytes) (short : payload.length < 2 ^ 63)
    (carried : nonceTail payload = nonce.bytes)
    (accepted : start.decryptSession P mode payload = (.ok opened, ctx)) (ops : List Op)
    (goesOn : ∀ event ∈ run (machine P mode) ctx ops, endsSession event = false) :
    let events := run (machine P mode) ctx ops
    let last := lastState ctx events
    (∀ (i : Nat) (sent : Bytes), (sentPayloads events)[i]? = some sent →
        StepsAfter P nonce (i + 1) (nonceTail sent)) ∧
      (nonce.bytes :: (sentPayloads events).map nonceTail).Nodup ∧
      (∀ event ∈ events, ∀ error, event.output = .error error →
        event.after.nextNonce = event.before.nextNonce) ∧
      (sentPayloads events).length ≤ 2 ^ 32 - 2 ∧
      ∃ current, last.nextNonce = some ⟨nonce, current⟩ ∧
        (addOne P current = nonce ↔ (sentPayloads events).length = 2 ^ 32 - 2) ∧
        (addOne P current = nonce →
          ∀ data, ∃ error, last.encryptSession P data = (.err error, last)) := by
  intro events last
  have held : SessionAt P nonce events last :=
    (run_history (fun event => endsSession event = false) (SessionAt P nonce)
      sessionAt_step [] (sessionAt_start short carried accepted) goesOn).2
  have bound := held.bound
  refine ⟨?_, held.nodup, ?_, by omega, _, held.next, held.back_iff, held.exhausted⟩
  · intro i sent located
    have tail : ((sentPayloads events).map nonceTail)[i]? = some (nonceTail sent) := by
      simp [located]
    rw [held.sent, List.getElem?_map, Option.map_eq_some_iff] at tail
    obtain ⟨index, found, same⟩ := tail
    have position : index = i := by
      obtain ⟨_, rfl⟩ := List.getElem?_eq_some_iff.mp found
      exact List.getElem_range _
    subst position
    exact ⟨_, same.symm, tagOf_iterate P nonce _, counterOf_iterate P nonce _⟩
  · intro event member error failed
    exact nextNonce_of_error (of_mem_run member) failed

/-- A context with an active contract, in a block after an empty one. -/
def openContext : ConfidentialCtx :=
  (ConfidentialCtx.activate samplePrimitives (fun id => .ok (sampleKeys id))
    (.new (FixedBytes.filled 32 0)) (some (FixedBytes.filled 20 1))).2

/-- A request to that contract, under the last nonce before the counter wraps. -/
def sampleRequest : Bytes :=
  encodeEncryption
    ([1, 2] ++ (sampleTag (List.zipWith (· ^^^ ·) (List.replicate 32 5)
      (padTo 32 (List.replicate 20 1)).bytes) (FixedBytes.filled 15 255) [3]).bytes)
    (Nonce.new (FixedBytes.filled 15 255)) (FixedBytes.filled 32 5) [3]

/-- Two answers with a contract switch between them. -/
def twoAnswers : List Op :=
  [.encryptSession [7], .activate (fun id => .ok (sampleKeys id)) (some (FixedBytes.filled 20 2)),
    .encryptSession [8]]

/-- Two answers and the request carry three different nonces. -/
theorem two_answers_differ :
    ∃ opened ctx, openContext.decryptSession samplePrimitives .checked sampleRequest =
        (.ok opened, ctx) ∧
      (sentPayloads (run (machine samplePrimitives .checked) ctx twoAnswers)).length = 2 ∧
      ((FixedBytes.filled 15 255 : NonceBytes).bytes ::
        (sentPayloads (run (machine samplePrimitives .checked) ctx twoAnswers)).map
          nonceTail).Nodup :=
  ⟨_, _, rfl, rfl,
    (session_nonces_never_repeat samplePrimitives .checked openContext _ sampleRequest _
      (FixedBytes.filled 15 255) (by decide) rfl rfl twoAnswers (by decide)).2.1⟩

end Nonces

end Ethwasi.Confidential
