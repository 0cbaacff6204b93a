import Ethwasi.Confidential.Invariant

/-!
# A confidential conversation

A client seals its call for a contract, the context opens it, and the outputs of the call and of
the contracts it calls go back to the client. Both ends use the box of the MRAE library with their
own private key and the public key of the other end. With keys that belong together, each end
reads exactly what the other one wrote, and the client learns which contract wrote it.
-/

namespace Ethwasi.Confidential

open Ethwasi.Rust Ethwasi.Transition

variable (P : Primitives) (mode : OverflowMode)

/-- The law assumed of the box: the receiver opens what the sender sealed, if the keys of each of
them belong together. -/
def BoxRoundTrip (Matching : InputKeyPair → Prop) : Prop :=
  ∀ sender receiver : InputKeyPair, Matching sender → Matching receiver →
    ∀ nonce message aad cipher,
      P.boxSeal nonce message aad receiver.pk sender.sk = .ok cipher →
        P.boxOpen nonce cipher aad sender.pk receiver.sk = .ok message

/-- The session keys of a contract. -/
def sessionKeysOf (keys : KeyPairId → KeyPair) (address : Address) : InputKeyPair :=
  (keys (P.keccak address.bytes)).inputKeypair

/-- A call made while a request is answered: an output, or a switch to another contract. -/
def Answering : Op → Prop
  | .encryptSession _ => True
  | .activate _ (some _) => True
  | _ => False

/-- The call passes an output to `encrypt_session`. -/
def isOutput : Op → Bool
  | .encryptSession _ => true
  | _ => false

/-- The context talks to the client for some contract, with the keys assigned to it. -/
structure Talking (client : InputKeyPair) (keys : KeyPairId → KeyPair) (ctx : ConfidentialCtx) :
    Prop where
  /-- The peer is the client. -/
  peer : ctx.peerPublicKey = some client.pk
  /-- A contract is active with its keys. -/
  contract : ∃ address, ctx.contract = some (address, keys (P.keccak address.bytes))

/-- What became of an output: a payload that the client opens as this output of the contract that
was active, unless the box failed to seal it. -/
def Delivered (client : InputKeyPair) (keys : KeyPairId → KeyPair) (event : CtxEvent)
    (output : Bytes) : Prop :=
  ∃ address, activeAddress event.before = some address ∧
    ((∃ payload, event.output = .ok (.bytes payload) ∧ (payload.length < 2 ^ 63 →
        ∃ nonce, decrypt P mode (some payload) client.sk =
          .ok ⟨output, nonce, (sessionKeysOf P keys address).pk, []⟩)) ∨
      ∃ nonce message, event.output = .error (.confidential message) ∧
        P.boxSeal nonce output [] client.pk (sessionKeysOf P keys address).sk = .error message)

variable {P mode}

/-- What is sealed for a receiver opens there as it was. -/
theorem decrypt_of_sealed {Matching : InputKeyPair → Prop} (law : BoxRoundTrip P Matching)
    {sender receiver : InputKeyPair} (senderMatches : Matching sender)
    (receiverMatches : Matching receiver) {nonce : Nonce} {message aad cipher : Bytes}
    (sealed : P.boxSeal nonce.current message aad receiver.pk sender.sk = .ok cipher)
    (short : (encodeEncryption cipher nonce sender.pk aad).length < 2 ^ 63) :
    decrypt P mode (some (encodeEncryption cipher nonce sender.pk aad)) receiver.sk =
      .ok ⟨message, Nonce.new nonce.current, sender.pk, aad⟩ := by
  have opened := law sender receiver senderMatches receiverMatches _ _ _ _ sealed
  have framed := split_encodeEncryption mode cipher nonce sender.pk aad short
  simp [decrypt, framed, Nonce.new, opened, Outcome.ofExcept, Outcome.mapErr]

theorem encrypt_eq_ok {message aad payload : Bytes} {nonce : Nonce} {peer key : PublicKey}
    {secretKey : PrivateKey}
    (sealed : encrypt P message nonce peer key secretKey aad = .ok payload) :
    ∃ cipher, P.boxSeal nonce.current message aad peer secretKey = .ok cipher ∧
      payload = encodeEncryption cipher nonce key aad := by
  cases result : P.boxSeal nonce.current message aad peer secretKey with
  | error failure => simp [encrypt, result, Outcome.ofExcept] at sealed
  | ok cipher =>
    simp only [encrypt, result, Outcome.ofExcept, Outcome.ok_bind, Outcome.pure_eq_ok,
      Outcome.ok.injEq] at sealed
    exact ⟨cipher, rfl, sealed.symm⟩

section Session

variable {client : InputKeyPair} {keys : KeyPairId → KeyPair}

/-- An output leaves the conversation as it is. -/
theorem Talking.encryptSession {ctx : ConfidentialCtx} (held : Talking P client keys ctx)
    (data : Bytes) : Talking P client keys (ctx.encryptSession P data).2 := by
  rcases @encryptSession_cases P ctx data with ⟨error, result⟩ | ⟨payload, after, result, sends⟩
  · rw [result]
    exact held
  · obtain ⟨_, _, _, _, _, _, _, _, _, _, _, _, rfl⟩ := sends
    rw [result]
    exact ⟨held.peer, held.contract⟩

/-- A switch, or a failed one, goes on with the same client. -/
theorem Talking.activate {ctx : ConfidentialCtx} (held : Talking P client keys ctx)
    {keyManager : KeyManager} {address : Address}
    (consistent : ConsistentKeys keys (.activate keyManager (some address))) :
    Talking P client keys (ctx.activate P keyManager (some address)).2 := by
  refine ⟨(activate_sameSession ctx keyManager (some address)).1.trans held.peer, ?_⟩
  cases returned : keyManager (P.keccak address.bytes) with
  | error message =>
    simp only [ConfidentialCtx.activate, returned]
    exact held.contract
  | ok pair =>
    have assigned : pair = keys (P.keccak address.bytes) := consistent _ _ returned
    simp only [ConfidentialCtx.activate, ConfidentialCtx.swapContract, returned]
    exact ⟨address, by rw [← assigned]⟩

/-- Outputs and switches are answered, and the context goes on talking to the client. -/
theorem talking_answered (ctx : ConfidentialCtx) (op : Op)
    (allowed : ConsistentKeys keys op ∧ Answering op) (held : Talking P client keys ctx) :
    ∃ output next, machine P mode ctx op = some (output, next) ∧ Talking P client keys next := by
  obtain ⟨consistent, answering⟩ := allowed
  cases op with
  | encryptSession data =>
    obtain ⟨output, answered⟩ := answer_of_returns .bytes (@encryptSession_ne_panic P ctx data)
    exact ⟨output, _, answered, held.encryptSession data⟩
  | activate keyManager target =>
    cases target with
    | none => exact answering.elim
    | some address =>
      obtain ⟨output, answered⟩ := answer_of_returns .switched
        (@activate_ne_panic P ctx keyManager (some address))
      exact ⟨output, _, answered, held.activate consistent⟩
  | deactivate => exact answering.elim
  | decryptSession payload => exact answering.elim
  | encryptStorageKey data => exact answering.elim
  | encryptStorageValue storageKey data => exact answering.elim
  | decryptStorageValue storageKey data => exact answering.elim

/-- Outputs and switches do not end a session. -/
theorem endsSession_of_answering {event : CtxEvent} (answering : Answering event.input) :
    endsSession event = false := by
  obtain ⟨before, op, output, after⟩ := event
  cases op with
  | encryptSession data => rfl
  | activate keyManager target => rfl
  | deactivate => exact answering.elim
  | decryptSession payload => exact answering.elim
  | encryptStorageKey data => rfl
  | encryptStorageValue storageKey data => rfl
  | decryptStorageValue storageKey data => rfl

/-- Outputs and switches keep the conversation and the count of its nonces. -/
theorem talking_step {start : NonceBytes} (past : List CtxEvent) (event : CtxEvent)
    (step : event.Of (machine P mode))
    (allowed : ConsistentKeys keys event.input ∧ Answering event.input)
    (held : Talking P client keys event.before ∧ SessionAt P start past event.before) :
    Talking P client keys event.after ∧ SessionAt P start (past ++ [event]) event.after := by
  obtain ⟨talking, counted⟩ := held
  obtain ⟨output, next, answered, talks⟩ :=
    @talking_answered P mode client keys event.before event.input allowed talking
  have same : next = event.after := by
    rw [Event.Of, answered] at step
    exact (Prod.mk.inj (Option.some.inj step)).2
  exact ⟨same ▸ talks, sessionAt_step past event step (endsSession_of_answering allowed.2) counted⟩

/-- Only an output is sent. -/
theorem isOutput_of_sentPayload {event : CtxEvent} {payload : Bytes}
    (sent : sentPayload event = some payload) : isOutput event.input = true := by
  unfold sentPayload at sent
  split at sent
  · rename_i input _
    rw [input]
    rfl
  · cases sent

/-- A run sends at most one payload for each output. -/
theorem sentPayloads_length_le (start : ConfidentialCtx) (ops : List Op) :
    (sentPayloads (run (machine P mode) start ops)).length ≤ (ops.filter isOutput).length := by
  induction ops generalizing start with
  | nil => simp [run, sentPayloads]
  | cons op ops ih =>
    cases stepped : machine P mode start op with
    | none => simp [run_cons_none stepped, sentPayloads]
    | some answered =>
      obtain ⟨output, next⟩ := answered
      have rest : (sentPayloads (run (machine P mode) next ops)).length ≤
          (ops.filter isOutput).length := ih next
      rw [run_cons_some stepped, sentPayloads, List.filterMap_cons]
      cases sent : sentPayload ⟨start, op, output, next⟩ with
      | none =>
        have fewer : ops.filter isOutput |>.Sublist ((op :: ops).filter isOutput) :=
          (List.sublist_cons_self op ops).filter isOutput
        exact Nat.le_trans rest fewer.length_le
      | some payload =>
        have passed : isOutput op = true := isOutput_of_sentPayload sent
        rw [List.filter_cons_of_pos passed, List.length_cons, List.length_cons]
        exact Nat.succ_le_succ rest

/-- Before the counter is used up, an output is delivered. -/
theorem delivered_of_step {Matching : InputKeyPair → Prop} (law : BoxRoundTrip P Matching)
    (keysMatch : ∀ id, Matching (keys id).inputKeypair) (clientMatches : Matching client)
    {start : NonceBytes} {past : List CtxEvent} {event : CtxEvent}
    (step : event.Of (machine P mode)) (held : Talking P client keys event.before)
    (counted : SessionAt P start past event.before)
    (few : (sentPayloads past).length < 2 ^ 32 - 2) {output : Bytes}
    (input : event.input = .encryptSession output) : Delivered P mode client keys event output := by
  obtain ⟨address, contract⟩ := held.contract
  have onward : addOne P ((addOne P)^[(sentPayloads past).length + 1] start) ≠ start := by
    intro back
    exact absurd (counted.back_iff.mp back) (Nat.ne_of_lt few)
  have incremented : Nonce.increment P ⟨start, (addOne P)^[(sentPayloads past).length + 1] start⟩ =
      .ok ⟨start, addOne P ((addOne P)^[(sentPayloads past).length + 1] start)⟩ :=
    (Nonce.increment_eq_ok_iff P).mpr ⟨onward, rfl⟩
  have answered : answer .bytes (event.before.encryptSession P output) =
      some (event.output, event.after) := by
    have taken := step
    rw [Event.Of, input] at taken
    exact taken
  rw [encryptSession_of_parts contract held.peer counted.next, incremented] at answered
  refine ⟨address, by simp [activeAddress, contract], ?_⟩
  cases sealed : P.boxSeal ((addOne P)^[(sentPayloads past).length + 1] start) output [] client.pk
      (keys (P.keccak address.bytes)).inputKeypair.sk with
  | error message =>
    rw [sealed] at answered
    obtain ⟨result, _⟩ := Prod.mk.inj (Option.some.inj answered)
    exact .inr ⟨_, message, result.symm, sealed⟩
  | ok cipher =>
    rw [sealed] at answered
    obtain ⟨result, _⟩ := Prod.mk.inj (Option.some.inj answered)
    exact .inl ⟨_, result.symm, fun short =>
      ⟨_, decrypt_of_sealed law (keysMatch _) clientMatches sealed short⟩⟩

/-- Every output of a conversation is delivered. -/
theorem conversation_run {Matching : InputKeyPair → Prop} (law : BoxRoundTrip P Matching)
    (keysMatch : ∀ id, Matching (keys id).inputKeypair) (clientMatches : Matching client)
    {start : NonceBytes} {ctx : ConfidentialCtx} (talking : Talking P client keys ctx)
    (counted : SessionAt P start [] ctx) {ops : List Op}
    (allowed : ∀ op ∈ ops, ConsistentKeys keys op ∧ Answering op)
    (few : (ops.filter isOutput).length < 2 ^ 32 - 2) :
    (run (machine P mode) ctx ops).length = ops.length ∧
      ∀ event ∈ run (machine P mode) ctx ops, ∀ output,
        event.input = .encryptSession output → Delivered P mode client keys event output := by
  refine ⟨run_complete _ _ talking_answered talking allowed, ?_⟩
  intro event member output input
  obtain ⟨earlier, later, split⟩ := List.append_of_mem member
  obtain ⟨held, count⟩ := (run_history
    (fun event => ConsistentKeys keys event.input ∧ Answering event.input)
    (fun past ctx => Talking P client keys ctx ∧ SessionAt P start past ctx)
    talking_step [] ⟨talking, counted⟩
    fun event member => allowed _ (input_mem_of_mem_run member)).1 earlier event later split
  rw [List.nil_append] at count
  have sent := @sentPayloads_length_le P mode ctx ops
  have fewer : (sentPayloads earlier).length ≤
      (sentPayloads (run (machine P mode) ctx ops)).length := by
    rw [split]
    simp [sentPayloads]
  have few : (sentPayloads earlier).length < 2 ^ 32 - 2 := by omega
  exact delivered_of_step law keysMatch clientMatches (of_mem_run member) held count few input

end Session

variable (P mode)

/-- A client's call is opened as it was sealed, the client becomes the peer, and every output that
follows, for whichever contract is active, reaches the client as an output of that contract. -/
theorem conversation_faithful (Matching : InputKeyPair → Prop) (law : BoxRoundTrip P Matching)
    (keys : KeyPairId → KeyPair) (keysMatch : ∀ id, Matching (keys id).inputKeypair)
    (client : InputKeyPair) (clientMatches : Matching client) (prevBlockHash : H256)
    (history : List Op) (consistent : ∀ op ∈ history, ConsistentKeys keys op)
    (ctx : ConfidentialCtx)
    (reached : ctx = lastState (.new prevBlockHash)
      (run (machine P mode) (.new prevBlockHash) history))
    (address : Address) (active : activeAddress ctx = some address) (nonce : Nonce)
    (data aad payload : Bytes)
    (sealed : encrypt P data nonce (sessionKeysOf P keys address).pk client.pk client.sk aad =
      .ok payload)
    (short : payload.length < 2 ^ 63) :
    ∃ after, ctx.decryptSession P mode payload = (.ok ⟨data, aad⟩, after) ∧
      after.peerPublicKey = some client.pk ∧
      ∀ ops : List Op, (∀ op ∈ ops, ConsistentKeys keys op ∧ Answering op) →
        (ops.filter isOutput).length < 2 ^ 32 - 2 →
          (run (machine P mode) after ops).length = ops.length ∧
          ∀ event ∈ run (machine P mode) after ops, ∀ output,
            event.input = .encryptSession output → Delivered P mode client keys event output := by
  subst reached
  obtain ⟨⟨owner, pair⟩, contract, rfl⟩ := Option.map_eq_some_iff.mp active
  have assigned : pair = keys (P.keccak owner.bytes) :=
    ((wellFormed_run prevBlockHash history).keys owner pair contract).eq_of_consistent consistent
  subst assigned
  obtain ⟨cipher, boxed, rfl⟩ := encrypt_eq_ok sealed
  have opened : decrypt P mode (some (encodeEncryption cipher nonce client.pk aad))
      (keys (P.keccak owner.bytes)).inputKeypair.sk =
        .ok ⟨data, Nonce.new nonce.current, client.pk, aad⟩ :=
    decrypt_of_sealed law clientMatches (keysMatch _) boxed short
  have accepted := decryptSession_of_opened contract opened
  refine ⟨_, accepted, rfl, fun ops allowed few => ?_⟩
  have counted := sessionAt_start short (nonceTail_append _ nonce.current) accepted
  refine conversation_run law keysMatch clientMatches ?_ counted allowed few
  exact ⟨rfl, owner, contract⟩

/-- The transparent box opens what it sealed when both keys of each end are the same. -/
theorem sampleBox_roundTrip : BoxRoundTrip samplePrimitives fun pair => pair.pk = pair.sk := by
  intro sender receiver senderMatches receiverMatches nonce message aad cipher sealed
  obtain rfl := Except.ok.inj sealed
  have shared : List.zipWith (· ^^^ ·) sender.pk.bytes receiver.sk.bytes =
      List.zipWith (· ^^^ ·) receiver.pk.bytes sender.sk.bytes := by
    rw [senderMatches, receiverMatches, List.zipWith_comm_of_comm UInt8.xor_comm]
  have opened := sampleOpen_append (List.zipWith (· ^^^ ·) sender.pk.bytes receiver.sk.bytes) nonce
    message aad (sampleTag (List.zipWith (· ^^^ ·) receiver.pk.bytes sender.sk.bytes) nonce aad)
  rw [shared, if_pos rfl] at opened
  simp only [samplePrimitives]
  rw [shared, opened]

/-- A request is opened, and the answers of two contracts reach the client. -/
theorem request_and_answers :
    ∃ after, openContext.decryptSession samplePrimitives .checked sampleRequest =
        (.ok ⟨[1, 2], [3]⟩, after) ∧
      (run (machine samplePrimitives .checked) after twoAnswers).length = 3 ∧
      ∀ event ∈ run (machine samplePrimitives .checked) after twoAnswers, ∀ output,
        event.input = .encryptSession output →
          Delivered samplePrimitives .checked ⟨FixedBytes.filled 32 5, FixedBytes.filled 32 5⟩
            sampleKeys event output := by
  obtain ⟨after, accepted, _, answers⟩ := conversation_faithful samplePrimitives .checked
    (fun pair => pair.pk = pair.sk) sampleBox_roundTrip sampleKeys (fun _ => rfl)
    ⟨FixedBytes.filled 32 5, FixedBytes.filled 32 5⟩ rfl (FixedBytes.filled 32 0)
    [.activate (fun id => .ok (sampleKeys id)) (some (FixedBytes.filled 20 1))]
    (fun op member => List.mem_singleton.mp member ▸ sampleKeys_consistent _)
    openContext rfl (FixedBytes.filled 20 1) rfl (Nonce.new (FixedBytes.filled 15 255)) [1, 2] [3]
    sampleRequest rfl (by decide)
  refine ⟨after, accepted, answers twoAnswers ?_ (by decide)⟩
  intro op member
  simp only [twoAnswers, List.mem_cons, List.not_mem_nil, or_false] at member
  rcases member with rfl | rfl | rfl
  · exact ⟨trivial, trivial⟩
  · exact ⟨sampleKeys_consistent _, trivial⟩
  · exact ⟨trivial, trivial⟩

end Ethwasi.Confidential
