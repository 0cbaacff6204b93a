import Ethwasi.Confidential.Session

/-!
# Nonces of different sessions

A session counts on from the nonce of its request, and nothing is kept of earlier sessions. So the
client alone sees to it that the answers of different sessions have different nonces: they do, as
long as the nonces of its requests have different tags or lie far enough apart. A request that is
sent again, by whomever and in whichever block, is opened again, and its answers repeat the nonces
of the first ones, one by one.
-/

namespace Ethwasi.Confidential

open Ethwasi.Rust Ethwasi.Transition

variable (P : Primitives) (mode : OverflowMode)

/-- A request that some context accepted, and what was called until its session ended. -/
structure ConfidentialSession where
  /-- The context before the request. -/
  start : ConfidentialCtx
  payload : Bytes
  /-- The nonce of the request. -/
  nonce : NonceBytes
  opened : AuthenticatedPayload
  /-- The context after the request. -/
  ctx : ConfidentialCtx
  ops : List Op
  short : payload.length < 2 ^ 63
  carried : nonceTail payload = nonce.bytes
  accepted : start.decryptSession P mode payload = (.ok opened, ctx)
  goesOn : ∀ event ∈ run (machine P mode) ctx ops, endsSession event = false

variable {P mode}

namespace ConfidentialSession

/-- The payloads that were sent. -/
def answers (session : ConfidentialSession P mode) : List Bytes :=
  sentPayloads (run (machine P mode) session.ctx session.ops)

/-- The nonce of an answer, from the request and the place of the answer. -/
theorem nonceTail_eq (session : ConfidentialSession P mode) {index : Nat} {answer : Bytes}
    (located : session.answers[index]? = some answer) :
    index + 1 < 2 ^ 32 ∧ nonceTail answer = ((addOne P)^[index + 1] session.nonce).bytes := by
  have held := (run_history (fun event => endsSession event = false) (SessionAt P session.nonce)
    sessionAt_step [] (sessionAt_start session.short session.carried session.accepted)
    session.goesOn).2
  rw [List.nil_append] at held
  have tail : (session.answers.map nonceTail)[index]? = some (nonceTail answer) := by
    rw [List.getElem?_map, located]
    rfl
  rw [answers] at located tail
  obtain ⟨inside, _⟩ := List.getElem?_eq_some_iff.mp located
  have bound := held.bound
  refine ⟨by omega, ?_⟩
  rw [held.sent, List.getElem?_map, List.getElem?_range inside] at tail
  exact (Option.some.inj tail).symm

/-- A request that was accepted is accepted again wherever its contract is active, with the same
result, the same peer and the same nonce to go on with. -/
theorem reopened (session : ConfidentialSession P mode) {again : ConfidentialCtx}
    (contract : again.contract = session.start.contract) :
    ∃ ctx, again.decryptSession P mode session.payload = (.ok session.opened, ctx) ∧
      ctx.peerPublicKey = session.ctx.peerPublicKey ∧ ctx.nextNonce = session.ctx.nextNonce := by
  have accepted := session.accepted
  rcases @decryptSession_cases P mode session.start session.payload with
    ⟨cause, result⟩ | ⟨error, result⟩ | ⟨address, keys, decryption, active, decrypted, result⟩
  · rw [result] at accepted
    cases accepted
  · rw [result] at accepted
    cases accepted
  · rw [result] at accepted
    obtain ⟨opened, ctx⟩ := Prod.mk.inj accepted
    rw [decryptSession_of_opened (contract.trans active) decrypted, opened, ← ctx]
    exact ⟨_, rfl, rfl, rfl⟩

end ConfidentialSession

/-- When two orbits meet. -/
theorem iterate_addOne_meet_iff (value other : NonceBytes) (left right : Nat) :
    (addOne P)^[left] value = (addOne P)^[right] other ↔ tagOf value = tagOf other ∧
      ((counterOf P value).val + left) % 2 ^ 32 = ((counterOf P other).val + right) % 2 ^ 32 := by
  have first := counterOf_iterate P value left
  have second := counterOf_iterate P other right
  constructor
  · intro same
    have tags := congrArg tagOf same
    rw [tagOf_iterate, tagOf_iterate] at tags
    rw [same, second] at first
    exact ⟨tags, first.symm⟩
  · rintro ⟨tags, counters⟩
    refine nonceBytes_ext P (by simpa using tags) (Fin.ext ?_)
    rw [first, second, counters]

/-- When answers of two sessions share a nonce. Let two requests be accepted anywhere, by any
contexts in any states. An answer to one and an answer to the other have the same nonce exactly if
the nonces of the requests have the same tag and their counters differ as the places of the answers
do. A request that was accepted once is accepted again by every context in which its contract is
active: it is opened with the same result, the same peer is answered from the same nonce on, and
the answers share their nonces with the first ones place by place. -/
theorem session_nonce_shared_iff (first : ConfidentialSession P mode) :
    (∀ (second : ConfidentialSession P mode) (i j : Nat) (answer other : Bytes),
      first.answers[i]? = some answer → second.answers[j]? = some other →
      (nonceTail answer = nonceTail other ↔ tagOf first.nonce = tagOf second.nonce ∧
        ((counterOf P first.nonce).val + i) % 2 ^ 32 =
          ((counterOf P second.nonce).val + j) % 2 ^ 32)) ∧
    ∀ again : ConfidentialCtx, again.contract = first.start.contract →
      ∃ ctx, again.decryptSession P mode first.payload = (.ok first.opened, ctx) ∧
        ctx.peerPublicKey = first.ctx.peerPublicKey ∧ ctx.nextNonce = first.ctx.nextNonce ∧
        ∀ ops, (∀ event ∈ run (machine P mode) ctx ops, endsSession event = false) →
          ∀ (i j : Nat) (answer other : Bytes), first.answers[i]? = some answer →
            (sentPayloads (run (machine P mode) ctx ops))[j]? = some other →
            (nonceTail answer = nonceTail other ↔ i = j) := by
  have shared (second : ConfidentialSession P mode) (i j : Nat) (answer other : Bytes)
      (isFirst : first.answers[i]? = some answer) (isSecond : second.answers[j]? = some other) :
      nonceTail answer = nonceTail other ↔ tagOf first.nonce = tagOf second.nonce ∧
        ((counterOf P first.nonce).val + i) % 2 ^ 32 =
          ((counterOf P second.nonce).val + j) % 2 ^ 32 := by
    rw [(first.nonceTail_eq isFirst).2, (second.nonceTail_eq isSecond).2]
    have meet := iterate_addOne_meet_iff (P := P) first.nonce second.nonce (i + 1) (j + 1)
    constructor
    · intro same
      obtain ⟨tags, counters⟩ := meet.mp (FixedBytes.ext same)
      exact ⟨tags, by omega⟩
    · rintro ⟨tags, counters⟩
      exact congrArg FixedBytes.bytes (meet.mpr ⟨tags, by omega⟩)
  refine ⟨shared, fun again contract => ?_⟩
  obtain ⟨ctx, accepted, peer, nextNonce⟩ := first.reopened contract
  refine ⟨ctx, accepted, peer, nextNonce, fun ops goesOn i j answer other isFirst isSecond => ?_⟩
  let second : ConfidentialSession P mode :=
    ⟨again, first.payload, first.nonce, first.opened, ctx, ops, first.short, first.carried,
      accepted, goesOn⟩
  have firstBound := (first.nonceTail_eq isFirst).1
  have secondBound := (second.nonceTail_eq isSecond).1
  rw [shared second i j answer other isFirst isSecond]
  constructor
  · rintro ⟨_, counters⟩
    simp only [second] at counters
    omega
  · rintro rfl
    exact ⟨rfl, rfl⟩

/-- The first session with the sample request. -/
def sampleSession : ConfidentialSession samplePrimitives .checked :=
  ⟨openContext, sampleRequest, FixedBytes.filled 15 255, _, _, twoAnswers, by decide, rfl, rfl,
    by decide⟩

/-- The same contract, active in another block. -/
def laterContext : ConfidentialCtx :=
  (ConfidentialCtx.activate samplePrimitives (fun id => .ok (sampleKeys id))
    (.new (FixedBytes.filled 32 9)) (some (FixedBytes.filled 20 1))).2

/-- The sample request, sent again in another block, is opened again and answered with another
message under the nonce of the first answer. -/
theorem replayed_request_repeats_nonce :
    sampleSession.start.prevBlockHash ≠ laterContext.prevBlockHash ∧
    ∃ ctx, laterContext.decryptSession samplePrimitives .checked sampleRequest =
        (.ok sampleSession.opened, ctx) ∧
      ∃ answer other, sampleSession.answers[0]? = some answer ∧
        (sentPayloads (run (machine samplePrimitives .checked) ctx
          [.encryptSession [9]]))[0]? = some other ∧
        nonceTail answer = nonceTail other ∧ answer ≠ other := by
  obtain ⟨ctx, accepted, _, _, places⟩ :=
    (session_nonce_shared_iff sampleSession).2 laterContext rfl
  cases accepted
  exact ⟨by decide, _, rfl, _, _, rfl, rfl,
    (places [.encryptSession [9]] (by decide) 0 0 _ _ rfl rfl).mpr rfl, by decide⟩

end Ethwasi.Confidential
