import Ethwasi.Confidential.Invariant

/-!
# What a failed call leaves behind

A call that returns an error may have assigned fields before it failed, and the next transaction of
the block goes on with the context as it is. `encrypt_session` and `encrypt_storage_value` change
nothing before the last point at which they can fail. `decrypt_session` replaces the peer first, but
the increment that comes after it cannot fail, since the nonce was just created. `activate` raises
its flag before it asks the key manager, and nobody lowers it again when the key manager fails.
-/

namespace Ethwasi.Confidential

open Ethwasi.Rust Ethwasi.Transition

variable {P : Primitives} {mode : OverflowMode}

/-- The call is an activation of a context that was not activated. -/
def FirstActivation (event : CtxEvent) : Prop :=
  event.before.activated = false ∧
    ∃ keyManager contract, event.input = .activate keyManager contract

/-- A failed activation changes nothing but the flag. -/
theorem activate_eq_err {ctx : ConfidentialCtx} {keyManager : KeyManager}
    {contract : Option Address} {error : Error}
    (failed : (ctx.activate P keyManager contract).1 = .err error) :
    (ctx.activate P keyManager contract).2 = { ctx with activated := true } := by
  cases contract with
  | none => cases failed
  | some address =>
    cases returned : keyManager (P.keccak address.bytes) with
    | error message => simp only [ConfidentialCtx.activate, returned]
    | ok keys => simp [ConfidentialCtx.activate, returned] at failed

/-- A failed storage write changes nothing. -/
theorem encryptStorageValue_eq_err {ctx : ConfidentialCtx} {storageKey data : Bytes}
    {error : Error} (failed : (ctx.encryptStorageValue P storageKey data).1 = .err error) :
    (ctx.encryptStorageValue P storageKey data).2 = ctx := by
  unfold ConfidentialCtx.encryptStorageValue at failed ⊢
  split
  · rename_i nonce d2 usedNonce usedCipher
    cases incremented : nonce.increment P with
    | error message => simp
    | ok next => simp [usedNonce, usedCipher, incremented] at failed
  · rfl

/-- The output of a call is an error when the call returned it. -/
theorem answer_eq_error {α : Type} {wrap : α → Reply} {called : Method α} {error : Error}
    {after : ConfidentialCtx} (answered : answer wrap called = some (.error error, after)) :
    after = called.2 ∧ called.1 = .err error := by
  obtain ⟨same, ⟨value, _, impossible⟩ | ⟨other, result, output⟩⟩ := answer_eq_some answered
  · cases impossible
  · cases output
    exact ⟨same, result⟩

/-- A failed call is no activation and leaves the context as it was, or it is one and leaves the
flag raised. -/
theorem after_of_failed {event : CtxEvent} (step : event.Of (machine P mode)) {error : Error}
    (failed : event.output = .error error) :
    (∀ keyManager contract, event.input ≠ .activate keyManager contract) ∧
        event.after = event.before ∨
      (∃ keyManager contract, event.input = .activate keyManager contract) ∧
        event.after = { event.before with activated := true } := by
  obtain ⟨before, op, output, after⟩ := event
  change machine P mode before op = some (output, after) at step
  cases failed
  cases op with
  | activate keyManager contract =>
    obtain ⟨rfl, result⟩ := answer_eq_error step
    exact .inr ⟨⟨keyManager, contract, rfl⟩, activate_eq_err result⟩
  | deactivate => cases step
  | encryptSession data =>
    obtain ⟨rfl, result⟩ := answer_eq_error step
    rcases @encryptSession_cases P before data with ⟨_, returned⟩ | ⟨_, _, returned, _⟩
    · exact .inl ⟨by simp, by rw [returned]⟩
    · rw [returned] at result
      cases result
  | decryptSession payload =>
    obtain ⟨rfl, result⟩ := answer_eq_error step
    rcases @decryptSession_cases P mode before payload with
      ⟨_, returned⟩ | ⟨_, returned⟩ | ⟨_, _, _, _, _, returned⟩
    · exact .inl ⟨by simp, by rw [returned]⟩
    · exact .inl ⟨by simp, by rw [returned]⟩
    · rw [returned] at result
      cases result
  | encryptStorageKey data => exact .inl ⟨by simp, (answer_eq_error step).1⟩
  | encryptStorageValue storageKey data =>
    obtain ⟨rfl, result⟩ := answer_eq_error step
    exact .inl ⟨by simp, encryptStorageValue_eq_err result⟩
  | decryptStorageValue storageKey data => exact .inl ⟨by simp, (answer_eq_error step).1⟩

/-- The context with another value of the flag. -/
def withFlag (flag : Bool) (ctx : ConfidentialCtx) : ConfidentialCtx :=
  { ctx with activated := flag }

theorem encryptSession_withFlag (ctx : ConfidentialCtx) (flag : Bool) (data : Bytes) :
    (withFlag flag ctx).encryptSession P data =
      ((ctx.encryptSession P data).1, withFlag flag (ctx.encryptSession P data).2) := by
  by_cases complete : ctx.missingSessionParts = ""
  · obtain ⟨hasPeer, hasContract, hasNonce⟩ := (missingSessionParts_eq_empty_iff ctx).mp complete
    obtain ⟨peer, receiver⟩ := Option.isSome_iff_exists.mp hasPeer
    obtain ⟨⟨address, keys⟩, contract⟩ := Option.isSome_iff_exists.mp hasContract
    obtain ⟨nonce, used⟩ := Option.isSome_iff_exists.mp hasNonce
    rw [encryptSession_of_parts contract receiver used,
      @encryptSession_of_parts P (withFlag flag ctx) _ _ _ _ contract receiver used]
    cases P.boxSeal nonce.current data [] peer keys.inputKeypair.sk with
    | error message => rfl
    | ok cipher => cases nonce.increment P <;> rfl
  · have missing : ctx.encryptSession P data = (.err (.confidential
        ("Cannot encrypt session" ++ ctx.missingSessionParts ++ ".")), ctx) := if_pos complete
    rw [missing]
    exact if_pos complete

theorem decryptSession_withFlag (ctx : ConfidentialCtx) (flag : Bool) (payload : Bytes) :
    (withFlag flag ctx).decryptSession P mode payload =
      ((ctx.decryptSession P mode payload).1,
        withFlag flag (ctx.decryptSession P mode payload).2) := by
  obtain ⟨peer, contract, nonce, activated, block, d2, storageNonce⟩ := ctx
  simp only [withFlag, ConfidentialCtx.decryptSession]
  repeat' split
  all_goals rfl

theorem encryptStorageValue_withFlag (ctx : ConfidentialCtx) (flag : Bool)
    (storageKey data : Bytes) :
    (withFlag flag ctx).encryptStorageValue P storageKey data =
      ((ctx.encryptStorageValue P storageKey data).1,
        withFlag flag (ctx.encryptStorageValue P storageKey data).2) := by
  obtain ⟨peer, contract, nonce, activated, block, d2, storageNonce⟩ := ctx
  simp only [withFlag, ConfidentialCtx.encryptStorageValue]
  repeat' split
  all_goals rfl

/-- A call that keeps the flag returns the same with another value of it. -/
theorem answer_withFlag {α : Type} (wrap : α → Reply) (flag : Bool) (called : Method α) :
    answer wrap (called.1, withFlag flag called.2) =
      (answer wrap called).map fun answered => (answered.1, withFlag flag answered.2) := by
  obtain ⟨outcome, ctx⟩ := called
  cases outcome <;> rfl

/-- The flag is not read by any call: with another value of it the call returns the same and
leaves the same context, up to the flag. -/
theorem machine_withFlag (ctx : ConfidentialCtx) (flag : Bool) (op : Op) :
    ∃ later, machine P mode (withFlag flag ctx) op =
      (machine P mode ctx op).map fun answered => (answered.1, withFlag later answered.2) := by
  cases op with
  | activate keyManager contract =>
    have same : (withFlag flag ctx).activate P keyManager contract =
        ctx.activate P keyManager contract := rfl
    have raised := @activate_activated P ctx keyManager contract
    refine ⟨true, ?_⟩
    simp only [machine, same]
    rw [← answer_withFlag]
    have kept : withFlag true (ctx.activate P keyManager contract).2 =
        (ctx.activate P keyManager contract).2 := by
      rw [withFlag, ← raised]
    rw [kept]
  | deactivate => exact ⟨false, rfl⟩
  | encryptSession data =>
    exact ⟨flag, by simp only [machine, encryptSession_withFlag, answer_withFlag]⟩
  | decryptSession payload =>
    exact ⟨flag, by simp only [machine, decryptSession_withFlag, answer_withFlag]⟩
  | encryptStorageKey data =>
    exact ⟨flag, answer_withFlag .bytes flag (ctx.encryptStorageKey P data, ctx)⟩
  | encryptStorageValue storageKey data =>
    exact ⟨flag, by simp only [machine, encryptStorageValue_withFlag, answer_withFlag]⟩
  | decryptStorageValue storageKey data =>
    exact ⟨flag, answer_withFlag .bytes flag (ctx.decryptStorageValue P storageKey data, ctx)⟩

/-- All later calls return the same with another value of the flag. -/
theorem outputs_withFlag (ctx : ConfidentialCtx) (flag : Bool) (later : List Op) :
    (run (machine P mode) (withFlag flag ctx) later).map (·.output) =
      (run (machine P mode) ctx later).map (·.output) := by
  induction later generalizing ctx flag with
  | nil => rfl
  | cons op later ih =>
    obtain ⟨next, same⟩ := @machine_withFlag P mode ctx flag op
    cases stepped : machine P mode ctx op with
    | none =>
      rw [stepped] at same
      rw [run_cons_none stepped, run_cons_none same]
    | some answered =>
      obtain ⟨output, after⟩ := answered
      rw [stepped] at same
      rw [run_cons_some stepped, run_cons_some same, List.map_cons, List.map_cons, ih]

variable (P mode)

/-- A failed call leaves the context as it was exactly when it is not an activation of a context
that was not activated. After such an activation the flag is raised and all else is as before;
later calls return what they would have returned, so that the flag is all that is left of it. -/
theorem failed_calls_atomic_iff (prevBlockHash : H256) (ops : List Op) :
    ∀ event ∈ run (machine P mode) (.new prevBlockHash) ops, ∀ error,
      event.output = .error error →
      (event.after = event.before ↔ ¬FirstActivation event) ∧
        (FirstActivation event → event.after = { event.before with activated := true }) ∧
        ∀ later, (run (machine P mode) event.after later).map (·.output) =
          (run (machine P mode) event.before later).map (·.output) := by
  intro event member error failed
  have step := of_mem_run member
  rcases after_of_failed step failed with ⟨noActivation, same⟩ | ⟨activation, raised⟩
  · have notFirst : ¬FirstActivation event := by
      rintro ⟨_, keyManager, contract, input⟩
      exact noActivation keyManager contract input
    refine ⟨⟨fun _ => notFirst, fun _ => same⟩, fun first => absurd first notFirst, ?_⟩
    intro later
    rw [same]
  · refine ⟨⟨?_, ?_⟩, fun _ => raised, ?_⟩
    · rintro same ⟨inactive, _⟩
      have flag := congrArg ConfidentialCtx.activated raised
      rw [same, inactive] at flag
      cases flag
    · intro notFirst
      have active : event.before.activated = true := by
        cases flag : event.before.activated with
        | true => rfl
        | false => exact absurd ⟨flag, activation⟩ notFirst
      rw [raised, ← active]
    · intro later
      rw [raised]
      exact outputs_withFlag event.before true later

/-- A contract is active but there is no peer, so that nothing is sealed; and then the key manager
fails for another contract. -/
def failuresInContract : List Op :=
  [.activate (fun id => .ok ⟨⟨id, id⟩, id⟩) (some (FixedBytes.filled 20 1)), .encryptSession [7],
    .activate (fun _ => .error "unavailable") (some (FixedBytes.filled 20 2))]

/-- In the context of an active contract both failed calls leave everything as it was. -/
theorem failed_calls_keep_contract :
    ∃ first second, (run (machine samplePrimitives .checked) (.new (FixedBytes.filled 32 0))
        failuresInContract).drop 1 = [first, second] ∧
      (∃ error, first.output = .error error) ∧ first.before.contract.isSome ∧
      first.after = first.before ∧
      (∃ error, second.output = .error error) ∧ second.before.contract.isSome ∧
      second.after = second.before := by
  have atomic := failed_calls_atomic_iff samplePrimitives .checked (FixedBytes.filled 32 0)
    failuresInContract
  refine ⟨_, _, rfl, ⟨_, rfl⟩, rfl, ?_, ⟨_, rfl⟩, rfl, ?_⟩
  · refine (atomic _ (List.mem_of_getElem? (i := 1) rfl) _ rfl).1.mpr ?_
    rintro ⟨inactive, _⟩
    cases inactive
  · refine (atomic _ (List.mem_of_getElem? (i := 2) rfl) _ rfl).1.mpr ?_
    rintro ⟨inactive, _⟩
    cases inactive

/-- The key manager fails, and the context stays activated although nothing was executed. -/
theorem failed_activation_leaves_flag :
    ∃ event ∈ run (machine samplePrimitives .checked) (.new (FixedBytes.filled 32 0))
        [.activate (fun _ => .error "unavailable") (some (FixedBytes.filled 20 1))],
      event.output = .error (.confidential "failed to get or create keys") ∧
        event.before.activated = false ∧ event.after.activated = true ∧
        event.after ≠ event.before := by
  refine ⟨_, List.mem_cons_self, rfl, rfl, rfl, ?_⟩
  intro same
  have flag := congrArg ConfidentialCtx.activated same
  cases flag

end Ethwasi.Confidential
