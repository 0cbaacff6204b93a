import Ethwasi.Genesis.Playback

/-!
# What an import leaves behind

Under the laws of the state, of the tree and of the storage node, an import that goes through
leaves the ledger of the genesis and of the export with the node; one that panics in the middle
leaves the ledger of a first part of the export. Both are read off one invariant, which every
operation keeps.

The node takes a write log only up to a number of entries. How many there are depends on the
operations between two commits, and for the first commit on the genesis as well, so that
`--commit-every` and the size of an export cannot be arbitrary together.
-/

namespace Ethwasi.Genesis

open Ethwasi.Rust Ethwasi.Transition

/-- The content of a tree. -/
abbrev Content := Bytes → Option Bytes

/-- The content after a write log. -/
def applyLog (content : Content) (writeLog : WriteLog) : Content :=
  writeLog.foldl (fun content entry => Function.update content entry.1 entry.2) content

/-- The most entries of a write log that the node takes. The program does not look at it; its option
`--commit-every` has to be small enough. -/
def maxWriteLog : Nat := 131072

/-- What the world and the node of an import stand for. -/
structure Meaning (ω ν : Type) where
  /-- The worlds that an import comes to. -/
  valid : ω → Prop
  /-- The accounts, as the state shows them. -/
  ledger : ω → Ledger
  /-- The content of the tree at its last commit. -/
  base : ω → Content
  /-- How accounts are stored. -/
  encode : Ledger → Content
  rootOf : Content → H256
  /-- The node has the content under the root. -/
  holds : ν → H256 → Content → Prop
  /-- The entries that the next write log has at most. -/
  pending : ω → Nat
  /-- The entries that an operation adds to it at most. -/
  width : Nat

/-- What is assumed of the crates. In the worlds that an import comes to, the state shows what was
done to it, and a commit stores what it shows with a write log that leads there from the last
commit; the node takes a write log that is not too long and leads to the root it is given. -/
structure Meaning.Of {ω ν : Type} (meaning : Meaning ω ν) (host : ImportHost ω ν)
    (options : ImportOptions) : Prop where
  performed : ∀ world operation, meaning.valid world →
    (meaning.ledger world).Allows operation →
    ∃ next, host.perform world operation = some next ∧ meaning.valid next ∧
      meaning.ledger next = (meaning.ledger world).perform operation ∧
      meaning.base next = meaning.base world ∧
      meaning.pending next ≤ meaning.pending world + meaning.width
  committed : ∀ world, meaning.valid world → ∃ stored writeLog next,
    host.commitState world = some stored ∧
    host.commitTree stored =
      some (writeLog, meaning.rootOf (meaning.encode (meaning.ledger world)), next) ∧
    applyLog (meaning.base world) writeLog = meaning.encode (meaning.ledger world) ∧
    writeLog.length ≤ meaning.pending world ∧ meaning.valid next ∧
    meaning.ledger next = meaning.ledger world ∧
    meaning.base next = meaning.encode (meaning.ledger world) ∧ meaning.pending next = 0
  final : ∀ world, meaning.valid world →
    host.finalRoot world = some (meaning.rootOf (meaning.base world))
  applied : ∀ node root content writeLog, meaning.holds node root content →
    writeLog.length ≤ maxWriteLog →
    ∃ next, host.storageApply node
        (commitRequest options root (meaning.rootOf (applyLog content writeLog)) writeLog) =
          some next ∧
      meaning.holds next (meaning.rootOf (applyLog content writeLog)) (applyLog content writeLog)

/-- From the world the program comes to a state that shows the genesis, with some writes that are
not committed yet. -/
def Meaning.Opens {ω ν : Type} (meaning : Meaning ω ν) (host : ImportHost ω ν) (genesis : Ledger)
    (opening : Nat) (world : ω) : Prop :=
  ∃ written next, host.ensureDbGood world = some written ∧ host.fromExisting written = some next ∧
    meaning.valid next ∧ meaning.ledger next = genesis ∧ meaning.base next = meaning.base world ∧
    meaning.pending next ≤ opening

section Runs

variable {ω ν : Type} {host : ImportHost ω ν} {options : ImportOptions} {meaning : Meaning ω ν}
  {genesis : Ledger} {opening : Nat}

/-- A commit whose write log is not too long stores what the state shows, and the node has it under
the new root. -/
theorem exec_commit (means : meaning.Of host options) (importer : Importer ω ν)
    (valid : meaning.valid importer.world)
    (held : meaning.holds importer.node importer.root (meaning.base importer.world))
    (fits : meaning.pending importer.world ≤ maxWriteLog) :
    ∃ world node request,
      (commit host options).exec importer =
        (.ok (), { importer with
          world, node, root := meaning.rootOf (meaning.encode (meaning.ledger importer.world))
          pushed := importer.pushed ++ [request] }) ∧
      meaning.valid world ∧ meaning.ledger world = meaning.ledger importer.world ∧
      meaning.base world = meaning.encode (meaning.ledger importer.world) ∧
      meaning.pending world = 0 ∧
      meaning.holds node (meaning.rootOf (meaning.encode (meaning.ledger importer.world)))
        (meaning.encode (meaning.ledger importer.world)) := by
  obtain ⟨stored, writeLog, world, commits, roots, leads, short, next, same, base, none⟩ :=
    means.committed importer.world valid
  obtain ⟨node, applies, holds⟩ :=
    means.applied importer.node importer.root _ writeLog held (Nat.le_trans short fits)
  rw [leads] at applies holds
  refine ⟨world, node, commitRequest options importer.root
    (meaning.rootOf (meaning.encode (meaning.ledger importer.world))) writeLog, ?_, next, same,
    base, none, holds⟩
  simp [commit, Process.exec_bind, commits, roots, applies]

/-- How far an import is when some operations are done. Every so many operations were pushed, the
node has the ledger of all that was pushed, and only the operations since then, and at first the
genesis, are left for the next write log. -/
structure Progress (options : ImportOptions) (meaning : Meaning ω ν) (genesis : Ledger)
    (opening : Nat) (done : List Operation) (importer : Importer ω ν) : Prop where
  valid : meaning.valid importer.world
  ledger : meaning.ledger importer.world = genesis.performAll done
  ops : importer.ops = done.length % options.commitEvery
  count : importer.pushed.length = done.length / options.commitEvery
  held : meaning.holds importer.node importer.root (meaning.base importer.world)
  stored : importer.pushed ≠ [] → meaning.base importer.world =
    meaning.encode (genesis.performAll
      (done.take (options.commitEvery * importer.pushed.length)))
  pending : meaning.pending importer.world ≤ opening + meaning.width * importer.ops

/-- A counter that starts again at a bound counts the remainder. -/
theorem count_step (count every : Nat) :
    (count % every + 1 = every → (count + 1) % every = 0 ∧ (count + 1) / every = count / every + 1 ∧
      every * (count / every + 1) = count + 1) ∧
    (count % every + 1 ≠ every → (count + 1) % every = count % every + 1 ∧
      (count + 1) / every = count / every) := by
  have whole := Nat.div_add_mod count every
  constructor
  · intro full
    have total : every * (count / every + 1) = count + 1 := by
      rw [Nat.mul_add, Nat.mul_one]
      omega
    have positive : 0 < every := by omega
    refine ⟨?_, ?_, total⟩
    · rw [← total, Nat.mul_mod_right]
    · rw [← total, Nat.mul_div_cancel_left _ positive]
  · intro room
    rcases Nat.eq_zero_or_pos every with rfl | positive
    · simp
    · have below := Nat.mod_lt count positive
      have unique := (Nat.div_mod_unique positive).mpr
        (⟨by omega, by omega⟩ : count % every + 1 + every * (count / every) = count + 1 ∧
          count % every + 1 < every)
      exact ⟨unique.2, unique.1⟩

/-- An instruction that can be read and carried out leaves it to the next test to commit. -/
theorem exec_step {importer : Importer ω ν} {operation : Operation} {world : ω}
    (performed : host.perform importer.world operation = some world) :
    (step host options (some operation)).exec importer =
      (checkCommit host options).exec { importer with world } := by
  simp [step, update, Process.exec_bind, performed]

theorem exec_checkCommit_of_ne {importer : Importer ω ν}
    (room : importer.ops + 1 ≠ options.commitEvery) :
    (checkCommit host options).exec importer =
      (.ok (), { importer with ops := importer.ops + 1 }) := by
  simp [checkCommit, Process.exec_bind, room]

theorem exec_checkCommit_of_eq {importer after : Importer ω ν}
    (full : importer.ops + 1 = options.commitEvery)
    (committed : (commit host options).exec { importer with ops := importer.ops + 1 } =
      (.ok (), after)) :
    (checkCommit host options).exec importer = (.ok (), { after with ops := 0 }) := by
  simp [checkCommit, commitAndReset, Process.exec_bind, ← full, committed]

/-- An operation was carried out in the world of an import, and is not counted yet. -/
structure Performed (meaning : Meaning ω ν) (genesis : Ledger) (opening : Nat)
    (done : List Operation) (importer : Importer ω ν) (world : ω) : Prop where
  valid : meaning.valid world
  ledger : meaning.ledger world = genesis.performAll done
  base : meaning.base world = meaning.base importer.world
  pending : meaning.pending world ≤ opening + meaning.width * (importer.ops + 1)

theorem performed_of_allowed (means : meaning.Of host options) {done : List Operation}
    {importer : Importer ω ν} (progress : Progress options meaning genesis opening done importer)
    {operation : Operation} (allowed : (genesis.performAll done).Allows operation) :
    ∃ world, host.perform importer.world operation = some world ∧
      Performed meaning genesis opening (done ++ [operation]) importer world := by
  obtain ⟨world, performs, valid, ledger, base, more⟩ := means.performed importer.world operation
    progress.valid (by rw [progress.ledger]; exact allowed)
  refine ⟨world, performs, valid, ?_, base, ?_⟩
  · rw [ledger, progress.ledger, Ledger.performAll_append]
    rfl
  · have before := progress.pending
    rw [Nat.mul_add, Nat.mul_one]
    omega

/-- Before the bound is reached the operation is only counted. -/
theorem progress_of_room {done : List Operation} {importer : Importer ω ν}
    (progress : Progress options meaning genesis opening done importer) {operation : Operation}
    {world : ω} (performed : Performed meaning genesis opening (done ++ [operation]) importer world)
    (room : importer.ops + 1 ≠ options.commitEvery) :
    Progress options meaning genesis opening (done ++ [operation])
      { importer with world, ops := importer.ops + 1 } := by
  have length : (done ++ [operation]).length = done.length + 1 := by simp
  obtain ⟨ops, count⟩ := (count_step done.length options.commitEvery).2
    (by rw [← progress.ops]; exact room)
  refine ⟨performed.valid, performed.ledger, ?_, ?_, ?_, ?_, performed.pending⟩
  · rw [length, ops, ← progress.ops]
  · rw [length, count, ← progress.count]
  · rw [performed.base]
    exact progress.held
  · intro some
    have within : options.commitEvery * importer.pushed.length ≤ done.length := by
      rw [progress.count]
      exact Nat.mul_div_le _ _
    rw [List.take_append_of_le_length within, performed.base]
    exact progress.stored some

/-- At the bound the operation is committed with those before it, if they fit. -/
theorem progress_of_full (means : meaning.Of host options) {done : List Operation}
    {importer : Importer ω ν} (progress : Progress options meaning genesis opening done importer)
    {operation : Operation} {world : ω}
    (performed : Performed meaning genesis opening (done ++ [operation]) importer world)
    (full : importer.ops + 1 = options.commitEvery)
    (fits : opening + meaning.width * options.commitEvery ≤ maxWriteLog) :
    ∃ after, (commit host options).exec { importer with world, ops := importer.ops + 1 } =
        (.ok (), after) ∧
      Progress options meaning genesis opening (done ++ [operation]) { after with ops := 0 } := by
  have length : (done ++ [operation]).length = done.length + 1 := by simp
  obtain ⟨ops, count, whole⟩ := (count_step done.length options.commitEvery).1
    (by rw [← progress.ops]; exact full)
  have held : meaning.holds importer.node importer.root (meaning.base world) := by
    rw [performed.base]
    exact progress.held
  obtain ⟨after, node, request, committed, valid, same, stored, none, holds⟩ :=
    exec_commit means { importer with world, ops := importer.ops + 1 } performed.valid held
      (Nat.le_trans performed.pending (by rw [full]; exact fits))
  refine ⟨_, committed, valid, same.trans performed.ledger, ?_, ?_, ?_, ?_, ?_⟩
  · rw [length, ops]
  · rw [length, count, ← progress.count]
    simp
  · rw [stored]
    exact holds
  · intro _
    simp only [List.length_append, List.length_singleton, progress.count, whole]
    rw [List.take_of_length_le (by omega), ← performed.ledger]
    exact stored
  · rw [none]
    exact Nat.zero_le _

/-- One instruction that can be read. -/
theorem progress_step (means : meaning.Of host options) {done : List Operation}
    {importer : Importer ω ν} (progress : Progress options meaning genesis opening done importer)
    {operation : Operation} (allowed : (genesis.performAll done).Allows operation)
    (fits : options.commitEvery ≤ done.length + 1 →
      opening + meaning.width * options.commitEvery ≤ maxWriteLog) :
    ∃ after, (step host options (some operation)).exec importer = (.ok (), after) ∧
      Progress options meaning genesis opening (done ++ [operation]) after := by
  obtain ⟨world, performs, performed⟩ := performed_of_allowed means progress allowed
  rw [exec_step performs]
  by_cases full : importer.ops + 1 = options.commitEvery
  · have reached : options.commitEvery ≤ done.length + 1 := by
      rw [← full, progress.ops]
      exact Nat.add_le_add_right (Nat.mod_le _ _) 1
    obtain ⟨after, committed, further⟩ :=
      progress_of_full means progress performed full (fits reached)
    exact ⟨_, exec_checkCommit_of_eq full committed, further⟩
  · exact ⟨_, exec_checkCommit_of_ne full, progress_of_room progress performed full⟩

/-- Instructions that can all be read. -/
theorem progress_run (means : meaning.Of host options) {done : List Operation}
    {importer : Importer ω ν} (progress : Progress options meaning genesis opening done importer)
    (operations : List Operation) (allowed : (genesis.performAll done).AllowsAll operations)
    (fits : options.commitEvery ≤ done.length + operations.length →
      opening + meaning.width * options.commitEvery ≤ maxWriteLog) :
    ∃ after, (forM (operations.map some) (step host options)).exec importer = (.ok (), after) ∧
      Progress options meaning genesis opening (done ++ operations) after := by
  induction operations generalizing done importer with
  | nil => exact ⟨importer, rfl, by simpa using progress⟩
  | cons operation later ih =>
    obtain ⟨first, rest⟩ := allowed
    rw [List.length_cons] at fits
    obtain ⟨between, stepped, further⟩ :=
      progress_step means progress first fun reached => fits (by omega)
    obtain ⟨after, ran, final⟩ := ih further (by rw [Ledger.performAll_append]; exact rest)
      fun reached => fits (by rw [List.length_append, List.length_singleton] at reached; omega)
    refine ⟨after, ?_, by simpa using final⟩
    rw [List.map_cons, List.forM_cons, Process.exec_bind_ok stepped, ran]

/-- On the text of an exported state the loop takes the items one by one. -/
theorem importAccounts_of_export {json : SerdeJson} {texts : JsonTexts} (reads : json.Reads texts)
    {entries : List Bytes} {items : List Item}
    (written : List.Forall₂ texts.EntryText entries items) (trailing : Bytes)
    {state : StateParsingState} (going : state ≠ .ended) {rounds : Nat}
    (enough : items.length < rounds) :
    importAccounts host options json rounds
        ⟨remaining state entries ++ (exportedStateEnd ++ trailing), state⟩ =
      (do
        forM (items.flatMap (instructions host)) (step host options)
        pure true) := by
  -- Every entry takes one round, and the end of the state another one.
  induction written generalizing state rounds with
  | nil =>
    obtain ⟨rounds, rfl⟩ := Nat.exists_eq_succ_of_ne_zero (Nat.ne_of_gt enough)
    rw [importAccounts, remaining, List.nil_append, next_at_end going trailing]
    simp
  | @cons entry item entries items first _ ih =>
    rw [List.length_cons] at enough
    obtain ⟨rounds, rfl⟩ := Nat.exists_eq_succ_of_ne_zero (Nat.ne_of_gt (Nat.zero_lt_of_lt enough))
    rw [importAccounts, remaining, List.append_assoc, List.append_assoc,
      next_at_entry reads going first]
    have later := @ih .middle (by decide) rounds (Nat.lt_of_succ_lt_succ enough)
    simp only [Process.ofOutcome_ok, pure_bind, later, importAccount_eq, List.flatMap_cons,
      List.forM_append, bind_assoc]

end Runs

/-- The values in front of the first one that is missing. -/
def readable {α : Type} : List (Option α) → List α
  | some value :: later => value :: readable later
  | _ => []

/-- Everything can be read, or there is a first value that cannot. -/
theorem readable_cases {α : Type} (values : List (Option α)) :
    (none ∉ values ∧ values = (readable values).map some) ∨
      (none ∈ values ∧ ∃ rest, values = (readable values).map some ++ none :: rest) := by
  induction values with
  | nil => exact .inl ⟨by simp, rfl⟩
  | cons value values ih =>
    cases value with
    | none => exact .inr ⟨by simp, values, rfl⟩
    | some value =>
      rcases ih with ⟨all, same⟩ | ⟨missing, rest, same⟩
      · exact .inl ⟨by simpa using all, by rw [readable, List.map_cons, ← same]⟩
      · exact .inr ⟨by simpa using missing, rest, by
          rw [readable, List.map_cons, List.cons_append, ← same]⟩

theorem readable_map_some {α : Type} (values : List α) : readable (values.map some) = values := by
  induction values with
  | nil => rfl
  | cons value values ih => rw [List.map_cons, readable, ih]

theorem readable_append {α : Type} {first : List (Option α)} (all : none ∉ first)
    (second : List (Option α)) :
    readable (first ++ second) = readable first ++ readable second := by
  induction first with
  | nil => rfl
  | cons value first ih =>
    cases value with
    | none => simp at all
    | some value =>
      rw [List.cons_append, readable, readable, List.cons_append, ih fun member =>
        all (List.mem_cons_of_mem _ member)]

theorem readable_append_of_missing {α : Type} {first : List (Option α)} (missing : none ∈ first)
    (second : List (Option α)) : readable (first ++ second) = readable first := by
  induction first with
  | nil => cases missing
  | cons value first ih =>
    cases value with
    | none => rfl
    | some value =>
      rw [List.cons_append, readable, readable, ih (by simpa using missing)]

theorem some_mem_of_mem_readable {α : Type} {values : List (Option α)} {value : α}
    (member : value ∈ readable values) : some value ∈ values := by
  rcases readable_cases values with ⟨_, same⟩ | ⟨_, rest, same⟩
  · rw [same]
    exact List.mem_map_of_mem member
  · rw [same]
    exact List.mem_append_left _ (List.mem_map_of_mem member)

section Accounts

variable {ω ν : Type} {host : ImportHost ω ν}

/-- The instructions of an account create it, and then add to it. -/
theorem instructions_cases {item : Item} {address : Address}
    (parsed : host.addressFromStr (strip0x item.1) = some address) :
    ∃ created later, instructions host item = created :: later ∧
      (∀ operation, created = some operation →
        ∃ balance nonce, operation = .newContract address balance nonce 0) ∧
      ∀ operation, some operation ∈ later → operation.Extends address := by
  simp only [instructions, parsed]
  refine ⟨_, _, rfl, ?_, ?_⟩
  · intro operation created
    simp only [contractInstruction, Option.bind_eq_some_iff, Option.map_eq_some_iff] at created
    obtain ⟨balance, _, nonce, _, rfl⟩ := created
    exact ⟨balance, nonce, rfl⟩
  · intro operation member
    rcases List.mem_append.mp member with code | slot
    · obtain ⟨text, _, made⟩ := List.mem_map.mp code
      obtain ⟨bytes, _, rfl⟩ := Option.map_eq_some_iff.mp made
      rfl
    · obtain ⟨text, _, made⟩ := List.mem_map.mp slot
      simp only [slotInstruction, Option.bind_eq_some_iff, Option.map_eq_some_iff] at made
      obtain ⟨key, _, value, _, rfl⟩ := made
      rfl

/-- The operations of an account are about its address, and are allowed where there is none. -/
theorem readable_instructions {item : Item} {address : Address}
    (parsed : host.addressFromStr (strip0x item.1) = some address) :
    (∀ operation ∈ readable (instructions host item), operation.address = address) ∧
      ∀ ledger : Ledger, ledger address = none →
        ledger.AllowsAll (readable (instructions host item)) := by
  obtain ⟨created, later, same, creates, extend⟩ := instructions_cases parsed
  rw [same]
  cases created with
  | none => exact ⟨by simp [readable], fun _ _ => trivial⟩
  | some operation =>
    obtain ⟨balance, nonce, rfl⟩ := creates operation rfl
    have rest : ∀ operation ∈ readable later, operation.Extends address := fun operation member =>
      extend operation (some_mem_of_mem_readable member)
    refine ⟨?_, ?_⟩
    · intro operation member
      rcases List.mem_cons.mp member with rfl | inLater
      · rfl
      · have added := rest operation inLater
        cases operation with
        | newContract other balance nonce expiry => cases added
        | initCode other code => exact added
        | setStorage other key value => exact added
    · intro ledger absent
      refine ⟨absent, allowsAll_of_extends ?_ rest⟩
      simp [Ledger.perform]

/-- The addresses of the items, as far as they can be read. -/
def addresses (host : ImportHost ω ν) (items : List Item) : List Address :=
  items.filterMap fun item => host.addressFromStr (strip0x item.1)

/-- The addresses are different, and the ledger has no accounts there. -/
def Fresh (host : ImportHost ω ν) (ledger : Ledger) (items : List Item) : Prop :=
  (addresses host items).Nodup ∧ ∀ address ∈ addresses host items, ledger address = none

/-- The operations of fresh accounts are allowed, as far as they can be read. -/
theorem allowsAll_of_fresh {ledger : Ledger} {items : List Item} (fresh : Fresh host ledger items) :
    ledger.AllowsAll (readable (items.flatMap (instructions host))) := by
  induction items generalizing ledger with
  | nil => trivial
  | cons item items ih =>
    obtain ⟨different, absent⟩ := fresh
    rw [List.flatMap_cons]
    by_cases missing : none ∈ instructions host item
    · rw [readable_append_of_missing missing]
      cases parsed : host.addressFromStr (strip0x item.1) with
      | none => simp [instructions, parsed, readable, Ledger.AllowsAll]
      | some address =>
        have first := absent address (by simp [addresses, parsed])
        exact (readable_instructions parsed).2 ledger first
    · rw [readable_append missing, Ledger.allowsAll_append]
      cases parsed : host.addressFromStr (strip0x item.1) with
      | none => simp [instructions, parsed] at missing
      | some address =>
        obtain ⟨own, allowed⟩ := readable_instructions parsed
        have listed : addresses host (item :: items) = address :: addresses host items := by
          simp [addresses, parsed]
        rw [listed] at different absent
        obtain ⟨other, different⟩ := List.nodup_cons.mp different
        refine ⟨allowed ledger (absent address List.mem_cons_self), ih ⟨different, ?_⟩⟩
        intro later member
        rw [performAll_of_ne]
        · exact absent later (List.mem_cons_of_mem _ member)
        · intro operation done same
          rw [own operation done] at same
          exact other (same ▸ member)

end Accounts

/-- The text of an item means the account. -/
structure Denotes {ω ν : Type} (host : ImportHost ω ν) (item : Item) (account : ImportedAccount) :
    Prop where
  address : host.addressFromStr (strip0x item.1) = some account.address
  balance : host.u256FromStr (strip0x item.2.balance) = some account.balance
  nonce : host.u256FromStr (strip0x item.2.nonce) = some account.nonce
  code : item.2.code.map (fun code => host.hexDecode (strip0x code)) = account.code.map some
  storage : (item.2.storage.getD []).map (fun slot =>
      (host.h256FromStr (strip0x slot.1), host.h256FromStr (strip0x slot.2))) =
    account.storage.map fun slot => (some slot.1, some slot.2)

section Main

variable {ω ν : Type} {host : ImportHost ω ν} {options : ImportOptions} {meaning : Meaning ω ν}
  {genesis : Ledger} {opening : Nat} {json : SerdeJson} {texts : JsonTexts}

/-- The instructions of an item that means an account are its operations. -/
theorem instructions_of_denotes {item : Item} {account : ImportedAccount}
    (denotes : Denotes host item account) :
    instructions host item = account.operations.map some := by
  have code : item.2.code.toList.map (codeInstruction host account.address) =
      (account.code.toList.map (Operation.initCode account.address)).map some := by
    have same := denotes.code
    cases text : item.2.code <;> cases bytes : account.code <;> simp_all [codeInstruction]
  have storage : (item.2.storage.getD []).map (slotInstruction host account.address) =
      (account.storage.map fun slot =>
        Operation.setStorage account.address slot.1 slot.2).map some := by
    have same := congrArg (List.map fun pair : Option H256 × Option H256 =>
      pair.1.bind fun key => pair.2.map fun value => Operation.setStorage account.address key value)
      denotes.storage
    rw [List.map_map, List.map_map] at same
    rw [List.map_map]
    exact same
  simp only [instructions, denotes.address, contractInstruction, denotes.balance, denotes.nonce,
    Option.bind_some, Option.map_some, code, storage, ImportedAccount.operations, List.map_cons,
    List.map_append]

theorem flatMap_instructions_of_denotes {items : List Item} {accounts : List ImportedAccount}
    (denote : List.Forall₂ (Denotes host) items accounts) :
    items.flatMap (instructions host) = (accounts.flatMap (·.operations)).map some ∧
      addresses host items = accounts.map (·.address) := by
  induction denote with
  | nil => exact ⟨rfl, rfl⟩
  | cons first _ ih =>
    obtain ⟨same, listed⟩ := ih
    refine ⟨?_, ?_⟩
    · rw [List.flatMap_cons, instructions_of_denotes first, same, List.flatMap_cons,
        List.map_append]
    · simp only [addresses, List.filterMap_cons, first.address, List.map_cons] at listed ⊢
      rw [listed]

/-- The parser opens on the text of an exported state. -/
theorem new_of_export (entries : List Bytes) (trailing : Bytes) :
    StateParser.new (exportedStateStart ++ exportedStateAccountSep.intercalate entries ++
        exportedStateEnd ++ trailing) =
      .ok ⟨remaining .first entries ++ (exportedStateEnd ++ trailing), .first⟩ := by
  rw [List.append_assoc, List.append_assoc, ← remaining_first]
  simp only [StateParser.new, strip_append, Outcome.ok_bind, Outcome.pure_eq_ok]

/-- On the text of an exported state the program carries out the instructions of its items over
the genesis of the specification, and then finishes. -/
theorem exec_playback {world : ω} (opens : meaning.Opens host genesis opening world)
    (reads : json.Reads texts) {items : List Item} {text : Bytes}
    (exports : texts.Exports items text) (trailing : Bytes) {rounds : Nat}
    (enough : items.length < rounds) {node : ν}
    (held : meaning.holds node host.emptyHash (meaning.base world)) :
    ∃ importer, Progress options meaning genesis opening [] importer ∧
      (playback host options json rounds (text ++ trailing)).exec (.start host world node) =
        Process.exec (do
          forM (items.flatMap (instructions host)) (step host options)
          finish host options) importer := by
  obtain ⟨entries, listed, rfl⟩ := exports
  obtain ⟨written, opened, writes, opens, valid, ledger, base, pending⟩ := opens
  refine ⟨⟨opened, node, host.emptyHash, 0, []⟩, ⟨valid, ledger, ?_, ?_, ?_, ?_, pending⟩, ?_⟩
  · simp
  · simp
  · rw [base]
    exact held
  · exact fun some => absurd rfl some
  · have loop := @importAccounts_of_export _ _ host options _ _ reads _ _ listed trailing .first
      (by decide) _ enough
    simp only [playback, Process.exec_bind, update, Importer.start, new_of_export, loop, writes,
      opens, Process.ofOutcome_ok, Process.expect_some, Process.exec_get, Process.exec_pure,
      Process.exec_modify]
    rcases (forM (items.flatMap (instructions host)) (step host options)).exec
      ⟨opened, node, host.emptyHash, 0, []⟩ with ⟨_ | _, _⟩ <;> rfl

/-- The last commit stores everything, and its root is the one of the genesis file. -/
theorem exec_finish (means : meaning.Of host options) {done : List Operation}
    {importer : Importer ω ν} (progress : Progress options meaning genesis opening done importer)
    (fits : opening + meaning.width * (done.length % options.commitEvery) ≤ maxWriteLog) :
    ∃ final, (finish host options).exec importer =
        (.ok (some ⟨meaning.rootOf (meaning.encode (genesis.performAll done)), 0⟩), final) ∧
      final.root = meaning.rootOf (meaning.encode (genesis.performAll done)) ∧
      meaning.holds final.node final.root (meaning.encode (genesis.performAll done)) ∧
      final.pushed.length = done.length / options.commitEvery + 1 := by
  have short := progress.pending
  rw [progress.ops] at short
  obtain ⟨world, node, request, committed, valid, _, base, _, holds⟩ :=
    exec_commit means importer progress.valid progress.held (Nat.le_trans short fits)
  rw [progress.ledger] at base holds committed
  have final := means.final world valid
  rw [base] at final
  refine ⟨{ importer with
    world, node, root := meaning.rootOf (meaning.encode (genesis.performAll done))
    pushed := importer.pushed ++ [request] }, ?_, rfl, holds, ?_⟩
  · simp [finish, Process.exec_bind, committed, final]
  · rw [List.length_append, progress.count]
    rfl

end Main

/-- The most operations between two commits of an import; without a number of operations, or before
it is reached, there is only the commit at the end. -/
def ImportOptions.window (options : ImportOptions) (total : Nat) : Nat :=
  if options.commitEvery = 0 then total else min options.commitEvery total

/-- What is left at the end is no more than that. -/
theorem mod_le_window (options : ImportOptions) (total : Nat) :
    total % options.commitEvery ≤ options.window total := by
  unfold ImportOptions.window
  split
  · rename_i never
    rw [never, Nat.mod_zero]
  · rename_i some
    exact le_min (Nat.le_of_lt (Nat.mod_lt _ (Nat.pos_of_ne_zero some))) (Nat.mod_le _ _)

theorem commitEvery_le_window {options : ImportOptions} {total : Nat}
    (reached : options.commitEvery ≤ total) : options.commitEvery ≤ options.window total := by
  unfold ImportOptions.window
  split <;> omega

/-- A write log of the changed keys leads to the content. -/
theorem applyLog_of_changed {content target : Content} {keys : List Bytes}
    (same : ∀ key, key ∉ keys → content key = target key) :
    applyLog content (keys.map fun key => (key, target key)) = target := by
  induction keys generalizing content with
  | nil => exact funext fun key => same key List.not_mem_nil
  | cons first keys ih =>
    refine ih fun key other => ?_
    by_cases equal : key = first
    · rw [equal]
      exact Function.update_self ..
    · exact (Function.update_of_ne equal ..).trans (same key (by simp [equal, other]))

/-- A world that stores three accounts: what the state shows, what the tree has, and what it had at
the last commit. -/
structure SampleWorld where
  ledger : Ledger
  content : Ledger
  base : Ledger

/-- The storage item that is stored. -/
def sampleSlot : H256 := FixedBytes.filled 32 3

/-- The keys of the stored accounts: for each of them the balance and the nonce, the code and a
storage item. -/
def sampleKeys : List Bytes :=
  [0, 1, 2].flatMap fun owner => [[owner, 0], [owner, 1], [owner, 2]]

/-- What is stored of an account. -/
def sampleEntry (place : UInt8) (account : AccountState) : Option Bytes :=
  if place = 0 then some [UInt8.ofNat account.balance, UInt8.ofNat account.nonce]
  else if place = 1 then account.code
  else some (account.storage sampleSlot).bytes

/-- What is stored of a ledger. -/
def sampleEncode (ledger : Ledger) : Content
  | [owner, place] =>
    if [owner, place] ∈ sampleKeys then
      (ledger (FixedBytes.filled 20 owner)).bind (sampleEntry place)
    else none
  | _ => none

theorem sampleEncode_of_not_mem (ledger : Ledger) {key : Bytes} (other : key ∉ sampleKeys) :
    sampleEncode ledger key = none := by
  unfold sampleEncode
  split
  · exact if_neg other
  · rfl

/-- The keys at which two ledgers are stored differently. -/
def changedKeys (before after : Ledger) : List Bytes :=
  sampleKeys.filter fun key => sampleEncode before key ≠ sampleEncode after key

/-- A root that adds up the stored bytes. -/
def sampleRoot (content : Content) : H256 :=
  FixedBytes.filled 32 ((sampleKeys.filterMap content).flatten.foldl (· + ·) 0)

/-- The genesis: one account with a balance. -/
def sampleGenesis : Ledger :=
  Ledger.perform (fun _ => none) (.newContract (FixedBytes.filled 20 0) 1 0 0)

/-- Crates that know a few texts, and a node that keeps contents by their roots and takes no write
log that is too long. -/
def sampleImportHost : ImportHost SampleWorld (H256 → Option Content) where
  addressFromStr text :=
    [("a", FixedBytes.filled 20 1), ("b", FixedBytes.filled 20 2)].lookup text
  u256FromStr text := [("0", 0), ("1", 1), ("5", 5), ("7", 7)].lookup text
  h256FromStr text := [("3", sampleSlot), ("4", FixedBytes.filled 32 4)].lookup text
  hexDecode text := [("60", [96]), ("61", [97])].lookup text
  ensureDbGood world := some { world with
    ledger := world.ledger.perform (.newContract (FixedBytes.filled 20 0) 1 0 0) }
  fromExisting := some
  newContract world address balance nonce expiry :=
    { world with ledger := world.ledger.perform (.newContract address balance nonce expiry) }
  initCode world address code :=
    some { world with ledger := world.ledger.perform (.initCode address code) }
  setStorage world address key value :=
    some { world with ledger := world.ledger.perform (.setStorage address key value) }
  commitState world := some { world with content := world.ledger }
  commitTree world :=
    some ((changedKeys world.base world.content).map fun key =>
        (key, sampleEncode world.content key),
      sampleRoot (sampleEncode world.content), { world with base := world.content })
  finalRoot world := some (sampleRoot (sampleEncode world.base))
  storageApply node request :=
    match node request.srcRoot with
    | none => none
    | some content =>
      if request.writeLog.length ≤ maxWriteLog ∧
          sampleRoot (applyLog content request.writeLog) = request.dstRoot then
        some (Function.update node request.dstRoot (some (applyLog content request.writeLog)))
      else none
  emptyHash := FixedBytes.filled 32 0

/-- What the sample stands for; an operation can change every key. -/
def sampleMeaning : Meaning SampleWorld (H256 → Option Content) where
  valid _ := True
  ledger world := world.ledger
  base world := sampleEncode world.base
  encode := sampleEncode
  rootOf := sampleRoot
  holds node root content := node root = some content
  pending world := (changedKeys world.base world.ledger).length
  width := sampleKeys.length

theorem sampleMeaning_of (options : ImportOptions) :
    sampleMeaning.Of sampleImportHost options where
  performed world operation _ _ := by
    have most : ∀ after, (changedKeys world.base after).length ≤
        (changedKeys world.base world.ledger).length + sampleKeys.length := fun after =>
      Nat.le_add_left_of_le (List.length_filter_le ..)
    cases operation with
    | newContract address balance nonce expiry => exact ⟨_, rfl, trivial, rfl, rfl, most _⟩
    | initCode address code => exact ⟨_, rfl, trivial, rfl, rfl, most _⟩
    | setStorage address key value => exact ⟨_, rfl, trivial, rfl, rfl, most _⟩
  committed world _ := by
    refine ⟨_, _, _, rfl, rfl, applyLog_of_changed fun key same => ?_, ?_, trivial, rfl, rfl, ?_⟩
    · by_cases stored : key ∈ sampleKeys
      · by_contra different
        exact same (List.mem_filter.mpr ⟨stored, decide_eq_true different⟩)
      · exact (sampleEncode_of_not_mem _ stored).trans (sampleEncode_of_not_mem _ stored).symm
    · exact Nat.le_of_eq (List.length_map _)
    · simp [sampleMeaning, changedKeys]
  final world _ := rfl
  applied node root content writeLog held short := by
    change node root = some content at held
    refine ⟨Function.update node (sampleRoot (applyLog content writeLog))
      (some (applyLog content writeLog)), ?_, Function.update_self ..⟩
    simp [sampleImportHost, sampleMeaning, commitRequest, held, short]

/-- A world before the genesis is written. -/
def emptyWorld : SampleWorld := ⟨fun _ => none, fun _ => none, fun _ => none⟩

theorem emptyWorld_opens :
    sampleMeaning.Opens sampleImportHost sampleGenesis sampleKeys.length emptyWorld :=
  ⟨_, _, rfl, rfl, trivial, rfl, rfl, List.length_filter_le ..⟩

/-- A node that has nothing. -/
def emptyNode : H256 → Option Content :=
  Function.update (fun _ => none) (FixedBytes.filled 32 0) (some (sampleEncode fun _ => none))

theorem emptyNode_holds :
    sampleMeaning.holds emptyNode sampleImportHost.emptyHash (sampleMeaning.base emptyWorld) :=
  Function.update_self ..

/-- Two accounts with code and storage; the code of the second one is given. -/
def sampleItems (code : String) : List Item :=
  [("a", ⟨"0x5", "0x1", some "0x60", some [("0x3", "0x4")]⟩),
    ("b", ⟨"0x7", "0x0", some code, some [("0x3", "0x3")]⟩)]

/-- Their texts. -/
def itemTexts (code : String) : List (Bytes × ExportedAccount) :=
  [[123, 49, 125], [123, 50, 125]].zip ((sampleItems code).map (·.2))

/-- A state with the two accounts. -/
def exportedItems : Bytes :=
  exportedStateStart ++ [10, 34, 97, 34, 58, 32, 123, 49, 125, 44] ++
    [10, 34, 98, 34, 58, 32, 123, 50, 125] ++ exportedStateEnd

theorem exportedItems_exports (code : String) :
    (textsOf (itemTexts code)).Exports (sampleItems code) exportedItems :=
  ⟨[[10, 34, 97, 34, 58, 32, 123, 49, 125], [10, 34, 98, 34, 58, 32, 123, 50, 125]],
    .cons ⟨[34, 97, 34], [123, 49, 125], rfl, rfl, rfl⟩
      (.cons ⟨[34, 98, 34], [123, 50, 125], rfl, rfl, rfl⟩ .nil), rfl⟩

theorem itemTexts_reads (code : String) :
    (jsonOf 3 (itemTexts code)).Reads (textsOf (itemTexts code)) := by
  refine jsonOf_reads fun entry member => ?_
  simp only [itemTexts, sampleItems, List.map_cons, List.map_nil, List.zip_cons_cons,
    List.zip_nil_right, List.mem_cons, List.not_mem_nil, or_false] at member
  rcases member with rfl | rfl
  · exact ⟨rfl, rfl⟩
  · exact ⟨rfl, rfl⟩

theorem sampleItems_fresh (code : String) :
    Fresh sampleImportHost sampleGenesis (sampleItems code) := by
  have first : sampleImportHost.addressFromStr (strip0x "a") = some (FixedBytes.filled 20 1) := by
    decide
  have second : sampleImportHost.addressFromStr (strip0x "b") = some (FixedBytes.filled 20 2) := by
    decide
  have listed : addresses sampleImportHost (sampleItems code) =
      [FixedBytes.filled 20 1, FixedBytes.filled 20 2] := by
    simp [addresses, sampleItems, first, second]
  rw [Fresh, listed]
  refine ⟨by decide, fun address member => ?_⟩
  have other : address ≠ FixedBytes.filled 20 0 := by
    rintro rfl
    exact absurd member (by decide)
  simp [sampleGenesis, Ledger.perform, other]

section Main

variable {ω ν : Type} {host : ImportHost ω ν} {meaning : Meaning ω ν} {genesis : Ledger}
  {json : SerdeJson} {texts : JsonTexts}

/-- An exported state is recovered. When the items of an export mean accounts with different
addresses that the genesis does not have, and the operations between two commits, with those of the
genesis, make no write log that is too long, the program finishes, whatever follows the export: the
node has the accounts of the genesis and of the export under the last root, that root is the one of
the genesis file, and it does not depend on the number of operations between two commits. -/
theorem playback_recovers_export (options : ImportOptions) (means : meaning.Of host options)
    (reads : json.Reads texts) (items : List Item) (accounts : List ImportedAccount)
    (denote : List.Forall₂ (Denotes host) items accounts) (fresh : Fresh host genesis items)
    (text trailing : Bytes) (exports : texts.Exports items text) (rounds : Nat)
    (enough : items.length < rounds) (opening : Nat) (world : ω)
    (opens : meaning.Opens host genesis opening world) (node : ν)
    (held : meaning.holds node host.emptyHash (meaning.base world))
    (fits : opening +
      meaning.width * options.window (accounts.flatMap (·.operations)).length ≤ maxWriteLog) :
    ∃ final, (playback host options json rounds (text ++ trailing)).exec
          (.start host world node) =
        (.ok (some ⟨meaning.rootOf (meaning.encode (genesis.importing accounts)), 0⟩), final) ∧
      final.root = meaning.rootOf (meaning.encode (genesis.importing accounts)) ∧
      meaning.holds final.node final.root (meaning.encode (genesis.importing accounts)) ∧
      final.pushed.length =
        (accounts.flatMap (·.operations)).length / options.commitEvery + 1 := by
  have within : ∀ count, count ≤ options.window (accounts.flatMap (·.operations)).length →
      opening + meaning.width * count ≤ maxWriteLog := fun count less =>
    Nat.le_trans (Nat.add_le_add_left (Nat.mul_le_mul_left _ less) _) fits
  obtain ⟨importer, progress, ran⟩ := exec_playback opens reads exports trailing enough held
  obtain ⟨same, listed⟩ := flatMap_instructions_of_denotes denote
  have allowed := allowsAll_of_fresh fresh
  rw [same, readable_map_some] at allowed
  obtain ⟨after, performed, further⟩ := progress_run means progress _ allowed fun reached =>
    within _ (commitEvery_le_window (by simpa using reached))
  rw [List.nil_append] at further
  obtain ⟨final, finished, root, holds, count⟩ :=
    exec_finish means further (within _ (mod_le_window options _))
  have ledger : genesis.performAll (accounts.flatMap (·.operations)) =
      genesis.importing accounts := performAll_accounts _ (by rw [← listed]; exact fresh.1)
  rw [ledger] at finished root holds
  refine ⟨final, ?_, root, holds, count⟩
  rw [ran, same, Process.exec_bind_ok performed, finished]

/-- Two accounts with code and storage are recovered with a commit in the middle of the second one:
the node has the code of the first, the storage item of the second, and the genesis. -/
theorem accounts_recovered :
    ∃ final content, (playback sampleImportHost ⟨FixedBytes.filled 32 7, 4⟩
          (jsonOf 3 (itemTexts "0x61")) 3 (exportedItems ++ [10])).exec
          (.start sampleImportHost emptyWorld emptyNode) =
        (.ok (some ⟨final.root, 0⟩), final) ∧
      final.pushed.length = 2 ∧ final.node final.root = some content ∧
      content [0, 0] = some [1, 0] ∧ content [1, 1] = some [96] ∧ content [2, 1] = some [97] ∧
      content [2, 2] = some (List.replicate 32 3) := by
  obtain ⟨final, ran, root, holds, count⟩ := playback_recovers_export
    ⟨FixedBytes.filled 32 7, 4⟩ (sampleMeaning_of _) (itemTexts_reads "0x61") (sampleItems "0x61")
    [⟨FixedBytes.filled 20 1, 5, 1, some [96], [(sampleSlot, FixedBytes.filled 32 4)]⟩,
      ⟨FixedBytes.filled 20 2, 7, 0, some [97], [(sampleSlot, sampleSlot)]⟩]
    (.cons ⟨rfl, rfl, rfl, rfl, rfl⟩ (.cons ⟨rfl, rfl, rfl, rfl, rfl⟩ .nil))
    (sampleItems_fresh _) exportedItems [10] (exportedItems_exports _) 3 (by decide)
    sampleKeys.length emptyWorld emptyWorld_opens emptyNode emptyNode_holds (by decide)
  rw [← root] at ran
  exact ⟨final, _, ran, count, holds, rfl, rfl, rfl, rfl⟩

/-- What a malformed export leaves behind. When some text of an export cannot be read the program
panics there, unless a write log was too long before, and what the node has under the last root it
was given is the ledger of the first operations of the export, as many as were committed: every so
many of those that could be read. -/
theorem playback_leaves_prefix (options : ImportOptions) (means : meaning.Of host options)
    (reads : json.Reads texts) (items : List Item)
    (malformed : none ∈ items.flatMap (instructions host)) (fresh : Fresh host genesis items)
    (text trailing : Bytes) (exports : texts.Exports items text) (rounds : Nat)
    (enough : items.length < rounds) (opening : Nat) (world : ω)
    (opens : meaning.Opens host genesis opening world) (node : ν)
    (held : meaning.holds node host.emptyHash (meaning.base world))
    (fits : options.commitEvery ≤ (readable (items.flatMap (instructions host))).length →
      opening + meaning.width * options.commitEvery ≤ maxWriteLog) :
    ∃ final done, (playback host options json rounds (text ++ trailing)).exec
          (.start host world node) = (.error .unwrapFailed, final) ∧
      done = readable (items.flatMap (instructions host)) ∧
      final.pushed.length = done.length / options.commitEvery ∧
      (final.pushed ≠ [] → meaning.holds final.node final.root
        (meaning.encode (genesis.performAll
          (done.take (options.commitEvery * final.pushed.length))))) := by
  obtain ⟨importer, progress, ran⟩ := exec_playback opens reads exports trailing enough held
  obtain ⟨after, performed, further⟩ :=
    progress_run means progress _ (allowsAll_of_fresh fresh) (by simpa using fits)
  rw [List.nil_append] at further
  refine ⟨after, _, ?_, rfl, further.count, ?_⟩
  · rcases readable_cases (items.flatMap (instructions host)) with ⟨all, _⟩ | ⟨_, rest, split⟩
    · exact absurd malformed all
    · rw [ran, split, List.forM_append, Process.exec_bind_error]
      rw [Process.exec_bind_ok performed]
      rfl
  · intro some
    rw [← further.stored some]
    exact further.held

/-- The code of the second account cannot be read. The first account was committed with its code
and storage; the second one was created, but that is lost. -/
theorem first_account_left :
    ∃ final content, (playback sampleImportHost ⟨FixedBytes.filled 32 7, 3⟩
          (jsonOf 3 (itemTexts "0xz")) 3 (exportedItems ++ [10])).exec
          (.start sampleImportHost emptyWorld emptyNode) = (.error .unwrapFailed, final) ∧
      final.pushed.length = 1 ∧ final.node final.root = some content ∧
      content [1, 0] = some [5, 1] ∧ content [1, 1] = some [96] ∧
      content [1, 2] = some (List.replicate 32 4) ∧ content [2, 0] = none := by
  obtain ⟨final, done, ran, same, count, holds⟩ := playback_leaves_prefix
    ⟨FixedBytes.filled 32 7, 3⟩ (sampleMeaning_of _) (itemTexts_reads "0xz") (sampleItems "0xz")
    (by decide) (sampleItems_fresh _) exportedItems [10] (exportedItems_exports _) 3 (by decide)
    sampleKeys.length emptyWorld emptyWorld_opens emptyNode emptyNode_holds (by decide)
  have once : final.pushed.length = 1 := by
    rw [count, same]
    decide
  have left := holds (by intro none; rw [none] at once; cases once)
  rw [once, same] at left
  exact ⟨final, _, ran, once, left, rfl, rfl, rfl, rfl⟩

end Main

end Ethwasi.Genesis
