import Mathlib.Logic.Function.Basic
import Ethwasi.Common

/-!
# Ledgers

What a state of accounts is for, without the trie below it: a ledger gives the account at an
address, and an import changes it by operations on one account each. Accounts that are created one
after the other, each with its code and its storage, are found in the ledger afterwards, and
nothing else changes.
-/

namespace Ethwasi.Genesis

open Ethwasi.Rust

/-- What an import does to the state. -/
inductive Operation where
  | newContract (address : Address) (balance nonce expiry : Nat)
  | initCode (address : Address) (code : Bytes)
  | setStorage (address : Address) (key value : H256)
  deriving DecidableEq

/-- An account of a ledger; a storage item that was never set is zero. -/
structure AccountState where
  balance : Nat
  nonce : Nat
  expiry : Nat
  code : Option Bytes
  storage : H256 → H256

/-- The accounts of a chain. -/
abbrev Ledger := Address → Option AccountState

namespace Ledger

/-- The ledger after an operation. -/
def perform (ledger : Ledger) : Operation → Ledger
  | .newContract address balance nonce expiry =>
    Function.update ledger address
      (some ⟨balance, nonce, expiry, none, fun _ => FixedBytes.filled 32 0⟩)
  | .initCode address code =>
    Function.update ledger address
      ((ledger address).map fun account => { account with code := some code })
  | .setStorage address key value =>
    Function.update ledger address
      ((ledger address).map fun account =>
        { account with storage := Function.update account.storage key value })

/-- The ledger after a list of operations. -/
def performAll (ledger : Ledger) (operations : List Operation) : Ledger :=
  operations.foldl perform ledger

/-- Contracts are created where there is no account, and everything else needs one. -/
def Allows (ledger : Ledger) : Operation → Prop
  | .newContract address _ _ _ => ledger address = none
  | .initCode address _ => (ledger address).isSome
  | .setStorage address _ _ => (ledger address).isSome

/-- Every operation is allowed when it is its turn. -/
def AllowsAll : Ledger → List Operation → Prop
  | _, [] => True
  | ledger, operation :: later =>
    ledger.Allows operation ∧ AllowsAll (ledger.perform operation) later

@[simp] theorem performAll_nil (ledger : Ledger) : ledger.performAll [] = ledger := rfl

@[simp] theorem performAll_cons (ledger : Ledger) (operation : Operation)
    (later : List Operation) :
    ledger.performAll (operation :: later) = (ledger.perform operation).performAll later := rfl

theorem performAll_append (ledger : Ledger) (first second : List Operation) :
    ledger.performAll (first ++ second) = (ledger.performAll first).performAll second :=
  List.foldl_append

theorem allowsAll_append {ledger : Ledger} {first second : List Operation} :
    ledger.AllowsAll (first ++ second) ↔
      ledger.AllowsAll first ∧ (ledger.performAll first).AllowsAll second := by
  induction first generalizing ledger with
  | nil => simp [AllowsAll]
  | cons operation later ih => simp [AllowsAll, ih, and_assoc]

end Ledger

/-- The account that an operation is about. -/
def Operation.address : Operation → Address
  | .newContract address _ _ _ => address
  | .initCode address _ => address
  | .setStorage address _ _ => address

/-- Operations leave other accounts alone. -/
theorem performAll_of_ne {ledger : Ledger} {operations : List Operation} {address : Address}
    (others : ∀ operation ∈ operations, operation.address ≠ address) :
    ledger.performAll operations address = ledger address := by
  induction operations generalizing ledger with
  | nil => rfl
  | cons operation later ih =>
    have other : address ≠ operation.address := (others operation List.mem_cons_self).symm
    rw [Ledger.performAll_cons,
      ih fun operation member => others operation (List.mem_cons_of_mem _ member)]
    cases operation <;> exact Function.update_of_ne other _ _

/-- The operation adds something to the account of the address. -/
def Operation.Extends (address : Address) : Operation → Prop
  | .newContract _ _ _ _ => False
  | .initCode other _ => other = address
  | .setStorage other _ _ => other = address

/-- What is added to an account that is there is allowed. -/
theorem allowsAll_of_extends {ledger : Ledger} {address : Address}
    (present : (ledger address).isSome) {operations : List Operation}
    (extend : ∀ operation ∈ operations, operation.Extends address) :
    ledger.AllowsAll operations := by
  induction operations generalizing ledger with
  | nil => trivial
  | cons operation later ih =>
    have first := extend operation List.mem_cons_self
    have rest := fun operation member => extend operation (List.mem_cons_of_mem _ member)
    cases operation with
    | newContract other balance nonce expiry => cases first
    | initCode other code =>
      obtain rfl : other = address := first
      exact ⟨present, ih (by simpa [Ledger.perform] using present) rest⟩
    | setStorage other key value =>
      obtain rfl : other = address := first
      exact ⟨present, ih (by simpa [Ledger.perform] using present) rest⟩

/-- An account of an export, as it is meant. -/
structure ImportedAccount where
  address : Address
  balance : Nat
  nonce : Nat
  code : Option Bytes
  storage : List (H256 × H256)

namespace ImportedAccount

/-- The operations that import the account. -/
def operations (account : ImportedAccount) : List Operation :=
  .newContract account.address account.balance account.nonce 0 ::
    (account.code.toList.map (.initCode account.address) ++
      account.storage.map fun slot => .setStorage account.address slot.1 slot.2)

/-- The account in a ledger. A storage item that is listed twice has its last value. -/
def state (account : ImportedAccount) : AccountState where
  balance := account.balance
  nonce := account.nonce
  expiry := 0
  code := account.code
  storage := account.storage.foldl (fun slots slot => Function.update slots slot.1 slot.2)
    fun _ => FixedBytes.filled 32 0

end ImportedAccount

/-- The accounts of an export over those of a ledger. -/
def Ledger.importing (ledger : Ledger) (accounts : List ImportedAccount) : Ledger := fun address =>
  match accounts.find? fun account => account.address = address with
  | some account => some account.state
  | none => ledger address

/-- Code that is set. -/
theorem performAll_code {ledger : Ledger} {address : Address} {account : AccountState}
    (present : ledger address = some account) (blank : account.code = none) (code : Option Bytes) :
    ledger.performAll (code.toList.map (.initCode address)) =
      Function.update ledger address (some { account with code }) := by
  cases code with
  | none =>
    have same : { account with code := none } = account := by rw [← blank]
    rw [same]
    exact (Function.update_eq_self_iff.mpr present.symm).symm
  | some bytes => simp [Ledger.perform, present]

/-- Storage items that are set one by one. -/
theorem performAll_storage {ledger : Ledger} {address : Address} {account : AccountState}
    (present : ledger address = some account) (slots : List (H256 × H256)) :
    ledger.performAll (slots.map fun slot => .setStorage address slot.1 slot.2) =
      Function.update ledger address (some { account with
        storage := slots.foldl (fun slots slot => Function.update slots slot.1 slot.2)
          account.storage }) := by
  induction slots generalizing ledger account with
  | nil => exact (Function.update_eq_self_iff.mpr present.symm).symm
  | cons slot slots ih =>
    have set : ledger.perform (.setStorage address slot.1 slot.2) address =
        some { account with storage := Function.update account.storage slot.1 slot.2 } := by
      simp [Ledger.perform, present]
    rw [List.map_cons, Ledger.performAll_cons, ih set]
    simp [Ledger.perform]

/-- An imported account is in the ledger as it is meant. -/
theorem performAll_operations (ledger : Ledger) (account : ImportedAccount) :
    ledger.performAll account.operations =
      Function.update ledger account.address (some account.state) := by
  rw [ImportedAccount.operations, Ledger.performAll_cons, Ledger.performAll_append, Ledger.perform,
    performAll_code (Function.update_self ..) rfl, performAll_storage (Function.update_self ..)]
  simp [ImportedAccount.state]

/-- Imported accounts with different addresses are in the ledger as they are meant. -/
theorem performAll_accounts (ledger : Ledger) {accounts : List ImportedAccount}
    (different : (accounts.map (·.address)).Nodup) :
    ledger.performAll (accounts.flatMap (·.operations)) = ledger.importing accounts := by
  induction accounts generalizing ledger with
  | nil => rfl
  | cons account accounts ih =>
    obtain ⟨other, different⟩ := List.nodup_cons.mp different
    rw [List.flatMap_cons, Ledger.performAll_append, performAll_operations, ih _ different]
    funext address
    by_cases own : account.address = address
    · subst own
      have absent : accounts.find? (fun later => later.address = account.address) = none := by
        rw [List.find?_eq_none]
        intro later member
        rw [decide_eq_true_iff]
        exact fun same => other (List.mem_map.mpr ⟨later, member, same⟩)
      simp [Ledger.importing, absent]
    · simp [Ledger.importing, own, Function.update_of_ne (Ne.symm own)]

end Ethwasi.Genesis
