import Mathlib.Data.List.Forall2
import Mathlib.Tactic.Common

/-!
# Outcomes of fallible code that may also panic

A Rust function that returns `Result` ends in one of three ways: it returns `Ok`,
it returns `Err`, or it panics. An error is a value that the caller handles; a panic
ends the process when the build aborts on it. The two are kept apart here, so that a
statement about errors never covers a crash. Sequencing is the `?` operator: both an
error and a panic end the computation.
-/

namespace Ethwasi.Rust

/-- The causes of a panic that the modelled code can reach. -/
inductive Panic where
  /-- A machine addition or subtraction left its word. -/
  | arithmeticOverflow
  /-- A slice was taken with `start > end` or with `end > len`. -/
  | sliceRange
  /-- `copy_from_slice` was given a slice of another length. -/
  | lengthMismatch
  /-- `unwrap` or `expect` met `None` or `Err`. -/
  | unwrapFailed
  /-- `unreachable!` was reached. -/
  | unreachableCode
  /-- `assert_eq!` met different values. -/
  | assertionFailed
  deriving DecidableEq, Repr

/-- The three ways a fallible call ends. -/
inductive Outcome (ε α : Type) where
  /-- The call returned `Ok`. -/
  | ok (value : α)
  /-- The call returned `Err`. -/
  | err (error : ε)
  /-- The call panicked. -/
  | panic (cause : Panic)
  deriving DecidableEq, Repr

namespace Outcome

variable {ε ε' α β : Type}

/-- Continue after `Ok`; an error or a panic ends the computation. -/
def bind (first : Outcome ε α) (next : α → Outcome ε β) : Outcome ε β :=
  match first with
  | ok value => next value
  | err error => err error
  | panic cause => panic cause

instance : Monad (Outcome ε) where
  pure := ok
  bind := bind

instance : LawfulMonad (Outcome ε) :=
  LawfulMonad.mk' (Outcome ε) (fun outcome => by cases outcome <;> rfl) (fun _ _ => rfl)
    (fun outcome _ _ => by cases outcome <;> rfl)

/-- `Result::map_err`: a panic is not an error and passes through. -/
def mapErr (change : ε → ε') : Outcome ε α → Outcome ε' α
  | ok value => ok value
  | err error => err (change error)
  | panic cause => panic cause

/-- A returned `Result` never panics. -/
def ofExcept : Except ε α → Outcome ε α
  | .ok value => ok value
  | .error error => err error

/-- `Option::unwrap` and `Option::expect`. -/
def unwrap : Option α → Outcome ε α
  | some value => ok value
  | none => panic .unwrapFailed

/-- `ensure!`: return the error unless the condition holds. -/
def ensure (condition : Bool) (error : ε) : Outcome ε Unit :=
  if condition then ok () else err error

/-- `assert_eq!`. -/
def assertEq [DecidableEq α] (left right : α) : Outcome ε Unit :=
  if left = right then ok () else panic .assertionFailed

/-- The call crashed. -/
def Panics (outcome : Outcome ε α) : Prop := ∃ cause, outcome = panic cause

instance (outcome : Outcome ε α) : Decidable outcome.Panics :=
  match outcome with
  | ok _ => .isFalse (by rintro ⟨_, equal⟩; cases equal)
  | err _ => .isFalse (by rintro ⟨_, equal⟩; cases equal)
  | panic cause => .isTrue ⟨cause, rfl⟩

@[simp] theorem ok_bind (value : α) (next : α → Outcome ε β) :
    (ok value >>= next) = next value := rfl

@[simp] theorem err_bind (error : ε) (next : α → Outcome ε β) :
    (err error >>= next) = err error := rfl

@[simp] theorem panic_bind (cause : Panic) (next : α → Outcome ε β) :
    ((panic cause : Outcome ε α) >>= next) = panic cause := rfl

@[simp] theorem pure_eq_ok (value : α) : (pure value : Outcome ε α) = ok value := rfl

@[simp] theorem not_panics_ok (value : α) : ¬(ok value : Outcome ε α).Panics := by
  rintro ⟨_, equal⟩
  cases equal

@[simp] theorem not_panics_err (error : ε) : ¬(err error : Outcome ε α).Panics := by
  rintro ⟨_, equal⟩
  cases equal

@[simp] theorem panics_panic (cause : Panic) : (panic cause : Outcome ε α).Panics :=
  ⟨cause, rfl⟩

/-- `ensure!` returns. -/
theorem ensure_ne_panic (condition : Bool) (error : ε) (cause : Panic) :
    ensure condition error ≠ panic cause := by
  unfold ensure
  split <;> nofun

/-- Changing the error neither adds nor removes a panic. -/
@[simp] theorem panics_mapErr (change : ε → ε') (outcome : Outcome ε α) :
    (outcome.mapErr change).Panics ↔ outcome.Panics := by
  cases outcome <;> simp [mapErr]

/-- A returned `Result` is not a panic. -/
@[simp] theorem not_panics_ofExcept (result : Except ε α) : ¬(ofExcept result).Panics := by
  cases result <;> simp [ofExcept]

@[simp] theorem ofExcept_eq_ok {result : Except ε α} {value : α} :
    ofExcept result = ok value ↔ result = .ok value := by
  cases result <;> simp [ofExcept]

/-- A sequence returns `Ok` exactly when both of its parts do. -/
theorem bind_eq_ok {first : Outcome ε α} {next : α → Outcome ε β} {result : β} :
    (first >>= next) = ok result ↔ ∃ value, first = ok value ∧ next value = ok result := by
  cases first <;> simp

/-- A sequence panics exactly when its first part does, or its second part does after the
first returned `Ok`. -/
theorem panics_bind {first : Outcome ε α} {next : α → Outcome ε β} :
    (first >>= next).Panics ↔ first.Panics ∨ ∃ value, first = ok value ∧ (next value).Panics := by
  cases first <;> simp

/-- A sequence panics with the cause of the part that panicked. -/
theorem bind_eq_panic {first : Outcome ε α} {next : α → Outcome ε β} {cause : Panic} :
    (first >>= next) = panic cause ↔
      first = panic cause ∨ ∃ value, first = ok value ∧ next value = panic cause := by
  cases first <;> simp

/-- A sequence of calls returns the results of the calls. -/
theorem forall₂_of_mapM {step : α → Outcome ε β} {values : List α} {results : List β}
    (returned : values.mapM step = ok results) :
    List.Forall₂ (fun value result => step value = ok result) values results := by
  induction values generalizing results with
  | nil =>
    cases returned
    exact .nil
  | cons value values ih =>
    simp only [List.mapM_cons, bind_eq_ok, pure_eq_ok, ok.injEq] at returned
    obtain ⟨result, first, later, rest, rfl⟩ := returned
    exact .cons first (ih rest)

/-- A sequence of calls returns `Ok` exactly when each of them does. -/
theorem mapM_returns_iff {step : α → Outcome ε β} {values : List α} :
    (∃ results, values.mapM step = ok results) ↔
      ∀ value ∈ values, ∃ result, step value = ok result := by
  induction values with
  | nil => exact ⟨fun _ value member => (List.not_mem_nil member).elim, fun _ => ⟨[], rfl⟩⟩
  | cons value values ih =>
    simp only [List.mapM_cons, bind_eq_ok, pure_eq_ok, ok.injEq, List.forall_mem_cons, ← ih]
    constructor
    · rintro ⟨_, result, first, later, rest, rfl⟩
      exact ⟨⟨result, first⟩, later, rest⟩
    · rintro ⟨⟨result, first⟩, later, rest⟩
      exact ⟨_, result, first, later, rest, rfl⟩

/-- An error-mapped call returns `Ok` exactly when the call does. -/
@[simp] theorem mapErr_eq_ok {change : ε → ε'} {outcome : Outcome ε α} {value : α} :
    outcome.mapErr change = ok value ↔ outcome = ok value := by
  cases outcome <;> simp [mapErr]

end Outcome

end Ethwasi.Rust
