import Ethwasi.Rust.Outcome

/-!
# Code that changes a state and may panic

A panic ends a program, but not what the program did to others before: what was sent stays sent.
A process is code on a state that is kept through a panic, so that a statement about the state can
cover the runs that end early. Sequencing stops at the first panic. A process keeps an invariant
when it holds afterwards however the process ends.
-/

namespace Ethwasi.Rust

/-- Code that runs on a state; it returns or panics, and leaves a state in both cases. -/
abbrev Process (σ α : Type) := ExceptT Panic (StateM σ) α

namespace Process

variable {σ α β : Type}

/-- How the code ends when it is run, and the state that it leaves. -/
def exec (code : Process σ α) (state : σ) : Except Panic α × σ := StateT.run code.run state

/-- `Option::unwrap` and `Option::expect`. -/
def expect : Option α → Process σ α
  | some value => pure value
  | none => throw .unwrapFailed

/-- A call that returns no errors. -/
def ofOutcome : Outcome Empty α → Process σ α
  | .ok value => pure value
  | .panic cause => throw cause

@[simp] theorem exec_pure (value : α) (state : σ) :
    exec (pure value) state = (.ok value, state) := rfl

@[simp] theorem exec_throw (cause : Panic) (state : σ) :
    exec (throw cause : Process σ α) state = (.error cause, state) := rfl

@[simp] theorem exec_get (state : σ) : exec (get : Process σ σ) state = (.ok state, state) := rfl

@[simp] theorem exec_modify (change : σ → σ) (state : σ) :
    exec (modify change : Process σ PUnit) state = (.ok ⟨⟩, change state) := rfl

@[simp] theorem expect_some (value : α) : (expect (some value) : Process σ α) = pure value := rfl

@[simp] theorem expect_none : (expect none : Process σ α) = throw .unwrapFailed := rfl

@[simp] theorem ofOutcome_ok (value : α) : (ofOutcome (.ok value) : Process σ α) = pure value := rfl

/-- A sequence goes on after a return and stops at a panic. -/
theorem exec_bind (code : Process σ α) (next : α → Process σ β) (state : σ) :
    exec (code >>= next) state =
      match exec code state with
      | (.ok value, after) => exec (next value) after
      | (.error cause, after) => (.error cause, after) := by
  unfold exec
  simp only [ExceptT.run_bind, StateT.run_bind]
  rcases StateT.run code.run state with ⟨_ | _, _⟩ <;> rfl

theorem exec_bind_ok {code : Process σ α} {next : α → Process σ β} {state after : σ} {value : α}
    (returned : exec code state = (.ok value, after)) :
    exec (code >>= next) state = exec (next value) after := by
  rw [exec_bind, returned]

theorem exec_bind_error {code : Process σ α} {next : α → Process σ β} {state after : σ}
    {cause : Panic} (panicked : exec code state = (.error cause, after)) :
    exec (code >>= next) state = (.error cause, after) := by
  rw [exec_bind, panicked]

/-- The invariant holds after the code, whether it returned or panicked. -/
def Keeps (invariant : σ → Prop) (code : Process σ α) : Prop :=
  ∀ state, invariant state → invariant (exec code state).2

section Keeps

variable {invariant : σ → Prop}

theorem keeps_pure (value : α) : Keeps invariant (pure value : Process σ α) :=
  fun _ held => held

theorem keeps_expect (answer : Option α) : Keeps invariant (expect answer : Process σ α) := by
  cases answer with
  | none => exact fun _ held => held
  | some value => exact fun _ held => held

theorem keeps_ofOutcome (outcome : Outcome Empty α) :
    Keeps invariant (ofOutcome outcome : Process σ α) := by
  cases outcome with
  | ok value => exact fun _ held => held
  | err error => cases error
  | panic cause => exact fun _ held => held

theorem keeps_get : Keeps invariant (get : Process σ σ) := fun _ held => held

theorem keeps_modify {change : σ → σ} (kept : ∀ state, invariant state → invariant (change state)) :
    Keeps invariant (modify change : Process σ PUnit) := kept

/-- The sequence rule. -/
theorem keeps_bind {code : Process σ α} {next : α → Process σ β} (first : Keeps invariant code)
    (second : ∀ value, Keeps invariant (next value)) : Keeps invariant (code >>= next) := by
  intro state held
  have between := first state held
  rw [exec_bind]
  rcases ended : exec code state with ⟨cause | value, after⟩
  · rw [ended] at between
    exact between
  · rw [ended] at between
    exact second value after between

/-- The loop rule. -/
theorem keeps_forM {body : α → Process σ PUnit} (kept : ∀ value, Keeps invariant (body value))
    (values : List α) : Keeps invariant (values.forM body) := by
  induction values with
  | nil => exact keeps_pure _
  | cons value values ih => exact keeps_bind (kept value) fun _ => ih

end Keeps

end Process

end Ethwasi.Rust
