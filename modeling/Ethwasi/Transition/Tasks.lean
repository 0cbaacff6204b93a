import Mathlib.Data.List.Perm.Basic
import Ethwasi.Transition.Run

/-!
# Tasks beside a machine

A program that spawns tasks is a machine with a pool: some steps are those of the program itself,
others let a task go on or finish, in any order. What the program does on its own is a run of the
program, whatever the tasks do in between; and what was put into the pool was taken out of it or is
still there.
-/

namespace Ethwasi.Transition

variable {σ ι ο σ' ι' ο' τ : Type} {machine : Machine σ ι ο} {start : σ} {inputs : List ι}

/-- A pool without the task at a position. -/
theorem perm_cons_eraseIdx {tasks : List τ} {index : Nat} {task : τ}
    (found : tasks[index]? = some task) : tasks.Perm (task :: tasks.eraseIdx index) := by
  obtain ⟨inside, rfl⟩ := List.getElem?_eq_some_iff.mp found
  exact (List.getElem_cons_eraseIdx_perm inside).symm

/-- The conservation rule: when every step takes out of the pool what it does not leave there, the
tasks that were spawned in a run are those that finished and those that are left. -/
theorem run_conserves (pool : σ → List τ) (spawned finished : Event σ ι ο → List τ)
    (conserved : ∀ event ∈ run machine start inputs,
      (pool event.before ++ spawned event).Perm (finished event ++ pool event.after)) :
    (pool start ++ (run machine start inputs).flatMap spawned).Perm
      ((run machine start inputs).flatMap finished ++
        pool (lastState start (run machine start inputs))) := by
  induction inputs generalizing start with
  | nil => simp [run, lastState]
  | cons input inputs ih =>
    cases stepped : machine start input with
    | none => simp [run_cons_none stepped, lastState]
    | some answer =>
      obtain ⟨output, next⟩ := answer
      rw [run_cons_some stepped] at conserved ⊢
      have first := conserved _ List.mem_cons_self
      have rest := ih fun event member => conserved event (List.mem_cons_of_mem _ member)
      rw [List.flatMap_cons, List.flatMap_cons, lastState, ← List.append_assoc]
      refine (first.append_right _).trans ?_
      rw [List.append_assoc, List.append_assoc]
      exact rest.append_left _

/-- An event of a machine that is inside another, with the state of the inner one. -/
structure Inner (inner : Machine σ' ι' ο') (view : σ → σ')
    (shown : Event σ ι ο → Option (Event σ' ι' ο')) (event : Event σ ι ο) : Prop where
  steps : ∀ step, shown event = some step →
    step.Of inner ∧ step.before = view event.before ∧ step.after = view event.after
  idles : shown event = none → view event.after = view event.before

/-- The projection rule: the steps of an inner machine make up a run of it. -/
theorem run_project {inner : Machine σ' ι' ο'} {view : σ → σ'}
    {shown : Event σ ι ο → Option (Event σ' ι' ο')}
    (inside : ∀ event ∈ run machine start inputs, Inner inner view shown event) :
    (run machine start inputs).filterMap shown =
      run inner (view start) (((run machine start inputs).filterMap shown).map (·.input)) := by
  induction inputs generalizing start with
  | nil => rfl
  | cons input inputs ih =>
    cases stepped : machine start input with
    | none =>
      rw [run_cons_none stepped]
      rfl
    | some answer =>
      obtain ⟨output, next⟩ := answer
      rw [run_cons_some stepped] at inside ⊢
      have first := inside _ List.mem_cons_self
      have rest := ih fun event member => inside event (List.mem_cons_of_mem _ member)
      cases same : shown ⟨start, input, output, next⟩ with
      | none =>
        rw [List.filterMap_cons_none same]
        rw [← first.idles same]
        exact rest
      | some step =>
        obtain ⟨before, input', output', after⟩ := step
        obtain ⟨isStep, rfl, rfl⟩ := first.steps _ same
        rw [List.filterMap_cons_some same, List.map_cons, run_cons_some isStep]
        exact congrArg _ rest

end Ethwasi.Transition
