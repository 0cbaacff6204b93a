import Mathlib.Tactic.Common

/-!
# Runs of a deterministic machine

A machine takes one input at a time and either answers and moves on, or stops for good.
A run records every answered input as an event, with the states around it. The rules below
turn a fact about one step into a fact about whole runs: what every reached state satisfies,
and what every reached state satisfies in terms of the events before it.
-/

namespace Ethwasi.Transition

variable {σ ι ο : Type}

/-- A step answers an input and gives the next state; `none` stops the machine. -/
abbrev Machine (σ ι ο : Type) := σ → ι → Option (ο × σ)

/-- One answered input. -/
structure Event (σ ι ο : Type) where
  /-- State in which the input was taken. -/
  before : σ
  /-- The input. -/
  input : ι
  /-- The answer. -/
  output : ο
  /-- State after the answer. -/
  after : σ

/-- The event is a step of the machine. -/
def Event.Of (machine : Machine σ ι ο) (event : Event σ ι ο) : Prop :=
  machine event.before event.input = some (event.output, event.after)

/-- The events of a run, up to the first input on which the machine stops. -/
def run (machine : Machine σ ι ο) : σ → List ι → List (Event σ ι ο)
  | _, [] => []
  | state, input :: inputs =>
    match machine state input with
    | none => []
    | some (output, next) => ⟨state, input, output, next⟩ :: run machine next inputs

/-- The state a list of events ends in. -/
def lastState (state : σ) : List (Event σ ι ο) → σ
  | [] => state
  | event :: events => lastState event.after events

/-- A list, around one of its elements. -/
theorem eq_take_append_cons_drop {α : Type} {values : List α} {index : Nat} {value : α}
    (located : values[index]? = some value) :
    values = values.take index ++ value :: values.drop (index + 1) := by
  obtain ⟨inside, same⟩ := List.getElem?_eq_some_iff.mp located
  conv_lhs => rw [← List.take_append_drop index values]
  rw [List.drop_eq_getElem_cons inside, same]

variable {machine : Machine σ ι ο} {start : σ} {inputs : List ι}

/-- A run continues after an answered input. -/
theorem run_cons_some {input : ι} {output : ο} {next : σ}
    (answered : machine start input = some (output, next)) :
    run machine start (input :: inputs) =
      ⟨start, input, output, next⟩ :: run machine next inputs := by
  simp only [run, answered]

/-- A run ends where the machine stops. -/
theorem run_cons_none {input : ι} (stopped : machine start input = none) :
    run machine start (input :: inputs) = [] := by
  simp only [run, stopped]

/-- Every event of a run is a step of the machine. -/
theorem of_mem_run {event : Event σ ι ο} (member : event ∈ run machine start inputs) :
    event.Of machine := by
  induction inputs generalizing start with
  | nil => simp [run] at member
  | cons input inputs ih =>
    cases stepped : machine start input with
    | none => simp [run_cons_none stepped] at member
    | some answer =>
      obtain ⟨output, next⟩ := answer
      rw [run_cons_some stepped, List.mem_cons] at member
      rcases member with rfl | later
      · exact stepped
      · exact ih later

/-- Every event of a run answers one of the inputs. -/
theorem input_mem_of_mem_run {event : Event σ ι ο} (member : event ∈ run machine start inputs) :
    event.input ∈ inputs := by
  induction inputs generalizing start with
  | nil => simp [run] at member
  | cons input inputs ih =>
    cases stepped : machine start input with
    | none => simp [run_cons_none stepped] at member
    | some answer =>
      obtain ⟨output, next⟩ := answer
      rw [run_cons_some stepped, List.mem_cons] at member
      rcases member with rfl | later
      · exact List.mem_cons_self
      · exact List.mem_cons_of_mem _ (ih later)

/-- The events of a run answer its inputs in order. -/
theorem run_map_input (machine : Machine σ ι ο) (start : σ) (inputs : List ι) :
    (run machine start inputs).map (·.input) =
      inputs.take (run machine start inputs).length := by
  induction inputs generalizing start with
  | nil => rfl
  | cons input inputs ih =>
    cases stepped : machine start input with
    | none => simp [run_cons_none stepped]
    | some answer =>
      obtain ⟨output, next⟩ := answer
      simp [run_cons_some stepped, ih]

/-- The events before one of them answer the inputs before it. -/
theorem run_take_map_input {index : Nat} {event : Event σ ι ο}
    (located : (run machine start inputs)[index]? = some event) :
    ((run machine start inputs).take index).map (·.input) = inputs.take index := by
  obtain ⟨inside, _⟩ := List.getElem?_eq_some_iff.mp located
  rw [List.map_take, run_map_input, List.take_take, Nat.min_eq_left (Nat.le_of_lt inside)]

/-- An event answers the input at its position. -/
theorem run_input_getElem? {index : Nat} {event : Event σ ι ο}
    (located : (run machine start inputs)[index]? = some event) :
    inputs[index]? = some event.input := by
  obtain ⟨inside, _⟩ := List.getElem?_eq_some_iff.mp located
  have answered := congrArg (·[index]?) (run_map_input machine start inputs)
  simp only [List.getElem?_map, located, Option.map_some, List.getElem?_take_of_lt inside]
    at answered
  exact answered.symm

/-- The start of a run is the run of the start of its inputs. -/
theorem run_take (machine : Machine σ ι ο) (start : σ) (inputs : List ι) (count : Nat) :
    (run machine start inputs).take count = run machine start (inputs.take count) := by
  induction inputs generalizing start count with
  | nil => simp [run]
  | cons input inputs ih =>
    cases count with
    | zero => simp [run]
    | succ count =>
      cases stepped : machine start input with
      | none =>
        rw [List.take_succ_cons, run_cons_none stepped, run_cons_none stepped, List.take_nil]
      | some answer =>
        obtain ⟨output, next⟩ := answer
        rw [List.take_succ_cons, run_cons_some stepped, run_cons_some stepped,
          List.take_succ_cons, ih]

/-- The history rule. A relation between the events so far and the state that holds at the
start and is kept by every good step holds at every event of a run of good steps. -/
theorem run_history (good : Event σ ι ο → Prop) (relation : List (Event σ ι ο) → σ → Prop)
    (preserved : ∀ past event, event.Of machine → good event → relation past event.before →
      relation (past ++ [event]) event.after)
    (past : List (Event σ ι ο)) (initial : relation past start)
    (goodRun : ∀ event ∈ run machine start inputs, good event) :
    (∀ earlier event later, run machine start inputs = earlier ++ event :: later →
        relation (past ++ earlier) event.before) ∧
      relation (past ++ run machine start inputs)
        (lastState start (run machine start inputs)) := by
  -- The induction is on the inputs; the events already taken move into `past`.
  induction inputs generalizing start past with
  | nil => exact ⟨by simp [run], by simpa [run, lastState] using initial⟩
  | cons input inputs ih =>
    cases stepped : machine start input with
    | none =>
      rw [run_cons_none stepped]
      exact ⟨by simp, by simpa [lastState] using initial⟩
    | some answer =>
      obtain ⟨output, next⟩ := answer
      rw [run_cons_some stepped] at goodRun ⊢
      have firstGood := goodRun _ List.mem_cons_self
      have kept := preserved past ⟨start, input, output, next⟩ stepped firstGood initial
      obtain ⟨during, final⟩ := ih _ kept fun event later =>
        goodRun event (List.mem_cons_of_mem _ later)
      refine ⟨?_, by simpa [lastState] using final⟩
      intro earlier event later split
      cases earlier with
      | nil =>
        obtain ⟨rfl, _⟩ := List.cons.inj split
        simpa using initial
      | cons first earlier =>
        obtain ⟨rfl, rest⟩ := List.cons.inj split
        simpa using during earlier event later rest

/-- The history rule without a condition on the steps: what is kept by every step holds at every
position of a run, and at its end. -/
theorem run_history_always (relation : List (Event σ ι ο) → σ → Prop)
    (preserved : ∀ past event, event.Of machine → relation past event.before →
      relation (past ++ [event]) event.after)
    (initial : relation [] start) :
    (∀ (index : Nat) event, (run machine start inputs)[index]? = some event →
        relation ((run machine start inputs).take index) event.before) ∧
      relation (run machine start inputs) (lastState start (run machine start inputs)) := by
  have always : ∀ event ∈ run machine start inputs, True := fun _ _ => trivial
  obtain ⟨during, final⟩ := run_history (fun _ => True) relation
    (fun past event step _ => preserved past event step) [] initial always
  refine ⟨?_, final⟩
  intro index event located
  exact during _ event _ (eq_take_append_cons_drop located)

/-- What comes after an event of a run is a run from the state that the event ends in. -/
theorem run_after {earlier later : List (Event σ ι ο)} {event : Event σ ι ο}
    (split : run machine start inputs = earlier ++ event :: later) :
    later = run machine event.after (inputs.drop (earlier.length + 1)) := by
  induction inputs generalizing start earlier with
  | nil => simp [run] at split
  | cons input inputs ih =>
    cases stepped : machine start input with
    | none => simp [run_cons_none stepped] at split
    | some answer =>
      obtain ⟨output, next⟩ := answer
      rw [run_cons_some stepped] at split
      cases earlier with
      | nil =>
        obtain ⟨rfl, rfl⟩ := List.cons.inj split
        rfl
      | cons first earlier =>
        obtain ⟨_, rest⟩ := List.cons.inj split
        exact ih rest

theorem lastState_append (state : σ) (first second : List (Event σ ι ο)) :
    lastState state (first ++ second) = lastState (lastState state first) second := by
  induction first generalizing state with
  | nil => rfl
  | cons event first ih => exact ih event.after

theorem lastState_snoc (state : σ) (past : List (Event σ ι ο)) (event : Event σ ι ο) :
    lastState state (past ++ [event]) = event.after :=
  lastState_append state past [event]

/-- An input is taken in the state that the events before it end in. -/
theorem before_eq_lastState {index : Nat} {event : Event σ ι ο}
    (located : (run machine start inputs)[index]? = some event) :
    event.before = lastState start ((run machine start inputs).take index) :=
  (@run_history_always σ ι ο machine start inputs
    (fun past state => state = lastState start past)
    (fun past event _ _ => (lastState_snoc start past event).symm) rfl).1 index event located

/-- The invariant rule: what holds at the start and is kept by every step holds before and after
every event of a run. -/
theorem run_invariant (invariant : σ → Prop)
    (preserved : ∀ event : Event σ ι ο, event.Of machine → invariant event.before →
      invariant event.after)
    (initial : invariant start) :
    (∀ event ∈ run machine start inputs, invariant event.before ∧ invariant event.after) ∧
      invariant (lastState start (run machine start inputs)) := by
  obtain ⟨during, final⟩ := @run_history_always σ ι ο machine start inputs
    (fun _ state => invariant state) (fun _ event => preserved event) initial
  refine ⟨?_, final⟩
  intro event member
  obtain ⟨index, located⟩ := List.mem_iff_getElem?.mp member
  have held := during index event located
  exact ⟨held, preserved event (of_mem_run member) held⟩

/-- The progress rule: if every good input is answered wherever an invariant holds, and the
answer keeps the invariant, then a run answers all its inputs. -/
theorem run_complete (good : ι → Prop) (invariant : σ → Prop)
    (answered : ∀ state input, good input → invariant state →
      ∃ output next, machine state input = some (output, next) ∧ invariant next)
    (initial : invariant start) (goodInputs : ∀ input ∈ inputs, good input) :
    (run machine start inputs).length = inputs.length := by
  induction inputs generalizing start with
  | nil => rfl
  | cons input inputs ih =>
    obtain ⟨output, next, stepped, kept⟩ :=
      answered start input (goodInputs input List.mem_cons_self) initial
    have rest := ih kept fun later member => goodInputs later (List.mem_cons_of_mem _ member)
    rw [run_cons_some stepped, List.length_cons, rest, List.length_cons]

/-- The measure rule: steps that make a measure smaller, while no step makes it greater, are not
more in a run than the measure at its start. -/
theorem run_countP_le (measure : σ → Nat) (counted : Event σ ι ο → Bool)
    (decreases : ∀ event : Event σ ι ο, event.Of machine → counted event →
      measure event.after < measure event.before)
    (bounded : ∀ event : Event σ ι ο, event.Of machine →
      measure event.after ≤ measure event.before) :
    (run machine start inputs).countP counted ≤ measure start := by
  have total := (@run_history_always σ ι ο machine start inputs
    (fun past state => past.countP counted + measure state ≤ measure start) (by
      intro past event step held
      rw [List.countP_append, List.countP_singleton]
      cases marked : counted event with
      | true =>
        have less := decreases event step marked
        rw [if_pos rfl]
        omega
      | false =>
        have atMost := bounded event step
        rw [if_neg (by simp)]
        omega) (by simp)).2
  exact Nat.le_trans (Nat.le_add_right _ _) total

/-- The elements of a list at the positions that a mask marks. -/
def select {α : Type} : List Bool → List α → List α
  | true :: mask, value :: values => value :: select mask values
  | false :: mask, _ :: values => select mask values
  | _, _ => []

theorem select_map {α β : Type} (change : α → β) (mask : List Bool) (values : List α) :
    select mask (values.map change) = (select mask values).map change := by
  induction mask generalizing values with
  | nil => cases values <;> rfl
  | cons mark mask ih =>
    cases values with
    | nil => cases mark <;> rfl
    | cons value values => cases mark <;> simp [select, ih]

theorem select_length {α β : Type} (mask : List Bool) {first : List α} {second : List β}
    (same : first.length = second.length) :
    (select mask first).length = (select mask second).length := by
  induction mask generalizing first second with
  | nil => cases first <;> cases second <;> rfl
  | cons mark mask ih =>
    cases first with
    | nil =>
      cases second with
      | nil => cases mark <;> rfl
      | cons value values => cases same
    | cons value values =>
      cases second with
      | nil => cases same
      | cons other others =>
        have tails := ih (Nat.succ.inj same)
        cases mark <;> simp [select, tails]

/-- The deletion rule. Inputs whose events leave the state as it was can be deleted from a run
that answers all its inputs: the other events and the last state stay the same. -/
theorem run_select (mask : List Bool) (sized : mask.length = inputs.length)
    (complete : (run machine start inputs).length = inputs.length)
    (idle : ∀ (i : Nat) (event : Event σ ι ο), mask[i]? = some false →
      (run machine start inputs)[i]? = some event → event.after = event.before) :
    run machine start (select mask inputs) = select mask (run machine start inputs) ∧
      lastState start (select mask (run machine start inputs)) =
        lastState start (run machine start inputs) := by
  induction inputs generalizing start mask with
  | nil =>
    cases mask with
    | nil => exact ⟨rfl, rfl⟩
    | cons mark mask => cases sized
  | cons input inputs ih =>
    cases mask with
    | nil => cases sized
    | cons mark mask =>
      cases stepped : machine start input with
      | none => simp [run_cons_none stepped] at complete
      | some answer =>
        obtain ⟨output, next⟩ := answer
        rw [run_cons_some stepped] at complete idle ⊢
        have tailSized : mask.length = inputs.length := Nat.succ.inj sized
        have tailComplete : (run machine next inputs).length = inputs.length :=
          Nat.succ.inj complete
        have tailIdle : ∀ (i : Nat) (event : Event σ ι ο), mask[i]? = some false →
            (run machine next inputs)[i]? = some event → event.after = event.before :=
          fun i event unmarked found => idle (i + 1) event unmarked found
        obtain ⟨events, last⟩ := ih mask tailSized tailComplete tailIdle
        cases mark with
        | true =>
          simp only [select, run_cons_some stepped, lastState]
          exact ⟨by rw [events], last⟩
        | false =>
          have stays : next = start := idle 0 ⟨start, input, output, next⟩ rfl rfl
          simp only [select, lastState]
          rw [stays] at events last ⊢
          exact ⟨events, last⟩

end Ethwasi.Transition
