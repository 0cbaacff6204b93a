import Mathlib.Tactic.Common
import Ethwasi.Transition.Run

/-!
# Numbered tickets

A state counts for every key how many tickets of the key were taken, and a ticket is only taken
with a number that the count has not passed. While the counts of the keys that have tickets never
go down, the tickets of one key are then taken in the order of their numbers, and none is taken
twice. `Advances` says so of the tickets taken between two states. Where the count of a key goes up
by one with every ticket of it and never else, the numbers have no gaps, which is what
`Consecutive` says. Both compose, and so a fact about one step gives one about whole runs.
-/

namespace Ethwasi.Transition

variable {σ ι ο κ τ γ : Type}

/-- What happens between two states, one after the other, happens between the first and the last. -/
structure Composes (relation : γ → List τ → γ → Prop) : Prop where
  idle : ∀ state, relation state [] state
  append : ∀ {before between after : γ} {earlier later : List τ}, relation before earlier between →
    relation between later after → relation before (earlier ++ later) after

/-- The composition rule: what every step of a run does, the whole run does. -/
theorem run_composes {machine : Machine σ ι ο} {start : σ} {inputs : List ι}
    {relation : γ → List τ → γ → Prop} (composes : Composes relation) (view : σ → γ)
    (emitted : Event σ ι ο → List τ)
    (steps : ∀ event ∈ run machine start inputs,
      relation (view event.before) (emitted event) (view event.after)) :
    relation (view start) ((run machine start inputs).flatMap emitted)
      (view (lastState start (run machine start inputs))) := by
  induction inputs generalizing start with
  | nil => exact composes.idle _
  | cons input inputs ih =>
    cases stepped : machine start input with
    | none =>
      rw [run_cons_none stepped]
      exact composes.idle _
    | some answer =>
      obtain ⟨output, next⟩ := answer
      rw [run_cons_some stepped] at steps ⊢
      have rest := ih fun event member => steps event (List.mem_cons_of_mem _ member)
      exact composes.append (steps _ List.mem_cons_self) rest

variable {keys : κ → Prop} {key : τ → κ} {number : τ → Nat} {before between after : κ → Nat}

/-- The tickets, all of certain keys, were taken one after the other while the counts of these keys
went from one to the other. -/
structure Advances (keys : κ → Prop) (key : τ → κ) (number : τ → Nat) (before : κ → Nat)
    (tickets : List τ) (after : κ → Nat) : Prop where
  keyed : ∀ ticket ∈ tickets, keys (key ticket)
  grows : ∀ k, keys k → before k ≤ after k
  lower : ∀ ticket ∈ tickets, before (key ticket) ≤ number ticket
  upper : ∀ ticket ∈ tickets, number ticket < after (key ticket)
  ordered : tickets.Pairwise fun first second =>
    key first = key second → number first < number second

theorem advances_nil (grows : ∀ k, keys k → before k ≤ after k) :
    Advances keys key number before [] after :=
  ⟨by simp, grows, by simp, by simp, .nil⟩

theorem advances_singleton (grows : ∀ k, keys k → before k ≤ after k) {ticket : τ}
    (keyed : keys (key ticket)) (lower : before (key ticket) ≤ number ticket)
    (upper : number ticket < after (key ticket)) :
    Advances keys key number before [ticket] after :=
  ⟨by simpa using keyed, grows, by simpa using lower, by simpa using upper,
    List.pairwise_singleton ..⟩

/-- What is taken later has greater numbers. -/
theorem Advances.append {earlier later : List τ}
    (first : Advances keys key number before earlier between)
    (second : Advances keys key number between later after) :
    Advances keys key number before (earlier ++ later) after where
  keyed ticket member := by
    rcases List.mem_append.mp member with taken | taken
    · exact first.keyed ticket taken
    · exact second.keyed ticket taken
  grows k own := Nat.le_trans (first.grows k own) (second.grows k own)
  lower ticket member := by
    rcases List.mem_append.mp member with taken | taken
    · exact first.lower ticket taken
    · exact Nat.le_trans (first.grows _ (second.keyed ticket taken)) (second.lower ticket taken)
  upper ticket member := by
    rcases List.mem_append.mp member with taken | taken
    · exact Nat.lt_of_lt_of_le (first.upper ticket taken)
        (second.grows _ (first.keyed ticket taken))
    · exact second.upper ticket taken
  ordered := by
    refine List.pairwise_append.mpr ⟨first.ordered, second.ordered, ?_⟩
    intro ticket taken next takenLater same
    have below := first.upper ticket taken
    have above := second.lower next takenLater
    rw [← same] at above
    exact Nat.lt_of_lt_of_le below above

/-- No ticket is taken twice. -/
theorem Advances.nodup {tickets : List τ}
    (advances : Advances keys key number before tickets after) : tickets.Nodup := by
  refine advances.ordered.imp ?_
  rintro first second ordered rfl
  exact Nat.lt_irrefl _ (ordered rfl)

theorem advances_composes : Composes (Advances keys key number) :=
  ⟨fun _ => advances_nil fun _ _ => Nat.le_refl _, Advances.append⟩

section Consecutive

variable [DecidableEq κ] {k : κ}

/-- The tickets of a key have the numbers from one count to the other, in their order. -/
structure Consecutive (key : τ → κ) (number : τ → Nat) (k : κ) (before : κ → Nat)
    (tickets : List τ) (after : κ → Nat) : Prop where
  numbers : (tickets.filter (key · = k)).map number =
    List.range' (before k) (tickets.countP (key · = k))
  total : after k = before k + tickets.countP (key · = k)

theorem consecutive_nil (same : after k = before k) :
    Consecutive key number k before [] after :=
  ⟨rfl, same⟩

theorem consecutive_singleton {ticket : τ} (current : key ticket = k → number ticket = before k)
    (counted : after k = before k + if key ticket = k then 1 else 0) :
    Consecutive key number k before [ticket] after := by
  by_cases own : key ticket = k
  · rw [if_pos own] at counted
    exact ⟨by simp [own, current own], by simp [own, counted]⟩
  · rw [if_neg own] at counted
    exact ⟨by simp [own], by simp [own, counted]⟩

/-- What is taken later goes on with the numbers. -/
theorem Consecutive.append {earlier later : List τ}
    (first : Consecutive key number k before earlier between)
    (second : Consecutive key number k between later after) :
    Consecutive key number k before (earlier ++ later) after := by
  constructor
  · rw [List.filter_append, List.map_append, first.numbers, second.numbers, first.total,
      List.countP_append, List.range'_append_1]
  · rw [second.total, first.total, List.countP_append, Nat.add_assoc]

theorem consecutive_composes : Composes (Consecutive key number k) :=
  ⟨fun _ => consecutive_nil rfl, Consecutive.append⟩

end Consecutive

end Ethwasi.Transition
