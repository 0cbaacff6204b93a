import Mathlib.Data.List.Basic
import Mathlib.Data.List.Chain
import Mathlib.Tactic.Common

/-!
# Spans that follow one another

A reader that moves a cursor forward handles what lies between two positions as one span. The
spans of such a reader tile the numbers: each starts right after the last one, none is empty, and
together they hold every number between the first and the last position once. When the spans of a
tiling are handled in another order, the numbers still come one after the other exactly when the
spans handled are a stretch of the tiling.
-/

namespace Ethwasi.Transition

/-- The numbers from `first` to `last`, both included. -/
structure Span where
  first : Nat
  last : Nat
  deriving DecidableEq, Repr

/-- The numbers of a span, in order. -/
def Span.points (span : Span) : List Nat := List.range' span.first (span.last + 1 - span.first)

/-- The number lies in the span. -/
def Span.Holds (span : Span) (point : Nat) : Prop := span.first ≤ point ∧ point ≤ span.last

/-- Spans that are not empty and follow one another, from right after `start` up to `stop`. -/
inductive Tiles : Nat → List Span → Nat → Prop where
  | nil (position : Nat) : Tiles position [] position
  | cons {start stop : Nat} {span : Span} {spans : List Span} (follows : span.first = start + 1)
      (nonempty : span.first ≤ span.last) (rest : Tiles span.last spans stop) :
      Tiles start (span :: spans) stop

namespace Tiles

variable {start middle stop : Nat} {spans : List Span}

theorem le (tiles : Tiles start spans stop) : start ≤ stop := by
  induction tiles with
  | nil => exact Nat.le_refl _
  | cons follows nonempty rest ih => omega

/-- One more span. -/
theorem snoc (tiles : Tiles start spans middle) {span : Span} (follows : span.first = middle + 1)
    (nonempty : span.first ≤ span.last) : Tiles start (spans ++ [span]) span.last := by
  induction tiles with
  | nil position => exact .cons follows nonempty (.nil _)
  | cons first filled rest ih => exact .cons first filled (ih follows)

/-- Together the spans hold every number once, in order. -/
theorem points (tiles : Tiles start spans stop) :
    spans.flatMap Span.points = List.range' (start + 1) (stop - start) := by
  induction tiles with
  | nil position => simp
  | @cons start stop span spans follows nonempty rest ih =>
    have ordered := rest.le
    have joined := @List.range'_append_1 span.first (span.last + 1 - span.first) (stop - span.last)
    have next : span.first + (span.last + 1 - span.first) = span.last + 1 := by omega
    have total : span.last + 1 - span.first + (stop - span.last) = stop - start := by omega
    rw [next, total] at joined
    rw [List.flatMap_cons, ih, Span.points, joined, follows]

/-- Every span lies after the start. -/
theorem lt_of_holds (tiles : Tiles start spans stop) {index point : Nat} {span : Span}
    (found : spans[index]? = some span) (held : span.Holds point) : start < point := by
  induction tiles generalizing index with
  | nil => cases found
  | cons follows nonempty rest ih =>
    cases index with
    | zero =>
      cases found
      exact Nat.lt_of_lt_of_le (by omega) held.1
    | succ index =>
      have later := ih found
      omega

/-- Every number in between lies in exactly one span. -/
theorem existsUnique (tiles : Tiles start spans stop) {point : Nat} (after : start < point)
    (upTo : point ≤ stop) :
    ∃! index : Nat, ∃ span, spans[index]? = some span ∧ span.Holds point := by
  induction tiles with
  | nil => omega
  | @cons start stop span spans follows nonempty rest ih =>
    by_cases inFirst : point ≤ span.last
    · refine ⟨0, ⟨span, rfl, by rw [follows]; exact after, inFirst⟩, ?_⟩
      rintro (_ | index) ⟨other, found, held⟩
      · rfl
      · exact absurd (rest.lt_of_holds found held) (Nat.not_lt.mpr inFirst)
    · obtain ⟨index, ⟨other, found, held⟩, unique⟩ := ih (Nat.not_le.mp inFirst) upTo
      refine ⟨index + 1, ⟨other, found, held⟩, ?_⟩
      rintro (_ | next) ⟨another, there, holds⟩
      · cases there
        exact absurd holds.2 inFirst
      · exact congrArg (· + 1) (unique next ⟨another, there, holds⟩)

/-- Every span starts after the start, and is not empty. -/
theorem bounds_of_mem (tiles : Tiles start spans stop) {span : Span} (member : span ∈ spans) :
    start < span.first ∧ span.first ≤ span.last := by
  induction tiles with
  | nil => cases member
  | cons follows nonempty rest ih =>
    rcases List.mem_cons.mp member with rfl | later
    · exact ⟨by omega, nonempty⟩
    · have bounds := ih later
      exact ⟨by omega, bounds.2⟩

/-- Every span ends before those behind it. -/
theorem pairwise (tiles : Tiles start spans stop) :
    spans.Pairwise fun a b => a.last < b.first := by
  induction tiles with
  | nil => exact .nil
  | cons follows nonempty rest ih =>
    exact List.pairwise_cons.mpr ⟨fun span member => (rest.bounds_of_mem member).1, ih⟩

/-- In a tiling only the next span starts right after a span. -/
theorem eq_next_of_follows {earlier later : List Span} {span next : Span}
    (tiles : Tiles start (earlier ++ span :: later) stop)
    (member : next ∈ earlier ++ span :: later) (follows : next.first = span.last + 1) :
    ∃ rest, later = next :: rest := by
  induction earlier generalizing start with
  | nil =>
    cases tiles with
    | cons _ nonempty rest =>
      have inLater : next ∈ later := by
        rcases List.mem_cons.mp member with rfl | there
        · omega
        · exact there
      cases rest with
      | nil => cases inLater
      | cons starts filled others =>
        rcases List.mem_cons.mp inLater with rfl | behind
        · exact ⟨_, rfl⟩
        · have bounds := others.bounds_of_mem behind
          omega
  | cons other earlier ih =>
    cases tiles with
    | cons _ nonempty rest =>
      have here := rest.bounds_of_mem (List.mem_append_right earlier List.mem_cons_self)
      rcases List.mem_cons.mp member with rfl | behind
      · omega
      · exact ih rest behind

/-- Spans of a tiling that follow one another are a stretch of it. -/
theorem infix_of_isChain (tiles : Tiles start spans stop) {others : List Span}
    (members : ∀ span ∈ others, span ∈ spans)
    (chain : others.IsChain fun a b => b.first = a.last + 1) : others <:+: spans := by
  -- The induction adds one span at the end; the span before it fixes which one it is.
  induction others using List.reverseRecOn with
  | nil => exact List.nil_infix
  | append_singleton others next ih =>
    obtain ⟨front, _, joint⟩ := List.isChain_append.mp chain
    have nextMember := members next (by simp)
    obtain ⟨earlier, later, whole⟩ := ih (fun span member => members span (by simp [member])) front
    rcases List.eq_nil_or_concat others with rfl | ⟨init, last, rfl⟩
    · obtain ⟨earlier, later, rfl⟩ := List.append_of_mem nextMember
      exact ⟨earlier, later, by simp⟩
    · have follows : next.first = last.last + 1 := joint last (by simp) next (by simp)
      have split : spans = (earlier ++ init) ++ last :: later := by simp [← whole]
      rw [split] at tiles nextMember
      obtain ⟨rest, rfl⟩ := tiles.eq_next_of_follows nextMember follows
      exact ⟨earlier, rest, by simp [split]⟩

/-- The spans of a tiling follow one another. -/
theorem isChain (tiles : Tiles start spans stop) :
    spans.IsChain fun a b => b.first = a.last + 1 := by
  induction tiles with
  | nil => exact .nil
  | cons follows nonempty rest ih =>
    apply ih.cons
    intro next first
    cases rest with
    | nil => cases first
    | cons starts =>
      cases first
      exact starts

end Tiles

/-- The numbers of spans that are not empty come one after the other exactly when the spans
follow one another. -/
theorem isChain_flatMap_points {spans : List Span}
    (nonempty : ∀ span ∈ spans, span.first ≤ span.last) :
    (spans.flatMap Span.points).IsChain (fun a b => b = a + 1) ↔
      spans.IsChain fun a b => b.first = a.last + 1 := by
  have filled : [] ∉ spans.map Span.points := by
    simp only [List.mem_map, not_exists, not_and, Span.points, List.range'_eq_nil_iff]
    intro span member
    have := nonempty span member
    omega
  have inner : ∀ points ∈ spans.map Span.points, points.IsChain (fun a b => b = a + 1) := by
    intro points member
    obtain ⟨span, _, rfl⟩ := List.mem_map.mp member
    exact List.isChain_range' _ _ 1
  have ends (span : Span) (member : span ∈ spans) :
      span.points.head? = some span.first ∧ span.points.getLast? = some span.last := by
    have ordered := nonempty span member
    rw [Span.points, List.head?_range', List.getLast?_range', if_neg (by omega),
      if_neg (by omega)]
    exact ⟨rfl, congrArg some (by omega)⟩
  rw [List.flatMap_def, List.isChain_flatten filled, and_iff_right inner, List.isChain_map]
  apply List.IsChain.iff_of_mem_imp
  intro a b aMember bMember
  simp [(ends a aMember).2, (ends b bMember).1]

/-- Spans of a tiling give numbers one after the other exactly when they are a stretch of the
tiling. -/
theorem Tiles.isChain_points_iff {start stop : Nat} {spans others : List Span}
    (tiles : Tiles start spans stop) (members : ∀ span ∈ others, span ∈ spans) :
    (others.flatMap Span.points).IsChain (fun a b => b = a + 1) ↔ others <:+: spans := by
  have nonempty : ∀ span ∈ others, span.first ≤ span.last :=
    fun span member => (tiles.bounds_of_mem (members span member)).2
  rw [isChain_flatMap_points nonempty]
  exact ⟨tiles.infix_of_isChain members, tiles.isChain.infix⟩

end Ethwasi.Transition
