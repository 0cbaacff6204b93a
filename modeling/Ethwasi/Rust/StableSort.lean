import Mathlib.Data.List.Destutter
import Mathlib.Order.Lattice

/-!
# Stable sorting

`slice::sort_by` sorts by a key and keeps the order of elements with the same key. Two facts about
it are needed: the elements with a common key are left as they were, and the result is ordered
by a finer relation exactly when the elements with the same key already were. `Vec::dedup` keeps the
first of equal neighbours, which leaves one of each in a sorted list.
-/

namespace Ethwasi.Rust

variable {α κ : Type} [LinearOrder κ] (key : α → κ)

/-- `slice::sort_by` with a key. -/
def sortByKey (values : List α) : List α := values.mergeSort fun a b => decide (key a ≤ key b)

section

variable {key} {values : List α}

theorem sortByKey_perm : (sortByKey key values).Perm values := List.mergeSort_perm _ _

theorem keyOrder_trans (a b c : α) (first : decide (key a ≤ key b) = true)
    (second : decide (key b ≤ key c) = true) : decide (key a ≤ key c) = true :=
  decide_eq_true (le_trans (of_decide_eq_true first) (of_decide_eq_true second))

theorem keyOrder_total (a b : α) : (decide (key a ≤ key b) || decide (key b ≤ key a)) = true := by
  simpa using le_total (key a) (key b)

/-- The keys do not decrease. -/
theorem pairwise_sortByKey : (sortByKey key values).Pairwise fun a b => key a ≤ key b :=
  (List.pairwise_mergeSort keyOrder_trans keyOrder_total values).imp of_decide_eq_true

/-- What is sorted already is left as it is. -/
theorem sortByKey_of_pairwise (sorted : values.Pairwise fun a b => key a ≤ key b) :
    sortByKey key values = values :=
  List.mergeSort_of_pairwise (sorted.imp fun le => decide_eq_true le)

/-- What is in order keeps its order. -/
theorem sublist_sortByKey {part : List α} (sorted : part.Pairwise fun a b => key a ≤ key b)
    (sub : part.Sublist values) : part.Sublist (sortByKey key values) :=
  List.sublist_mergeSort keyOrder_trans keyOrder_total
    (sorted.imp fun le => decide_eq_true le) sub

/-- Elements with a common key are left as they were. -/
theorem filter_sortByKey {kept : α → Bool}
    (sameKey : ∀ a ∈ values, ∀ b ∈ values, kept a → kept b → key a = key b) :
    (sortByKey key values).filter kept = values.filter kept := by
  have ordered : (values.filter kept).Pairwise fun a b => key a ≤ key b := by
    apply List.pairwise_of_forall_mem_list
    intro a inA b inB
    obtain ⟨memberA, keptA⟩ := List.mem_filter.mp inA
    obtain ⟨memberB, keptB⟩ := List.mem_filter.mp inB
    exact le_of_eq (sameKey a memberA b memberB keptA keptB)
  have sub : (values.filter kept).Sublist ((sortByKey key values).filter kept) := by
    have inside := (sublist_sortByKey ordered List.filter_sublist).filter kept
    simpa only [List.filter_filter, Bool.and_self] using inside
  exact (sub.eq_of_length (sortByKey_perm.filter kept).length_eq.symm).symm

/-- Two elements with the same key come in the same order as before. -/
theorem pair_sublist_sortByKey {a b : α} (same : key a = key b) :
    [a, b].Sublist (sortByKey key values) ↔ [a, b].Sublist values := by
  constructor
  · intro sub
    have inside := sub.filter fun value => decide (key value = key a)
    have untouched : (sortByKey key values).filter (fun value => decide (key value = key a)) =
        values.filter fun value => decide (key value = key a) :=
      filter_sortByKey fun first _ second _ ofFirst ofSecond =>
        (of_decide_eq_true ofFirst).trans (of_decide_eq_true ofSecond).symm
    rw [untouched] at inside
    simp only [same, decide_true, List.filter_cons_of_pos, List.filter_nil] at inside
    exact inside.trans List.filter_sublist
  · intro sub
    exact sublist_sortByKey (by simp [same]) sub

/-- The result is ordered by a relation that agrees with the keys exactly when elements with the
same key were. -/
theorem pairwise_sortByKey_iff {relation : α → α → Prop}
    (byKey : ∀ a b, key a < key b → relation a b) :
    (sortByKey key values).Pairwise relation ↔
      values.Pairwise fun a b => key a = key b → relation a b := by
  constructor
  · intro ordered
    refine List.pairwise_iff_forall_sublist.mpr fun sub same => ?_
    exact List.pairwise_iff_forall_sublist.mp ordered ((pair_sublist_sortByKey same).mpr sub)
  · intro ordered
    refine List.pairwise_iff_forall_sublist.mpr fun sub => ?_
    have le := List.pairwise_iff_forall_sublist.mp pairwise_sortByKey sub
    rcases lt_or_eq_of_le le with less | same
    · exact byKey _ _ less
    · exact List.pairwise_iff_forall_sublist.mp ordered ((pair_sublist_sortByKey same).mp sub) same

end

section Dedup

variable [DecidableEq α]

/-- `Vec::dedup`. -/
def dedup (values : List α) : List α := values.destutter (· ≠ ·)

theorem mem_dedup {values : List α} {value : α} : value ∈ dedup values ↔ value ∈ values := by
  cases values with
  | nil => rfl
  | cons first rest =>
    -- The induction runs over the last element kept, which is in front of what is left.
    rw [dedup, List.destutter_cons']
    induction rest generalizing first with
    | nil => rfl
    | cons next rest ih =>
      by_cases same : first = next
      · rw [List.destutter'_cons_neg _ (not_not.mpr same), ih, same]
        simp
      · rw [List.destutter'_cons_pos _ same, List.mem_cons, ih]
        simp

/-- A sorted list without equal neighbours is strictly ordered. -/
theorem pairwise_dedup_sortByKey {key : α → κ} (injective : Function.Injective key)
    (values : List α) :
    (dedup (sortByKey key values)).Pairwise fun a b => key a < key b := by
  have ordered : (dedup (sortByKey key values)).Pairwise fun a b => key a ≤ key b :=
    pairwise_sortByKey.sublist (List.destutter_sublist _ _)
  have differ : (dedup (sortByKey key values)).IsChain (· ≠ ·) := List.isChain_destutter _ _
  have trans : IsTrans α fun a b => key a < key b := ⟨fun _ _ _ => lt_trans⟩
  rw [← List.isChain_iff_pairwise, List.isChain_iff_getElem]
  intro index inside
  have le := List.isChain_iff_getElem.mp ordered.isChain index inside
  have ne := List.isChain_iff_getElem.mp differ index inside
  exact lt_of_le_of_ne le fun same => ne (injective same)

end Dedup

end Ethwasi.Rust
