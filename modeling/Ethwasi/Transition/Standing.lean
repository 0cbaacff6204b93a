import Mathlib.Data.List.Induction
import Mathlib.Logic.Function.Basic

/-!
# What was added and not removed since

Many states hold the keys that were added to them and not removed since. `Stands` says so of one
key by the items that happened, without the state; the rule for folds and the equation for one more
item let an implementation be compared with it.
-/

namespace Ethwasi.Transition

variable {α κ γ : Type} {adds removes : α → Prop}

/-- Some item adds, and no later one removes. -/
def Stands (adds removes : α → Prop) (past : List α) : Prop :=
  ∃ earlier item later, past = earlier ++ item :: later ∧ adds item ∧
    ∀ other ∈ later, ¬removes other

theorem not_stands_nil : ¬Stands adds removes [] := by
  rintro ⟨earlier, item, later, split, _⟩
  simp at split

/-- The last item decides, unless it says nothing. -/
theorem stands_snoc {past : List α} {item : α} :
    Stands adds removes (past ++ [item]) ↔
      adds item ∨ ¬removes item ∧ Stands adds removes past := by
  constructor
  · rintro ⟨earlier, found, later, split, added, kept⟩
    rcases later.eq_nil_or_concat with rfl | ⟨later, last, rfl⟩
    · obtain ⟨_, same⟩ := List.append_inj' split rfl
      rw [List.singleton_inj.mp same]
      exact .inl added
    · rw [List.concat_eq_append] at split kept
      rw [← List.cons_append, ← List.append_assoc] at split
      obtain ⟨before, same⟩ := List.append_inj' split rfl
      rw [List.singleton_inj.mp same]
      exact .inr ⟨kept last (by simp), earlier, found, later, before, added,
        fun other member => kept other (by simp [member])⟩
  · rintro (added | ⟨stays, earlier, found, later, rfl, added, kept⟩)
    · exact ⟨past, item, [], rfl, added, by simp⟩
    · refine ⟨earlier, found, later ++ [item], by simp, added, fun other member => ?_⟩
      rcases List.mem_append.mp member with among | last
      · exact kept other among
      · rw [List.mem_singleton.mp last]
        exact stays

/-- The rule for folds: what every item does to the keys of a state decides what the state holds
after all of them. -/
theorem holds_foldl_iff {adds removes : κ → α → Prop} {holds : γ → κ → Prop} {step : γ → α → γ}
    (each : ∀ state item key, holds (step state item) key ↔
      adds key item ∨ ¬removes key item ∧ holds state key)
    {start : γ} {key : κ} (empty : ¬holds start key) (items : List α) :
    holds (items.foldl step start) key ↔ Stands (adds key) (removes key) items := by
  induction items using List.reverseRecOn with
  | nil => exact ⟨fun held => absurd held empty, fun stands => absurd stands not_stands_nil⟩
  | append_singleton items item ih =>
    rw [List.foldl_append, List.foldl_cons, List.foldl_nil, each, ih, stands_snoc]

/-- An item that says nothing leaves everything standing. -/
theorem stands_idle {past : List α} {item : α} (addsNot : ¬adds item) (removesNot : ¬removes item) :
    Stands adds removes (past ++ [item]) ↔ Stands adds removes past := by
  rw [stands_snoc]
  simp [addsNot, removesNot]

section Table

variable {β : Type}

/-- The items that change a table: which one puts a value under a key, and which one takes the key
out. -/
structure TableItems (α κ β : Type) where
  puts : κ → β → α
  takes : κ → α
  puts_inj : ∀ {key other value value'}, puts key value = puts other value' →
    key = other ∧ value = value'
  takes_inj : ∀ {key other}, takes key = takes other → key = other
  apart : ∀ {key value other}, puts key value ≠ takes other

variable (items : TableItems α κ β)

/-- The value was put under the key, and since then nothing was put there, nor taken out. -/
def TableItems.Has (past : List α) (key : κ) (value : β) : Prop :=
  Stands (fun item => item = items.puts key value)
    (fun item => item = items.takes key ∨ ∃ other, item = items.puts key other) past

/-- The table has what was put into it and not taken out since. -/
def TableItems.Describes (past : List α) (table : κ → Option β) : Prop :=
  ∀ key value, table key = some value ↔ items.Has past key value

variable {items} {past : List α} {table : κ → Option β}

theorem TableItems.describes_nil : items.Describes [] fun _ => none :=
  fun _ _ => ⟨nofun, fun has => absurd has not_stands_nil⟩

theorem TableItems.describes_idle (held : items.Describes past table) {item : α}
    (putsNot : ∀ key value, item ≠ items.puts key value)
    (takesNot : ∀ key, item ≠ items.takes key) :
    items.Describes (past ++ [item]) table := by
  intro key value
  rw [held, Has, Has]
  refine (stands_idle ?_ ?_).symm
  · exact putsNot key value
  · rintro (taken | ⟨other, put⟩)
    · exact takesNot key taken
    · exact putsNot key other put

variable [DecidableEq κ]

theorem TableItems.describes_put (held : items.Describes past table) (key : κ) (value : β) :
    items.Describes (past ++ [items.puts key value]) (Function.update table key (some value)) := by
  intro other value'
  rw [Has, stands_snoc]
  by_cases same : other = key
  · subst same
    rw [Function.update_self, Option.some.injEq]
    constructor
    · rintro rfl
      exact .inl rfl
    · rintro (put | ⟨stays, _⟩)
      · exact (items.puts_inj put).2
      · exact absurd (.inr ⟨value, rfl⟩) stays
  · rw [Function.update_of_ne same, held]
    constructor
    · intro has
      refine .inr ⟨?_, has⟩
      rintro (taken | ⟨_, put⟩)
      · exact items.apart taken
      · exact same (items.puts_inj put).1.symm
    · rintro (put | ⟨_, has⟩)
      · exact absurd (items.puts_inj put).1.symm same
      · exact has

theorem TableItems.describes_take (held : items.Describes past table) (key : κ) :
    items.Describes (past ++ [items.takes key]) (Function.update table key none) := by
  intro other value
  rw [Has, stands_snoc]
  by_cases same : other = key
  · subst same
    rw [Function.update_self]
    refine ⟨nofun, ?_⟩
    rintro (put | ⟨stays, _⟩)
    · exact absurd put.symm items.apart
    · exact absurd (.inl rfl) stays
  · rw [Function.update_of_ne same, held]
    constructor
    · intro has
      refine .inr ⟨?_, has⟩
      rintro (taken | ⟨_, put⟩)
      · exact same (items.takes_inj taken).symm
      · exact items.apart put.symm
    · rintro (put | ⟨_, has⟩)
      · exact absurd put.symm items.apart
      · exact has

end Table

end Ethwasi.Transition
