import Mathlib.Data.Finset.Card
import Ethwasi.Transition.Standing

/-!
# The enabled APIs

Which APIs a server offers is given as a text: names with commas between them, read from left to
right. A name adds an API, a name after a minus sign removes it, and `all` and `safe` both add every
one. Nothing is trimmed, and a text always has a piece, so the empty text is refused for its empty
name. What is read is a list of edits, and the last edit of an API decides about it.
-/

namespace Ethwasi.Gateway

open Ethwasi.Transition

/-- `Api`. -/
inductive Api where
  | web3
  | net
  | eth
  | ethPubSub
  | oasis
  deriving DecidableEq

/-- `Api::from_str`. -/
def Api.fromStr : String → Except String Api
  | "web3" => .ok .web3
  | "net" => .ok .net
  | "eth" => .ok .eth
  | "pubsub" => .ok .ethPubSub
  | "oasis" => .ok .oasis
  | api => .error ("Unknown api: " ++ api)

/-- `ApiSet`. -/
inductive ApiSet where
  | unsafeContext
  | all
  | list (apis : Finset Api)
  deriving DecidableEq

/-- `list_apis`. -/
def ApiSet.listApis : ApiSet → Finset Api
  | .list apis => apis
  | .unsafeContext => {.web3, .net, .eth, .ethPubSub, .oasis}
  | .all => {.web3, .net, .eth, .ethPubSub, .oasis}

/-- `split(',')`. -/
def pieces (text : String) : List String := (text.toList.splitOn ',').map String.ofList

/-- One round of the loop of `ApiSet::from_str`. -/
def editApis (apis : Finset Api) (api : String) : Except String (Finset Api) :=
  match api with
  | "all" => .ok (apis ∪ ApiSet.all.listApis)
  | "safe" => .ok (apis ∪ ApiSet.unsafeContext.listApis)
  | _ =>
    if api.toList.head? = some '-' then
      (Api.fromStr (String.ofList api.toList.tail)).map fun api => apis.erase api
    else (Api.fromStr api).map fun api => insert api apis

/-- `ApiSet::from_str`. -/
def ApiSet.fromStr (text : String) : Except String ApiSet :=
  ((pieces text).foldlM editApis ∅).map .list

/-- What a piece stands for. -/
inductive Edit where
  | all
  | safe
  | add (api : Api)
  | remove (api : Api)
  deriving DecidableEq

/-- The name of an API. -/
def Api.name : Api → String
  | .web3 => "web3"
  | .net => "net"
  | .eth => "eth"
  | .ethPubSub => "pubsub"
  | .oasis => "oasis"

namespace Edit

/-- The piece of an edit. -/
def piece : Edit → String
  | .all => "all"
  | .safe => "safe"
  | .add api => api.name
  | .remove api => "-" ++ api.name

/-- The edit adds the API. -/
def Adds (api : Api) : Edit → Prop
  | .all => True
  | .safe => True
  | .add other => other = api
  | .remove _ => False

/-- The edit removes the API. -/
def Removes (api : Api) : Edit → Prop
  | .remove other => other = api
  | _ => False

/-- What an edit does to a set. -/
def apply (apis : Finset Api) : Edit → Finset Api
  | .all => apis ∪ ApiSet.all.listApis
  | .safe => apis ∪ ApiSet.unsafeContext.listApis
  | .add api => insert api apis
  | .remove api => apis.erase api

theorem mem_apply_iff (apis : Finset Api) (edit : Edit) (api : Api) :
    api ∈ edit.apply apis ↔ edit.Adds api ∨ ¬edit.Removes api ∧ api ∈ apis := by
  cases edit with
  | all => cases api <;> simp [apply, Adds, ApiSet.listApis]
  | safe => cases api <;> simp [apply, Adds, ApiSet.listApis]
  | add other => simp [apply, Adds, Removes, eq_comm]
  | remove other => simp [apply, Adds, Removes, eq_comm]

end Edit

/-- A text is the name of at most one API, and otherwise it is reported. -/
theorem Api.fromStr_cases (text : String) :
    (∃ api : Api, text = api.name ∧ Api.fromStr text = .ok api) ∨
      (∀ api : Api, text ≠ api.name) ∧ Api.fromStr text = .error ("Unknown api: " ++ text) := by
  unfold Api.fromStr
  split
  · exact .inl ⟨.web3, rfl, rfl⟩
  · exact .inl ⟨.net, rfl, rfl⟩
  · exact .inl ⟨.eth, rfl, rfl⟩
  · exact .inl ⟨.ethPubSub, rfl, rfl⟩
  · exact .inl ⟨.oasis, rfl, rfl⟩
  · refine .inr ⟨?_, rfl⟩
    intro api
    cases api <;> assumption

/-- A text without a minus sign at its start. -/
def withoutMinus (text : String) : String :=
  if text.toList.head? = some '-' then String.ofList text.toList.tail else text

theorem eq_minus_append {text : String} (minus : text.toList.head? = some '-') :
    text = "-" ++ String.ofList text.toList.tail := by
  rw [← String.toList_inj, String.toList_append, String.toList_ofList]
  cases chars : text.toList with
  | nil => simp [chars] at minus
  | cons first rest =>
    rw [chars, List.head?_cons, Option.some.injEq] at minus
    rw [minus, List.tail_cons, String.toList_ofList]
    rfl

/-- The piece of an edit makes the edit. -/
theorem editApis_piece (apis : Finset Api) (edit : Edit) :
    editApis apis edit.piece = .ok (edit.apply apis) := by
  cases edit with
  | all => rfl
  | safe => rfl
  | add api => cases api <;> rfl
  | remove api => cases api <;> rfl

/-- Any other piece is reported. -/
theorem editApis_unknown (apis : Finset Api) {text : String}
    (unknown : ∀ edit : Edit, text ≠ edit.piece) :
    editApis apis text = .error ("Unknown api: " ++ withoutMinus text) := by
  unfold editApis
  split
  · exact absurd rfl (unknown .all)
  · exact absurd rfl (unknown .safe)
  · by_cases minus : text.toList.head? = some '-'
    · rw [if_pos minus, withoutMinus, if_pos minus]
      rcases Api.fromStr_cases (String.ofList text.toList.tail) with
        ⟨api, named, _⟩ | ⟨_, reported⟩
      · have removes : text = "-" ++ api.name := named ▸ eq_minus_append minus
        exact absurd removes (unknown (.remove api))
      · rw [reported]
        rfl
    · rw [if_neg minus, withoutMinus, if_neg minus]
      rcases Api.fromStr_cases text with ⟨api, named, _⟩ | ⟨_, reported⟩
      · exact absurd named (unknown (.add api))
      · rw [reported]
        rfl

theorem foldlM_pieces (edits : List Edit) (apis : Finset Api) :
    (edits.map Edit.piece).foldlM editApis apis = .ok (edits.foldl Edit.apply apis) := by
  induction edits generalizing apis with
  | nil => rfl
  | cons edit edits ih =>
    rw [List.map_cons, List.foldlM_cons, editApis_piece]
    exact ih _

/-- The loop ends at the first piece that is no edit. -/
theorem foldlM_unknown (earlier : List Edit) {first : String}
    (unknown : ∀ edit : Edit, first ≠ edit.piece) (later : List String) (apis : Finset Api) :
    (earlier.map Edit.piece ++ first :: later).foldlM editApis apis =
      .error ("Unknown api: " ++ withoutMinus first) := by
  rw [List.foldlM_append, foldlM_pieces]
  change (first :: later).foldlM editApis (earlier.foldl Edit.apply apis) = _
  rw [List.foldlM_cons, editApis_unknown _ unknown]
  rfl

/-- The pieces are all edits, or there is a first one that is none. -/
theorem edits_or_unknown (texts : List String) :
    (∃ edits : List Edit, texts = edits.map Edit.piece) ∨
      ∃ (earlier : List Edit) (first : String) (later : List String),
        texts = earlier.map Edit.piece ++ first :: later ∧ ∀ edit : Edit, first ≠ edit.piece := by
  induction texts with
  | nil => exact .inl ⟨[], rfl⟩
  | cons text texts ih =>
    by_cases known : ∃ edit : Edit, text = edit.piece
    · obtain ⟨edit, rfl⟩ := known
      rcases ih with ⟨edits, rfl⟩ | ⟨earlier, first, later, rfl, unknown⟩
      · exact .inl ⟨edit :: edits, rfl⟩
      · exact .inr ⟨edit :: earlier, first, later, rfl, unknown⟩
    · exact .inr ⟨[], text, texts, rfl, not_exists.mp known⟩

/-- The text of some edits, with commas between them. -/
def editsText (edits : List Edit) : String :=
  String.ofList ([','].intercalate (edits.map fun edit => edit.piece.toList))

/-- No piece has a comma. -/
theorem comma_not_mem_piece (edit : Edit) : ',' ∉ edit.piece.toList := by
  cases edit with
  | all => decide
  | safe => decide
  | add api => cases api <;> decide
  | remove api => cases api <;> decide

theorem pieces_editsText {edits : List Edit} (nonempty : edits ≠ []) :
    pieces (editsText edits) = edits.map Edit.piece := by
  have separate : ∀ chars ∈ edits.map fun edit => edit.piece.toList, ',' ∉ chars := by
    intro chars member
    obtain ⟨edit, _, rfl⟩ := List.mem_map.mp member
    exact comma_not_mem_piece edit
  have some : edits.map (fun edit => edit.piece.toList) ≠ [] := by simpa using nonempty
  rw [pieces, editsText, String.toList_ofList, List.splitOn_intercalate _ separate some,
    List.map_map]
  exact List.map_congr_left fun edit _ => String.ofList_toList

/-- The edits of a text decide what is enabled. -/
theorem fromStr_of_pieces {text : String} {edits : List Edit}
    (split : pieces text = edits.map Edit.piece) :
    ∃ apis, ApiSet.fromStr text = .ok (.list apis) ∧
      ∀ api, api ∈ apis ↔ Stands (Edit.Adds api) (Edit.Removes api) edits := by
  refine ⟨edits.foldl Edit.apply ∅, ?_, fun api => ?_⟩
  · rw [ApiSet.fromStr, split, foldlM_pieces]
    rfl
  · exact @holds_foldl_iff _ _ _ Edit.Adds Edit.Removes (fun apis api => api ∈ apis) Edit.apply
      (fun apis edit api => Edit.mem_apply_iff apis edit api) ∅ api (by simp) edits

theorem fromStr_of_unknown {text : String} {earlier : List Edit} {first : String}
    {later : List String} (split : pieces text = earlier.map Edit.piece ++ first :: later)
    (unknown : ∀ edit : Edit, first ≠ edit.piece) :
    ApiSet.fromStr text = .error ("Unknown api: " ++ withoutMinus first) := by
  rw [ApiSet.fromStr, split, foldlM_unknown _ unknown]
  rfl

/-- What is read from a text. A text is accepted exactly when all its pieces are edits, and an API
is then enabled exactly when some edit adds it and no later one removes it. Any other text is
refused for its first piece that is no edit, which is reported without a minus sign at its start.
Every list of edits but the empty one has a text from which it is read. -/
theorem api_set_exact (text : String) :
    (∀ apis, ApiSet.fromStr text = .ok (.list apis) ↔
      ∃ edits : List Edit, pieces text = edits.map Edit.piece ∧
        ∀ api, api ∈ apis ↔ Stands (Edit.Adds api) (Edit.Removes api) edits) ∧
    (∀ message, ApiSet.fromStr text = .error message ↔
      ∃ (earlier : List Edit) (first : String) (later : List String),
        pieces text = earlier.map Edit.piece ++ first :: later ∧
          (∀ edit : Edit, first ≠ edit.piece) ∧
          message = "Unknown api: " ++ withoutMinus first) ∧
    ∀ edits, edits ≠ [] → text = editsText edits →
      ∃ apis, ApiSet.fromStr text = .ok (.list apis) ∧
        ∀ api, api ∈ apis ↔ Stands (Edit.Adds api) (Edit.Removes api) edits := by
  refine ⟨fun apis => ⟨fun accepted => ?_, ?_⟩, fun message => ⟨fun refused => ?_, ?_⟩, ?_⟩
  · rcases edits_or_unknown (pieces text) with
      ⟨edits, split⟩ | ⟨earlier, first, later, split, unknown⟩
    · obtain ⟨read, accepts, enabled⟩ := fromStr_of_pieces split
      cases accepts.symm.trans accepted
      exact ⟨edits, split, enabled⟩
    · cases (fromStr_of_unknown split unknown).symm.trans accepted
  · rintro ⟨edits, split, enabled⟩
    obtain ⟨read, accepts, same⟩ := fromStr_of_pieces split
    have equal : read = apis := Finset.ext fun api => (same api).trans (enabled api).symm
    rw [accepts, equal]
  · rcases edits_or_unknown (pieces text) with
      ⟨edits, split⟩ | ⟨earlier, first, later, split, unknown⟩
    · obtain ⟨read, accepts, _⟩ := fromStr_of_pieces split
      cases accepts.symm.trans refused
    · cases (fromStr_of_unknown split unknown).symm.trans refused
      exact ⟨earlier, first, later, split, unknown, rfl⟩
  · rintro ⟨earlier, first, later, split, unknown, rfl⟩
    exact fromStr_of_unknown split unknown
  · rintro edits nonempty rfl
    exact fromStr_of_pieces (pieces_editsText nonempty)

/-- The later of two edits of an API decides: after `all`, one API is removed, and the same edit
before it is without effect. -/
theorem all_but_eth :
    (∃ apis, ApiSet.fromStr "all,-eth" = .ok (.list apis) ∧
      ∀ api, api ∈ apis ↔ Stands (Edit.Adds api) (Edit.Removes api) [.all, .remove .eth]) ∧
    ApiSet.fromStr "all,-eth" = .ok (.list {.web3, .net, .ethPubSub, .oasis}) ∧
    ApiSet.fromStr "-eth,all" = .ok (.list {.web3, .net, .eth, .ethPubSub, .oasis}) ∧
    ApiSet.fromStr "" = .error "Unknown api: " :=
  ⟨(api_set_exact "all,-eth").2.2 [.all, .remove .eth] (by simp) rfl, by decide, by decide,
    by decide⟩

end Ethwasi.Gateway
