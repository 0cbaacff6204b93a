import Ethwasi.Transition.Run
import Ethwasi.Gateway.FilterClient

/-!
# Block filters

A block filter is created with its cursor one past the latest block and reports the blocks from
its cursor to the latest one. A poll leaves the cursor on the block it reported last, not behind
it, so the next poll reports that block again. Between two polls the time of any filter may be over;
the results are about a filter that lives as long as it is polled.
-/

namespace Ethwasi.Gateway

open Ethwasi.Rust Ethwasi.Transition

/-- The node knows the blocks up to its latest one and answers every request. -/
structure Serves (hashes : Nat → H256) (head : Nat) (translator : Translator) : Prop where
  latest : translator.getLatestBlock = .ok ⟨head, hashes head⟩
  block : ∀ round ≤ head, translator.getBlockByRound round = .ok (some ⟨round, hashes round⟩)

/-- A poll, with what the translator answers to it, or the end of a filter's time. -/
inductive FilterStep where
  | poll (translator : Translator)
  | expire (id : Nat)

/-- The answers to a poll. -/
def FilterStep.translator : FilterStep → Option Translator
  | .poll translator => some translator
  | .expire _ => none

/-- The polls of a filter. -/
def pollMachine {τ : Type} (polls : PollManager τ) (id : Nat) :
    Machine τ FilterStep (Option (Except RpcError FilterChanges)) :=
  fun table step =>
    match step with
    | .poll translator =>
      let (response, table) := filterChanges polls translator table id
      some (some response, table)
    | .expire other => some (none, polls.expire table other)

/-- The hashes that a response reports. -/
def reportedHashes : Option (Except RpcError FilterChanges) → List H256
  | some (.ok (.hashes hashes)) => hashes
  | _ => []

/-- The rounds reported by polls of a filter with the given cursor. -/
def reportedRounds (cursor : Nat) : List Nat → List Nat
  | [] => []
  | head :: heads => rounds cursor head ++ reportedRounds head heads

/-- The last block that the polls saw, or the block of the creation. -/
def lastHead (created : Nat) (heads : List Nat) : Nat := heads.getLast?.getD created

variable {τ : Type} {polls : PollManager τ} {hashes : Nat → H256}

/-- The blocks of a range that the node knows are all fetched. -/
theorem fetchHashes_of_serves {head : Nat} {translator : Translator}
    (serves : Serves hashes head translator) {wanted : List Nat}
    (known : ∀ round ∈ wanted, round ≤ head) :
    fetchHashes translator wanted = .ok (wanted.map hashes) := by
  induction wanted with
  | nil => rfl
  | cons round later ih =>
    have rest := ih fun other member => known other (List.mem_cons_of_mem _ member)
    have first := serves.block round (known round List.mem_cons_self)
    simp only [fetchHashes, first, rest, List.map_cons]

theorem mem_rounds {first last round : Nat} :
    round ∈ rounds first last ↔ first ≤ round ∧ round ≤ last := by
  rw [rounds, List.mem_range'_1]
  omega

theorem rounds_length (first last : Nat) : (rounds first last).length = last + 1 - first := by
  rw [rounds, List.length_range']

/-- One poll reports the blocks from the cursor on and moves the cursor to the latest block. -/
theorem filterChanges_of_block {head : Nat} {translator : Translator}
    (serves : Serves hashes head translator) {table : τ} {id cursor : Nat}
    (installed : polls.poll table id = some (.block cursor)) :
    filterChanges polls translator table id =
      (.ok (.hashes ((rounds cursor head).map hashes)), polls.setPoll table id (.block head)) := by
  have fetched : fetchHashes translator (rounds cursor head) =
      .ok ((rounds cursor head).map hashes) :=
    fetchHashes_of_serves serves fun round member => (mem_rounds.mp member).2
  simp only [filterChanges, serves.latest, takeUpdates, installed, runUpdates, fetched]
  rfl

/-- The polls of a run report the rounds that follow from the cursor and the heads they see, as long
as the filter lives. -/
theorem run_polls {id cursor : Nat} {table : τ}
    (installed : polls.poll table id = some (.block cursor)) {steps : List FilterStep}
    (lives : .expire id ∉ steps) {heads : List Nat}
    (serving : List.Forall₂ (Serves hashes) heads (steps.filterMap (·.translator))) :
    (∀ event ∈ run (pollMachine polls id) table steps, ∀ translator,
        event.input = .poll translator →
        ∃ reported, event.output = some (.ok (.hashes reported))) ∧
      (run (pollMachine polls id) table steps).flatMap
          (fun event => reportedHashes event.output) =
        (reportedRounds cursor heads).map hashes := by
  induction steps generalizing table cursor heads with
  | nil =>
    cases serving
    exact ⟨by simp [run], rfl⟩
  | cons step steps ih =>
    have livesOn : .expire id ∉ steps := fun member => lives (List.mem_cons_of_mem _ member)
    cases step with
    | expire other =>
      have different : other ≠ id := by
        rintro rfl
        exact lives List.mem_cons_self
      have stepped : pollMachine polls id table (.expire other) =
          some (none, polls.expire table other) := rfl
      obtain ⟨answered, reported⟩ := ih
        ((polls.poll_expire_of_ne table different).trans installed) livesOn serving
      rw [run_cons_some stepped]
      constructor
      · intro event member translator polled
        rcases List.mem_cons.mp member with rfl | later
        · cases polled
        · exact answered event later translator polled
      · rw [List.flatMap_cons, reported]
        rfl
    | poll translator =>
      change List.Forall₂ _ _ (translator :: steps.filterMap (·.translator)) at serving
      cases serving with
      | @cons head _ heads _ serves rest =>
        have stepped : pollMachine polls id table (.poll translator) = some
            (some (.ok (.hashes ((rounds cursor head).map hashes))),
              polls.setPoll table id (.block head)) := by
          simp only [pollMachine, filterChanges_of_block serves installed]
        obtain ⟨answered, reported⟩ :=
          ih (polls.poll_setPoll_self installed (.block head)) livesOn rest
        rw [run_cons_some stepped]
        constructor
        · intro event member other polled
          rcases List.mem_cons.mp member with rfl | later
          · exact ⟨_, rfl⟩
          · exact answered event later other polled
        · rw [List.flatMap_cons, reported, reportedRounds, List.map_append]
          rfl

theorem lastHead_cons (created head : Nat) (heads : List Nat) :
    lastHead created (head :: heads) = lastHead head heads := by
  simp [lastHead, List.getLast?_cons]

/-- Polls that start on a cursor and see a growing chain report one round too many each. -/
theorem reportedRounds_length {cursor : Nat} {heads : List Nat}
    (growing : (cursor :: heads).Pairwise (· ≤ ·)) :
    cursor ≤ lastHead cursor heads ∧
      (reportedRounds cursor heads).length = lastHead cursor heads - cursor + heads.length := by
  induction heads generalizing cursor with
  | nil => simp [lastHead, reportedRounds]
  | cons head heads ih =>
    obtain ⟨above, later⟩ := List.pairwise_cons.mp growing
    have step : cursor ≤ head := above head List.mem_cons_self
    obtain ⟨bound, length⟩ := ih later
    rw [lastHead_cons, reportedRounds, List.length_append, length, rounds_length,
      List.length_cons]
    omega

/-- Over a growing chain that answers every request, each poll of a block filter succeeds while the
filter lives, whatever other filters are dropped meanwhile. The polls report exactly the blocks
after the one of its creation, up to the last one seen, each once and in order, exactly when there
is at most one poll. -/
theorem block_filter_exact_iff (polls : PollManager τ) (hashes : Nat → H256) (created : Nat)
    (bounded : created + 1 < 2 ^ 64) (creation : Translator)
    (known : Serves hashes created creation) (before table : τ) (id : Nat)
    (installed : newBlockFilter polls creation before = (.ok id, table))
    (steps : List FilterStep) (lives : .expire id ∉ steps) (heads : List Nat)
    (growing : (created :: heads).Pairwise (· ≤ ·))
    (serving : List.Forall₂ (Serves hashes) heads (steps.filterMap (·.translator))) :
    (∀ event ∈ run (pollMachine polls id) table steps, ∀ translator,
        event.input = .poll translator →
        ∃ reported, event.output = some (.ok (.hashes reported))) ∧
      ((run (pollMachine polls id) table steps).flatMap
            (fun event => reportedHashes event.output) =
          (rounds (created + 1) (lastHead created heads)).map hashes ↔
        (steps.filterMap (·.translator)).length ≤ 1) := by
  have cursor : polls.poll table id = some (.block (created + 1)) := by
    simp only [newBlockFilter, known.latest, nextRound_of_lt bounded, Prod.mk.injEq,
      Except.ok.injEq] at installed
    obtain ⟨rfl, rfl⟩ := installed
    exact polls.poll_createPoll_self before _
  obtain ⟨answered, reported⟩ := run_polls cursor lives serving
  refine ⟨answered, ?_⟩
  rw [reported, ← serving.length_eq]
  cases heads with
  | nil =>
    have nothing : rounds (created + 1) (lastHead created []) = [] := by
      simp [rounds, lastHead]
    rw [nothing]
    simp [reportedRounds]
  | cons head later =>
    obtain ⟨above, laterGrowing⟩ := List.pairwise_cons.mp growing
    have step : created ≤ head := above head List.mem_cons_self
    obtain ⟨bound, length⟩ := reportedRounds_length laterGrowing
    constructor
    · intro same
      have lengths := congrArg List.length same
      rw [List.length_map, List.length_map, reportedRounds, List.length_append, length,
        rounds_length, rounds_length, lastHead_cons] at lengths
      rw [List.length_cons]
      omega
    · intro few
      have single : later = [] := by
        apply List.eq_nil_of_length_eq_zero
        rw [List.length_cons] at few
        omega
      subst single
      simp [reportedRounds, lastHead]

/-- A node whose block hashes repeat the round. -/
def sampleNode (head : Nat) : Translator where
  getLatestBlock := .ok ⟨head, FixedBytes.filled 32 (UInt8.ofNat head)⟩
  getBlockByRound round :=
    .ok (if round ≤ head then some ⟨round, FixedBytes.filled 32 (UInt8.ofNat round)⟩ else none)
  logs _ := .ok []

theorem sampleNode_serves (head : Nat) :
    Serves (fun round => FixedBytes.filled 32 (UInt8.ofNat round)) head (sampleNode head) where
  latest := rfl
  block round known := by simp [sampleNode, known]

/-- A single poll after two new blocks reports both, and another filter is dropped before it. -/
theorem single_poll_reports_new_blocks :
    (run (pollMachine pollList 0) (newBlockFilter pollList (sampleNode 4) pollList.new).2
          [.expire 1, .poll (sampleNode 6)]).flatMap
        (fun event => reportedHashes event.output) =
      [FixedBytes.filled 32 5, FixedBytes.filled 32 6] :=
  (block_filter_exact_iff pollList _ 4 (by decide) (sampleNode 4) (sampleNode_serves 4)
    pollList.new _ 0 rfl [.expire 1, .poll (sampleNode 6)] (by simp) [6] (by decide)
    (.cons (sampleNode_serves 6) .nil)).2.mpr (Nat.le_refl 1)

/-- A second poll without a new block reports the last block again. -/
theorem second_poll_repeats_block :
    (run (pollMachine pollList 0) (newBlockFilter pollList (sampleNode 4) pollList.new).2
        [.poll (sampleNode 5), .poll (sampleNode 5)]).map (·.output) =
      [some (.ok (.hashes [FixedBytes.filled 32 5])),
        some (.ok (.hashes [FixedBytes.filled 32 5]))] ∧
    (run (pollMachine pollList 0) (newBlockFilter pollList (sampleNode 4) pollList.new).2
        [.poll (sampleNode 5), .poll (sampleNode 5)]).flatMap
          (fun event => reportedHashes event.output) ≠
      (rounds (4 + 1) (lastHead 4 [5, 5])).map
        fun round => FixedBytes.filled 32 (UInt8.ofNat round) := by
  constructor
  · rfl
  · decide

end Ethwasi.Gateway
