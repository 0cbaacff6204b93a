import Ethwasi.Runtime.Sample
import Ethwasi.Gateway.FilterClient

/-!
# Failed polls

`filter_changes` advances the cursor while it builds its future, before any of the requests that
the future makes. When one of them fails, the poll returns an error but the cursor stays where
it was moved to, and the blocks or logs in between are never reported.
-/

namespace Ethwasi.Gateway

open Ethwasi.Rust Ethwasi.Runtime

variable {σ V τ : Type} (host : Host σ V) (client : NodeClient V) (polls : PollManager τ)

/-- The node answers every request of the future with what it asks for. -/
def RequestsAnswered : Updates → Prop
  | .filterNotFound => True
  | .blocks first last =>
    ∀ round ∈ rounds first last, ∃ block, client.getBlock round = .ok (some block)
  | .noHashes => True
  | .logs filter =>
    ∃ fromBlock toBlock, getBlockUnwrap client filter.fromBlock = .ok fromBlock ∧
      getBlockUnwrap client filter.toBlock = .ok toBlock ∧
      client.waitBlockIndexed toBlock.round = .ok () ∧
      ∃ txns, client.queryTxs (logQuery filter fromBlock.round toBlock.round) = .ok txns

/-- The cursor is already where a poll that sees this latest block puts it. -/
def PollFilter.RestsAt (head : Nat) : PollFilter → Prop
  | .block number => number = head
  | .pendingTransaction _ => True
  | .logs blockNumber _ => blockNumber = nextRound head

/-- If a poll fails, the stored filter is the one before the poll, and every later poll builds
the future that it would have built without the failed one. -/
def LosesNothing (table : τ) (id : Nat) : Prop :=
  ∀ error, (filterChanges polls (.ofClient host client) table id).1 = .error error →
    polls.poll (filterChanges polls (.ofClient host client) table id).2 id =
      polls.poll table id ∧
    ∀ head, (takeUpdates polls (filterChanges polls (.ofClient host client) table id).2 id head).1 =
      (takeUpdates polls table id head).1

variable {host client polls}

/-- Fetching blocks succeeds exactly when every one of them is there. -/
theorem fetchHashes_isOk_iff {translator : Translator} {wanted : List Nat} :
    (∃ hashes, fetchHashes translator wanted = .ok hashes) ↔
      ∀ round ∈ wanted, ∃ block, translator.getBlockByRound round = .ok (some block) := by
  induction wanted with
  | nil => simp [fetchHashes]
  | cons round later ih =>
    rw [List.forall_mem_cons, ← ih]
    cases answer : translator.getBlockByRound round with
    | error message => simp [fetchHashes, answer]
    | ok found =>
      cases found with
      | none => simp [fetchHashes, answer]
      | some block =>
        cases rest : fetchHashes translator later <;> simp [fetchHashes, answer, rest]

/-- A log search succeeds exactly when all its requests do. -/
theorem logs_isOk_iff {filter : Filter} :
    (∃ found, logs host client filter = .ok found) ↔
      RequestsAnswered client (.logs filter) := by
  constructor
  · intro searched
    obtain ⟨found, returned⟩ := searched
    obtain ⟨fromBlock, toBlock, txns, resolvedFrom, resolvedTo, indexed, queried, _⟩ :=
      logs_eq_ok_iff.mp returned
    exact ⟨fromBlock, toBlock, resolvedFrom, resolvedTo, indexed, txns, queried⟩
  · intro answered
    obtain ⟨fromBlock, toBlock, resolvedFrom, resolvedTo, indexed, txns, queried⟩ := answered
    exact ⟨_, logs_eq_ok_iff.mpr
      ⟨fromBlock, toBlock, txns, resolvedFrom, resolvedTo, indexed, queried, rfl⟩⟩

theorem jsonrpc_map_isOk_iff {α β : Type} {answer : Except String α} {change : α → β} :
    (∃ value, jsonrpc (answer.map change) = .ok value) ↔ ∃ value, answer = .ok value := by
  cases answer with
  | error message => simp [jsonrpc, Except.map]
  | ok value => simp [jsonrpc, Except.map]

/-- Running the future of an installed filter succeeds exactly when all its requests do. -/
theorem runUpdates_isOk_iff (host : Host σ V) (client : NodeClient V) {updates : Updates}
    (installed : updates ≠ .filterNotFound) :
    (∃ changes, runUpdates (.ofClient host client) updates = .ok changes) ↔
      RequestsAnswered client updates := by
  cases updates with
  | filterNotFound => exact absurd rfl installed
  | noHashes => exact ⟨fun _ => trivial, fun _ => ⟨_, rfl⟩⟩
  | blocks first last => exact jsonrpc_map_isOk_iff.trans fetchHashes_isOk_iff
  | logs filter => exact jsonrpc_map_isOk_iff.trans logs_isOk_iff

/-- The future of a poll depends on the stored filter only. -/
theorem takeUpdates_fst_congr {table other : τ} {id : Nat}
    (same : polls.poll other id = polls.poll table id) (head : Nat) :
    (takeUpdates polls other id head).1 = (takeUpdates polls table id head).1 := by
  unfold takeUpdates
  rw [same]
  split <;> rfl

/-- The stored filter after the cursor was taken. -/
theorem takeUpdates_polls {table : τ} {id : Nat} {filter : PollFilter}
    (installed : polls.poll table id = some filter) (head : Nat) :
    (takeUpdates polls table id head).1 ≠ .filterNotFound ∧
      (polls.poll (takeUpdates polls table id head).2 id = some filter ↔
        filter.RestsAt head) := by
  cases filter with
  | block number =>
    simp only [takeUpdates, installed, polls.poll_setPoll_self installed, Option.some.injEq,
      PollFilter.block.injEq, PollFilter.RestsAt]
    exact ⟨by simp, eq_comm⟩
  | pendingTransaction hashes =>
    simp [takeUpdates, installed, PollFilter.RestsAt]
  | logs blockNumber filter =>
    simp only [takeUpdates, installed, polls.poll_setPoll_self installed, Option.some.injEq,
      PollFilter.logs.injEq, and_true, PollFilter.RestsAt]
    exact ⟨by simp, eq_comm⟩

/-- A poll of an installed filter loses nothing when it fails exactly if it cannot fail after
its first request, or its cursor does not move. -/
theorem failed_poll_loses_nothing_iff (polls : PollManager τ) (table : τ) (id : Nat)
    (filter : PollFilter) (installed : polls.poll table id = some filter) :
    LosesNothing host client polls table id ↔
      (∃ message, client.getLatestBlock = .error message) ∨
      ∃ block, client.getLatestBlock = .ok block ∧
        (RequestsAnswered client (takeUpdates polls table id block.round).1 ∨
          filter.RestsAt block.round) := by
  cases latest : client.getLatestBlock with
  | error message =>
    have unchanged : (filterChanges polls (.ofClient host client) table id).2 = table := by
      simp only [filterChanges, Translator.ofClient, latest]
    constructor
    · intro _
      exact .inl ⟨message, rfl⟩
    · intro _ error _
      rw [unchanged]
      exact ⟨rfl, fun _ => rfl⟩
  | ok block =>
    have polled : filterChanges polls (.ofClient host client) table id =
        (runUpdates (.ofClient host client) (takeUpdates polls table id block.round).1,
          (takeUpdates polls table id block.round).2) := by
      simp only [filterChanges, Translator.ofClient, latest]
    obtain ⟨found, rests⟩ := takeUpdates_polls installed block.round
    have answered := runUpdates_isOk_iff host client found
    unfold LosesNothing
    rw [polled, installed]
    constructor
    · intro losesNothing
      refine .inr ⟨block, rfl, ?_⟩
      cases ran : runUpdates (.ofClient host client)
          (takeUpdates polls table id block.round).1 with
      | ok changes => exact .inl (answered.mp ⟨changes, ran⟩)
      | error error => exact .inr (rests.mp (losesNothing error ran).1)
    · intro condition error failed
      rcases condition with ⟨_, impossible⟩ | ⟨other, same, safe⟩
      · cases impossible
      · cases same
        rcases safe with requests | resting
        · obtain ⟨changes, ran⟩ := answered.mpr requests
          rw [ran] at failed
          cases failed
        · have kept := rests.mpr resting
          exact ⟨kept, takeUpdates_fst_congr (kept.trans installed.symm)⟩

/-- A node that has blocks up to a round but fails to deliver one of them. -/
def nodeWithout (missing head : Nat) : NodeClient SampleValue where
  getLatestBlock := .ok ⟨head, FixedBytes.filled 32 0⟩
  getBlock round :=
    if round = missing then .error "block not available"
    else .ok (if round ≤ head then some ⟨round, FixedBytes.filled 32 0⟩ else none)
  getBlockByHash _ := .ok none
  waitBlockIndexed _ := .error "index not available"
  queryTxs _ := .ok []

/-- A block filter and a log filter, both with the cursor on block five. -/
def tableAtFive : List (Option PollFilter) :=
  let table := (newBlockFilter pollList (.ofClient sampleHost (nodeWithout 9 4)) pollList.new).2
  (newFilter pollList (.ofClient sampleHost (nodeWithout 9 5)) table
    ⟨.earliest, .latest, none, [], none⟩).2

/-- A poll that gets all its blocks loses nothing. -/
theorem complete_poll_loses_nothing :
    LosesNothing sampleHost (nodeWithout 9 7) pollList tableAtFive 0 :=
  (failed_poll_loses_nothing_iff pollList tableAtFive 0 (.block 5) rfl).mpr
    (.inr ⟨_, rfl, .inl fun round member => by
      have range : round ∈ [5, 6, 7] := member
      simp only [List.mem_cons, List.not_mem_nil, or_false] at range
      rcases range with rfl | rfl | rfl
      · exact ⟨_, rfl⟩
      · exact ⟨_, rfl⟩
      · exact ⟨_, rfl⟩⟩)

/-- A poll that fails on its second block leaves the cursor on the latest one, and a poll whose
index wait fails leaves the cursor behind it. -/
theorem failed_polls_move_cursor :
    ((filterChanges pollList (.ofClient sampleHost (nodeWithout 6 7)) tableAtFive 0).1 =
        .error (.call "block not available") ∧
      pollList.poll (filterChanges pollList (.ofClient sampleHost (nodeWithout 6 7))
        tableAtFive 0).2 0 = some (.block 7)) ∧
    ((filterChanges pollList (.ofClient sampleHost (nodeWithout 9 7)) tableAtFive 1).1 =
        .error (.call "index not available") ∧
      pollList.poll (filterChanges pollList (.ofClient sampleHost (nodeWithout 9 7))
        tableAtFive 1).2 1 = some (.logs 8 ⟨.earliest, .latest, none, [], none⟩)) := by
  refine ⟨⟨?_, ?_⟩, ?_, ?_⟩ <;> rfl

end Ethwasi.Gateway
