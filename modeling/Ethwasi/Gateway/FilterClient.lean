import Mathlib.Logic.Function.Basic
import Ethwasi.Gateway.Translator

/-!
# Polling filters

A client installs a filter and polls it for changes. `filter_changes` works in three steps: it
asks for the latest block, then under the lock reads and advances the cursor of the filter and
builds a future, and then, without the lock, runs the future. `takeUpdates` is the second step
and `runUpdates` the third; `filterChanges` is all three. The set of earlier logs in a log filter
is never read here and is left out.

The table of filters comes from another crate and is known by its laws. It drops a filter that is
not asked for in time, and the interface then answers as if it had been uninstalled.
-/

namespace Ethwasi.Gateway

open Ethwasi.Rust Ethwasi.Runtime

/-- What the translator answers to the requests of one call. -/
structure Translator where
  getLatestBlock : Except String EthereumBlock
  getBlockByRound : Nat → Except String (Option EthereumBlock)
  logs : Filter → Except String (List LocalizedLogEntry)

/-- The translator in front of a node. -/
def Translator.ofClient {σ V : Type} (host : Host σ V) (client : NodeClient V) : Translator :=
  ⟨client.getLatestBlock, client.getBlock, Gateway.logs host client⟩

/-- `PollFilter`. -/
inductive PollFilter where
  /-- The next block to report. -/
  | block (number : Nat)
  | pendingTransaction (hashes : List H256)
  /-- The first block of the next log query, and the filter. -/
  | logs (blockNumber : Nat) (filter : Filter)
  deriving DecidableEq

/-- `PollManager` of `parity_rpc`, over a type of tables: it keeps filters under ids. A filter whose
time is over is dropped by `expire`, which may come between any two calls; the calls themselves
change no filter but the one they are made for. -/
structure PollManager (τ : Type) where
  /-- `PollManager::new`. -/
  new : τ
  /-- `poll`, and what the reference of `poll_mut` shows. -/
  poll : τ → Nat → Option PollFilter
  /-- `create_poll`. -/
  createPoll : τ → PollFilter → Nat × τ
  /-- Write through the reference of `poll_mut`. -/
  setPoll : τ → Nat → PollFilter → τ
  /-- `remove_poll`. -/
  removePoll : τ → Nat → Bool × τ
  /-- The time of a filter is over. -/
  expire : τ → Nat → τ
  poll_new : poll new = fun _ => none
  /-- The id of a new filter is not in use. -/
  poll_unused : ∀ table filter, poll table (createPoll table filter).1 = none
  poll_createPoll : ∀ table filter, poll (createPoll table filter).2 =
    Function.update (poll table) (createPoll table filter).1 (some filter)
  poll_setPoll : ∀ table id filter, (poll table id).isSome →
    poll (setPoll table id filter) = Function.update (poll table) id (some filter)
  removePoll_found : ∀ table id, (removePoll table id).1 = (poll table id).isSome
  poll_removePoll : ∀ table id, poll (removePoll table id).2 = Function.update (poll table) id none
  poll_expire : ∀ table id, poll (expire table id) = Function.update (poll table) id none

namespace PollManager

variable {τ : Type} (polls : PollManager τ)

/-- A new filter is found under its id. -/
theorem poll_createPoll_self (table : τ) (filter : PollFilter) :
    polls.poll (polls.createPoll table filter).2 (polls.createPoll table filter).1 =
      some filter := by
  rw [polls.poll_createPoll, Function.update_self]

/-- A new filter does not replace another one. -/
theorem poll_createPoll_of_found {table : τ} {id : Nat} {found : PollFilter}
    (installed : polls.poll table id = some found) (filter : PollFilter) :
    polls.poll (polls.createPoll table filter).2 id = some found := by
  have other : id ≠ (polls.createPoll table filter).1 := by
    intro same
    have unused := polls.poll_unused table filter
    rw [← same, installed] at unused
    cases unused
  rw [polls.poll_createPoll, Function.update_of_ne other, installed]

/-- A filter that was written is found. -/
theorem poll_setPoll_self {table : τ} {id : Nat} {found : PollFilter}
    (installed : polls.poll table id = some found) (filter : PollFilter) :
    polls.poll (polls.setPoll table id filter) id = some filter := by
  rw [polls.poll_setPoll table id filter (by simp [installed]), Function.update_self]

/-- The end of another filter's time changes nothing. -/
theorem poll_expire_of_ne (table : τ) {id other : Nat} (different : other ≠ id) :
    polls.poll (polls.expire table other) id = polls.poll table id := by
  rw [polls.poll_expire, Function.update_of_ne different.symm]

end PollManager

/-- `+ 1` on a block number, which is a `u64`. Without overflow checks the sum wraps; with them the
request panics there. -/
def nextRound (round : Nat) : Nat := (round + 1) % 2 ^ 64

theorem nextRound_of_lt {round : Nat} (fits : round + 1 < 2 ^ 64) : nextRound round = round + 1 :=
  Nat.mod_eq_of_lt fits

theorem nextRound_le (round : Nat) : nextRound round ≤ round + 1 := Nat.mod_le _ _

/-- `FilterChanges`. -/
inductive FilterChanges where
  | hashes (hashes : List H256)
  | logs (logs : List LocalizedLogEntry)
  deriving DecidableEq

/-- An error of the JSON-RPC interface. -/
inductive RpcError where
  | filterNotFound
  | call (message : String)
  deriving DecidableEq

/-- `map_err(jsonrpc_error)`. -/
def jsonrpc {α : Type} : Except String α → Except RpcError α
  | .ok value => .ok value
  | .error message => .error (.call message)

section Table

variable {τ : Type} (polls : PollManager τ)

/-- `new_filter`. -/
def newFilter (translator : Translator) (table : τ) (filter : Filter) : Except RpcError Nat × τ :=
  match translator.getLatestBlock with
  | .error message => (.error (.call message), table)
  | .ok block =>
    let (id, table) := polls.createPoll table (.logs block.round filter)
    (.ok id, table)

/-- `new_block_filter`. The current block is not reported. -/
def newBlockFilter (translator : Translator) (table : τ) : Except RpcError Nat × τ :=
  match translator.getLatestBlock with
  | .error message => (.error (.call message), table)
  | .ok block =>
    let (id, table) := polls.createPoll table (.block (nextRound block.round))
    (.ok id, table)

/-- `new_pending_transaction_filter`. There are no pending transactions. -/
def newPendingTransactionFilter (table : τ) : Nat × τ :=
  polls.createPoll table (.pendingTransaction [])

end Table

/-- The future that `filter_changes` builds under the lock. -/
inductive Updates where
  | filterNotFound
  /-- Fetch the blocks of a range and report their hashes. -/
  | blocks (first last : Nat)
  | noHashes
  /-- Search for logs. -/
  | logs (filter : Filter)
  deriving DecidableEq

/-- The second step of `filter_changes`: read and advance the cursor. -/
def takeUpdates {τ : Type} (polls : PollManager τ) (table : τ) (id head : Nat) : Updates × τ :=
  match polls.poll table id with
  | none => (.filterNotFound, table)
  | some (.block number) => (.blocks number head, polls.setPoll table id (.block head))
  | some (.pendingTransaction _) => (.noHashes, table)
  | some (.logs blockNumber filter) =>
    (.logs { filter with fromBlock := .number blockNumber, toBlock := .latest },
      polls.setPoll table id (.logs (nextRound head) filter))

/-- The rounds of `first..=last`. -/
def rounds (first last : Nat) : List Nat := List.range' first (last + 1 - first)

/-- Fetch blocks in order, up to the first that is not there. -/
def fetchHashes (translator : Translator) : List Nat → Except String (List H256)
  | [] => .ok []
  | round :: later =>
    match translator.getBlockByRound round with
    | .error message => .error message
    | .ok none => .error "block not found"
    | .ok (some block) =>
      match fetchHashes translator later with
      | .error message => .error message
      | .ok hashes => .ok (block.hash :: hashes)

/-- `limit_logs` keeps the last entries. -/
def limitLogs {α : Type} (logs : List α) : Option Nat → List α
  | none => logs
  | some limit => logs.drop (logs.length - limit)

/-- The third step of `filter_changes`: run the future. -/
def runUpdates (translator : Translator) : Updates → Except RpcError FilterChanges
  | .filterNotFound => .error .filterNotFound
  | .blocks first last => jsonrpc ((fetchHashes translator (rounds first last)).map .hashes)
  | .noHashes => .ok (.hashes [])
  | .logs filter =>
    jsonrpc ((translator.logs filter).map fun found => .logs (limitLogs found filter.limit))

section Requests

variable {τ : Type} (polls : PollManager τ) (translator : Translator) (table : τ) (id : Nat)

/-- `filter_changes`. -/
def filterChanges : Except RpcError FilterChanges × τ :=
  match translator.getLatestBlock with
  | .error message => (.error (.call message), table)
  | .ok block =>
    let (updates, table) := takeUpdates polls table id block.round
    (runUpdates translator updates, table)

/-- `filter_logs`. -/
def filterLogs : Except RpcError (List LocalizedLogEntry) :=
  match polls.poll table id with
  | none => .error .filterNotFound
  | some (.logs _ filter) =>
    jsonrpc ((translator.logs filter).map fun found => limitLogs found filter.limit)
  | some _ => .ok []

/-- `uninstall_filter`. -/
def uninstallFilter : Bool × τ := polls.removePoll table id

end Requests

/-- What is written to a place of a list is shown there; an empty place shows nothing. -/
theorem join_getElem?_set (table : List (Option PollFilter)) {id : Nat} {entry : Option PollFilter}
    (place : id < table.length ∨ entry = none) :
    (fun other => (table.set id entry)[other]?.join) =
      Function.update (fun other => table[other]?.join) id entry := by
  funext other
  rw [Function.update_apply]
  by_cases same : other = id
  · subst same
    rcases place with inside | rfl
    · simp [inside]
    · by_cases inside : other < table.length
      · simp [inside]
      · rw [List.getElem?_eq_none (by simpa using inside), if_pos rfl]
        rfl
  · rw [if_neg same, List.getElem?_set_ne (Ne.symm same)]

theorem join_getElem?_length (table : List (Option PollFilter)) :
    table[table.length]?.join = none := by simp

theorem join_getElem?_concat (table : List (Option PollFilter)) (filter : PollFilter) :
    (fun id => (table ++ [some filter])[id]?.join) =
      Function.update (fun id => table[id]?.join) table.length (some filter) := by
  funext id
  rw [Function.update_apply]
  rcases Nat.lt_trichotomy id table.length with before | rfl | behind
  · rw [if_neg (Nat.ne_of_lt before), List.getElem?_append_left before]
  · simp
  · rw [if_neg (Nat.ne_of_gt behind), List.getElem?_eq_none (by simp; omega),
      List.getElem?_eq_none (Nat.le_of_lt behind)]

theorem length_of_join_isSome {table : List (Option PollFilter)} {id : Nat}
    (installed : table[id]?.join.isSome) : id < table.length := by
  by_contra outside
  rw [List.getElem?_eq_none (Nat.not_lt.mp outside)] at installed
  cases installed

/-- A table of filters in a list, where a filter that was dropped leaves its place empty. -/
def pollList : PollManager (List (Option PollFilter)) where
  new := []
  poll table id := table[id]?.join
  createPoll table filter := (table.length, table ++ [some filter])
  setPoll table id filter := table.set id (some filter)
  removePoll table id := (table[id]?.join.isSome, table.set id none)
  expire table id := table.set id none
  poll_new := rfl
  poll_unused table _ := join_getElem?_length table
  poll_createPoll := join_getElem?_concat
  poll_setPoll table _ _ installed :=
    join_getElem?_set table (.inl (length_of_join_isSome installed))
  removePoll_found _ _ := rfl
  poll_removePoll table _ := join_getElem?_set table (.inr rfl)
  poll_expire table _ := join_getElem?_set table (.inr rfl)

end Ethwasi.Gateway
