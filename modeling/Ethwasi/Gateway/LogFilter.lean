import Mathlib.Data.List.Perm.Subperm
import Ethwasi.Transition.Run
import Ethwasi.Gateway.FilterClient

/-!
# Log filters under interleaving

Several requests may poll one log filter at a time, and blocks are produced meanwhile. A request
takes three steps, and other steps may come between them: it fetches the latest block, it reads
and advances the cursor under the lock, and it runs a query from the cursor it read up to the
block that is the latest by then. The cursor is advanced past the block of the first step, so
the responses cover the chain without gap or overlap as long as no block is produced during a
poll and no poll overtakes another. Otherwise the query may run past the new cursor, and the
next poll returns the same logs again. The time of a filter may be over at any point; a filter that
was dropped returns nothing any more.
-/

namespace Ethwasi.Gateway

open Ethwasi.Rust Ethwasi.Transition

/-- How far a request has got. -/
inductive Phase where
  | idle
  /-- It fetched the latest block. -/
  | fetched (head : Nat)
  /-- It took the cursor and left the lock. -/
  | running (head : Nat) (updates : Updates)
  deriving DecidableEq

/-- The chain, the table of filters and the requests for one of them. -/
structure World (τ : Type) where
  head : Nat
  table : τ
  requests : Nat → Phase

/-- A step of the chain or of a request. -/
inductive PollStep where
  | produce
  | fetch (request : Nat)
  | lock (request : Nat)
  | query (request : Nat)
  /-- The time of a filter is over. -/
  | expire (id : Nat)
  deriving DecidableEq

variable {τ : Type}

/-- One step. The translator answers by the latest block; a step that is not due stops. -/
def pollWorld (polls : PollManager τ) (node : Nat → Translator) (id : Nat) :
    Machine (World τ) PollStep (Option (Except RpcError FilterChanges)) := fun world step =>
  match step with
  | .produce => some (none, { world with head := world.head + 1 })
  | .fetch request =>
    match world.requests request, (node world.head).getLatestBlock with
    | .idle, .ok block => some (none,
        { world with requests := Function.update world.requests request (.fetched block.round) })
    | _, _ => none
  | .lock request =>
    match world.requests request with
    | .fetched head =>
      let (updates, table) := takeUpdates polls world.table id head
      some (none,
        { world with
          table
          requests := Function.update world.requests request (.running head updates) })
    | _ => none
  | .query request =>
    match world.requests request with
    | .running _ updates => some (some (runUpdates (node world.head) updates),
        { world with requests := Function.update world.requests request .idle })
    | _ => none
  | .expire other => some (none, { world with table := polls.expire world.table other })

/-- A step together with the response that it completed. -/
abbrev PollEvent (τ : Type) := Event (World τ) PollStep (Option (Except RpcError FilterChanges))

/-- What one step does. -/
inductive PollEffect (polls : PollManager τ) (node : Nat → Translator) (id : Nat)
    (event : PollEvent τ) : Prop where
  /-- The chain grows by a block. -/
  | produced (input : event.input = .produce) (output : event.output = none)
      (after : event.after = { event.before with head := event.before.head + 1 })
  /-- A request starts with the latest block. -/
  | fetched (request : Nat) (block : EthereumBlock) (input : event.input = .fetch request)
      (idle : event.before.requests request = .idle)
      (latest : (node event.before.head).getLatestBlock = .ok block)
      (output : event.output = none)
      (after : event.after = { event.before with
        requests := Function.update event.before.requests request (.fetched block.round) })
  /-- A request takes the cursor. -/
  | locked (request head : Nat) (input : event.input = .lock request)
      (fetched : event.before.requests request = .fetched head) (output : event.output = none)
      (after : event.after = { event.before with
        table := (takeUpdates polls event.before.table id head).2
        requests := Function.update event.before.requests request
          (.running head (takeUpdates polls event.before.table id head).1) })
  /-- A request runs its query and returns. -/
  | queried (request head : Nat) (updates : Updates) (input : event.input = .query request)
      (running : event.before.requests request = .running head updates)
      (output : event.output = some (runUpdates (node event.before.head) updates))
      (after : event.after = { event.before with
        requests := Function.update event.before.requests request .idle })
  /-- The time of a filter is over. -/
  | expired (other : Nat) (input : event.input = .expire other) (output : event.output = none)
      (after : event.after =
        { event.before with table := polls.expire event.before.table other })

/-- The logs of a response. -/
def responseLogs (event : PollEvent τ) : List LocalizedLogEntry :=
  match event.output with
  | some (.ok (.logs logs)) => logs
  | _ => []

/-- The logs of all responses. -/
def delivered (events : List (PollEvent τ)) : List LocalizedLogEntry := events.flatMap responseLogs

/-- The query that a poll with this cursor makes. -/
def filterFrom (filter : Filter) (cursor : Nat) : Filter :=
  { filter with fromBlock := .number cursor, toBlock := .latest }

/-- The translator knows the latest block, and a search from a block of the chain returns exactly
the matching logs up to the latest block. -/
structure ExactNode (filter : Filter) (entries : Nat → List LocalizedLogEntry)
    (node : Nat → Translator) : Prop where
  latest : ∀ head, ∃ hash, (node head).getLatestBlock = .ok ⟨head, hash⟩
  found : ∀ head cursor, cursor ≤ head → ∃ logs,
    (node head).logs (filterFrom filter cursor) = .ok logs ∧
      logs.Perm ((rounds cursor head).flatMap entries)

/-- The request is between its second and its third step. -/
def Phase.isRunning : Phase → Bool
  | .running _ _ => true
  | _ => false

/-- A poll takes the cursor only when no other query is under way and the block it fetched has
not been passed, it runs its query while that block is still the latest, and the filter lives. -/
def Orderly (polls : PollManager τ) (id : Nat) (event : PollEvent τ) : Prop :=
  match event.input with
  | .produce => True
  | .fetch _ => True
  | .lock request =>
    (∀ other, (event.before.requests other).isRunning = false) ∧
      ∀ head cursor filter, event.before.requests request = .fetched head →
        polls.poll event.before.table id = some (.logs cursor filter) → cursor ≤ head
  | .query request =>
    ∀ head updates, event.before.requests request = .running head updates →
      event.before.head = head
  | .expire other => other ≠ id

/-- The matching logs of the blocks from the first one to before the given one. -/
def logsBefore (entries : Nat → List LocalizedLogEntry) (first stop : Nat) :
    List LocalizedLogEntry :=
  (List.range' first (stop - first)).flatMap entries

/-- What the requests under way have taken and what has been delivered. -/
inductive Coverage (filter : Filter) (entries : Nat → List LocalizedLogEntry) (created : Nat)
    (past : List (PollEvent τ)) (world : World τ) (cursor : Nat) : Prop where
  /-- No query is under way: everything before the cursor is delivered. -/
  | settled (quiet : ∀ request, (world.requests request).isRunning = false)
      (covered : (delivered past).Perm (logsBefore entries created cursor))
  /-- One query is under way: it covers what is missing before the cursor. -/
  | pending (request head first : Nat)
      (taken : world.requests request = .running head (.logs (filterFrom filter first)))
      (others : ∀ other, other ≠ request → (world.requests other).isRunning = false)
      (started : created ≤ first) (nonempty : first ≤ head) (advanced : cursor = head + 1)
      (covered : (delivered past).Perm (logsBefore entries created first))

/-- The state of an orderly run. -/
structure Progress (polls : PollManager τ) (id : Nat) (filter : Filter)
    (entries : Nat → List LocalizedLogEntry) (created : Nat) (past : List (PollEvent τ))
    (world : World τ) (cursor : Nat) : Prop where
  installed : polls.poll world.table id = some (.logs cursor filter)
  started : created ≤ cursor
  withinChain : cursor ≤ world.head + 1
  seen : ∀ request head, world.requests request = .fetched head → head ≤ world.head
  coverage : Coverage filter entries created past world cursor

variable {polls : PollManager τ} {node : Nat → Translator} {id : Nat} {filter : Filter}
  {entries : Nat → List LocalizedLogEntry} {created : Nat}

theorem delivered_snoc (past : List (PollEvent τ)) (event : PollEvent τ) :
    delivered (past ++ [event]) = delivered past ++ responseLogs event := by
  simp [delivered]

theorem delivered_of_silent (past : List (PollEvent τ)) {event : PollEvent τ}
    (silent : responseLogs event = []) : delivered (past ++ [event]) = delivered past := by
  rw [delivered_snoc, silent, List.append_nil]

theorem responseLogs_of_silent {event : PollEvent τ} (output : event.output = none) :
    responseLogs event = [] := by
  rw [responseLogs, output]

/-- Every step has one of the effects. -/
theorem pollEffect_of {event : PollEvent τ} (step : event.Of (pollWorld polls node id)) :
    PollEffect polls node id event := by
  obtain ⟨before, input, output, after⟩ := event
  cases input with
  | produce =>
    simp only [Event.Of, pollWorld, Option.some.injEq, Prod.mk.injEq] at step
    exact .produced rfl step.1.symm step.2.symm
  | fetch request =>
    simp only [Event.Of, pollWorld] at step
    split at step
    · rename_i block idle latest
      cases step
      exact .fetched request block rfl idle latest rfl rfl
    · cases step
  | lock request =>
    simp only [Event.Of, pollWorld] at step
    split at step
    · rename_i head fetched
      cases step
      exact .locked request head rfl fetched rfl rfl
    · cases step
  | query request =>
    simp only [Event.Of, pollWorld] at step
    split at step
    · rename_i head updates running
      cases step
      exact .queried request head updates rfl running rfl rfl
    · cases step
  | expire other =>
    simp only [Event.Of, pollWorld, Option.some.injEq, Prod.mk.injEq] at step
    exact .expired other rfl step.1.symm step.2.symm

/-- Only the third step of a request completes a response. -/
theorem output_of_not_query {event : PollEvent τ} (step : event.Of (pollWorld polls node id))
    (different : ∀ request, event.input ≠ .query request) : event.output = none := by
  cases pollEffect_of step with
  | produced input output after => exact output
  | fetched request block input idle latest output after => exact output
  | locked request head input fetched output after => exact output
  | queried request head updates input running output after =>
    exact absurd input (different request)
  | expired other input output after => exact output

/-- Taking the cursor of a log filter. -/
theorem takeUpdates_of_logs {table : τ} {cursor head : Nat}
    (installed : polls.poll table id = some (.logs cursor filter)) :
    takeUpdates polls table id head = (.logs (filterFrom filter cursor),
      polls.setPoll table id (.logs (nextRound head) filter)) := by
  rw [takeUpdates, installed]
  rfl

/-- Logs up to a block and from that block on make up the logs up to the end of the range. -/
theorem logsBefore_append (entries : Nat → List LocalizedLogEntry) {first middle last : Nat}
    (lower : first ≤ middle) (upper : middle ≤ last) :
    logsBefore entries first middle ++ (rounds middle last).flatMap entries =
      logsBefore entries first (last + 1) := by
  have split : List.range' first (middle - first) ++ rounds middle last =
      List.range' first (last + 1 - first) := by
    have start : first + (middle - first) = middle := by omega
    have length : middle - first + (last + 1 - middle) = last + 1 - first := by omega
    have joined : List.range' first (middle - first) ++
        List.range' (first + (middle - first)) (last + 1 - middle) =
          List.range' first (middle - first + (last + 1 - middle)) := List.range'_append_1
    rw [start, length] at joined
    exact joined
  rw [logsBefore, logsBefore, ← List.flatMap_append, split]

theorem isRunning_update_of_not {requests : Nat → Phase} {request : Nat} {phase : Phase}
    (resting : phase.isRunning = false) {other : Nat}
    (quiet : other ≠ request → (requests other).isRunning = false) :
    (Function.update requests request phase other).isRunning = false := by
  by_cases same : other = request
  · subst same
    rw [Function.update_self, resting]
  · rw [Function.update_of_ne same, quiet same]

theorem fetched_of_update {requests : Nat → Phase} {request other head : Nat} {phase : Phase}
    (moved : ∀ seen, phase ≠ .fetched seen)
    (fetched : Function.update requests request phase other = .fetched head) :
    requests other = .fetched head := by
  by_cases same : other = request
  · subst same
    rw [Function.update_self] at fetched
    exact absurd fetched (moved head)
  · rw [Function.update_of_ne same] at fetched
    exact fetched

/-- A request that fetches the latest block does not change what is covered. -/
theorem Coverage.of_fetch {past : List (PollEvent τ)} {world : World τ} {cursor request head : Nat}
    (held : Coverage filter entries created past world cursor)
    (idle : world.requests request = .idle) (event : PollEvent τ)
    (silent : responseLogs event = []) :
    Coverage filter entries created (past ++ [event])
      { world with requests := Function.update world.requests request (.fetched head) }
      cursor := by
  have sameLogs := delivered_of_silent past silent
  cases held with
  | settled quiet covered =>
    refine .settled ?_ (by rw [sameLogs]; exact covered)
    intro other
    exact isRunning_update_of_not rfl fun _ => quiet other
  | pending running taken first busy others started nonempty advanced covered =>
    have apart : running ≠ request := by
      intro same
      rw [same, idle] at busy
      cases busy
    refine .pending running taken first ?_ ?_ started nonempty advanced
      (by rw [sameLogs]; exact covered)
    · show Function.update world.requests request (.fetched head) running = _
      rw [Function.update_of_ne apart]
      exact busy
    · intro other different
      exact isRunning_update_of_not rfl fun _ => others other different

/-- Producing a block keeps the progress. -/
theorem progress_produce {past : List (PollEvent τ)} {event : PollEvent τ} {cursor : Nat}
    (held : Progress polls id filter entries created past event.before cursor)
    (silent : responseLogs event = [])
    (after : event.after = { event.before with head := event.before.head + 1 }) :
    Progress polls id filter entries created (past ++ [event]) event.after cursor := by
  have sameLogs := delivered_of_silent past silent
  have withinChain := held.withinChain
  rw [after]
  refine ⟨held.installed, held.started, ?_, ?_, ?_⟩
  · show cursor ≤ event.before.head + 1 + 1
    omega
  · intro request head fetched
    have below := held.seen request head fetched
    show head ≤ event.before.head + 1
    omega
  · cases held.coverage with
    | settled quiet covered => exact .settled quiet (by rw [sameLogs]; exact covered)
    | pending request head first taken others started nonempty advanced covered =>
      exact .pending request head first taken others started nonempty advanced
        (by rw [sameLogs]; exact covered)

/-- Fetching the latest block keeps the progress. -/
theorem progress_fetch {past : List (PollEvent τ)} {event : PollEvent τ} {cursor request : Nat}
    (held : Progress polls id filter entries created past event.before cursor)
    (idle : event.before.requests request = .idle) (silent : responseLogs event = [])
    (after : event.after = { event.before with
      requests := Function.update event.before.requests request
        (.fetched event.before.head) }) :
    Progress polls id filter entries created (past ++ [event]) event.after cursor := by
  rw [after]
  refine ⟨held.installed, held.started, held.withinChain, ?_,
    held.coverage.of_fetch idle event silent⟩
  intro other head fetched
  by_cases same : other = request
  · subst same
    simp only [Function.update_self, Phase.fetched.injEq] at fetched
    exact Nat.le_of_eq fetched.symm
  · simp only [Function.update_of_ne same] at fetched
    exact held.seen other head fetched

/-- The end of another filter's time keeps the progress. -/
theorem progress_expire {past : List (PollEvent τ)} {event : PollEvent τ} {cursor other : Nat}
    (held : Progress polls id filter entries created past event.before cursor)
    (different : other ≠ id) (silent : responseLogs event = [])
    (after : event.after =
      { event.before with table := polls.expire event.before.table other }) :
    Progress polls id filter entries created (past ++ [event]) event.after cursor := by
  have sameLogs := delivered_of_silent past silent
  rw [after]
  refine ⟨(polls.poll_expire_of_ne _ different).trans held.installed, held.started,
    held.withinChain, held.seen, ?_⟩
  cases held.coverage with
  | settled quiet covered => exact .settled quiet (by rw [sameLogs]; exact covered)
  | pending request head first taken others started nonempty advanced covered =>
    exact .pending request head first taken others started nonempty advanced
      (by rw [sameLogs]; exact covered)

/-- Taking the cursor in order starts a query for what is missing before the new cursor. -/
theorem progress_lock {past : List (PollEvent τ)} {event : PollEvent τ} {cursor request head : Nat}
    (held : Progress polls id filter entries created past event.before cursor)
    (fetched : event.before.requests request = .fetched head)
    (quiet : ∀ other, (event.before.requests other).isRunning = false)
    (ahead : cursor ≤ head) (silent : responseLogs event = [])
    (after : event.after = { event.before with
      table := polls.setPoll event.before.table id (.logs (head + 1) filter)
      requests := Function.update event.before.requests request
        (.running head (.logs (filterFrom filter cursor))) }) :
    Progress polls id filter entries created (past ++ [event]) event.after (head + 1) := by
  have sameLogs := delivered_of_silent past silent
  have known := held.seen request head fetched
  have started := held.started
  rw [after]
  refine ⟨polls.poll_setPoll_self held.installed _, ?_, ?_, ?_, ?_⟩
  · omega
  · show head + 1 ≤ event.before.head + 1
    omega
  · intro other seen otherFetched
    exact held.seen other seen (fetched_of_update (by simp) otherFetched)
  · have covered : (delivered past).Perm (logsBefore entries created cursor) := by
      cases held.coverage with
      | settled _ covered => exact covered
      | pending running taken first busy =>
        have resting := quiet running
        rw [busy] at resting
        cases resting
    refine .pending request head cursor (Function.update_self ..) ?_ started ahead rfl ?_
    · intro other different
      show (Function.update event.before.requests request _ other).isRunning = false
      rw [Function.update_of_ne different]
      exact quiet other
    · rw [sameLogs]
      exact covered

/-- Running the query while the fetched block is the latest delivers everything before the
cursor. -/
theorem progress_query (exactNode : ExactNode filter entries node)
    (unlimited : filter.limit = none) {past : List (PollEvent τ)} {event : PollEvent τ}
    {cursor request head : Nat} {updates : Updates}
    (held : Progress polls id filter entries created past event.before cursor)
    (running : event.before.requests request = .running head updates)
    (current : event.before.head = head)
    (output : event.output = some (runUpdates (node event.before.head) updates))
    (after : event.after = { event.before with
      requests := Function.update event.before.requests request .idle }) :
    Progress polls id filter entries created (past ++ [event]) event.after cursor ∧
      (delivered (past ++ [event])).Perm ((rounds created head).flatMap entries) := by
  cases held.coverage with
  | settled quiet covered =>
    have resting := quiet request
    rw [running] at resting
    cases resting
  | pending busy taken first busyRunning others started nonempty advanced covered =>
    have same : request = busy := by
      by_contra different
      have resting := others request different
      rw [running] at resting
      cases resting
    subst same
    rw [running] at busyRunning
    cases busyRunning
    obtain ⟨found, searched, exactLogs⟩ := exactNode.found head first nonempty
    have response : responseLogs event = found := by
      have limit : (filterFrom filter first).limit = none := unlimited
      rw [current] at output
      simp only [responseLogs, output, runUpdates, searched, Except.map, jsonrpc, limit,
        limitLogs]
    have all : (delivered (past ++ [event])).Perm (logsBefore entries created (head + 1)) := by
      rw [delivered_snoc, response, ← logsBefore_append entries started nonempty]
      exact covered.append exactLogs
    refine ⟨?_, all⟩
    rw [after]
    refine ⟨held.installed, held.started, held.withinChain, ?_, .settled ?_ ?_⟩
    · intro other seen fetched
      exact held.seen other seen (fetched_of_update (by simp) fetched)
    · intro other
      exact isRunning_update_of_not rfl (others other)
    · rw [advanced]
      exact all

/-- Every orderly step keeps the progress, while block numbers fit their words. -/
theorem progress_step (exactNode : ExactNode filter entries node)
    (unlimited : filter.limit = none) (past : List (PollEvent τ)) (event : PollEvent τ)
    (step : event.Of (pollWorld polls node id))
    (good : Orderly polls id event ∧ event.before.head + 1 < 2 ^ 64)
    (held : ∃ cursor, Progress polls id filter entries created past event.before cursor) :
    ∃ cursor, Progress polls id filter entries created (past ++ [event]) event.after cursor := by
  obtain ⟨cursor, progress⟩ := held
  obtain ⟨orderly, bounded⟩ := good
  cases pollEffect_of step with
  | produced input output after =>
    exact ⟨cursor, progress_produce progress (responseLogs_of_silent output) after⟩
  | fetched request block input idle latest output after =>
    obtain ⟨hash, known⟩ := exactNode.latest event.before.head
    rw [known] at latest
    cases latest
    exact ⟨cursor, progress_fetch progress idle (responseLogs_of_silent output) after⟩
  | locked request head input fetched output after =>
    rw [Orderly, input] at orderly
    have ahead := orderly.2 head cursor filter fetched progress.installed
    have known := progress.seen request head fetched
    rw [takeUpdates_of_logs progress.installed, nextRound_of_lt (by omega)] at after
    exact ⟨head + 1, progress_lock progress fetched orderly.1 ahead
      (responseLogs_of_silent output) after⟩
  | queried request head updates input running output after =>
    rw [Orderly, input] at orderly
    have current := orderly head updates running
    exact ⟨cursor,
      (progress_query exactNode unlimited progress running current output after).1⟩
  | expired other input output after =>
    rw [Orderly, input] at orderly
    exact ⟨cursor, progress_expire progress orderly (responseLogs_of_silent output) after⟩

/-- A filter that was just installed starts at the latest block. -/
theorem progress_start (exactNode : ExactNode filter entries node) {before table : τ}
    (installed : newFilter polls (node created) before filter = (.ok id, table)) :
    Progress polls id filter entries created [] ⟨created, table, fun _ => .idle⟩ created := by
  obtain ⟨hash, latest⟩ := exactNode.latest created
  simp only [newFilter, latest, Prod.mk.injEq, Except.ok.injEq] at installed
  obtain ⟨rfl, rfl⟩ := installed
  refine ⟨polls.poll_createPoll_self before _, Nat.le_refl _, Nat.le_succ _, ?_, .settled ?_ ?_⟩
  · intro request head fetched
    cases fetched
  · intro request
    rfl
  · simp [delivered, logsBefore]

/-- Steps that are no queries deliver nothing. -/
theorem delivered_append_of_no_query (earlier : List (PollEvent τ)) {later : List (PollEvent τ)}
    (steps : ∀ event ∈ later, event.Of (pollWorld polls node id))
    (silent : ∀ event ∈ later, ∀ request, event.input ≠ .query request) :
    delivered (earlier ++ later) = delivered earlier := by
  have nothing : later.flatMap responseLogs = [] := by
    rw [List.flatMap_eq_nil_iff]
    intro event member
    exact responseLogs_of_silent (output_of_not_query (steps event member) (silent event member))
  rw [delivered, List.flatMap_append, nothing, List.append_nil, delivered]

/-- Logs before the cursor are among the logs of the chain. -/
theorem logsBefore_sublist (entries : Nat → List LocalizedLogEntry) {first stop last : Nat}
    (lower : first ≤ stop) (upper : stop ≤ last + 1) :
    (logsBefore entries first stop).Sublist ((rounds first last).flatMap entries) := by
  have whole : logsBefore entries first (last + 1) = (rounds first last).flatMap entries := rfl
  by_cases inside : stop ≤ last
  · rw [← whole, ← logsBefore_append entries lower inside]
    exact List.sublist_append_left _ _
  · have atEnd : stop = last + 1 := by omega
    rw [atEnd, whole]

/-- Nothing is delivered that is not on the chain, and nothing twice. -/
theorem Progress.subperm {past : List (PollEvent τ)} {world : World τ} {cursor : Nat}
    (held : Progress polls id filter entries created past world cursor) :
    (delivered past).Subperm ((rounds created world.head).flatMap entries) := by
  have withinChain := held.withinChain
  cases held.coverage with
  | settled quiet covered =>
    exact covered.subperm.trans (logsBefore_sublist entries held.started withinChain).subperm
  | pending request head first taken others started nonempty advanced covered =>
    have below : first ≤ world.head + 1 := by omega
    exact covered.subperm.trans (logsBefore_sublist entries started below).subperm

/-- In every run whose steps are orderly, over a chain whose block numbers fit their words, the
responses contain each matching log of the chain at most once, from the block of the filter's
creation on; and when a poll completes, they contain exactly the matching logs up to the block that
it fetched. -/
theorem orderly_polls_deliver_once (polls : PollManager τ)
    (exactNode : ExactNode filter entries node) (unlimited : filter.limit = none)
    (before table : τ) (installed : newFilter polls (node created) before filter = (.ok id, table))
    (steps : List PollStep) (events : List (PollEvent τ))
    (ran : run (pollWorld polls node id) ⟨created, table, fun _ => .idle⟩ steps = events)
    (bounded : ∀ event ∈ events, event.before.head + 1 < 2 ^ 64)
    (orderly : ∀ event ∈ events, Orderly polls id event) :
    (delivered events).Subperm ((rounds created
        (lastState ⟨created, table, fun _ => .idle⟩ events).head).flatMap entries) ∧
      ∀ earlier event later request head updates, events = earlier ++ event :: later →
        event.input = .query request → event.before.requests request = .running head updates →
        (∀ next ∈ later, ∀ other, next.input ≠ .query other) →
        (delivered events).Perm ((rounds created head).flatMap entries) := by
  subst ran
  obtain ⟨during, final⟩ := run_history
    (fun event => Orderly polls id event ∧ event.before.head + 1 < 2 ^ 64)
    (fun past world => ∃ cursor, Progress polls id filter entries created past world cursor)
    (progress_step exactNode unlimited) [] ⟨created, progress_start exactNode installed⟩
    (fun event member => ⟨orderly event member, bounded event member⟩)
  constructor
  · obtain ⟨cursor, progress⟩ := final
    exact progress.subperm
  · intro earlier event later request head updates split input running silent
    have steps : ∀ next ∈ event :: later, next.Of (pollWorld polls node id) := by
      intro next member
      apply of_mem_run
      rw [split]
      exact List.mem_append_right _ member
    have inOrder := orderly event (by rw [split]; simp)
    have current : event.before.head = head := by
      rw [Orderly, input] at inOrder
      exact inOrder head updates running
    have step := steps event List.mem_cons_self
    simp only [Event.Of, pollWorld, input, running, Option.some.injEq, Prod.mk.injEq] at step
    obtain ⟨cursor, progress⟩ := during earlier event later split
    have complete := (progress_query exactNode unlimited progress running current step.1.symm
      step.2.symm).2
    have parts : earlier ++ event :: later = (earlier ++ [event]) ++ later := by simp
    rw [split, parts, delivered_append_of_no_query _
      (fun next member => steps next (List.mem_cons_of_mem _ member)) silent]
    exact complete

/-- The log of a block with one log. -/
def blockLog (round : Nat) : LocalizedLogEntry where
  entry := ⟨FixedBytes.filled 20 0, [], []⟩
  blockHash := FixedBytes.filled 32 0
  blockNumber := round
  transactionHash := FixedBytes.filled 32 0
  transactionIndex := 0
  logIndex := 0
  transactionLogIndex := 0

/-- A filter that matches every log. -/
def everyLog : Filter := ⟨.latest, .latest, none, [], none⟩

/-- A node of a chain with one log per block. -/
def oneLogNode (head : Nat) : Translator where
  getLatestBlock := .ok ⟨head, FixedBytes.filled 32 0⟩
  getBlockByRound round :=
    .ok (if round ≤ head then some ⟨round, FixedBytes.filled 32 0⟩ else none)
  logs filter :=
    match filter.fromBlock with
    | .number cursor => .ok ((rounds cursor head).map blockLog)
    | _ => .ok [blockLog head]

theorem oneLogNode_exact : ExactNode everyLog (fun round => [blockLog round]) oneLogNode where
  latest head := ⟨_, rfl⟩
  found head cursor _ := ⟨_, rfl, by rw [List.map_eq_flatMap]⟩

/-- The chain at its first block, with a filter just installed. -/
def filterInstalled : World (List (Option PollFilter)) :=
  ⟨0, (newFilter pollList (oneLogNode 0) pollList.new everyLog).2, fun _ => .idle⟩

/-- Two polls one after the other, each after a new block; another filter is dropped in between. -/
def twoPolls : List PollStep :=
  [.produce, .fetch 0, .lock 0, .query 0, .expire 1, .produce, .fetch 0, .lock 0, .query 0]

theorem orderly_lock {event : PollEvent τ} {request head cursor : Nat}
    (input : event.input = .lock request) (fetched : event.before.requests request = .fetched head)
    (installed : polls.poll event.before.table id = some (.logs cursor filter))
    (ahead : cursor ≤ head)
    (quiet : ∀ other, other ≠ request → (event.before.requests other).isRunning = false) :
    Orderly polls id event := by
  rw [Orderly, input]
  constructor
  · intro other
    by_cases same : other = request
    · rw [same, fetched]
      rfl
    · exact quiet other same
  · intro otherHead otherCursor otherFilter sameHead sameCursor
    rw [fetched] at sameHead
    rw [installed] at sameCursor
    cases sameHead
    cases sameCursor
    exact ahead

theorem orderly_query {event : PollEvent τ} {request head : Nat} {updates : Updates}
    (input : event.input = .query request)
    (running : event.before.requests request = .running head updates)
    (current : event.before.head = head) : Orderly polls id event := by
  rw [Orderly, input]
  intro otherHead otherUpdates same
  rw [running] at same
  cases same
  exact current

theorem twoPolls_orderly :
    ∀ event ∈ run (pollWorld pollList oneLogNode 0) filterInstalled twoPolls,
      Orderly pollList 0 event := by
  simp only [run, twoPolls, filterInstalled, pollWorld, oneLogNode, Function.update_self,
    List.forall_mem_cons]
  have others : ∀ (requests : Nat → Phase) (phase : Phase) (other : Nat), other ≠ 0 →
      Function.update requests 0 phase other = requests other := by
    intro requests phase other different
    exact Function.update_of_ne different ..
  refine ⟨trivial, trivial, orderly_lock rfl rfl rfl (by decide) ?_, orderly_query rfl rfl rfl,
    Nat.one_ne_zero, trivial, trivial, orderly_lock rfl rfl rfl (by decide) ?_,
    orderly_query rfl rfl rfl, ?_⟩
  · intro other different
    simp only [others _ _ other different, Phase.isRunning]
  · intro other different
    simp only [others _ _ other different, Phase.isRunning]
  · simp

/-- Two polls in order deliver every log of the chain once. -/
theorem two_polls_deliver_once :
    (delivered (run (pollWorld pollList oneLogNode 0) filterInstalled twoPolls)).Perm
      ((rounds 0 2).flatMap fun round => [blockLog round]) :=
  (orderly_polls_deliver_once pollList oneLogNode_exact rfl pollList.new _ rfl twoPolls _ rfl
    (by decide) twoPolls_orderly).2
    ((run (pollWorld pollList oneLogNode 0) filterInstalled twoPolls).take 8) _ [] 0 2
    _ rfl rfl rfl (by simp)

/-- Two polls, with a block produced before each and one more before the query of the first. -/
def blockDuringPoll : List PollStep :=
  [.produce, .fetch 0, .lock 0, .produce, .query 0, .produce, .fetch 0, .lock 0, .query 0]

/-- The log of a block produced during a poll is delivered by that poll and by the next one. -/
theorem block_during_poll_delivered_twice :
    ExactNode everyLog (fun round => [blockLog round]) oneLogNode ∧
      (delivered (run (pollWorld pollList oneLogNode 0) filterInstalled blockDuringPoll)).map
          (·.blockNumber) = [0, 1, 2, 2, 3] ∧
      (delivered (run (pollWorld pollList oneLogNode 0) filterInstalled blockDuringPoll)).count
          (blockLog 2) = 2 :=
  ⟨oneLogNode_exact, rfl, by decide⟩

end Ethwasi.Gateway
