import Ethwasi.Transition.Tasks
import Ethwasi.Gateway.LogSearch
import Ethwasi.Gateway.PubSub

/-!
# Log notifications

For every range of new blocks `notify_logs` spawns one task for each log subscription. The task
holds on to the subscriber and to a filter that is limited to the range, asks the node for the
logs, and hands them over one by one; when a request fails the task only writes to the log of the
gateway. The broker goes on in the meantime, tasks finish in any order, and a subscriber who is
gone by then is still sent what was asked for before.

A log counts as handed over when `notify` is called for it. The tasks of a subscription are kept
as the queries that are not answered yet.
-/

namespace Ethwasi.Gateway

open Ethwasi.Rust Ethwasi.Runtime Ethwasi.Transition

variable {σ V : Type}

/-- The broker and the tasks that `notify_logs` spawned. -/
structure LogsWorld where
  broker : Broker
  tasks : ListenerId → SubscriptionId → List Filter

/-- Something happens at the broker, or the node answers the requests of a task. -/
inductive LogsInput (V : Type) where
  | broker (input : BrokerInput)
  | answer (listener : ListenerId) (id : SubscriptionId) (index : Nat) (client : NodeClient V)

/-- What comes of it. -/
inductive LogsOutput where
  | told (notices : List Notice)
  /-- "Failed to fetch logs" -/
  | failed (listener : ListenerId) (id : SubscriptionId) (query : Filter) (message : String)
  | handed (listener : ListenerId) (id : SubscriptionId) (query : Filter)
      (logs : List LocalizedLogEntry)

/-- The tasks of a subscription that are spawned by calls of `notify_logs`. -/
def spawnLogs (broker : Broker) (notices : List Notice) (listener : ListenerId)
    (id : SubscriptionId) : List Filter :=
  (notices.filter fun notice =>
    broker.listeners[notice.registration]? = some listener).filterMap fun notice =>
      notice.queries id

/-- The tasks without one that is through. -/
def LogsWorld.finish (world : LogsWorld) (listener : ListenerId) (id : SubscriptionId)
    (index : Nat) : LogsWorld :=
  { world with
    tasks := Function.update world.tasks listener
      (Function.update (world.tasks listener) id ((world.tasks listener id).eraseIdx index)) }

/-- What a task does with the answers of the node. -/
def answerLogs (host : Host σ V) (listener : ListenerId) (id : SubscriptionId) (query : Filter)
    (client : NodeClient V) : LogsOutput :=
  match logs host client query with
  | .error message => .failed listener id query message
  | .ok found => .handed listener id query found

/-- One step, of the broker or of any task. -/
def logsMachine (host : Host σ V) (mode : OverflowMode) :
    Machine LogsWorld (LogsInput V) LogsOutput := fun world input =>
  match input with
  | .broker input =>
    (brokerMachine mode world.broker input).map fun answer =>
      (.told answer.1,
        ⟨answer.2, fun listener id =>
          world.tasks listener id ++ spawnLogs world.broker answer.1 listener id⟩)
  | .answer listener id index client =>
    (world.tasks listener id)[index]?.map fun query =>
      (answerLogs host listener id query client, world.finish listener id index)

/-- An event of the world. -/
abbrev LogsEvent (V : Type) := Event LogsWorld (LogsInput V) LogsOutput

/-- What happens at the broker. -/
def tickedAt (event : LogsEvent V) : Option BrokerEvent :=
  match event.input, event.output with
  | .broker input, .told notices =>
    some ⟨event.before.broker, input, notices, event.after.broker⟩
  | _, _ => none

section Subscription

variable (listener : ListenerId) (id : SubscriptionId)

/-- The queries of a subscription that are made at an event. -/
def askedAt (event : LogsEvent V) : List Filter :=
  match event.output with
  | .told notices => spawnLogs event.before.broker notices listener id
  | _ => []

/-- The query of a subscription that is answered at an event. -/
def answeredAt (event : LogsEvent V) : List Filter :=
  match event.output with
  | .handed other otherId query _ => if other = listener ∧ otherId = id then [query] else []
  | _ => []

/-- The query of a subscription that fails at an event. -/
def failedAt (event : LogsEvent V) : List Filter :=
  match event.output with
  | .failed other otherId query _ => if other = listener ∧ otherId = id then [query] else []
  | _ => []

/-- The logs that a subscriber is handed at an event. -/
def deliveredAt (event : LogsEvent V) : List LocalizedLogEntry :=
  match event.output with
  | .handed other otherId _ logs => if other = listener ∧ otherId = id then logs else []
  | _ => []

/-- The new blocks of an event, if the subscription is there to ask for them. -/
def subscribedSpan (event : BrokerEvent) : Option Span :=
  if ((event.before.handlers listener).bind fun handler => handler.logsSubscribers id).isSome then
    announced event
  else none

end Subscription

/-- What an event does. -/
inductive LogsEffect (host : Host σ V) (mode : OverflowMode) (event : LogsEvent V) : Prop where
  /-- Something happened at the broker, and the tasks that it spawned are waiting. -/
  | told (input : BrokerInput) (notices : List Notice) (isInput : event.input = .broker input)
      (output : event.output = .told notices)
      (step : Event.Of (brokerMachine mode)
        ⟨event.before.broker, input, notices, event.after.broker⟩)
      (tasks : ∀ listener id, event.after.tasks listener id =
        event.before.tasks listener id ++ spawnLogs event.before.broker notices listener id)
  /-- A task is through. -/
  | settled (listener : ListenerId) (id : SubscriptionId) (index : Nat) (client : NodeClient V)
      (query : Filter) (isInput : event.input = .answer listener id index client)
      (found : (event.before.tasks listener id)[index]? = some query)
      (output : event.output = answerLogs host listener id query client)
      (after : event.after = event.before.finish listener id index)

variable {host : Host σ V} {mode : OverflowMode}

/-- Every event has one of the effects. -/
theorem logsEffect_of {event : LogsEvent V} (step : event.Of (logsMachine host mode)) :
    LogsEffect host mode event := by
  obtain ⟨before, input, output, after⟩ := event
  change logsMachine host mode before input = some (output, after) at step
  cases input with
  | broker input =>
    obtain ⟨⟨notices, next⟩, stepped, same⟩ := Option.map_eq_some_iff.mp step
    cases same
    exact .told input notices rfl rfl stepped fun _ _ => rfl
  | answer listener id index client =>
    obtain ⟨query, found, same⟩ := Option.map_eq_some_iff.mp step
    cases same
    exact .settled listener id index client query rfl found rfl rfl

/-- A task that is through is gone from the tasks of its subscription, and no other is. -/
theorem finish_tasks {world : LogsWorld} {listener other : ListenerId} {id otherId : SubscriptionId}
    {index : Nat} {query : Filter} (found : (world.tasks other otherId)[index]? = some query) :
    (world.tasks listener id).Perm
      ((if other = listener ∧ otherId = id then [query] else []) ++
        (world.finish other otherId index).tasks listener id) := by
  by_cases own : other = listener ∧ otherId = id
  · obtain ⟨rfl, rfl⟩ := own
    simpa [LogsWorld.finish] using perm_cons_eraseIdx found
  · rw [if_neg own, List.nil_append]
    apply List.Perm.of_eq
    by_cases sameListener : other = listener
    · subst sameListener
      have otherTask : id ≠ otherId := fun same => own ⟨rfl, same.symm⟩
      simp [LogsWorld.finish, Function.update_of_ne otherTask]
    · simp [LogsWorld.finish, Function.update_of_ne (Ne.symm sameListener)]

/-- Every step takes a task out of those of a subscription, or puts what was asked for there. -/
theorem tasks_conserved (listener : ListenerId) (id : SubscriptionId) {event : LogsEvent V}
    (step : event.Of (logsMachine host mode)) :
    (event.before.tasks listener id ++ askedAt listener id event).Perm
      ((answeredAt listener id event ++ failedAt listener id event) ++
        event.after.tasks listener id) := by
  cases logsEffect_of step with
  | told input notices isInput output step tasks =>
    simp only [askedAt, answeredAt, failedAt, output, tasks, List.nil_append]
    exact .refl _
  | settled other otherId index client query isInput found output after =>
    have moved := @finish_tasks event.before listener other id otherId index query found
    rw [after]
    unfold answerLogs at output
    split at output
    · simpa only [askedAt, answeredAt, failedAt, output, List.append_nil, List.nil_append]
        using moved
    · simpa only [askedAt, answeredAt, failedAt, output, List.append_nil] using moved

/-- The events of the broker are a run of the broker. -/
theorem tickedAt_inner {event : LogsEvent V} (step : event.Of (logsMachine host mode)) :
    Inner (brokerMachine mode) LogsWorld.broker tickedAt event := by
  cases logsEffect_of step with
  | told input notices isInput output step tasks =>
    have told : tickedAt event =
        some ⟨event.before.broker, input, notices, event.after.broker⟩ := by
      simp only [tickedAt, isInput, output]
    refine ⟨?_, by simp [told]⟩
    intro other same
    rw [told] at same
    cases same
    exact ⟨step, rfl, rfl⟩
  | settled listener id index client query isInput found output after =>
    have silent : tickedAt event = none := by simp only [tickedAt, isInput]
    exact ⟨by simp [silent], fun _ => by rw [after]; rfl⟩

/-- The listener is registered once, and the subscription has the filter while it is there. -/
structure UsesFilter (registration : Nat) (listener : ListenerId) (id : SubscriptionId)
    (filter : Filter) (broker : Broker) : Prop where
  registered : ∀ other, broker.listeners[other]? = some listener ↔ other = registration
  filter : ∀ handler used, broker.handlers listener = some handler →
    handler.logsSubscribers id = some used → used = filter

section Asked

variable {registration : Nat} {listener : ListenerId} {id : SubscriptionId} {filter : Filter}

/-- A subscription asks for the new blocks of an event if it is there. -/
theorem spawnLogs_eq {event : BrokerEvent} (step : event.Of (brokerMachine mode))
    (uses : UsesFilter registration listener id filter event.before) :
    spawnLogs event.before event.output listener id =
      (subscribedSpan listener id event).toList.map fun span =>
        limitRange filter span.first span.last := by
  have here : event.before.listeners[registration]? = some listener :=
    (uses.registered registration).mpr rfl
  have own : (event.output.filter fun notice =>
      event.before.listeners[notice.registration]? = some listener) =
      event.output.filter fun notice => notice.registration = registration := by
    apply List.filter_congr
    intro notice _
    rw [decide_eq_decide]
    exact uses.registered notice.registration
  rw [spawnLogs, own, filter_output_of step, here, Option.bind_some, subscribedSpan]
  cases found : event.before.handlers listener with
  | none => cases announced event <;> rfl
  | some handler =>
    rw [Option.bind_some]
    cases subscribed : handler.logsSubscribers id with
    | none =>
      cases announced event with
      | none => rfl
      | some span =>
        simp [ChainNotificationHandler.notifyBlocks, ChainNotificationHandler.notifyLogs,
          subscribed]
    | some used =>
      obtain rfl := uses.filter handler used found subscribed
      cases announced event with
      | none => rfl
      | some span =>
        simp [ChainNotificationHandler.notifyBlocks, ChainNotificationHandler.notifyLogs,
          subscribed]

/-- The queries of a subscription ask for the ranges that were announced while it was there. -/
theorem asked_eq {events : List (LogsEvent V)}
    (steps : ∀ event ∈ events, event.Of (logsMachine host mode))
    (uses : ∀ event ∈ events, UsesFilter registration listener id filter event.before.broker) :
    events.flatMap (askedAt listener id) =
      ((events.filterMap tickedAt).filterMap (subscribedSpan listener id)).map
        fun span => limitRange filter span.first span.last := by
  rw [List.filterMap_filterMap, List.filterMap_eq_flatMap_toList, List.map_flatMap]
  apply List.flatMap_congr
  intro event member
  cases logsEffect_of (steps event member) with
  | told input notices isInput output step tasks =>
    have asked := spawnLogs_eq step (uses event member)
    simp only [askedAt, tickedAt, isInput, output, Option.bind_some]
    exact asked
  | settled other otherId index client query isInput found output after =>
    unfold answerLogs at output
    split at output
    · simp [askedAt, tickedAt, isInput, output]
    · simp [askedAt, tickedAt, isInput, output]

end Asked

/-- The logs that a query for a range of blocks asks for. -/
def scanOf (chain : List (ChainBlock host)) (query : Filter) : List LocalizedLogEntry :=
  match query.fromBlock, query.toBlock with
  | .number first, .number last => referenceScan chain query first last
  | _, _ => []

/-- The logs of a range are those of its two parts. -/
theorem referenceScan_split (chain : List (ChainBlock host)) (filter : Filter)
    {first middle last : Nat} (below : first ≤ middle + 1) (above : middle ≤ last) :
    (referenceScan chain filter first last).Perm
      (referenceScan chain filter first middle ++
        referenceScan chain filter (middle + 1) last) := by
  have earlier : ((chain.zipIdx.filter fun block => first ≤ block.2 && block.2 ≤ last).filter
        fun block => block.2 ≤ middle) =
      chain.zipIdx.filter fun block => first ≤ block.2 && block.2 ≤ middle := by
    rw [List.filter_filter]
    apply List.filter_congr
    intro block _
    rw [Bool.eq_iff_iff]
    simp only [Bool.and_eq_true, decide_eq_true_eq]
    omega
  have later : ((chain.zipIdx.filter fun block => first ≤ block.2 && block.2 ≤ last).filter
        fun block => !decide (block.2 ≤ middle)) =
      chain.zipIdx.filter fun block => middle + 1 ≤ block.2 && block.2 ≤ last := by
    rw [List.filter_filter]
    apply List.filter_congr
    intro block _
    rw [Bool.eq_iff_iff]
    simp only [Bool.and_eq_true, Bool.not_eq_true', decide_eq_true_eq, decide_eq_false_iff_not]
    omega
  have parts := List.filter_append_perm
    (fun block : ChainBlock host × Nat => decide (block.2 ≤ middle))
    (chain.zipIdx.filter fun block => first ≤ block.2 && block.2 ≤ last)
  rw [earlier, later] at parts
  have scanned := (parts.symm.flatMap_right fun block => block.1.transactions block.2).flatMap_right
    (referenceLogs host filter)
  rw [List.flatMap_append, List.flatMap_append] at scanned
  exact scanned

theorem referenceScan_empty (chain : List (ChainBlock host)) (filter : Filter) (position : Nat) :
    referenceScan chain filter (position + 1) position = [] := by
  have nothing : (chain.zipIdx.filter fun block =>
      position + 1 ≤ block.2 && block.2 ≤ position) = [] := by
    rw [List.filter_eq_nil_iff]
    intro block _
    simp only [Bool.and_eq_true, decide_eq_true_eq]
    omega
  rw [referenceScan, storedTxs, nothing]
  rfl

/-- The logs of ranges that tile the chain are those of the chain. -/
theorem scan_of_tiles (chain : List (ChainBlock host)) (filter : Filter) {start stop : Nat}
    {spans : List Span} (tiles : Tiles start spans stop) :
    (spans.flatMap fun span => referenceScan chain filter span.first span.last).Perm
      (referenceScan chain filter (start + 1) stop) := by
  induction tiles with
  | nil position =>
    rw [referenceScan_empty]
    exact .refl _
  | cons follows nonempty rest ih =>
    rw [List.flatMap_cons, follows]
    refine (ih.append_left _).trans (referenceScan_split chain filter ?_ rest.le).symm
    omega

/-- The node answers from the chain as it is when it is asked: blocks are those of their rounds,
and a query sees all transactions up to the last block. -/
structure AnswersFromChain (chain : List (ChainBlock host))
    (snapshot : StoredTx → TransactionSnapshot V) (client : NodeClient V) : Prop where
  rounds : ∀ round block, client.getBlock round = .ok (some block) → block.round = round
  queries : ∃ past, past <+: chain ∧ QueryExact client past snapshot ∧
    ∀ round block, client.getBlock round = .ok (some block) → round < past.length

/-- A range that ends in a part of the chain has the logs that it has in the chain. -/
theorem referenceScan_of_prefix {past chain : List (ChainBlock host)} (part : past <+: chain)
    (filter : Filter) {first last : Nat} (inside : last < past.length) :
    referenceScan past filter first last = referenceScan chain filter first last := by
  obtain ⟨later, rfl⟩ := part
  have beyond : ((later.zipIdx past.length).filter fun block =>
      first ≤ block.2 && block.2 ≤ last) = [] := by
    rw [List.filter_eq_nil_iff]
    intro block member
    have behind := List.le_snd_of_mem_zipIdx member
    simp only [Bool.and_eq_true, decide_eq_true_eq]
    omega
  simp [referenceScan, storedTxs, List.zipIdx_append, beyond]

theorem getBlock_of_unwrap {client : NodeClient V} {round : Nat} {block : EthereumBlock}
    (resolved : getBlockUnwrap client (.number round) = .ok block) :
    client.getBlock round = .ok (some block) := by
  unfold getBlockUnwrap at resolved
  split at resolved
  · cases resolved
  · cases resolved
  · rename_i found answered
    cases resolved
    exact answered

/-- The query of a range that is answered from the chain returns the logs of the range. -/
theorem logs_of_range (cbor : host.CborRoundTrip) {chain : List (ChainBlock host)}
    {snapshot : StoredTx → TransactionSnapshot V} (shows : SnapshotsOf host snapshot)
    {client : NodeClient V} (answers : AnswersFromChain chain snapshot client) {filter : Filter}
    (unlimited : filter.limit = none) (filled : filter.NoEmptyList) {first last : Nat}
    {found : List LocalizedLogEntry}
    (returned : logs host client (limitRange filter first last) = .ok found) :
    found.Perm (referenceScan chain filter first last) := by
  obtain ⟨past, part, exactly, inside⟩ := answers.queries
  obtain ⟨fromBlock, toBlock, _, resolvedFrom, resolvedTo, indexed, _, _⟩ :=
    logs_eq_ok_iff.mp returned
  have limited : (limitRange filter first last).limit = none := unlimited
  obtain ⟨other, answered, perm⟩ := logs_of_resolved cbor shows exactly limited resolvedFrom
    resolvedTo indexed
  rw [returned] at answered
  cases answered
  have fromRound : fromBlock.round = first := answers.rounds _ _ (getBlock_of_unwrap resolvedFrom)
  have toRound : toBlock.round = last := answers.rounds _ _ (getBlock_of_unwrap resolvedTo)
  have limitedFilled : (limitRange filter first last).NoEmptyList := filled
  rw [referenceScan_of_filled cbor limitedFilled, fromRound, toRound] at perm
  rw [← referenceScan_of_prefix part filter (inside _ _ (getBlock_of_unwrap resolvedTo))]
  exact perm

section Delivered

variable {registration : Nat} {listener : ListenerId} {id : SubscriptionId} {filter : Filter}
  {start : LogsWorld} {inputs : List (LogsInput V)}

/-- The tasks of a subscription that are left. -/
def pendingQueries (listener : ListenerId) (id : SubscriptionId) (start : LogsWorld)
    (events : List (LogsEvent V)) : List Filter :=
  (lastState start events).tasks listener id

/-- What a subscription asks for is answered, fails or is left. -/
theorem asked_perm (idle : start.tasks listener id = []) :
    ((run (logsMachine host mode) start inputs).flatMap (askedAt listener id)).Perm
      ((run (logsMachine host mode) start inputs).flatMap (answeredAt listener id) ++
        ((run (logsMachine host mode) start inputs).flatMap (failedAt listener id) ++
          pendingQueries listener id start (run (logsMachine host mode) start inputs))) := by
  have conserved := @run_conserves _ _ _ _ (logsMachine host mode) start inputs
    (fun world => world.tasks listener id) (askedAt listener id)
    (fun event => answeredAt listener id event ++ failedAt listener id event)
    fun event member => tasks_conserved listener id (of_mem_run member)
  rw [idle, List.nil_append] at conserved
  refine conserved.trans ?_
  rw [← List.append_assoc]
  exact (List.flatMap_append_perm _ _ _).symm.append_right _

/-- What a subscriber is handed is what the answered queries ask for. -/
theorem delivered_perm (cbor : host.CborRoundTrip) {chain : List (ChainBlock host)}
    {snapshot : StoredTx → TransactionSnapshot V} (shows : SnapshotsOf host snapshot)
    (unlimited : filter.limit = none) (filled : filter.NoEmptyList) {events : List (LogsEvent V)}
    (steps : ∀ event ∈ events, event.Of (logsMachine host mode))
    (answers : ∀ event ∈ events, ∀ other otherId index client,
      event.input = .answer other otherId index client → AnswersFromChain chain snapshot client)
    (ranged : ∀ query ∈ events.flatMap (answeredAt listener id),
      ∃ span : Span, query = limitRange filter span.first span.last) :
    (events.flatMap (deliveredAt listener id)).Perm
      ((events.flatMap (answeredAt listener id)).flatMap (scanOf chain)) := by
  rw [List.flatMap_assoc]
  apply List.Perm.flatMap_left
  intro event member
  cases logsEffect_of (steps event member) with
  | told input notices isInput output step tasks =>
    simp only [deliveredAt, answeredAt, output]
    exact .refl _
  | settled other otherId index client query isInput found output after =>
    unfold answerLogs at output
    split at output
    · simp only [deliveredAt, answeredAt, output]
      exact .refl _
    · rename_i handed returned
      by_cases own : other = listener ∧ otherId = id
      · have answered : query ∈ events.flatMap (answeredAt listener id) := by
          refine List.mem_flatMap.mpr ⟨event, member, ?_⟩
          simp [answeredAt, output, own]
        obtain ⟨span, rfl⟩ := ranged query answered
        have exactly := logs_of_range cbor shows
          (answers event member other otherId index client isInput) unlimited filled returned
        simp only [deliveredAt, answeredAt, output, if_pos own, List.flatMap_singleton]
        exact exactly
      · simp only [deliveredAt, answeredAt, output, if_neg own]
        exact .refl _

end Delivered

/-- The ranges that were announced while a subscription was there are some of the announced ones,
in the same order. -/
theorem subscribedSpans_sublist (listener : ListenerId) (id : SubscriptionId)
    (ticks : List BrokerEvent) :
    (ticks.filterMap (subscribedSpan listener id)).Sublist (ticks.filterMap announced) := by
  have there : ticks.filterMap (subscribedSpan listener id) =
      (ticks.filter fun event => ((event.before.handlers listener).bind fun handler =>
        handler.logsSubscribers id).isSome).filterMap announced :=
    List.filterMap_filter.symm
  rw [there]
  exact List.filter_sublist.filterMap announced

/-- Log notifications account for the chain. In any order of ticks, subscriptions and finished
tasks, what a subscriber was handed, together with what its failed and its unfinished tasks ask
for, is what the blocks hold that were announced while it was subscribed. The announced ranges tile
the chain, and those that were announced while it was subscribed are some of them, each once and in
order: so a log is handed over twice never, and it is missing only if the task that asked for it
failed or is not through. A subscription that is there all the time is so accounted the matching
logs of the chain, from its first block to the greatest height reported. -/
theorem log_notices_account_for_chain (cbor : host.CborRoundTrip) (mode : OverflowMode)
    (chain : List (ChainBlock host)) (snapshot : StoredTx → TransactionSnapshot V)
    (shows : SnapshotsOf host snapshot) (start : LogsWorld)
    (fresh : start.broker.lastNotifiedBlock = 0) (registration : Nat) (listener : ListenerId)
    (id : SubscriptionId) (idle : start.tasks listener id = []) (filter : Filter)
    (unlimited : filter.limit = none) (filled : filter.NoEmptyList) (inputs : List (LogsInput V))
    (events : List (LogsEvent V)) (ran : run (logsMachine host mode) start inputs = events)
    (uses : ∀ event ∈ events, UsesFilter registration listener id filter event.before.broker)
    (answers : ∀ event ∈ events, ∀ other otherId index client,
      event.input = .answer other otherId index client → AnswersFromChain chain snapshot client) :
    (events.flatMap (deliveredAt listener id) ++
        (events.flatMap (failedAt listener id) ++
          pendingQueries listener id start events).flatMap (scanOf chain)).Perm
      (((events.filterMap tickedAt).filterMap (subscribedSpan listener id)).flatMap
        fun span => referenceScan chain filter span.first span.last) ∧
    Tiles 0 ((events.filterMap tickedAt).filterMap announced)
      (highest (events.filterMap tickedAt)) ∧
    ((events.filterMap tickedAt).filterMap (subscribedSpan listener id)).Sublist
      ((events.filterMap tickedAt).filterMap announced) ∧
    ((events.filterMap tickedAt).filterMap (subscribedSpan listener id)).Pairwise
      (fun a b => a.last < b.first) ∧
    ((∀ event ∈ events.filterMap tickedAt, ∃ handler,
        event.before.handlers listener = some handler ∧
          handler.logsSubscribers id = some filter) →
      (events.flatMap (deliveredAt listener id) ++
          (events.flatMap (failedAt listener id) ++
            pendingQueries listener id start events).flatMap (scanOf chain)).Perm
        (referenceScan chain filter 1 (highest (events.filterMap tickedAt)))) := by
  subst ran
  have steps : ∀ event ∈ run (logsMachine host mode) start inputs,
      event.Of (logsMachine host mode) := fun event member => of_mem_run member
  have asked := asked_eq steps uses
  have perm := @asked_perm _ _ host mode listener id start inputs idle
  have ranged : ∀ query ∈ (run (logsMachine host mode) start inputs).flatMap
      (answeredAt listener id),
      ∃ span : Span, query = limitRange filter span.first span.last := by
    intro query member
    have among := perm.mem_iff.mpr (List.mem_append_left _ member)
    rw [asked] at among
    obtain ⟨span, _, same⟩ := List.mem_map.mp among
    exact ⟨span, same.symm⟩
  have handed := delivered_perm cbor shows unlimited filled steps answers ranged
  have scanned := perm.flatMap_right (scanOf chain)
  rw [asked, List.flatMap_map, List.flatMap_append] at scanned
  have accounted := (handed.append_right _).trans scanned.symm
  have tiles : Tiles 0
      (((run (logsMachine host mode) start inputs).filterMap tickedAt).filterMap announced)
      (highest ((run (logsMachine host mode) start inputs).filterMap tickedAt)) := by
    rw [run_project fun event member => tickedAt_inner (steps event member)]
    exact tiles_run mode fresh _
  have part := subscribedSpans_sublist listener id
    ((run (logsMachine host mode) start inputs).filterMap tickedAt)
  refine ⟨accounted, tiles, part, tiles.pairwise.sublist part, ?_⟩
  intro subscribed
  refine accounted.trans ?_
  have all : ((run (logsMachine host mode) start inputs).filterMap tickedAt).filterMap
        (subscribedSpan listener id) =
      ((run (logsMachine host mode) start inputs).filterMap tickedAt).filterMap announced := by
    apply List.filterMap_congr
    intro event member
    obtain ⟨handler, found, own⟩ := subscribed event member
    simp [subscribedSpan, found, own]
  rw [all]
  exact scan_of_tiles chain filter tiles

/-- A chain of three blocks with one log each. -/
def noticeChain : List (ChainBlock sampleHost) := [sampleBlock, sampleBlock, sampleBlock]

/-- A node that has the chain. -/
def noticeClient : NodeClient SampleValue where
  getLatestBlock := .ok ⟨2, FixedBytes.filled 32 9⟩
  getBlock round := .ok (if round < 3 then some ⟨round, FixedBytes.filled 32 9⟩ else none)
  getBlockByHash _ := .ok none
  waitBlockIndexed _ := .ok ()
  queryTxs query := .ok (((storedTxs noticeChain query.roundMin query.roundMax).filter
    fun stored => query.met stored.result.tags).map sampleSnapshot)

theorem noticeClient_answers : AnswersFromChain noticeChain sampleSnapshot noticeClient := by
  have known (round : Nat) (block : EthereumBlock)
      (found : noticeClient.getBlock round = .ok (some block)) :
      round < 3 ∧ block.round = round := by
    simp only [noticeClient, Except.ok.injEq] at found
    split at found
    · rename_i below
      cases found
      exact ⟨below, rfl⟩
    · cases found
  exact ⟨fun round block found => (known round block found).2,
    noticeChain, List.prefix_refl _, fun _ _ => ⟨_, rfl, .refl _⟩,
    fun round block found => (known round block found).1⟩

/-- A broker with one listener and one subscription to all logs. -/
def noticeWorld : LogsWorld where
  broker :=
    { Broker.new with
      listeners := [1]
      handlers := fun listener => if listener = 1 then
        some ⟨∅, fun id => if id = 7 then some (sampleFilter none) else none⟩ else none }
  tasks _ _ := []

/-- Two ticks, and then the task of the second one is through before that of the first. -/
def overtakingAnswers : List (LogsInput SampleValue) :=
  [.broker (.tickAt 1), .broker (.tickAt 2), .answer 1 7 1 noticeClient,
    .answer 1 7 0 noticeClient]

/-- Both logs are handed over, although one task overtakes the other. -/
theorem overtaking_tasks_deliver :
    ((run (logsMachine sampleHost .checked) noticeWorld overtakingAnswers).flatMap
        (deliveredAt 1 7)).Perm (referenceScan noticeChain (sampleFilter none) 1 2) := by
  have registered : ∀ event ∈ run (logsMachine sampleHost .checked) noticeWorld overtakingAnswers,
      event.before.broker.listeners = [1] := by decide
  have subscribed : ∀ event ∈ run (logsMachine sampleHost .checked) noticeWorld overtakingAnswers,
      ((event.before.broker.handlers 1).bind fun handler => handler.logsSubscribers 7) =
        some (sampleFilter none) := by decide
  have uses : ∀ event ∈ run (logsMachine sampleHost .checked) noticeWorld overtakingAnswers,
      UsesFilter 0 1 7 (sampleFilter none) event.before.broker := by
    intro event member
    refine ⟨?_, ?_⟩
    · intro other
      rw [registered event member, List.getElem?_singleton]
      by_cases first : other = 0 <;> simp [first]
    · intro handler used found own
      have same := subscribed event member
      rw [found, Option.bind_some, own] at same
      exact Option.some.inj same
  have answers : ∀ event ∈ run (logsMachine sampleHost .checked) noticeWorld overtakingAnswers,
      ∀ other otherId index client, event.input = .answer other otherId index client →
        AnswersFromChain noticeChain sampleSnapshot client := by
    intro event member other otherId index client isInput
    have given := input_mem_of_mem_run member
    rw [isInput] at given
    simp only [overtakingAnswers, List.mem_cons, List.not_mem_nil, reduceCtorEq, false_or,
      LogsInput.answer.injEq, or_false] at given
    rcases given with ⟨_, _, _, rfl⟩ | ⟨_, _, _, rfl⟩
    · exact noticeClient_answers
    · exact noticeClient_answers
  have accounted := (log_notices_account_for_chain sampleHost_cbor .checked noticeChain
    sampleSnapshot sampleSnapshot_shows noticeWorld rfl 0 1 7 rfl (sampleFilter none) rfl
    (by decide) overtakingAnswers _ rfl uses answers).2.2.2.2
  have ticks : ∀ event ∈ (run (logsMachine sampleHost .checked) noticeWorld
      overtakingAnswers).filterMap tickedAt,
      ((event.before.handlers 1).bind fun handler => handler.logsSubscribers 7) =
        some (sampleFilter none) := by decide
  have complete := accounted fun event member => Option.bind_eq_some_iff.mp (ticks event member)
  have nothing : ((run (logsMachine sampleHost .checked) noticeWorld overtakingAnswers).flatMap
      (failedAt 1 7) ++ pendingQueries 1 7 noticeWorld
        (run (logsMachine sampleHost .checked) noticeWorld overtakingAnswers)) = [] := rfl
  rw [nothing, List.flatMap_nil, List.append_nil] at complete
  exact complete

end Ethwasi.Gateway
