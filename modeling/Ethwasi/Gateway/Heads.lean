import Ethwasi.Transition.Tasks
import Ethwasi.Gateway.FilterClient
import Ethwasi.Gateway.PubSub

/-!
# Header notifications

A range of new blocks is passed to `notify_heads`, which spawns a task and returns. The task
fetches the blocks of the range one by one, and when it has all of them it hands their headers to
everybody who is subscribed by then. The broker does not wait for it: the next tick may come, and
spawn the next task, before the first one is through. Within a task the headers come in order.
Across tasks they come in the order in which the tasks finish, so that a subscriber sees the chain
in order exactly when no task overtakes another.

A header is shown as the block that it is the header of. It counts as handed over when `notify` is
called for it; what the transport does with it afterwards is not followed.
-/

namespace Ethwasi.Gateway

open Ethwasi.Rust Ethwasi.Transition

/-- A task that `notify_heads` spawned. -/
structure HeadsTask where
  listener : ListenerId
  span : Span
  /-- The rounds that are still to be fetched. -/
  remaining : List Nat
  /-- What was collected so far. -/
  headers : List EthereumBlock

/-- Where a task is when it was polled. -/
inductive Polled where
  /-- "Failed to fetch blocks for heads notify" -/
  | failed (message : String)
  | fetching (task : HeadsTask)
  | collected (headers : List EthereumBlock)

/-- One poll of a task: the next block arrives, or there is none left to fetch. -/
def HeadsTask.poll (translator : Translator) (task : HeadsTask) : Polled :=
  match task.remaining with
  | [] => .collected task.headers
  | round :: later =>
    match translator.getBlockByRound round with
    | .error message => .failed message
    | .ok none => .failed "block not found"
    | .ok (some block) =>
      .fetching { task with remaining := later, headers := task.headers ++ [block] }

/-- The broker, the tasks that are running, and what they share with their clients. -/
structure HeadsWorld where
  broker : Broker
  tasks : List HeadsTask
  /-- `heads_subscribers` of a listener; a task holds on to it when the listener is dropped. -/
  subscribers : ListenerId → Finset SubscriptionId

/-- The subscribers of every listener, those of dropped ones as they were last. -/
def sharedSubscribers (broker : Broker) (last : ListenerId → Finset SubscriptionId) :
    ListenerId → Finset SubscriptionId :=
  fun listener =>
    match broker.handlers listener with
    | some handler => handler.headsSubscribers
    | none => last listener

/-- A broker without any task. -/
def HeadsWorld.start (broker : Broker) : HeadsWorld :=
  ⟨broker, [], sharedSubscribers broker fun _ => ∅⟩

/-- Something happens at the broker, or a task is polled. -/
inductive HeadsInput where
  | broker (input : BrokerInput)
  | poll (index : Nat)

/-- What comes of it. -/
inductive HeadsOutput where
  | told (notices : List Notice)
  | failed (task : HeadsTask) (message : String)
  | fetching
  /-- Every header, in order, is handed to every subscriber. -/
  | handed (task : HeadsTask) (headers : List EthereumBlock)
      (subscribers : Finset SubscriptionId)

/-- The task that a call of `notify_heads` spawns; without subscribers nothing is fetched. -/
def spawnHeads (broker : Broker) (notice : Notice) : Option HeadsTask :=
  if notice.heads = [] then none
  else
    broker.listeners[notice.registration]?.map fun listener =>
      ⟨listener, ⟨notice.fromBlock, notice.toBlock⟩, notice.heads, []⟩

/-- One step, of the broker or of any running task. -/
def headsMachine (mode : OverflowMode) (translator : Translator) :
    Machine HeadsWorld HeadsInput HeadsOutput := fun world input =>
  match input with
  | .broker input =>
    (brokerMachine mode world.broker input).map fun answer =>
      (.told answer.1,
        { broker := answer.2
          tasks := world.tasks ++ answer.1.filterMap (spawnHeads world.broker)
          subscribers := sharedSubscribers answer.2 world.subscribers })
  | .poll index =>
    world.tasks[index]?.map fun task =>
      match task.poll translator with
      | .failed message =>
        (.failed task message, { world with tasks := world.tasks.eraseIdx index })
      | .fetching next => (.fetching, { world with tasks := world.tasks.set index next })
      | .collected headers =>
        (.handed task headers (world.subscribers task.listener),
          { world with tasks := world.tasks.eraseIdx index })

/-- An event of the world. -/
abbrev HeadsEvent := Event HeadsWorld HeadsInput HeadsOutput

/-- What happens at the broker. -/
def brokerEvent (event : HeadsEvent) : Option BrokerEvent :=
  match event.input, event.output with
  | .broker input, .told notices =>
    some ⟨event.before.broker, input, notices, event.after.broker⟩
  | _, _ => none

/-- The range of a task, if it is one of the listener. -/
def HeadsTask.spanFor (listener : ListenerId) (task : HeadsTask) : Option Span :=
  if task.listener = listener then some task.span else none

/-- The ranges of the tasks of a listener that are spawned at an event. -/
def spawnedAt (listener : ListenerId) (event : HeadsEvent) : List Span :=
  match event.output with
  | .told notices =>
    (notices.filterMap (spawnHeads event.before.broker)).filterMap (HeadsTask.spanFor listener)
  | _ => []

/-- The range of the task of a listener that finishes at an event. -/
def finishedAt (listener : ListenerId) (event : HeadsEvent) : Option Span :=
  match event.output with
  | .handed task _ _ => task.spanFor listener
  | _ => none

/-- The headers that a subscriber is handed at an event. -/
def handedAt (listener : ListenerId) (id : SubscriptionId) (event : HeadsEvent) :
    List EthereumBlock :=
  match event.output with
  | .handed task headers subscribers =>
    if task.listener = listener ∧ id ∈ subscribers then headers else []
  | _ => []

/-- The ranges of the tasks of a listener, in the order in which they are spawned. -/
def spawnedSpans (listener : ListenerId) (events : List HeadsEvent) : List Span :=
  events.flatMap (spawnedAt listener)

/-- The ranges of the tasks of a listener, in the order in which they finish. -/
def finishedSpans (listener : ListenerId) (events : List HeadsEvent) : List Span :=
  events.filterMap (finishedAt listener)

/-- The headers that a subscriber is handed, in order. -/
def handedTo (listener : ListenerId) (id : SubscriptionId) (events : List HeadsEvent) :
    List EthereumBlock :=
  events.flatMap (handedAt listener id)

/-- The ranges of the tasks of a listener that are still running. -/
def runningSpans (listener : ListenerId) (world : HeadsWorld) : List Span :=
  world.tasks.filterMap (HeadsTask.spanFor listener)

/-- The blocks fetched and the rounds to fetch make up the range. -/
def HeadsTask.OnTrack (task : HeadsTask) : Prop :=
  task.headers.map (·.round) ++ task.remaining = task.span.points

/-- Blocks are returned for the round that was asked for. -/
def Translator.Honest (translator : Translator) : Prop :=
  ∀ round block, translator.getBlockByRound round = .ok (some block) → block.round = round

/-- The subscription is there, with a listener that is registered once. -/
structure HeadsSubscribed (registration : Nat) (listener : ListenerId) (id : SubscriptionId)
    (broker : Broker) : Prop where
  registered : ∀ other, broker.listeners[other]? = some listener ↔ other = registration
  alive : ∃ handler, broker.handlers listener = some handler ∧ id ∈ handler.headsSubscribers

/-- What an event does. -/
inductive HeadsEffect (mode : OverflowMode) (translator : Translator) (event : HeadsEvent) :
    Prop where
  /-- Something happened at the broker, and the tasks that it spawned are running. -/
  | told (input : BrokerInput) (notices : List Notice)
      (isInput : event.input = .broker input) (output : event.output = .told notices)
      (step : Event.Of (brokerMachine mode)
        ⟨event.before.broker, input, notices, event.after.broker⟩)
      (tasks : event.after.tasks =
        event.before.tasks ++ notices.filterMap (spawnHeads event.before.broker))
      (subscribers : event.after.subscribers =
        sharedSubscribers event.after.broker event.before.subscribers)
  /-- A task failed and is gone. -/
  | failed (index : Nat) (task : HeadsTask) (message : String)
      (output : event.output = .failed task message)
      (after : event.after = { event.before with tasks := event.before.tasks.eraseIdx index })
  /-- A task fetched a block. -/
  | fetched (index : Nat) (task next : HeadsTask) (found : event.before.tasks[index]? = some task)
      (polled : task.poll translator = .fetching next) (output : event.output = .fetching)
      (after : event.after = { event.before with tasks := event.before.tasks.set index next })
  /-- A task finished. -/
  | handed (index : Nat) (task : HeadsTask) (headers : List EthereumBlock)
      (found : event.before.tasks[index]? = some task)
      (polled : task.poll translator = .collected headers)
      (output : event.output =
        .handed task headers (event.before.subscribers task.listener))
      (after : event.after = { event.before with tasks := event.before.tasks.eraseIdx index })

variable {mode : OverflowMode} {translator : Translator}

/-- Every event has one of the effects. -/
theorem headsEffect_of {event : HeadsEvent} (step : event.Of (headsMachine mode translator)) :
    HeadsEffect mode translator event := by
  obtain ⟨before, input, output, after⟩ := event
  change headsMachine mode translator before input = some (output, after) at step
  cases input with
  | broker input =>
    obtain ⟨⟨notices, next⟩, stepped, same⟩ := Option.map_eq_some_iff.mp step
    cases same
    exact .told input notices rfl rfl stepped rfl rfl
  | poll index =>
    obtain ⟨task, found, same⟩ := Option.map_eq_some_iff.mp step
    cases polled : task.poll translator with
    | failed message =>
      rw [polled] at same
      cases same
      exact .failed index task message rfl rfl
    | fetching next =>
      rw [polled] at same
      cases same
      exact .fetched index task next found polled rfl rfl
    | collected headers =>
      rw [polled] at same
      cases same
      exact .handed index task headers found polled rfl rfl

/-- A task that fetches a block stays on track. -/
theorem onTrack_of_fetching (honest : translator.Honest) {task next : HeadsTask}
    (track : task.OnTrack) (polled : task.poll translator = .fetching next) :
    next.OnTrack ∧ next.listener = task.listener ∧ next.span = task.span := by
  unfold HeadsTask.poll at polled
  split at polled
  · cases polled
  · rename_i round later left
    split at polled
    · cases polled
    · cases polled
    · rename_i block answered
      cases polled
      have asked : block.round = round := honest round block answered
      refine ⟨?_, rfl, rfl⟩
      rw [HeadsTask.OnTrack, left] at track
      simpa [HeadsTask.OnTrack, asked] using track

/-- A task that is through has the headers of its range, in order. -/
theorem points_of_collected {task : HeadsTask} {headers : List EthereumBlock}
    (track : task.OnTrack) (polled : task.poll translator = .collected headers) :
    headers.map (·.round) = task.span.points := by
  unfold HeadsTask.poll at polled
  split at polled
  · rename_i left
    cases polled
    rw [HeadsTask.OnTrack, left, List.append_nil] at track
    exact track
  · split at polled <;> cases polled

/-- A task starts with the whole range to fetch. -/
theorem onTrack_of_spawned {event : BrokerEvent} (step : event.Of (brokerMachine mode))
    {task : HeadsTask} (member : task ∈ event.output.filterMap (spawnHeads event.before)) :
    task.OnTrack := by
  obtain ⟨notice, inOutput, spawned⟩ := List.mem_filterMap.mp member
  cases brokerEffect_of step with
  | quiet reported output last listeners =>
    rw [output] at inOutput
    cases inOutput
  | told ahead output last listeners =>
    rw [output] at inOutput
    obtain ⟨listener, _, made⟩ := List.mem_filterMap.mp inOutput
    obtain ⟨handler, _, rfl⟩ := Option.map_eq_some_iff.mp made
    unfold spawnHeads at spawned
    split at spawned
    · cases spawned
    · rename_i fetches
      obtain ⟨_, _, rfl⟩ := Option.map_eq_some_iff.mp spawned
      simp only [ChainNotificationHandler.notifyBlocks, ChainNotificationHandler.notifyHeads]
        at fetches ⊢
      split at fetches
      · exact absurd rfl fetches
      · rename_i someone
        simp [HeadsTask.OnTrack, someone]

/-- The tasks of a listener that is registered once are those of its registration. -/
theorem filterMap_spawned {broker : Broker} {registration : Nat} {listener : ListenerId}
    (registered : ∀ other, broker.listeners[other]? = some listener ↔ other = registration)
    (notices : List Notice) :
    (notices.filterMap (spawnHeads broker)).filterMap (HeadsTask.spanFor listener) =
      (notices.filter fun notice => notice.registration = registration).filterMap
        fun notice => (spawnHeads broker notice).map (·.span) := by
  rw [List.filterMap_filterMap, List.filterMap_filter]
  apply List.filterMap_congr
  intro notice _
  have here := registered notice.registration
  unfold spawnHeads
  split
  · split <;> rfl
  · cases found : broker.listeners[notice.registration]? with
    | none => split <;> rfl
    | some other =>
      rw [found, Option.some.injEq] at here
      simp [HeadsTask.spanFor, here]

/-- For a subscription that is there one task is spawned for every new range. -/
theorem spawned_eq_announced {event : BrokerEvent} (step : event.Of (brokerMachine mode))
    {registration : Nat} {listener : ListenerId} {id : SubscriptionId}
    (subscribed : HeadsSubscribed registration listener id event.before) :
    (event.output.filterMap (spawnHeads event.before)).filterMap (HeadsTask.spanFor listener) =
      (announced event).toList := by
  obtain ⟨handler, found, member⟩ := subscribed.alive
  have here : event.before.listeners[registration]? = some listener :=
    (subscribed.registered registration).mpr rfl
  have someone : handler.headsSubscribers ≠ ∅ := Finset.ne_empty_of_mem member
  rw [filterMap_spawned subscribed.registered, filter_output_of step, here]
  cases new : announced event with
  | none => rfl
  | some span =>
    have ordered : span.first ≤ span.last := by
      unfold announced at new
      split at new
      · rename_i ahead
        cases new
        exact ahead
      · cases new
    have fetches : ¬span.last + 1 - span.first = 0 := by omega
    simp [found, spawnHeads, ChainNotificationHandler.notifyBlocks,
      ChainNotificationHandler.notifyHeads, someone, here, Span.points, fetches]

/-- What holds in every state of a run. -/
structure HeadsInvariant (world : HeadsWorld) : Prop where
  onTrack : ∀ task ∈ world.tasks, task.OnTrack
  shared : ∀ other handler, world.broker.handlers other = some handler →
    world.subscribers other = handler.headsSubscribers

theorem headsInvariant_start (broker : Broker) : HeadsInvariant (.start broker) where
  onTrack := by simp [HeadsWorld.start]
  shared := by
    intro other handler found
    simp only [HeadsWorld.start, sharedSubscribers] at found ⊢
    rw [found]

section Step

variable {registration : Nat} {listener : ListenerId} {id : SubscriptionId} {event : HeadsEvent}

/-- Every step keeps the invariant. -/
theorem headsInvariant_step (honest : translator.Honest) (event : HeadsEvent)
    (step : event.Of (headsMachine mode translator)) (held : HeadsInvariant event.before) :
    HeadsInvariant event.after := by
  cases headsEffect_of step with
  | told input notices isInput output told tasks subscribers =>
    constructor
    · intro task member
      rw [tasks, List.mem_append] at member
      rcases member with old | fresh
      · exact held.onTrack task old
      · exact onTrack_of_spawned told fresh
    · intro other handler found
      rw [subscribers, sharedSubscribers, found]
  | failed index task message output after =>
    rw [after]
    exact ⟨fun other member => held.onTrack other (List.mem_of_mem_eraseIdx member), held.shared⟩
  | fetched index task next found polled output after =>
    have track :=
      (onTrack_of_fetching honest (held.onTrack task (List.mem_of_getElem? found)) polled).1
    rw [after]
    refine ⟨?_, held.shared⟩
    intro other member
    rcases List.mem_or_eq_of_mem_set member with old | rfl
    · exact held.onTrack other old
    · exact track
  | handed index task headers found polled output after =>
    rw [after]
    exact ⟨fun other member => held.onTrack other (List.mem_of_mem_eraseIdx member), held.shared⟩

/-- The events of the broker are steps of the broker. -/
theorem brokerEvent_inner (step : event.Of (headsMachine mode translator)) :
    Inner (brokerMachine mode) HeadsWorld.broker brokerEvent event := by
  cases headsEffect_of step with
  | told input notices isInput output told tasks subscribers =>
    have shown : brokerEvent event =
        some ⟨event.before.broker, input, notices, event.after.broker⟩ := by
      simp only [brokerEvent, isInput, output]
    refine ⟨?_, by simp [shown]⟩
    intro other same
    rw [shown] at same
    cases same
    exact ⟨told, rfl, rfl⟩
  | failed index task message output after =>
    have silent : brokerEvent event = none := by simp [brokerEvent, output]
    exact ⟨by simp [silent], fun _ => by rw [after]⟩
  | fetched index task next found polled output after =>
    have silent : brokerEvent event = none := by simp [brokerEvent, output]
    exact ⟨by simp [silent], fun _ => by rw [after]⟩
  | handed index task headers found polled output after =>
    have silent : brokerEvent event = none := by simp [brokerEvent, output]
    exact ⟨by simp [silent], fun _ => by rw [after]⟩

/-- For a subscription that is there the ranges that are announced are spawned. -/
theorem spawnedAt_eq_announced (step : event.Of (headsMachine mode translator))
    (subscribed : HeadsSubscribed registration listener id event.before.broker) :
    spawnedAt listener event = ((brokerEvent event).bind announced).toList := by
  cases headsEffect_of step with
  | told input notices isInput output told tasks subscribers =>
    simp only [spawnedAt, brokerEvent, isInput, output]
    exact spawned_eq_announced told subscribed
  | failed index task message output after => simp [spawnedAt, brokerEvent, output]
  | fetched index task next found polled output after => simp [spawnedAt, brokerEvent, output]
  | handed index task headers found polled output after => simp [spawnedAt, brokerEvent, output]

/-- A task that fetches a block keeps its range. -/
theorem runningSpans_set (honest : translator.Honest) {world : HeadsWorld} {index : Nat}
    {task next : HeadsTask} (held : HeadsInvariant world)
    (found : world.tasks[index]? = some task) (polled : task.poll translator = .fetching next) :
    runningSpans listener { world with tasks := world.tasks.set index next } =
      runningSpans listener world := by
  obtain ⟨_, sameListener, sameSpan⟩ :=
    onTrack_of_fetching honest (held.onTrack task (List.mem_of_getElem? found)) polled
  have sameRange : next.spanFor listener = task.spanFor listener := by
    rw [HeadsTask.spanFor, HeadsTask.spanFor, sameListener, sameSpan]
  have placed : (world.tasks.map (HeadsTask.spanFor listener))[index]? =
      some (task.spanFor listener) := by
    rw [List.getElem?_map, found]
    rfl
  obtain ⟨inside, same⟩ := List.getElem?_eq_some_iff.mp placed
  have ranges : (world.tasks.set index next).map (HeadsTask.spanFor listener) =
      world.tasks.map (HeadsTask.spanFor listener) := by
    rw [List.map_set, sameRange, ← same, List.set_getElem_self]
  have mapped := congrArg (List.filterMap fun range => range) ranges
  rwa [List.filterMap_map, List.filterMap_map] at mapped

/-- Every step without a failure takes a range out of the running ones when it finishes it. -/
theorem running_conserved (honest : translator.Honest)
    (step : event.Of (headsMachine mode translator)) (held : HeadsInvariant event.before)
    (fetched : ∀ task message, event.output ≠ .failed task message) :
    (runningSpans listener event.before ++ spawnedAt listener event).Perm
      ((finishedAt listener event).toList ++ runningSpans listener event.after) := by
  cases headsEffect_of step with
  | told input notices isInput output told tasks subscribers =>
    simp only [spawnedAt, finishedAt, output, runningSpans, tasks, List.filterMap_append]
    exact .refl _
  | failed index task message output after => exact absurd output (fetched task message)
  | fetched index task next found polled output after =>
    rw [after, runningSpans_set honest held found polled]
    simp [spawnedAt, finishedAt, output]
  | handed index task headers found polled output after =>
    have ranges := (perm_cons_eraseIdx found).filterMap (HeadsTask.spanFor listener)
    rw [List.filterMap_cons] at ranges
    simp only [spawnedAt, finishedAt, output, runningSpans, after, List.append_nil]
    cases range : task.spanFor listener with
    | none =>
      rw [range] at ranges
      exact ranges
    | some span =>
      rw [range] at ranges
      exact ranges

/-- A subscriber is handed the headers of the range that is finished. -/
theorem handedAt_eq_finished (step : event.Of (headsMachine mode translator))
    (held : HeadsInvariant event.before)
    (subscribed : HeadsSubscribed registration listener id event.before.broker) :
    (handedAt listener id event).map (·.round) =
      (finishedAt listener event).toList.flatMap Span.points := by
  cases headsEffect_of step with
  | told input notices isInput output told tasks subscribers =>
    simp [handedAt, finishedAt, output]
  | failed index task message output after => simp [handedAt, finishedAt, output]
  | fetched index task next found polled output after => simp [handedAt, finishedAt, output]
  | handed index task headers found polled output after =>
    obtain ⟨handler, alive, member⟩ := subscribed.alive
    have points := points_of_collected (held.onTrack task (List.mem_of_getElem? found)) polled
    simp only [handedAt, finishedAt, output]
    by_cases own : task.listener = listener
    · have shared := held.shared listener handler alive
      rw [own, if_pos ⟨rfl, by rw [shared]; exact member⟩, points]
      simp [HeadsTask.spanFor, own]
    · simp [HeadsTask.spanFor, own]

end Step

section Run

variable {broker : Broker} {inputs : List HeadsInput} {registration : Nat} {listener : ListenerId}
  {id : SubscriptionId} {events : List HeadsEvent}

theorem headsInvariant_run (honest : translator.Honest)
    (ran : run (headsMachine mode translator) (.start broker) inputs = events) :
    ∀ event ∈ events, event.Of (headsMachine mode translator) ∧ HeadsInvariant event.before := by
  intro event member
  rw [← ran] at member
  exact ⟨of_mem_run member, ((run_invariant HeadsInvariant (headsInvariant_step honest)
    (headsInvariant_start broker)).1 event member).1⟩

/-- Every range that was spawned has been finished or is running. -/
theorem spawnedSpans_perm (honest : translator.Honest)
    (ran : run (headsMachine mode translator) (.start broker) inputs = events)
    (fetched : ∀ event ∈ events, ∀ task message, event.output ≠ .failed task message) :
    (spawnedSpans listener events).Perm (finishedSpans listener events ++
      runningSpans listener (lastState (.start broker) events)) := by
  have held := headsInvariant_run honest ran
  subst ran
  rw [finishedSpans, List.filterMap_eq_flatMap_toList]
  exact run_conserves (runningSpans listener) (spawnedAt listener)
    (fun event => (finishedAt listener event).toList) fun event member =>
      running_conserved honest (held event member).1 (held event member).2 (fetched event member)

/-- A subscriber that is there all the time is handed the headers of the finished ranges. -/
theorem handedTo_eq_finished (honest : translator.Honest)
    (ran : run (headsMachine mode translator) (.start broker) inputs = events)
    (subscribed : ∀ event ∈ events,
      HeadsSubscribed registration listener id event.before.broker) :
    (handedTo listener id events).map (·.round) =
      (finishedSpans listener events).flatMap Span.points := by
  rw [handedTo, finishedSpans, List.filterMap_eq_flatMap_toList, List.map_flatMap,
    List.flatMap_assoc]
  apply List.flatMap_congr
  intro event member
  obtain ⟨step, held⟩ := headsInvariant_run honest ran event member
  exact handedAt_eq_finished step held (subscribed event member)

/-- For such a subscriber the ranges that are spawned tile the chain. -/
theorem tiles_spawnedSpans
    (ran : run (headsMachine mode translator) (.start broker) inputs = events)
    (fresh : broker.lastNotifiedBlock = 0)
    (subscribed : ∀ event ∈ events,
      HeadsSubscribed registration listener id event.before.broker) :
    Tiles 0 (spawnedSpans listener events) (highest (events.filterMap brokerEvent)) := by
  subst ran
  have spawned : spawnedSpans listener (run (headsMachine mode translator) (.start broker)
      inputs) = ((run (headsMachine mode translator) (.start broker) inputs).filterMap
        brokerEvent).filterMap announced := by
    rw [List.filterMap_filterMap, List.filterMap_eq_flatMap_toList, spawnedSpans]
    apply List.flatMap_congr
    intro event member
    exact spawnedAt_eq_announced (of_mem_run member) (subscribed event member)
  rw [spawned, run_project fun event member => brokerEvent_inner (of_mem_run member)]
  exact tiles_run mode fresh _

end Run

/-- A subscriber sees the chain in order exactly when no task overtakes another. For every order
of ticks, registrations, subscriptions and polls of the tasks, the tasks of a listener with a
subscription that is there all the time tile the blocks up to the greatest height, and the
subscriber is handed the headers of the tasks that finished, task by task. These headers have
numbers that grow by one each time if and only if the finished tasks, in the order in which they
finish, are a stretch of the spawned ones; when no task is left, if and only if the tasks finish in
the order in which they were spawned, and then every block up to the greatest height is shown. -/
theorem heads_in_order_iff (mode : OverflowMode) (translator : Translator)
    (honest : translator.Honest) (broker : Broker) (fresh : broker.lastNotifiedBlock = 0)
    (inputs : List HeadsInput) (registration : Nat) (listener : ListenerId) (id : SubscriptionId)
    (events : List HeadsEvent)
    (ran : run (headsMachine mode translator) (.start broker) inputs = events)
    (subscribed : ∀ event ∈ events,
      HeadsSubscribed registration listener id event.before.broker)
    (fetched : ∀ event ∈ events, ∀ task message, event.output ≠ .failed task message) :
    Tiles 0 (spawnedSpans listener events) (highest (events.filterMap brokerEvent)) ∧
      (handedTo listener id events).map (·.round) =
        (finishedSpans listener events).flatMap Span.points ∧
      (((handedTo listener id events).map (·.round)).IsChain (fun a b => b = a + 1) ↔
        finishedSpans listener events <:+: spawnedSpans listener events) ∧
      (runningSpans listener (lastState (.start broker) events) = [] →
        (((handedTo listener id events).map (·.round)).IsChain (fun a b => b = a + 1) ↔
          finishedSpans listener events = spawnedSpans listener events) ∧
        (finishedSpans listener events = spawnedSpans listener events →
          (handedTo listener id events).map (·.round) =
            List.range' 1 (highest (events.filterMap brokerEvent)))) := by
  have tiles := tiles_spawnedSpans ran fresh subscribed
  have accounted := @spawnedSpans_perm _ _ _ _ listener _ honest ran fetched
  have members : ∀ span ∈ finishedSpans listener events, span ∈ spawnedSpans listener events :=
    fun span member => accounted.mem_iff.mpr (List.mem_append_left _ member)
  have stretch := tiles.isChain_points_iff members
  rw [handedTo_eq_finished honest ran subscribed]
  refine ⟨tiles, rfl, stretch, ?_⟩
  intro idle
  rw [idle, List.append_nil] at accounted
  refine ⟨stretch.trans ⟨?_, ?_⟩, ?_⟩
  · exact fun part => part.eq_of_length accounted.symm.length_eq
  · intro same
    rw [same]
  · intro same
    rw [same]
    simpa using tiles.points

/-- A node with a block for every round. -/
def everyRound : Translator :=
  ⟨.ok ⟨0, FixedBytes.filled 32 0⟩, fun round => .ok (some ⟨round, FixedBytes.filled 32 0⟩),
    fun _ => .ok []⟩

theorem everyRound_honest : everyRound.Honest := by
  intro round block answered
  cases answered
  rfl

/-- A broker whose only listener has one subscriber to new headers. -/
def watchedBroker : Broker :=
  { Broker.new with
    listeners := [1]
    handlers := fun listener => if listener = 1 then some ⟨{7}, fun _ => none⟩ else none }

/-- Two ticks with a new block each, and then the tasks in some order. -/
def twoTicks (polls : List Nat) : List HeadsInput :=
  [.broker (.tickAt 1), .broker (.tickAt 2)] ++ polls.map .poll

/-- The subscriber of the sample is there when its listener is. -/
theorem watched_of {broker : Broker} (listeners : broker.listeners = [1])
    (alive : (broker.handlers 1).any fun handler => 7 ∈ handler.headsSubscribers) :
    HeadsSubscribed 0 1 7 broker := by
  constructor
  · intro other
    rw [listeners]
    cases other with
    | zero => simp
    | succ other => simp
  · obtain ⟨handler, found, member⟩ := (Option.any_eq_true _ _).mp alive
    exact ⟨handler, found, by simpa using member⟩

/-- What the sample needs of an event. -/
def watchedEvent (event : HeadsEvent) : Bool :=
  event.before.broker.listeners == [1] &&
    (event.before.broker.handlers 1).any (fun handler => 7 ∈ handler.headsSubscribers) &&
      match event.output with
      | .failed _ _ => false
      | _ => true

theorem watchedEvent_spec {event : HeadsEvent} (watched : watchedEvent event = true) :
    HeadsSubscribed 0 1 7 event.before.broker ∧
      ∀ task message, event.output ≠ .failed task message := by
  simp only [watchedEvent, Bool.and_eq_true, beq_iff_eq] at watched
  obtain ⟨⟨listeners, alive⟩, works⟩ := watched
  refine ⟨watched_of listeners alive, ?_⟩
  intro task message failed
  rw [failed] at works
  cases works

/-- Tasks that finish in order show the blocks in order. -/
theorem heads_in_order_sample :
    (handedTo 1 7 (run (headsMachine .checked everyRound) (.start watchedBroker)
      (twoTicks [0, 1, 0, 0]))).map (·.round) = [1, 2] := by
  have watched : ∀ event ∈ run (headsMachine .checked everyRound) (.start watchedBroker)
      (twoTicks [0, 1, 0, 0]), watchedEvent event := by decide
  obtain ⟨_, _, _, complete⟩ := heads_in_order_iff .checked everyRound everyRound_honest
    watchedBroker rfl (twoTicks [0, 1, 0, 0]) 0 1 7 _ rfl
    (fun event member => (watchedEvent_spec (watched event member)).1)
    (fun event member => (watchedEvent_spec (watched event member)).2)
  exact (complete rfl).2 rfl

/-- The second task overtakes the first, and the subscriber is shown the second block first. -/
theorem overtaken_heads :
    (∀ event ∈ run (headsMachine .checked everyRound) (.start watchedBroker)
        (twoTicks [0, 1, 1, 0]),
      HeadsSubscribed 0 1 7 event.before.broker ∧
        ∀ task message, event.output ≠ .failed task message) ∧
    (handedTo 1 7 (run (headsMachine .checked everyRound) (.start watchedBroker)
      (twoTicks [0, 1, 1, 0]))).map (·.round) = [2, 1] ∧
    ¬([2, 1] : List Nat).IsChain (fun a b => b = a + 1) := by
  have watched : ∀ event ∈ run (headsMachine .checked everyRound) (.start watchedBroker)
      (twoTicks [0, 1, 1, 0]), watchedEvent event := by decide
  refine ⟨fun event member => watchedEvent_spec (watched event member), rfl, by decide⟩

end Ethwasi.Gateway
