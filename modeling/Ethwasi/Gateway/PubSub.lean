import Mathlib.Data.Finset.Basic
import Mathlib.Logic.Function.Basic
import Ethwasi.Transition.Run
import Ethwasi.Transition.Spans
import Ethwasi.Gateway.Translator

/-!
# The pub/sub broker

The broker asks for the latest block at every tick and passes the blocks since the last one to
its listeners as one range. Heights come from the node and may be anything: they may stall, and
they may go back. Between two ticks listeners are added and dropped, and clients subscribe and
unsubscribe. Whatever happens, the ranges tile the chain, and a subscription that is there all the
time asks for the logs of every block in one query. A request for the latest block that fails
aborts the process, so it ends the run.

A listener is held by a weak reference: `handlers` has its handler as long as it is alive.
Subscriptions are kept in hash maps, so that a handler has one query for each subscription, in no
order. What a handler then fetches is fetched by tasks of its own.
-/

namespace Ethwasi.Gateway

open Ethwasi.Rust Ethwasi.Transition

/-- The identity of a listener. -/
abbrev ListenerId := Nat

/-- `SubscriptionId`. -/
abbrev SubscriptionId := Nat

/-- `ChainNotificationHandler`, by the subscribers that `notify_blocks` serves. -/
structure ChainNotificationHandler where
  headsSubscribers : Finset SubscriptionId
  logsSubscribers : SubscriptionId → Option Filter

/-- What one call of `notify_blocks` makes a handler do. -/
structure Notice where
  /-- The position of the listener in the list of the broker. -/
  registration : Nat
  fromBlock : Nat
  toBlock : Nat
  /-- The blocks whose headers are fetched. -/
  heads : List Nat
  /-- The log query of each subscription. -/
  queries : SubscriptionId → Option Filter

/-- The query of a log subscription for a range of blocks. -/
def limitRange (filter : Filter) (fromBlock toBlock : Nat) : Filter :=
  { filter with fromBlock := .number fromBlock, toBlock := .number toBlock }

namespace ChainNotificationHandler

/-- `EthPubSubClient::new`. -/
def new : ChainNotificationHandler := ⟨∅, fun _ => none⟩

/-- `notify_heads`: the rounds that are fetched. -/
def notifyHeads (handler : ChainNotificationHandler) (fromBlock toBlock : Nat) : List Nat :=
  if handler.headsSubscribers = ∅ then [] else (Span.mk fromBlock toBlock).points

/-- `notify_logs`: the queries that are made. -/
def notifyLogs (handler : ChainNotificationHandler) (fromBlock toBlock : Nat) :
    SubscriptionId → Option Filter :=
  fun id => (handler.logsSubscribers id).map fun filter => limitRange filter fromBlock toBlock

/-- `notify_blocks`. -/
def notifyBlocks (handler : ChainNotificationHandler) (registration fromBlock toBlock : Nat) :
    Notice :=
  ⟨registration, fromBlock, toBlock, handler.notifyHeads fromBlock toBlock,
    handler.notifyLogs fromBlock toBlock⟩

end ChainNotificationHandler

/-- `Broker`, with the listeners that are alive. -/
structure Broker where
  lastNotifiedBlock : Fin (2 ^ 64)
  listeners : List ListenerId
  handlers : ListenerId → Option ChainNotificationHandler

/-- What can happen between the broker, its listeners and its clients. -/
inductive BrokerInput where
  /-- A listener is created. -/
  | create (listener : ListenerId)
  | addListener (listener : ListenerId)
  /-- The last strong reference to a listener is dropped. -/
  | drop (listener : ListenerId)
  | subscribeHeads (listener : ListenerId) (id : SubscriptionId)
  | subscribeLogs (listener : ListenerId) (id : SubscriptionId) (filter : Filter)
  | unsubscribe (listener : ListenerId) (id : SubscriptionId)
  /-- The interval fires, with the answer to `get_latest_block`. -/
  | tick (latest : Except String (Fin (2 ^ 64)))

namespace Broker

/-- `Broker::new`. -/
def new : Broker := ⟨0, [], fun _ => none⟩

/-- `add_listener`. -/
def addListener (broker : Broker) (listener : ListenerId) : Broker :=
  { broker with listeners := broker.listeners ++ [listener] }

/-- Change the handler of a listener, if the listener is alive. -/
def modifyHandler (broker : Broker) (listener : ListenerId)
    (change : ChainNotificationHandler → ChainNotificationHandler) : Broker :=
  { broker with
    handlers := Function.update broker.handlers listener ((broker.handlers listener).map change) }

/-- The listeners that are told of new blocks. -/
def notifyAll (broker : Broker) (fromBlock toBlock : Nat) : List Notice :=
  broker.listeners.zipIdx.filterMap fun listener =>
    (broker.handlers listener.1).map fun handler =>
      handler.notifyBlocks listener.2 fromBlock toBlock

/-- One tick of `start`. -/
def tick (mode : OverflowMode) (broker : Broker) (latest : Except String (Fin (2 ^ 64))) :
    Outcome String (List Notice × Broker) := do
  let toBlock ← Outcome.ofExcept latest
  if toBlock ≤ broker.lastNotifiedBlock then return ([], broker)
  let fromBlock ← usizeAdd mode broker.lastNotifiedBlock 1
  return (broker.notifyAll fromBlock toBlock, { broker with lastNotifiedBlock := toBlock })

end Broker

/-- The broker and its listeners; a failed tick ends the process. -/
def brokerMachine (mode : OverflowMode) : Machine Broker BrokerInput (List Notice) :=
  fun broker input =>
    match input with
    | .create listener =>
      some ([], { broker with handlers := Function.update broker.handlers listener (some .new) })
    | .addListener listener => some ([], broker.addListener listener)
    | .drop listener =>
      some ([], { broker with handlers := Function.update broker.handlers listener none })
    | .subscribeHeads listener id =>
      some ([], broker.modifyHandler listener fun handler =>
        { handler with headsSubscribers := insert id handler.headsSubscribers })
    | .subscribeLogs listener id filter =>
      some ([], broker.modifyHandler listener fun handler =>
        { handler with
          logsSubscribers := Function.update handler.logsSubscribers id (some filter) })
    | .unsubscribe listener id =>
      some ([], broker.modifyHandler listener fun handler =>
        { headsSubscribers := handler.headsSubscribers.erase id
          logsSubscribers := Function.update handler.logsSubscribers id none })
    | .tick latest =>
      match broker.tick mode latest with
      | .ok answer => some answer
      | _ => none

/-- An event of the broker. -/
abbrev BrokerEvent := Event Broker BrokerInput (List Notice)

/-- The height that a tick reports. -/
def BrokerInput.reported : BrokerInput → Nat
  | .tick (.ok latest) => latest
  | _ => 0

/-- The greatest height reported. -/
def highest (events : List BrokerEvent) : Nat :=
  (events.map (·.input.reported)).foldl max 0

/-- The blocks that are new at an event. -/
def announced (event : BrokerEvent) : Option Span :=
  if event.before.lastNotifiedBlock.val < event.input.reported then
    some ⟨event.before.lastNotifiedBlock + 1, event.input.reported⟩
  else none

/-- The ranges that are passed to `notify_blocks` of the listener of a registration. -/
def rangesOf (registration : Nat) (events : List BrokerEvent) : List Span :=
  events.flatMap fun event =>
    (event.output.filter fun notice => notice.registration = registration).map fun notice =>
      ⟨notice.fromBlock, notice.toBlock⟩

/-- The log queries that a subscription makes with the listener of a registration. -/
def queriesOf (registration : Nat) (id : SubscriptionId) (events : List BrokerEvent) :
    List Filter :=
  events.flatMap fun event =>
    (event.output.filter fun notice => notice.registration = registration).filterMap fun notice =>
      notice.queries id

/-- The query asks for the logs of the block. -/
def Asks (query : Filter) (block : Nat) : Prop :=
  ∃ span : Span, query.fromBlock = .number span.first ∧ query.toBlock = .number span.last ∧
    span.Holds block

/-- What an event does. -/
inductive BrokerEffect (event : BrokerEvent) : Prop where
  /-- There is nothing new. -/
  | quiet (reported : event.input.reported ≤ event.before.lastNotifiedBlock)
      (output : event.output = [])
      (last : event.after.lastNotifiedBlock = event.before.lastNotifiedBlock)
      (listeners : event.before.listeners <+: event.after.listeners)
  /-- The listeners are told of new blocks. -/
  | told (ahead : event.before.lastNotifiedBlock.val < event.input.reported)
      (output : event.output = event.before.notifyAll (event.before.lastNotifiedBlock + 1)
        event.input.reported)
      (last : event.after.lastNotifiedBlock.val = event.input.reported)
      (listeners : event.after.listeners = event.before.listeners)

variable {mode : OverflowMode}

/-- The cursor plus one stays in its word when there is a greater height. -/
theorem tick_of_ok (mode : OverflowMode) (broker : Broker) (latest : Fin (2 ^ 64)) :
    broker.tick mode (.ok latest) =
      if latest ≤ broker.lastNotifiedBlock then .ok ([], broker)
      else .ok (broker.notifyAll (broker.lastNotifiedBlock + 1) latest,
        { broker with lastNotifiedBlock := latest }) := by
  unfold Broker.tick
  by_cases old : latest ≤ broker.lastNotifiedBlock
  · simp [Outcome.ofExcept, old]
  · have ahead : broker.lastNotifiedBlock.val < latest.val := Nat.not_le.mp old
    have fits : broker.lastNotifiedBlock.val + 1 < 2 ^ 64 := Nat.lt_of_le_of_lt ahead latest.isLt
    simp [Outcome.ofExcept, old, usizeAdd_of_lt fits]

/-- Every event has one of the effects. -/
theorem brokerEffect_of {event : BrokerEvent} (step : event.Of (brokerMachine mode)) :
    BrokerEffect event := by
  obtain ⟨before, input, output, after⟩ := event
  change brokerMachine mode before input = some (output, after) at step
  cases input with
  | create listener | drop listener =>
    cases step
    exact .quiet (Nat.zero_le _) rfl rfl (List.prefix_refl _)
  | addListener listener =>
    cases step
    exact .quiet (Nat.zero_le _) rfl rfl (List.prefix_append _ _)
  | subscribeHeads listener id | subscribeLogs listener id filter | unsubscribe listener id =>
    cases step
    exact .quiet (Nat.zero_le _) rfl rfl (List.prefix_refl _)
  | tick latest =>
    cases latest with
    | error message => cases step
    | ok latest =>
      simp only [brokerMachine, tick_of_ok] at step
      by_cases old : latest ≤ before.lastNotifiedBlock
      · simp only [if_pos old] at step
        cases step
        exact .quiet old rfl rfl (List.prefix_refl _)
      · simp only [if_neg old] at step
        cases step
        exact .told (Nat.not_le.mp old) rfl rfl rfl

/-- In a list made from numbered values, what has the number of a position is made from the value
there. -/
theorem filter_numbered {α β : Type} (make : α → Nat → Option β) (number : β → Nat)
    (numbered : ∀ value index made, make value index = some made → number made = index)
    (values : List α) (offset position : Nat) :
    ((values.zipIdx offset).filterMap fun value => make value.1 value.2).filter
        (fun made => number made = offset + position) =
      (values[position]?.bind fun value => make value (offset + position)).toList := by
  induction values generalizing offset position with
  | nil => rfl
  | cons value values ih =>
    rw [List.zipIdx_cons, List.filterMap_cons]
    cases position with
    | zero =>
      have noOther : ((values.zipIdx (offset + 1)).filterMap fun value =>
          make value.1 value.2).filter (fun made => number made = offset + 0) = [] := by
        rw [List.filter_eq_nil_iff]
        intro made member
        obtain ⟨later, placed, same⟩ := List.mem_filterMap.mp member
        have behind := List.le_snd_of_mem_zipIdx placed
        have here := numbered _ _ _ same
        simp only [decide_eq_true_eq]
        omega
      cases made : make value offset with
      | none => simpa [made] using noOther
      | some first =>
        have own : number first = offset + 0 := numbered _ _ _ made
        simp only [List.filter_cons, own, decide_true, if_true, noOther]
        simp [made]
    | succ position =>
      have shifted : offset + 1 + position = offset + (position + 1) := by omega
      have rest := ih (offset + 1) position
      rw [shifted] at rest
      cases made : make value offset with
      | none => simpa using rest
      | some first =>
        have other : ¬number first = offset + (position + 1) := by
          rw [numbered _ _ _ made]
          omega
        simpa [other] using rest

/-- What the broker tells the listener of a registration. -/
theorem filter_notifyAll (broker : Broker) (registration fromBlock toBlock : Nat) :
    (broker.notifyAll fromBlock toBlock).filter
        (fun notice => notice.registration = registration) =
      ((broker.listeners[registration]?.bind broker.handlers).map fun handler =>
        handler.notifyBlocks registration fromBlock toBlock).toList := by
  have numbered (listener : ListenerId) (index : Nat) (notice : Notice)
      (made : ((broker.handlers listener).map fun handler =>
        handler.notifyBlocks index fromBlock toBlock) = some notice) :
      notice.registration = index := by
    obtain ⟨handler, _, rfl⟩ := Option.map_eq_some_iff.mp made
    rfl
  have own := filter_numbered _ _ numbered broker.listeners 0 registration
  simp only [Nat.zero_add] at own
  rw [Broker.notifyAll, own, Option.map_bind]
  rfl

/-- At an event the listener of a registration is told of what is new, if it is alive. -/
theorem filter_output_of {event : BrokerEvent} (step : event.Of (brokerMachine mode))
    (registration : Nat) :
    event.output.filter (fun notice => notice.registration = registration) =
      ((announced event).bind fun span =>
        (event.before.listeners[registration]?.bind event.before.handlers).map fun handler =>
          handler.notifyBlocks registration span.first span.last).toList := by
  cases brokerEffect_of step with
  | quiet reported output last listeners =>
    rw [output, announced, if_neg (Nat.not_lt.mpr reported)]
    rfl
  | told ahead output last listeners =>
    rw [output, filter_notifyAll, announced, if_pos ahead]
    rfl

section Received

variable {events : List BrokerEvent} {registration : Nat}

/-- A listener that is registered and alive at every event is passed every new range. -/
theorem rangesOf_eq_announced (steps : ∀ event ∈ events, event.Of (brokerMachine mode))
    (alive : ∀ event ∈ events,
      (event.before.listeners[registration]?.bind event.before.handlers).isSome) :
    rangesOf registration events = events.filterMap announced := by
  rw [List.filterMap_eq_flatMap_toList]
  apply List.flatMap_congr
  intro event member
  obtain ⟨handler, found⟩ := Option.isSome_iff_exists.mp (alive event member)
  rw [filter_output_of (steps event member), found]
  cases announced event <;> rfl

/-- A subscription that is there at every event makes one query for every new range. -/
theorem queriesOf_eq_announced (steps : ∀ event ∈ events, event.Of (brokerMachine mode))
    {id : SubscriptionId} {filter : Filter}
    (subscribed : ∀ event ∈ events, ∃ handler,
      event.before.listeners[registration]?.bind event.before.handlers = some handler ∧
        handler.logsSubscribers id = some filter) :
    queriesOf registration id events =
      (events.filterMap announced).map fun span => limitRange filter span.first span.last := by
  rw [List.filterMap_eq_flatMap_toList, List.map_flatMap]
  apply List.flatMap_congr
  intro event member
  obtain ⟨handler, found, entry⟩ := subscribed event member
  rw [filter_output_of (steps event member), found]
  cases announced event with
  | none => rfl
  | some span =>
    simp [ChainNotificationHandler.notifyBlocks, ChainNotificationHandler.notifyLogs, entry]

end Received

/-- The ranges that are announced tile the blocks that the cursor passes. -/
theorem tiles_step (first : Nat) (past : List BrokerEvent) (event : BrokerEvent)
    (step : event.Of (brokerMachine mode))
    (held : Tiles first (past.filterMap announced) event.before.lastNotifiedBlock) :
    Tiles first ((past ++ [event]).filterMap announced) event.after.lastNotifiedBlock := by
  rw [List.filterMap_append]
  cases brokerEffect_of step with
  | quiet reported output last listeners =>
    have nothing : announced event = none := if_neg (Nat.not_lt.mpr reported)
    simpa only [last, List.filterMap_cons_none nothing, List.filterMap_nil, List.append_nil]
      using held
  | told ahead output last listeners =>
    have span : announced event =
        some ⟨event.before.lastNotifiedBlock + 1, event.input.reported⟩ := if_pos ahead
    rw [List.filterMap_cons_some span, List.filterMap_nil, last]
    exact held.snoc rfl ahead

theorem tiles_announced (mode : OverflowMode) (start : Broker) (inputs : List BrokerInput) :
    Tiles start.lastNotifiedBlock ((run (brokerMachine mode) start inputs).filterMap announced)
      (lastState start (run (brokerMachine mode) start inputs)).lastNotifiedBlock :=
  (run_history_always
    (fun past broker =>
      Tiles start.lastNotifiedBlock (past.filterMap announced) broker.lastNotifiedBlock)
    (tiles_step start.lastNotifiedBlock) (.nil _)).2

/-- The cursor is the greatest height so far. -/
theorem highest_step (past : List BrokerEvent) (event : BrokerEvent)
    (step : event.Of (brokerMachine mode))
    (held : highest past = event.before.lastNotifiedBlock) :
    highest (past ++ [event]) = event.after.lastNotifiedBlock := by
  have next : highest (past ++ [event]) = max (highest past) event.input.reported := by
    simp [highest, List.foldl_append]
  rw [next, held]
  cases brokerEffect_of step with
  | quiet reported output last listeners =>
    rw [last]
    exact Nat.max_eq_left reported
  | told ahead output last listeners =>
    rw [last]
    exact Nat.max_eq_right (Nat.le_of_lt ahead)

theorem highest_run (mode : OverflowMode) {start : Broker} (fresh : start.lastNotifiedBlock = 0)
    (inputs : List BrokerInput) :
    highest (run (brokerMachine mode) start inputs) =
      (lastState start (run (brokerMachine mode) start inputs)).lastNotifiedBlock :=
  (run_history_always (fun past broker => highest past = broker.lastNotifiedBlock) highest_step
    (by rw [fresh]; rfl)).2

/-- A broker that starts at the first block announces ranges up to the greatest height. -/
theorem tiles_run (mode : OverflowMode) {start : Broker} (fresh : start.lastNotifiedBlock = 0)
    (inputs : List BrokerInput) :
    Tiles 0 ((run (brokerMachine mode) start inputs).filterMap announced)
      (highest (run (brokerMachine mode) start inputs)) := by
  have tiles := tiles_announced mode start inputs
  rwa [fresh, ← highest_run mode fresh] at tiles

/-- Nothing is reported without a tick. -/
theorem highest_of_no_tick {events : List BrokerEvent}
    (silent : ∀ event ∈ events, ∀ latest, event.input ≠ .tick latest) : highest events = 0 := by
  have zero : events.map (·.input.reported) = List.replicate events.length 0 := by
    rw [List.eq_replicate_iff]
    refine ⟨List.length_map _, ?_⟩
    intro height member
    obtain ⟨event, inEvents, rfl⟩ := List.mem_map.mp member
    cases input : event.input with
    | tick latest => exact absurd input (silent event inEvents latest)
    | _ => rfl
  rw [highest, zero]
  induction events.length with
  | zero => rfl
  | succ count ih => exact ih

/-- Registrations are never taken back. -/
theorem listeners_prefix_step {event : BrokerEvent} (step : event.Of (brokerMachine mode)) :
    event.before.listeners <+: event.after.listeners := by
  cases brokerEffect_of step with
  | quiet reported output last listeners => exact listeners
  | told ahead output last listeners => rw [listeners]

theorem listeners_prefix_run (start : Broker) (inputs : List BrokerInput) :
    ∀ event ∈ run (brokerMachine mode) start inputs,
      start.listeners <+: event.before.listeners := by
  intro event member
  exact ((run_invariant (fun broker => start.listeners <+: broker.listeners)
    (fun _ step held => held.trans (listeners_prefix_step step))
    (List.prefix_refl _)).1 event member).1

/-- Once a listener is registered it stays registered. -/
theorem registered_run {start : Broker} {inputs : List BrokerInput} {registration : Nat}
    {listener : ListenerId} (registered : start.listeners[registration]? = some listener) :
    ∀ event ∈ run (brokerMachine mode) start inputs,
      event.before.listeners[registration]? = some listener := by
  intro event member
  obtain ⟨later, same⟩ := listeners_prefix_run start inputs event member
  obtain ⟨inside, _⟩ := List.getElem?_eq_some_iff.mp registered
  rw [← same, List.getElem?_append_left inside, registered]

/-- The handler that a registration reaches is that of its listener. -/
theorem handler_run {start : Broker} {inputs : List BrokerInput} {registration : Nat}
    {listener : ListenerId} (registered : start.listeners[registration]? = some listener) :
    ∀ event ∈ run (brokerMachine mode) start inputs,
      event.before.listeners[registration]?.bind event.before.handlers =
        event.before.handlers listener := by
  intro event member
  rw [registered_run registered event member]
  rfl

section Registered

variable {start : Broker} {inputs : List BrokerInput} {earlier later : List BrokerEvent}
  {event : BrokerEvent} {listener : ListenerId}

/-- A listener is added behind those that are there. -/
theorem listeners_of_addListener (step : event.Of (brokerMachine mode))
    (added : event.input = .addListener listener) :
    event.after = event.before.addListener listener := by
  obtain ⟨before, input, output, after⟩ := event
  cases added
  change brokerMachine mode before (.addListener listener) = some (output, after) at step
  cases step
  rfl

/-- Nothing is passed to a registration before it is made. -/
theorem filter_output_before
    (split : run (brokerMachine mode) start inputs = earlier ++ event :: later) :
    ∀ past ∈ earlier ++ [event], past.output.filter
      (fun notice => notice.registration = event.before.listeners.length) = [] := by
  have growing (events : List BrokerEvent) (next : BrokerEvent)
      (step : next.Of (brokerMachine mode)) (_ : True)
      (held : ∀ past ∈ events, past.before.listeners <+: next.before.listeners) :
      ∀ past ∈ events ++ [next], past.before.listeners <+: next.after.listeners := by
    intro past member
    rcases List.mem_append.mp member with before | last
    · exact (held past before).trans (listeners_prefix_step step)
    · rw [List.mem_singleton.mp last]
      exact listeners_prefix_step step
  have grown := (run_history (fun _ => True)
    (fun events broker => ∀ past ∈ events, past.before.listeners <+: Broker.listeners broker)
    growing [] (by simp) (fun _ _ => trivial)).1 earlier event later split
  intro past member
  have step : past.Of (brokerMachine mode) := by
    apply @of_mem_run _ _ _ _ start inputs
    rw [split, ← List.singleton_append, ← List.append_assoc]
    exact List.mem_append_left _ member
  have absent : past.before.listeners[event.before.listeners.length]? = none := by
    rw [List.getElem?_eq_none_iff]
    rcases List.mem_append.mp member with before | last
    · exact (grown past before).length_le
    · rw [List.mem_singleton.mp last]
  rw [filter_output_of step, absent]
  cases announced past <;> rfl

/-- The registration of a listener that is added reaches its handler from then on. -/
theorem handler_after
    (split : run (brokerMachine mode) start inputs = earlier ++ event :: later)
    (added : event.input = .addListener listener) :
    ∀ after ∈ later, after.before.listeners[event.before.listeners.length]?.bind
      after.before.handlers = after.before.handlers listener := by
  have step : event.Of (brokerMachine mode) :=
    of_mem_run (by rw [split]; simp : event ∈ run (brokerMachine mode) start inputs)
  have registered : event.after.listeners[event.before.listeners.length]? = some listener := by
    rw [listeners_of_addListener step added]
    exact List.getElem?_concat_length
  rw [run_after split]
  exact handler_run registered

/-- Every event after a listener was added is a step. -/
theorem steps_after (split : run (brokerMachine mode) start inputs = earlier ++ event :: later) :
    ∀ after ∈ later, after.Of (brokerMachine mode) := by
  intro after member
  rw [run_after split] at member
  exact of_mem_run member

/-- A listener that is added, and stays alive, is passed exactly the ranges that are announced
from then on. -/
theorem rangesOf_added
    (split : run (brokerMachine mode) start inputs = earlier ++ event :: later)
    (added : event.input = .addListener listener)
    (alive : ∀ after ∈ later, (after.before.handlers listener).isSome) :
    rangesOf event.before.listeners.length (earlier ++ event :: later) =
      later.filterMap announced := by
  have nothing : rangesOf event.before.listeners.length (earlier ++ [event]) = [] := by
    rw [rangesOf, List.flatMap_eq_nil_iff]
    intro past member
    rw [filter_output_before split past member, List.map_nil]
  have received := rangesOf_eq_announced (steps_after split) (by
    intro after member
    rw [handler_after split added after member]
    exact alive after member)
  rw [← List.singleton_append, ← List.append_assoc, rangesOf, List.flatMap_append, ← rangesOf,
    ← rangesOf, nothing, received, List.nil_append]

/-- A log subscription with such a listener that is there from then on asks for these ranges. -/
theorem queriesOf_added
    (split : run (brokerMachine mode) start inputs = earlier ++ event :: later)
    (added : event.input = .addListener listener) {id : SubscriptionId} {filter : Filter}
    (subscribed : ∀ after ∈ later, ∃ handler, after.before.handlers listener = some handler ∧
      handler.logsSubscribers id = some filter) :
    queriesOf event.before.listeners.length id (earlier ++ event :: later) =
      (later.filterMap announced).map fun span => limitRange filter span.first span.last := by
  have nothing : queriesOf event.before.listeners.length id (earlier ++ [event]) = [] := by
    rw [queriesOf, List.flatMap_eq_nil_iff]
    intro past member
    rw [filter_output_before split past member, List.filterMap_nil]
  have asked := queriesOf_eq_announced (steps_after split) (by
    intro after member
    rw [handler_after split added after member]
    exact subscribed after member)
  rw [← List.singleton_append, ← List.append_assoc, queriesOf, List.flatMap_append, ← queriesOf,
    ← queriesOf, nothing, asked, List.nil_append]

/-- What is announced after a listener was added tiles the blocks that are new since then. -/
theorem tiles_added (fresh : start.lastNotifiedBlock = 0)
    (split : run (brokerMachine mode) start inputs = earlier ++ event :: later)
    (added : event.input = .addListener listener) :
    Tiles (highest earlier) (later.filterMap announced)
      (highest (earlier ++ event :: later)) := by
  have step : event.Of (brokerMachine mode) :=
    of_mem_run (by rw [split]; simp : event ∈ run (brokerMachine mode) start inputs)
  have cursor : highest earlier = event.before.lastNotifiedBlock :=
    (run_history (fun _ => True) (fun past broker => highest past = broker.lastNotifiedBlock)
      (fun past event step _ => highest_step past event step) [] (by rw [fresh]; rfl)
      (fun _ _ => trivial)).1 earlier event later split
  have kept : event.after.lastNotifiedBlock = event.before.lastNotifiedBlock := by
    rw [listeners_of_addListener step added]
    rfl
  have last : lastState start (earlier ++ event :: later) = lastState event.after later :=
    lastState_append start earlier (event :: later)
  have top := highest_run mode fresh inputs
  have tiles := tiles_announced mode event.after (inputs.drop (earlier.length + 1))
  rw [split, last] at top
  rwa [← run_after split, kept, ← cursor, ← top] at tiles

end Registered

/-- A tick whose request for the latest block fails. -/
def BrokerInput.Fails (input : BrokerInput) : Prop := ∃ message, input = .tick (.error message)

/-- Whatever does not fail is answered. -/
theorem brokerMachine_answers (broker : Broker) {input : BrokerInput} (works : ¬input.Fails) :
    ∃ output next, brokerMachine mode broker input = some (output, next) := by
  cases input with
  | tick latest =>
    cases latest with
    | error message => exact absurd ⟨message, rfl⟩ works
    | ok latest =>
      simp only [brokerMachine, tick_of_ok]
      by_cases old : latest ≤ broker.lastNotifiedBlock
      · rw [if_pos old]
        exact ⟨_, _, rfl⟩
      · rw [if_neg old]
        exact ⟨_, _, rfl⟩
  | create listener => exact ⟨_, _, rfl⟩
  | addListener listener => exact ⟨_, _, rfl⟩
  | drop listener => exact ⟨_, _, rfl⟩
  | subscribeHeads listener id => exact ⟨_, _, rfl⟩
  | subscribeLogs listener id filter => exact ⟨_, _, rfl⟩
  | unsubscribe listener id => exact ⟨_, _, rfl⟩

/-- The query of a range asks for the blocks of the range. -/
theorem asks_limitRange {filter : Filter} {span : Span} {block : Nat} :
    Asks (limitRange filter span.first span.last) block ↔ span.Holds block := by
  constructor
  · rintro ⟨⟨first, last⟩, sameFirst, sameLast, held⟩
    cases sameFirst
    cases sameLast
    exact held
  · intro held
    exact ⟨span, rfl, rfl, held⟩

/-- The queries for ranges that tile the chain ask for each block once. -/
theorem existsUnique_asks {spans : List Span} {start stop : Nat} (tiles : Tiles start spans stop)
    (filter : Filter) {block : Nat} (after : start < block) (upTo : block ≤ stop) :
    ∃! index : Nat, ∃ query,
      (spans.map fun span => limitRange filter span.first span.last)[index]? = some query ∧
        Asks query block := by
  obtain ⟨index, ⟨span, found, held⟩, unique⟩ := tiles.existsUnique after upTo
  refine ⟨index, ⟨_, by rw [List.getElem?_map, found]; rfl, asks_limitRange.mpr held⟩, ?_⟩
  rintro other ⟨query, there, asks⟩
  rw [List.getElem?_map, Option.map_eq_some_iff] at there
  obtain ⟨otherSpan, otherFound, rfl⟩ := there
  exact unique other ⟨otherSpan, otherFound, asks_limitRange.mp asks⟩

/-- The broker covers the chain without gap or overlap, in any order of ticks, registrations and
subscriptions. It stops only when a request for the latest block fails: the cursor plus one never
overflows. A listener that is added and stays alive is passed exactly the ranges that are announced
from then on, and they tile the blocks from the greatest height reported before to the greatest
height reported at all: before the first tick, all blocks from one on. A log subscription with it
that is there all the time makes its query for each of these ranges, and so asks for each block in
exactly one query. A listener that is added later is passed a suffix of the same ranges. -/
theorem broker_covers_chain (mode : OverflowMode) (inputs : List BrokerInput)
    (events : List BrokerEvent) (ran : run (brokerMachine mode) .new inputs = events) :
    ((∀ input ∈ inputs, ¬input.Fails) → events.length = inputs.length) ∧
    ∀ earlier event later listener, events = earlier ++ event :: later →
      event.input = .addListener listener →
      (∀ after ∈ later, (after.before.handlers listener).isSome) →
      let registration := event.before.listeners.length
      let ranges := rangesOf registration events
      ranges = later.filterMap announced ∧
      Tiles (highest earlier) ranges (highest events) ∧
      ranges.flatMap Span.points =
        List.range' (highest earlier + 1) (highest events - highest earlier) ∧
      ((∀ past ∈ earlier, ∀ latest, past.input ≠ .tick latest) →
        Tiles 0 ranges (highest events) ∧
          ranges.flatMap Span.points = List.range' 1 (highest events)) ∧
      (∀ id filter,
        (∀ after ∈ later, ∃ handler, after.before.handlers listener = some handler ∧
          handler.logsSubscribers id = some filter) →
        queriesOf registration id events =
            ranges.map (fun span => limitRange filter span.first span.last) ∧
          ∀ block, highest earlier < block → block ≤ highest events →
            ∃! index : Nat, ∃ query, (queriesOf registration id events)[index]? = some query ∧
              Asks query block) ∧
      ∀ between next rest other, later = between ++ next :: rest →
        next.input = .addListener other →
        (∀ after ∈ rest, (after.before.handlers other).isSome) →
        rangesOf next.before.listeners.length events <:+ ranges := by
  constructor
  · intro works
    rw [← ran]
    exact run_complete (fun input => ¬input.Fails) (fun _ => True)
      (fun broker input answers _ => by
        obtain ⟨output, next, stepped⟩ := brokerMachine_answers broker answers
        exact ⟨output, next, stepped, trivial⟩) trivial works
  intro earlier event later listener split added alive registration ranges
  subst split
  have received : ranges = later.filterMap announced := rangesOf_added ran added alive
  have tiles : Tiles (highest earlier) ranges (highest (earlier ++ event :: later)) := by
    rw [received]
    exact tiles_added rfl ran added
  refine ⟨received, tiles, tiles.points, ?_, ?_, ?_⟩
  · intro first
    have bottom : highest earlier = 0 := highest_of_no_tick first
    rw [bottom] at tiles
    exact ⟨tiles, tiles.points⟩
  · intro id filter subscribed
    have asked : queriesOf registration id (earlier ++ event :: later) =
        ranges.map fun span => limitRange filter span.first span.last := by
      rw [received]
      exact queriesOf_added ran added subscribed
    refine ⟨asked, ?_⟩
    intro block after upTo
    rw [asked]
    exact existsUnique_asks tiles filter after upTo
  · intro between next rest other laterSplit otherAdded otherAlive
    subst laterSplit
    have whole : earlier ++ event :: (between ++ next :: rest) =
        (earlier ++ event :: between) ++ next :: rest := by simp
    rw [received, whole, rangesOf_added (ran.trans whole) otherAdded otherAlive,
      List.filterMap_append, ← List.singleton_append, List.filterMap_append, ← List.append_assoc]
    exact List.suffix_append _ _

/-- A tick at which the node reports the height. -/
def BrokerInput.tickAt (height : Nat) : BrokerInput := .tick (.ok (Fin.ofNat (2 ^ 64) height))

/-- A listener before the first tick, a stall, an older head, and a second listener before the last
tick. -/
def sampleTicks : List BrokerInput :=
  [.create 1, .addListener 1, .tickAt 3, .tickAt 3, .tickAt 1, .create 2, .addListener 2,
    .tickAt 5]

/-- The first listener is passed the blocks from one to five, the second the last two. -/
theorem sample_ticks_cover :
    (rangesOf 0 (run (brokerMachine .checked) .new sampleTicks)).flatMap Span.points =
        [1, 2, 3, 4, 5] ∧
      rangesOf 1 (run (brokerMachine .checked) .new sampleTicks) = [⟨4, 5⟩] := by
  have covers := (broker_covers_chain .checked sampleTicks _ rfl).2
  obtain ⟨_, _, _, first, _⟩ := covers
    ((run (brokerMachine .checked) .new sampleTicks).take 1) _
    ((run (brokerMachine .checked) .new sampleTicks).drop 2) 1 rfl rfl (by decide)
  obtain ⟨second, _⟩ := covers
    ((run (brokerMachine .checked) .new sampleTicks).take 6) _
    ((run (brokerMachine .checked) .new sampleTicks).drop 7) 2 rfl rfl (by decide)
  have silent : ∀ past ∈ (run (brokerMachine .checked) .new sampleTicks).take 1, ∀ latest,
      past.input ≠ .tick latest := by
    intro past member latest
    cases List.mem_singleton.mp member
    exact BrokerInput.noConfusion
  exact ⟨(first silent).2, second⟩

end Ethwasi.Gateway
