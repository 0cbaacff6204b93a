import Ethwasi.Transition.Standing
import Ethwasi.Transition.Tasks
import Ethwasi.Gateway.PubSub

/-!
# Subscriptions

A client subscribes with a kind and parameters that must fit it, and keeps its subscriptions in
three tables, of which the handler that it registers with the broker uses two: nothing is ever sent
for a completed transaction, although a subscription to them is accepted. Each table gives the ids
of its own subscriptions, and nothing is assumed of them: an id may stand in several tables, and to
unsubscribe removes it from all of them.

The clients and the broker together refine the broker alone, for which a subscription is a change
of a handler. What a tick then serves is told by the requests before it.
-/

namespace Ethwasi.Gateway

open Ethwasi.Rust Ethwasi.Transition

variable {τ : Type}

/-- `pubsub::Kind`. -/
inductive Kind where
  | newHeads
  | logs
  | newPendingTransactions
  | completedTransaction
  /-- Any kind that `subscribe` does not name. -/
  | other
  deriving DecidableEq

/-- `pubsub::Params`, over the filters of completed transactions. -/
inductive Params (τ : Type) where
  | logs (filter : Filter)
  | transaction (filter : τ)
  /-- Any parameters that `subscribe` does not name. -/
  | other

/-- `Subscriber`, with the id that is drawn for it. -/
structure Subscriber where
  id : SubscriptionId
  /-- The subscriber is still there to be assigned the id. -/
  present : Bool

/-- The errors of `subscribe`, by the arguments they are made with. -/
inductive SubscribeError where
  | invalidParams (param details : String)
  | unimplemented (details : Option String)
  deriving DecidableEq

/-- `EthPubSubClient`, by its subscribers. -/
structure EthPubSubClient (τ : Type) where
  headsSubscribers : Finset SubscriptionId
  logsSubscribers : SubscriptionId → Option Filter
  txSubscribers : SubscriptionId → Option τ

/-- `push` of a table whose subscribers have a value. -/
def Subscriber.push {β : Type} (subscriber : Subscriber) (table : SubscriptionId → Option β)
    (value : β) : SubscriptionId → Option β :=
  if subscriber.present then Function.update table subscriber.id (some value) else table

namespace EthPubSubClient

/-- `EthPubSubClient::new`. -/
def new : EthPubSubClient τ := ⟨∅, fun _ => none, fun _ => none⟩

/-- `handler`: what the handler shares with the client and looks at. -/
def handler (client : EthPubSubClient τ) : ChainNotificationHandler :=
  ⟨client.headsSubscribers, client.logsSubscribers⟩

/-- `subscribe`. -/
def subscribe (client : EthPubSubClient τ) (subscriber : Subscriber) :
    Kind → Option (Params τ) → Except SubscribeError (EthPubSubClient τ)
  | .newHeads, none =>
    .ok { client with
      headsSubscribers :=
        if subscriber.present then insert subscriber.id client.headsSubscribers
        else client.headsSubscribers }
  | .newHeads, some _ => .error (.invalidParams "newHeads" "Expected no parameters.")
  | .logs, some (.logs filter) =>
    .ok { client with logsSubscribers := subscriber.push client.logsSubscribers filter }
  | .logs, _ => .error (.invalidParams "logs" "Expected a filter object.")
  | .completedTransaction, some (.transaction filter) =>
    .ok { client with txSubscribers := subscriber.push client.txSubscribers filter }
  | .newPendingTransactions, _ => .error (.unimplemented none)
  | _, _ => .error (.unimplemented none)

/-- `unsubscribe`. -/
def unsubscribe (client : EthPubSubClient τ) (id : SubscriptionId) : Bool × EthPubSubClient τ :=
  let res := decide (id ∈ client.headsSubscribers)
  let res2 := (client.logsSubscribers id).isSome
  let res3 := (client.txSubscribers id).isSome
  (res || res2 || res3,
    { headsSubscribers := client.headsSubscribers.erase id
      logsSubscribers := Function.update client.logsSubscribers id none
      txSubscribers := Function.update client.txSubscribers id none })

end EthPubSubClient

/-- The broker with the clients whose handlers are its listeners. -/
structure PubSubServer (τ : Type) where
  lastNotifiedBlock : Fin (2 ^ 64)
  listeners : List ListenerId
  clients : ListenerId → Option (EthPubSubClient τ)

/-- What the broker sees. -/
def PubSubServer.broker (server : PubSubServer τ) : Broker :=
  ⟨server.lastNotifiedBlock, server.listeners,
    fun listener => (server.clients listener).map EthPubSubClient.handler⟩

/-- What can happen between the broker, the clients and those who call them. -/
inductive PubSubInput (τ : Type) where
  /-- A client is created. -/
  | create (listener : ListenerId)
  /-- The handler of a client is added to the broker. -/
  | addListener (listener : ListenerId)
  /-- A client is dropped. -/
  | drop (listener : ListenerId)
  | subscribe (listener : ListenerId) (subscriber : Subscriber) (kind : Kind)
      (params : Option (Params τ))
  | unsubscribe (listener : ListenerId) (id : SubscriptionId)
  /-- The interval of the broker fires. -/
  | tick (latest : Except String (Fin (2 ^ 64)))

/-- What comes of it. -/
inductive PubSubOutput where
  | done
  | subscribed
  | rejected (error : SubscribeError)
  | unsubscribed (found : Bool)
  | told (notices : List Notice)

/-- The server after a change of a client. -/
def PubSubServer.setClient (server : PubSubServer τ) (listener : ListenerId)
    (client : Option (EthPubSubClient τ)) : PubSubServer τ :=
  { server with clients := Function.update server.clients listener client }

/-- The broker with its clients; a call needs a client, and a failed tick ends the process. -/
def pubsubMachine (mode : OverflowMode) : Machine (PubSubServer τ) (PubSubInput τ) PubSubOutput :=
  fun server input =>
    match input with
    | .create listener => some (.done, server.setClient listener (some .new))
    | .addListener listener =>
      some (.done, { server with listeners := server.listeners ++ [listener] })
    | .drop listener => some (.done, server.setClient listener none)
    | .subscribe listener subscriber kind params =>
      (server.clients listener).map fun client =>
        match client.subscribe subscriber kind params with
        | .ok client => (.subscribed, server.setClient listener (some client))
        | .error error => (.rejected error, server)
    | .unsubscribe listener id =>
      (server.clients listener).map fun client =>
        (.unsubscribed (client.unsubscribe id).1,
          server.setClient listener (some (client.unsubscribe id).2))
    | .tick latest =>
      match server.broker.tick mode latest with
      | .ok (notices, broker) =>
        some (.told notices, { server with lastNotifiedBlock := broker.lastNotifiedBlock })
      | _ => none

/-- An event of the broker with its clients. -/
abbrev PubSubEvent (τ : Type) := Event (PubSubServer τ) (PubSubInput τ) PubSubOutput

/-- What a request is to the broker. -/
def PubSubInput.toBroker : PubSubInput τ → Option BrokerInput
  | .create listener => some (.create listener)
  | .addListener listener => some (.addListener listener)
  | .drop listener => some (.drop listener)
  | .subscribe listener ⟨id, true⟩ .newHeads none => some (.subscribeHeads listener id)
  | .subscribe listener ⟨id, true⟩ .logs (some (.logs filter)) =>
    some (.subscribeLogs listener id filter)
  | .subscribe _ _ _ _ => none
  | .unsubscribe listener id => some (.unsubscribe listener id)
  | .tick latest => some (.tick latest)

/-- The notices of an event. -/
def PubSubOutput.notices : PubSubOutput → List Notice
  | .told notices => notices
  | _ => []

/-- What an event is to the broker. -/
def brokerView (event : PubSubEvent τ) : Option BrokerEvent :=
  event.input.toBroker.map fun input =>
    ⟨event.before.broker, input, event.output.notices, event.after.broker⟩

/-- The parameters fit the kind. -/
def Fits : Kind → Option (Params τ) → Prop
  | .newHeads, none => True
  | .logs, some (.logs _) => True
  | .completedTransaction, some (.transaction _) => True
  | _, _ => False

/-- What an event does. -/
inductive PubSubEffect (mode : OverflowMode) (event : PubSubEvent τ) : Prop where
  | created (listener : ListenerId) (isInput : event.input = .create listener)
      (output : event.output = .done)
      (after : event.after = event.before.setClient listener (some .new))
  | registered (listener : ListenerId) (isInput : event.input = .addListener listener)
      (output : event.output = .done)
      (after : event.after =
        { event.before with listeners := event.before.listeners ++ [listener] })
  | dropped (listener : ListenerId) (isInput : event.input = .drop listener)
      (output : event.output = .done) (after : event.after = event.before.setClient listener none)
  | heads (listener : ListenerId) (id : SubscriptionId) (client : EthPubSubClient τ)
      (isInput : event.input = .subscribe listener ⟨id, true⟩ .newHeads none)
      (found : event.before.clients listener = some client) (output : event.output = .subscribed)
      (after : event.after = event.before.setClient listener
        (some { client with headsSubscribers := insert id client.headsSubscribers }))
  | logs (listener : ListenerId) (id : SubscriptionId) (filter : Filter)
      (client : EthPubSubClient τ)
      (isInput : event.input = .subscribe listener ⟨id, true⟩ .logs (some (.logs filter)))
      (found : event.before.clients listener = some client) (output : event.output = .subscribed)
      (after : event.after = event.before.setClient listener
        (some { client with
          logsSubscribers := Function.update client.logsSubscribers id (some filter) }))
  | transactions (listener : ListenerId) (id : SubscriptionId) (filter : τ)
      (client : EthPubSubClient τ)
      (isInput : event.input =
        .subscribe listener ⟨id, true⟩ .completedTransaction (some (.transaction filter)))
      (found : event.before.clients listener = some client) (output : event.output = .subscribed)
      (after : event.after = event.before.setClient listener
        (some { client with
          txSubscribers := Function.update client.txSubscribers id (some filter) }))
  /-- The subscription is rejected, or the subscriber is gone. -/
  | idle (listener : ListenerId) (subscriber : Subscriber) (kind : Kind)
      (params : Option (Params τ))
      (isInput : event.input = .subscribe listener subscriber kind params)
      (silent : ¬(subscriber.present = true ∧ Fits kind params))
      (output : event.output.notices = []) (after : event.after = event.before)
  | unsubscribed (listener : ListenerId) (id : SubscriptionId) (client : EthPubSubClient τ)
      (isInput : event.input = .unsubscribe listener id)
      (found : event.before.clients listener = some client)
      (output : event.output = .unsubscribed (client.unsubscribe id).1)
      (after : event.after = event.before.setClient listener (some (client.unsubscribe id).2))
  | ticked (latest : Except String (Fin (2 ^ 64))) (notices : List Notice)
      (isInput : event.input = .tick latest) (output : event.output = .told notices)
      (step : Event.Of (brokerMachine mode)
        ⟨event.before.broker, .tick latest, notices, event.after.broker⟩)
      (clients : event.after.clients = event.before.clients)

variable {mode : OverflowMode}

theorem setClient_self {server : PubSubServer τ} {listener : ListenerId}
    {client : EthPubSubClient τ} (found : server.clients listener = some client) :
    server.setClient listener (some client) = server := by
  rw [PubSubServer.setClient, ← found, Function.update_eq_self]

/-- A tick moves the cursor and nothing else. -/
theorem after_of_tick {broker next : Broker} {latest : Except String (Fin (2 ^ 64))}
    {notices : List Notice} (ticked : broker.tick mode latest = .ok (notices, next)) :
    next = { broker with lastNotifiedBlock := next.lastNotifiedBlock } := by
  cases latest with
  | error message => cases ticked
  | ok latest =>
    rw [tick_of_ok] at ticked
    split at ticked
    · cases ticked
      rfl
    · cases ticked
      rfl

theorem fits_cases {kind : Kind} {params : Option (Params τ)} (fits : Fits kind params) :
    kind = .newHeads ∧ params = none ∨
      (∃ filter, kind = .logs ∧ params = some (.logs filter)) ∨
      ∃ filter, kind = .completedTransaction ∧ params = some (.transaction filter) := by
  unfold Fits at fits
  split at fits
  · exact .inl ⟨rfl, rfl⟩
  · exact .inr (.inl ⟨_, rfl, rfl⟩)
  · exact .inr (.inr ⟨_, rfl, rfl⟩)
  · exact fits.elim

/-- Parameters that do not fit the kind are rejected. -/
theorem subscribe_of_unfit {kind : Kind} {params : Option (Params τ)} (unfit : ¬Fits kind params)
    (client : EthPubSubClient τ) (subscriber : Subscriber) :
    ∃ error, client.subscribe subscriber kind params = .error error := by
  unfold EthPubSubClient.subscribe
  split
  · exact absurd trivial unfit
  · exact ⟨_, rfl⟩
  · exact absurd trivial unfit
  · exact ⟨_, rfl⟩
  · exact absurd trivial unfit
  · exact ⟨_, rfl⟩
  · exact ⟨_, rfl⟩

/-- A call to `subscribe` puts a subscription into the table of its kind, or it changes nothing. -/
theorem subscribe_cases (client : EthPubSubClient τ) (subscriber : Subscriber) (kind : Kind)
    (params : Option (Params τ)) :
    (subscriber.present = true ∧ kind = .newHeads ∧ params = none ∧
      client.subscribe subscriber kind params = .ok { client with
        headsSubscribers := insert subscriber.id client.headsSubscribers }) ∨
    (∃ filter, subscriber.present = true ∧ kind = .logs ∧ params = some (.logs filter) ∧
      client.subscribe subscriber kind params = .ok { client with
        logsSubscribers :=
          Function.update client.logsSubscribers subscriber.id (some filter) }) ∨
    (∃ filter, subscriber.present = true ∧ kind = .completedTransaction ∧
      params = some (.transaction filter) ∧
      client.subscribe subscriber kind params = .ok { client with
        txSubscribers := Function.update client.txSubscribers subscriber.id (some filter) }) ∨
    ¬(subscriber.present = true ∧ Fits kind params) ∧
      (client.subscribe subscriber kind params = .ok client ∨
        ∃ error, client.subscribe subscriber kind params = .error error) := by
  obtain ⟨id, present⟩ := subscriber
  by_cases fits : Fits kind params
  · cases present with
    | false =>
      refine .inr (.inr (.inr ⟨by simp, .inl ?_⟩))
      rcases fits_cases fits with ⟨rfl, rfl⟩ | ⟨filter, rfl, rfl⟩ | ⟨filter, rfl, rfl⟩
      · rfl
      · rfl
      · rfl
    | true =>
      rcases fits_cases fits with ⟨rfl, rfl⟩ | ⟨filter, rfl, rfl⟩ | ⟨filter, rfl, rfl⟩
      · exact .inl ⟨rfl, rfl, rfl, rfl⟩
      · exact .inr (.inl ⟨filter, rfl, rfl, rfl, rfl⟩)
      · exact .inr (.inr (.inl ⟨filter, rfl, rfl, rfl, rfl⟩))
  · exact .inr (.inr (.inr ⟨fun both => fits both.2, .inr (subscribe_of_unfit fits _ _)⟩))

/-- Every event has one of the effects. -/
theorem pubsubEffect_of {event : PubSubEvent τ} (step : event.Of (pubsubMachine mode)) :
    PubSubEffect mode event := by
  obtain ⟨before, input, output, after⟩ := event
  change pubsubMachine mode before input = some (output, after) at step
  cases input with
  | create listener =>
    cases step
    exact .created listener rfl rfl rfl
  | addListener listener =>
    cases step
    exact .registered listener rfl rfl rfl
  | drop listener =>
    cases step
    exact .dropped listener rfl rfl rfl
  | subscribe listener subscriber kind params =>
    obtain ⟨client, found, same⟩ := Option.map_eq_some_iff.mp step
    obtain ⟨id, present⟩ := subscriber
    rcases subscribe_cases client ⟨id, present⟩ kind params with ⟨rfl, rfl, rfl, result⟩ |
      ⟨filter, rfl, rfl, rfl, result⟩ | ⟨filter, rfl, rfl, rfl, result⟩ |
      ⟨silent, result | ⟨error, result⟩⟩
    · cases same
      exact .heads listener id client rfl found rfl rfl
    · cases same
      exact .logs listener id filter client rfl found rfl rfl
    · cases same
      exact .transactions listener id filter client rfl found rfl rfl
    · rw [result] at same
      cases same
      exact .idle listener _ kind params rfl silent rfl (setClient_self found)
    · rw [result] at same
      cases same
      exact .idle listener _ kind params rfl silent rfl rfl
  | unsubscribe listener id =>
    obtain ⟨client, found, same⟩ := Option.map_eq_some_iff.mp step
    cases same
    exact .unsubscribed listener id client rfl found rfl rfl
  | tick latest =>
    simp only [pubsubMachine] at step
    split at step
    · rename_i notices broker ticked
      cases step
      refine .ticked latest notices rfl rfl ?_ rfl
      simp only [Event.Of, brokerMachine, ticked, Option.some.injEq, Prod.mk.injEq, true_and]
      exact after_of_tick ticked
    · cases step

/-- A changed client is a changed handler. -/
theorem broker_setClient (server : PubSubServer τ) (listener : ListenerId)
    (client : Option (EthPubSubClient τ)) :
    (server.setClient listener client).broker =
      { server.broker with
        handlers := Function.update server.broker.handlers listener
          (client.map EthPubSubClient.handler) } := by
  unfold PubSubServer.setClient PubSubServer.broker
  congr 1
  funext other
  by_cases same : other = listener
  · subst same
    simp
  · simp [same]

theorem toBroker_of_silent {listener : ListenerId} {subscriber : Subscriber} {kind : Kind}
    {params : Option (Params τ)} (silent : ¬(subscriber.present = true ∧ Fits kind params)) :
    (PubSubInput.subscribe listener subscriber kind params).toBroker = none := by
  unfold PubSubInput.toBroker
  split <;> simp_all [Fits]

section Refinement

variable {event : PubSubEvent τ}

/-- A request that the broker takes is a step of it. -/
theorem inner_of_shown {input : BrokerInput} (isInput : event.input.toBroker = some input)
    (stepped : brokerMachine mode event.before.broker input =
      some (event.output.notices, event.after.broker)) :
    Inner (brokerMachine mode) PubSubServer.broker brokerView event := by
  refine ⟨fun other same => ?_, by simp [brokerView, isInput]⟩
  rw [brokerView, isInput] at same
  cases same
  exact ⟨stepped, rfl, rfl⟩

/-- Any other request leaves the broker as it is. -/
theorem inner_of_hidden (isInput : event.input.toBroker = none)
    (stays : event.after.broker = event.before.broker) :
    Inner (brokerMachine mode) PubSubServer.broker brokerView event :=
  ⟨by simp [brokerView, isInput], fun _ => stays⟩

/-- The clients and the broker refine the broker. -/
theorem brokerView_inner (step : event.Of (pubsubMachine mode)) :
    Inner (brokerMachine mode) PubSubServer.broker brokerView event := by
  cases pubsubEffect_of step with
  | created listener isInput output after =>
    refine inner_of_shown (by rw [isInput]; rfl) ?_
    rw [after, broker_setClient, output]
    rfl
  | registered listener isInput output after =>
    refine inner_of_shown (by rw [isInput]; rfl) ?_
    rw [after, output]
    rfl
  | dropped listener isInput output after =>
    refine inner_of_shown (by rw [isInput]; rfl) ?_
    rw [after, broker_setClient, output]
    rfl
  | heads listener id client isInput found output after =>
    refine inner_of_shown (by rw [isInput]; rfl) ?_
    rw [after, broker_setClient, output]
    simp only [brokerMachine, Broker.modifyHandler, PubSubServer.broker, found]
    rfl
  | logs listener id filter client isInput found output after =>
    refine inner_of_shown (by rw [isInput]; rfl) ?_
    rw [after, broker_setClient, output]
    simp only [brokerMachine, Broker.modifyHandler, PubSubServer.broker, found]
    rfl
  | transactions listener id filter client isInput found output after =>
    refine inner_of_hidden (by rw [isInput]; rfl) ?_
    have handler : (some { client with
        txSubscribers := Function.update client.txSubscribers id (some filter) }).map
          EthPubSubClient.handler = event.before.broker.handlers listener := by
      simp only [PubSubServer.broker, found]
      rfl
    rw [after, broker_setClient, handler, Function.update_eq_self]
  | idle listener subscriber kind params isInput silent output after =>
    exact inner_of_hidden (by rw [isInput]; exact toBroker_of_silent silent) (by rw [after])
  | unsubscribed listener id client isInput found output after =>
    refine inner_of_shown (by rw [isInput]; rfl) ?_
    rw [after, broker_setClient, output]
    simp only [brokerMachine, Broker.modifyHandler, PubSubServer.broker, found]
    rfl
  | ticked latest notices isInput output step clients =>
    refine inner_of_shown (by rw [isInput]; rfl) ?_
    rw [output]
    exact step

end Refinement

section Standing

variable (listener : ListenerId)

/-- A subscription to new heads, with no call to unsubscribe since. -/
def HeadsStand (past : List (PubSubInput τ)) (id : SubscriptionId) : Prop :=
  Stands (fun input => input = .subscribe listener ⟨id, true⟩ .newHeads none)
    (fun input => input = .unsubscribe listener id) past

/-- The requests that change the table of the log subscriptions. -/
def logsItems : TableItems (PubSubInput τ) SubscriptionId Filter where
  puts id filter := .subscribe listener ⟨id, true⟩ .logs (some (.logs filter))
  takes id := .unsubscribe listener id
  puts_inj same := by
    cases same
    exact ⟨rfl, rfl⟩
  takes_inj same := by
    cases same
    rfl
  apart := nofun

/-- The requests that change the table of the subscriptions to completed transactions. -/
def txItems : TableItems (PubSubInput τ) SubscriptionId τ where
  puts id filter :=
    .subscribe listener ⟨id, true⟩ .completedTransaction (some (.transaction filter))
  takes id := .unsubscribe listener id
  puts_inj same := by
    cases same
    exact ⟨rfl, rfl⟩
  takes_inj same := by
    cases same
    rfl
  apart := nofun

/-- The tables of a client have the subscriptions that stand. -/
structure Tracks (past : List (PubSubInput τ)) (client : EthPubSubClient τ) : Prop where
  heads : ∀ id, id ∈ client.headsSubscribers ↔ HeadsStand listener past id
  logs : (logsItems listener).Describes past client.logsSubscribers
  transactions : (txItems listener).Describes past client.txSubscribers

/-- The request changes nothing of the client. -/
def PubSubInput.Elsewhere : PubSubInput τ → Prop
  | .subscribe other subscriber kind params =>
    other ≠ listener ∨ ¬(subscriber.present = true ∧ Fits kind params)
  | .unsubscribe other _ => other ≠ listener
  | _ => True

end Standing

namespace Tracks

variable {listener : ListenerId} {past : List (PubSubInput τ)} {client : EthPubSubClient τ}

theorem new : Tracks listener [] (EthPubSubClient.new : EthPubSubClient τ) where
  heads _ := ⟨nofun, fun stands => absurd stands not_stands_nil⟩
  logs := TableItems.describes_nil
  transactions := TableItems.describes_nil

theorem elsewhere (held : Tracks listener past client) {input : PubSubInput τ}
    (apart : input.Elsewhere listener) : Tracks listener (past ++ [input]) client := by
  have notUnsubscribe (id : SubscriptionId) : input ≠ .unsubscribe listener id := by
    rintro rfl
    exact apart rfl
  have notSubscribe {id : SubscriptionId} {kind : Kind} {params : Option (Params τ)}
      (fits : Fits kind params) : input ≠ .subscribe listener ⟨id, true⟩ kind params := by
    rintro rfl
    exact apart.elim (fun other => other rfl) fun unfit => unfit ⟨rfl, fits⟩
  exact {
    heads := by
      intro id
      rw [held.heads, HeadsStand, HeadsStand]
      refine (stands_idle ?_ ?_).symm
      · exact notSubscribe trivial
      · exact notUnsubscribe id
    logs := TableItems.describes_idle held.logs (fun _ _ => notSubscribe trivial) notUnsubscribe
    transactions :=
      TableItems.describes_idle held.transactions (fun _ _ => notSubscribe trivial) notUnsubscribe }

theorem subscribe_heads (held : Tracks listener past client) (id : SubscriptionId) :
    Tracks listener (past ++ [.subscribe listener ⟨id, true⟩ .newHeads none])
      { client with headsSubscribers := insert id client.headsSubscribers } where
  heads other := by
    rw [HeadsStand, stands_snoc, Finset.mem_insert, held.heads]
    simp [HeadsStand, eq_comm]
  logs := TableItems.describes_idle held.logs nofun nofun
  transactions := TableItems.describes_idle held.transactions nofun nofun

theorem subscribe_logs (held : Tracks listener past client) (id : SubscriptionId)
    (filter : Filter) :
    Tracks listener (past ++ [.subscribe listener ⟨id, true⟩ .logs (some (.logs filter))])
      { client with
        logsSubscribers := Function.update client.logsSubscribers id (some filter) } where
  heads other := (held.heads other).trans (stands_idle nofun nofun).symm
  logs := TableItems.describes_put held.logs id filter
  transactions := TableItems.describes_idle held.transactions nofun nofun

theorem subscribe_transactions (held : Tracks listener past client) (id : SubscriptionId)
    (filter : τ) :
    Tracks listener (past ++
        [.subscribe listener ⟨id, true⟩ .completedTransaction (some (.transaction filter))])
      { client with
        txSubscribers := Function.update client.txSubscribers id (some filter) } where
  heads other := (held.heads other).trans (stands_idle nofun nofun).symm
  logs := TableItems.describes_idle held.logs nofun nofun
  transactions := TableItems.describes_put held.transactions id filter

theorem unsubscribe (held : Tracks listener past client) (id : SubscriptionId) :
    Tracks listener (past ++ [.unsubscribe listener id]) (client.unsubscribe id).2 where
  heads other := by
    rw [HeadsStand, stands_snoc]
    simp [EthPubSubClient.unsubscribe, held.heads, HeadsStand, eq_comm]
  logs := TableItems.describes_take held.logs id
  transactions := TableItems.describes_take held.transactions id

end Tracks

section Served

variable {listener : ListenerId}

/-- A client is there, and its tables have the subscriptions that stand. -/
def TracksIn (listener : ListenerId) (past : List (PubSubEvent τ)) (server : PubSubServer τ) :
    Prop :=
  ∃ client, server.clients listener = some client ∧ Tracks listener (past.map (·.input)) client

section Step

variable {past : List (PubSubEvent τ)} {event : PubSubEvent τ}

/-- What happens elsewhere changes nothing of a client. -/
theorem tracksIn_elsewhere (held : TracksIn listener past event.before)
    (stays : event.after.clients listener = event.before.clients listener)
    (elsewhere : event.input.Elsewhere listener) :
    TracksIn listener (past ++ [event]) event.after := by
  obtain ⟨client, found, tracks⟩ := held
  rw [TracksIn, List.map_append, List.map_singleton]
  exact ⟨client, stays.trans found, tracks.elsewhere elsewhere⟩

theorem clients_setClient_of_ne {changed : ListenerId} {next : Option (EthPubSubClient τ)}
    (after : event.after = event.before.setClient changed next) (differs : changed ≠ listener) :
    event.after.clients listener = event.before.clients listener := by
  rw [after]
  exact Function.update_of_ne differs.symm _ _

/-- A call changes the client that is called, as the subscriptions that stand change. -/
theorem tracksIn_setClient {changed : ListenerId} {client next : EthPubSubClient τ}
    (held : TracksIn listener past event.before)
    (isClient : event.before.clients changed = some client)
    (after : event.after = event.before.setClient changed (some next))
    (own : changed = listener → Tracks listener (past.map (·.input)) client →
      Tracks listener (past.map (·.input) ++ [event.input]) next)
    (other : changed ≠ listener → event.input.Elsewhere listener) :
    TracksIn listener (past ++ [event]) event.after := by
  by_cases differs : changed = listener
  · obtain ⟨current, found, tracks⟩ := held
    rw [← differs] at found
    cases found.symm.trans isClient
    rw [TracksIn, List.map_append, List.map_singleton]
    refine ⟨next, ?_, own differs tracks⟩
    rw [after, ← differs]
    exact Function.update_self _ _ _
  · exact tracksIn_elsewhere held (clients_setClient_of_ne after differs) (other differs)

end Step

theorem tracksIn_step (past : List (PubSubEvent τ)) (event : PubSubEvent τ)
    (step : event.Of (pubsubMachine mode))
    (kept : event.input ≠ .create listener ∧ event.input ≠ .drop listener)
    (held : TracksIn listener past event.before) :
    TracksIn listener (past ++ [event]) event.after := by
  cases pubsubEffect_of step with
  | created changed isInput output after =>
    have differs : changed ≠ listener := fun same => kept.1 (same ▸ isInput)
    exact tracksIn_elsewhere held (clients_setClient_of_ne after differs)
      (by rw [isInput]; trivial)
  | registered changed isInput output after =>
    exact tracksIn_elsewhere held (by rw [after]) (by rw [isInput]; trivial)
  | dropped changed isInput output after =>
    have differs : changed ≠ listener := fun same => kept.2 (same ▸ isInput)
    exact tracksIn_elsewhere held (clients_setClient_of_ne after differs)
      (by rw [isInput]; trivial)
  | heads changed id client isInput isClient output after =>
    refine tracksIn_setClient held isClient after ?_ (by rw [isInput]; exact .inl)
    rintro rfl tracks
    rw [isInput]
    exact tracks.subscribe_heads id
  | logs changed id filter client isInput isClient output after =>
    refine tracksIn_setClient held isClient after ?_ (by rw [isInput]; exact .inl)
    rintro rfl tracks
    rw [isInput]
    exact tracks.subscribe_logs id filter
  | transactions changed id filter client isInput isClient output after =>
    refine tracksIn_setClient held isClient after ?_ (by rw [isInput]; exact .inl)
    rintro rfl tracks
    rw [isInput]
    exact tracks.subscribe_transactions id filter
  | idle changed subscriber kind params isInput silent output after =>
    exact tracksIn_elsewhere held (by rw [after]) (by rw [isInput]; exact .inr silent)
  | unsubscribed changed id client isInput isClient output after =>
    refine tracksIn_setClient held isClient after ?_ (by rw [isInput]; exact fun differs => differs)
    rintro rfl tracks
    rw [isInput]
    exact tracks.unsubscribe id
  | ticked latest notices isInput output step clients =>
    exact tracksIn_elsewhere held (by rw [clients]) (by rw [isInput]; trivial)

/-- A notice serves the subscriptions that stand. -/
structure ServesStanding (listener : ListenerId) (past : List (PubSubInput τ)) (notice : Notice) :
    Prop where
  heads : (∃ id, HeadsStand listener past id) →
    notice.heads = (Span.mk notice.fromBlock notice.toBlock).points
  quiet : (∀ id, ¬HeadsStand listener past id) → notice.heads = []
  queries : ∀ id query, notice.queries id = some query ↔ ∃ filter,
    (logsItems listener).Has past id filter ∧
      query = limitRange filter notice.fromBlock notice.toBlock

theorem servesStanding_of_tracks {past : List (PubSubInput τ)} {client : EthPubSubClient τ}
    (tracks : Tracks listener past client) (registration fromBlock toBlock : Nat) :
    ServesStanding listener past (client.handler.notifyBlocks registration fromBlock toBlock) where
  heads standing := by
    obtain ⟨id, stands⟩ := standing
    have member := (tracks.heads id).mpr stands
    exact if_neg (Finset.ne_empty_of_mem member)
  quiet nothing := by
    have empty : client.headsSubscribers = ∅ :=
      Finset.eq_empty_of_forall_notMem fun id member => nothing id ((tracks.heads id).mp member)
    exact if_pos empty
  queries id query := by
    have entry : (client.handler.notifyBlocks registration fromBlock toBlock).queries id =
        (client.logsSubscribers id).map fun filter => limitRange filter fromBlock toBlock := rfl
    rw [entry, Option.map_eq_some_iff]
    constructor
    · rintro ⟨filter, subscribed, rfl⟩
      exact ⟨filter, (tracks.logs id filter).mp subscribed, rfl⟩
    · rintro ⟨filter, has, rfl⟩
      exact ⟨filter, (tracks.logs id filter).mpr has, rfl⟩

/-- What `unsubscribe` answers. -/
theorem unsubscribe_iff_of_tracks {past : List (PubSubInput τ)} {client : EthPubSubClient τ}
    (tracks : Tracks listener past client) (id : SubscriptionId) :
    (client.unsubscribe id).1 = true ↔ HeadsStand listener past id ∨
      (∃ filter, (logsItems listener).Has past id filter) ∨
      ∃ filter, (txItems listener).Has past id filter := by
  have logs : (client.logsSubscribers id).isSome = true ↔
      ∃ filter, (logsItems listener).Has past id filter := by
    rw [Option.isSome_iff_exists]
    exact exists_congr (tracks.logs id)
  have transactions : (client.txSubscribers id).isSome = true ↔
      ∃ filter, (txItems listener).Has past id filter := by
    rw [Option.isSome_iff_exists]
    exact exists_congr (tracks.transactions id)
  simp only [EthPubSubClient.unsubscribe, Bool.or_eq_true, decide_eq_true_eq, tracks.heads, logs,
    transactions, or_assoc]

/-- The subscriptions that stand are served. Let a client have its handler with the broker, and let
anything happen there and with other clients. At every tick that finds new blocks the handler makes
the queries of the log subscriptions that stand and no others, over all the new blocks, and it
fetches their headers exactly if a subscription to new heads stands; and a call to unsubscribe tells
whether a subscription of any kind stood. -/
theorem standing_subscriptions_served (mode : OverflowMode) (start : PubSubServer τ)
    (listener : ListenerId) (registration : Nat) (created : start.clients listener = some .new)
    (registered : start.listeners[registration]? = some listener) (inputs : List (PubSubInput τ))
    (kept : ∀ input ∈ inputs, input ≠ .create listener ∧ input ≠ .drop listener)
    (events : List (PubSubEvent τ)) (ran : run (pubsubMachine mode) start inputs = events)
    (index : Nat) (event : PubSubEvent τ) (located : events[index]? = some event) :
    (∀ latest, event.input = .tick (.ok latest) → event.before.lastNotifiedBlock < latest →
      ∃ notice, event.output.notices.filter (fun notice => notice.registration = registration) =
          [notice] ∧
        notice.fromBlock = event.before.lastNotifiedBlock + 1 ∧ notice.toBlock = latest ∧
        ServesStanding listener (inputs.take index) notice) ∧
    ∀ id, event.input = .unsubscribe listener id → ∃ found,
      event.output = .unsubscribed found ∧
        (found = true ↔ HeadsStand listener (inputs.take index) id ∨
          (∃ filter, (logsItems listener).Has (inputs.take index) id filter) ∨
          ∃ filter, (txItems listener).Has (inputs.take index) id filter) := by
  subst ran
  have keptRun : ∀ event ∈ run (pubsubMachine mode) start inputs,
      event.input ≠ .create listener ∧ event.input ≠ .drop listener :=
    fun event member => kept _ (input_mem_of_mem_run member)
  have follows := (run_history _ (TracksIn listener) tracksIn_step []
    ⟨.new, created, Tracks.new⟩ keptRun).1 _ event _ (eq_take_append_cons_drop located)
  rw [List.nil_append, TracksIn, run_take_map_input located] at follows
  obtain ⟨client, found, tracks⟩ := follows
  have member := List.mem_of_getElem? located
  have step := of_mem_run member
  refine ⟨fun latest isInput ahead => ?_, fun id isInput => ?_⟩
  · have view : brokerView event = some ⟨event.before.broker, .tick (.ok latest),
        event.output.notices, event.after.broker⟩ := by
      rw [brokerView, isInput]
      rfl
    have brokerStep := ((brokerView_inner step).steps _ view).1
    have inRun := List.mem_filterMap.mpr ⟨event, member, view⟩
    rw [run_project fun event member => brokerView_inner (of_mem_run member)] at inRun
    have stays := @registered_run mode start.broker _ registration listener registered _ inRun
    have told := filter_output_of brokerStep registration
    have new : announced ⟨event.before.broker, .tick (.ok latest), event.output.notices,
        event.after.broker⟩ = some ⟨event.before.lastNotifiedBlock + 1, latest⟩ := if_pos ahead
    have handler : event.before.broker.handlers listener = some client.handler := by
      simp only [PubSubServer.broker, found]
      rfl
    rw [new, stays] at told
    simp only [Option.bind_some, handler, Option.map_some, Option.toList_some] at told
    exact ⟨_, told, rfl, rfl, servesStanding_of_tracks tracks registration _ _⟩
  · have answered := step
    rw [Event.Of, isInput] at answered
    simp only [pubsubMachine, found, Option.map_some, Option.some.injEq, Prod.mk.injEq] at answered
    exact ⟨_, answered.1.symm, unsubscribe_iff_of_tracks tracks id⟩

end Served

/-- A server with one client, which is registered. -/
def callingServer : PubSubServer Unit :=
  ⟨Broker.new.lastNotifiedBlock, [1], fun listener => if listener = 1 then some .new else none⟩

/-- A filter that matches every log. -/
def watchingFilter : Filter := ⟨.latest, .latest, none, [], none⟩

theorem watchedHeight_lt : 3 < 2 ^ 64 := by decide

/-- Two subscriptions that are given the same id, a rejected one, a tick, and the same id twice to
unsubscribe. -/
def sharedIdCalls : List (PubSubInput Unit) :=
  [.subscribe 1 ⟨7, true⟩ .logs (some (.logs watchingFilter)),
    .subscribe 1 ⟨7, true⟩ .completedTransaction (some (.transaction ())),
    .subscribe 1 ⟨8, true⟩ .newHeads (some .other),
    .tick (.ok ⟨3, watchedHeight_lt⟩), .unsubscribe 1 7, .unsubscribe 1 7]

/-- The logs of the three blocks are queried for the only subscription that is served, no header is
fetched, and the id is there to be unsubscribed once. -/
theorem shared_id_served_once :
    ∃ notice : Notice, ServesStanding 1 (sharedIdCalls.take 3) notice ∧
      notice.queries 7 = some (limitRange watchingFilter 1 3) ∧ notice.heads = [] ∧
      (run (pubsubMachine .checked) callingServer sharedIdCalls).map (·.output) =
        [.subscribed, .subscribed, .rejected (.invalidParams "newHeads" "Expected no parameters."),
          .told [notice], .unsubscribed true, .unsubscribed false] := by
  have kept : ∀ input ∈ sharedIdCalls, input ≠ .create 1 ∧ input ≠ .drop 1 := by
    simp [sharedIdCalls]
  obtain ⟨notice, told, _, _, serves⟩ := (standing_subscriptions_served .checked callingServer 1 0
    rfl rfl sharedIdCalls kept _ rfl 3 _ rfl).1 ⟨3, watchedHeight_lt⟩ rfl (by decide)
  obtain ⟨rfl, _⟩ := List.cons.inj told
  exact ⟨_, serves, rfl, rfl, rfl⟩

end Ethwasi.Gateway
