import Mathlib.Data.Finset.Card
import Ethwasi.Transition.Standing
import Ethwasi.Gateway.RateLimit

/-!
# The middlewares of a WebSocket server

A request of a WebSocket session passes two middlewares before it is processed. The first counts
the request with its session and rejects it when the second has too many of them; the other rejects
batches with too many calls. To the first a batch is one request, however many calls it has, so
what is bounded in a second is the product of the two limits. Beside the requests the server opens
and closes sessions, and a gauge shows how many are open.

A request is counted by a clock that is read up to three times, and it goes on between the readings.
So the second in which a request is counted can lie behind the end of the era that was found open.
-/

namespace Ethwasi.Gateway

open Ethwasi.Rust Ethwasi.Transition

/-- `error_batch_size`. -/
def errorBatchSize : RpcFault := ⟨-32099, "Too many JSON-RPC requests in batch"⟩

/-- `Middleware`. -/
structure Middleware where
  maxBatchSize : Nat

/-- `on_request`. -/
def Middleware.onRequest (middleware : Middleware) (request : RpcRequest) : Handled :=
  match request with
  | .batch calls =>
    if middleware.maxBatchSize < calls.length then
      .rejected (.batch (calls.map (generateErrorResponseCall errorBatchSize)))
    else .processed request
  | .single _ => .processed request

/-- There is a first slot. -/
local instance rateSeconds_neZero : NeZero rateSeconds := ⟨by decide⟩

/-- The middlewares of `new_ws`, in their order. -/
structure WsMiddlewares where
  dispatcher : WsDispatcher
  middleware : Middleware

/-- `on_request` of both: the other one sees what the first one processes. -/
def WsMiddlewares.onRequest (stack : WsMiddlewares) (stats : RpcStats) (origin : Origin)
    (request : RpcRequest) (clock : ClockReadings) : Handled × RpcStats :=
  match stack.dispatcher.onRequestDuring stats origin request clock with
  | (.rejected response, stats) => (.rejected response, stats)
  | (.processed request, stats) => (stack.middleware.onRequest request, stats)

section Table

variable {stats : RpcStats} {keys : Finset H256}

theorem tracked_openSession (tracked : ∀ id, id ∈ keys ↔ (stats.sessions id).isSome)
    (opened : H256) (now : Instant) (id : H256) :
    id ∈ insert opened keys ↔ ((stats.openSession opened now).sessions id).isSome := by
  by_cases same : id = opened
  · simp [same, RpcStats.openSession]
  · simp [same, RpcStats.openSession, tracked]

theorem tracked_closeSession (tracked : ∀ id, id ∈ keys ↔ (stats.sessions id).isSome)
    (closed id : H256) :
    id ∈ keys.erase closed ↔ ((stats.closeSession closed).sessions id).isSome := by
  by_cases same : id = closed
  · simp [same, RpcStats.closeSession]
  · simp [same, RpcStats.closeSession, tracked]

/-- Counting a request opens and closes nothing. -/
theorem isSome_countRequestDuring (stats : RpcStats) (session : H256) (clock : ClockReadings)
    (id : H256) : ((stats.countRequestDuring session clock).2.sessions id).isSome =
      (stats.sessions id).isSome := by
  by_cases same : session = id
  · subst same
    cases opened : stats.sessions session with
    | none => simp [RpcStats.countRequestDuring, opened]
    | some rate => simp [countRequestDuring_of_open opened clock]
  · rw [countRequestDuring_other same]

/-- The statistics after a request are those of its rate. -/
theorem WsMiddlewares.onRequest_snd (stack : WsMiddlewares) (stats : RpcStats) (origin : Origin)
    (request : RpcRequest) (clock : ClockReadings) :
    (stack.onRequest stats origin request clock).2 =
      (stack.dispatcher.onRequestDuring stats origin request clock).2 := by
  unfold WsMiddlewares.onRequest
  split
  · rename_i same
    rw [same]
  · rename_i same
    rw [same]

/-- The second middleware answers what the first one lets through. -/
theorem WsMiddlewares.onRequest_fst (stack : WsMiddlewares) (stats : RpcStats) (origin : Origin)
    (request : RpcRequest) (clock : ClockReadings) :
    (stack.onRequest stats origin request clock).1 =
      match (stack.dispatcher.onRequestDuring stats origin request clock).1 with
      | .rejected response => .rejected response
      | .processed request => stack.middleware.onRequest request := by
  unfold WsMiddlewares.onRequest
  split
  · rename_i same
    rw [same]
  · rename_i same
    rw [same]

theorem tracked_onRequest (tracked : ∀ id, id ∈ keys ↔ (stats.sessions id).isSome)
    (stack : WsMiddlewares) (origin : Origin) (request : RpcRequest) (clock : ClockReadings)
    (id : H256) :
    id ∈ keys ↔ ((stack.onRequest stats origin request clock).2.sessions id).isSome := by
  rw [stack.onRequest_snd, tracked]
  cases origin with
  | other => rfl
  | ws session => rw [onRequestDuring_snd, isSome_countRequestDuring]

end Table

/-- The map of the sessions, with its keys. -/
structure SessionTable where
  stats : RpcStats
  keys : Finset H256
  tracked : ∀ id, id ∈ keys ↔ (stats.sessions id).isSome

/-- `sessions`. -/
def SessionTable.sessions (table : SessionTable) : Nat := table.keys.card

theorem tracked_empty (id : H256) :
    id ∈ (∅ : Finset H256) ↔ (none : Option RateCalculator).isSome := by
  simp

/-- The sessions of a WebSocket server, and `WS_SESSIONS`. -/
structure WsServer where
  table : SessionTable
  gauge : Int

namespace WsServer

/-- A server without sessions. -/
def new : WsServer := ⟨⟨⟨fun _ => none⟩, ∅, tracked_empty⟩, 0⟩

/-- `WsStats::open_session`. -/
def openSession (server : WsServer) (id : H256) (now : Instant) : WsServer :=
  let table : SessionTable := ⟨server.table.stats.openSession id now, insert id server.table.keys,
    tracked_openSession server.table.tracked id now⟩
  ⟨table, table.sessions⟩

/-- `WsStats::close_session`. -/
def closeSession (server : WsServer) (id : H256) : WsServer :=
  let table : SessionTable := ⟨server.table.stats.closeSession id, server.table.keys.erase id,
    tracked_closeSession server.table.tracked id⟩
  ⟨table, table.sessions⟩

/-- The server after a request; the gauge stays. -/
def afterRequest (server : WsServer) (stack : WsMiddlewares) (origin : Origin)
    (request : RpcRequest) (clock : ClockReadings) : WsServer :=
  ⟨⟨(stack.onRequest server.table.stats origin request clock).2, server.table.keys,
    tracked_onRequest server.table.tracked stack origin request clock⟩, server.gauge⟩

end WsServer

/-- What happens at a server with its middlewares, and when. -/
inductive ServerInput where
  | openSession (id : H256) (now : Instant)
  | closeSession (id : H256)
  | request (origin : Origin) (request : RpcRequest) (clock : ClockReadings)

/-- The input opens or closes the session. -/
def ServerInput.Switches (id : H256) : ServerInput → Prop
  | .openSession other _ => other = id
  | .closeSession other => other = id
  | .request _ _ _ => False

/-- A server with its middlewares. -/
def serverMachine (stack : WsMiddlewares) : Machine WsServer ServerInput (Option Handled) :=
  fun server input =>
    match input with
    | .openSession id now => some (none, server.openSession id now)
    | .closeSession id => some (none, server.closeSession id)
    | .request origin request clock =>
      some (some (stack.onRequest server.table.stats origin request clock).1,
        server.afterRequest stack origin request clock)

/-- An event of a server with its middlewares. -/
abbrev ServerEvent := Event WsServer ServerInput (Option Handled)

/-- A server takes everything that happens. -/
theorem serverMachine_complete (stack : WsMiddlewares) (start : WsServer)
    (inputs : List ServerInput) : (run (serverMachine stack) start inputs).length = inputs.length :=
  run_complete (fun _ => True) (fun _ => True)
    (fun _ input _ _ => by cases input <;> exact ⟨_, _, rfl, trivial⟩) trivial fun _ _ => trivial

section Gauge

/-- The session was opened, and not closed since. -/
def IsOpen (id : H256) : List ServerInput → Prop :=
  Stands (fun input => ∃ now, input = .openSession id now) (fun input => input = .closeSession id)

/-- The map has the open sessions, and the gauge shows their number. -/
def CountsOpen (past : List ServerEvent) (server : WsServer) : Prop :=
  (∀ id, id ∈ server.table.keys ↔ IsOpen id (past.map (·.input))) ∧
    server.gauge = server.table.sessions

variable {stack : WsMiddlewares}

theorem countsOpen_step (past : List ServerEvent) (event : ServerEvent)
    (step : event.Of (serverMachine stack)) (held : CountsOpen past event.before) :
    CountsOpen (past ++ [event]) event.after := by
  obtain ⟨keys, gauge⟩ := held
  obtain ⟨before, input, output, after⟩ := event
  change serverMachine stack before input = some (output, after) at step
  unfold CountsOpen
  simp only [List.map_append, List.map_singleton, IsOpen, stands_snoc]
  simp only [IsOpen] at keys
  cases input with
  | openSession other now =>
    cases step
    refine ⟨fun id => ?_, rfl⟩
    simp [WsServer.openSession, keys, eq_comm]
  | closeSession other =>
    cases step
    refine ⟨fun id => ?_, rfl⟩
    simp [WsServer.closeSession, keys, eq_comm]
  | request origin request clock =>
    cases step
    refine ⟨fun id => ?_, gauge⟩
    simp [WsServer.afterRequest, keys]

theorem countsOpen_new : CountsOpen [] .new := by
  refine ⟨fun id => ?_, rfl⟩
  simp [WsServer.new, IsOpen, not_stands_nil]

/-- A request of a session that is not open passes the first middleware. -/
theorem onRequest_of_closed {stats : RpcStats} {session : H256}
    (closed : stats.sessions session = none) (request : RpcRequest) (clock : ClockReadings) :
    (stack.onRequest stats (.ws session) request clock).1 = stack.middleware.onRequest request := by
  simp [WsMiddlewares.onRequest, WsDispatcher.onRequestDuring, RpcStats.countRequestDuring, closed]

variable (stack)

/-- The gauge counts the open sessions. Whatever is opened, closed and requested, in any order,
after every event the map has the sessions that were opened and not closed since, each once, and
the gauge shows their number. A request of any other session is not limited by its rate: only the
size of a batch decides about it. -/
theorem open_sessions_tracked (inputs : List ServerInput) (events : List ServerEvent)
    (ran : run (serverMachine stack) .new inputs = events) :
    events.length = inputs.length ∧
    ∀ (index : Nat) event, events[index]? = some event →
      (∀ id, id ∈ event.after.table.keys ↔ IsOpen id (inputs.take (index + 1))) ∧
      event.after.gauge = event.after.table.keys.card ∧
      ∀ session request clock, event.input = .request (.ws session) request clock →
        ¬IsOpen session (inputs.take index) →
        event.output = some (stack.middleware.onRequest request) := by
  subst ran
  refine ⟨serverMachine_complete stack .new inputs, fun index event located => ?_⟩
  have before :=
    (run_history_always CountsOpen countsOpen_step countsOpen_new).1 index event located
  have step := of_mem_run (List.mem_of_getElem? located)
  have after := countsOpen_step _ event step before
  have next : inputs.take index ++ [event.input] = inputs.take (index + 1) := by
    rw [List.take_add_one, run_input_getElem? located]
    rfl
  rw [CountsOpen, List.map_append, run_take_map_input located, List.map_singleton, next] at after
  rw [CountsOpen, run_take_map_input located] at before
  refine ⟨after.1, after.2, ?_⟩
  intro session request clock isInput closed
  have untracked := mt (before.1 session).mp closed
  rw [event.before.table.tracked, Option.not_isSome_iff_eq_none] at untracked
  rw [Event.Of, isInput] at step
  have output := (Prod.mk.inj (Option.some.inj step)).1
  rw [← output, onRequest_of_closed untracked]

end Gauge

/-- A session that is opened and closed, and a late request of it. -/
def lateRequest : List ServerInput :=
  [.openSession sampleSession 0, .closeSession sampleSession,
    .request (.ws sampleSession) sampleCall (.still 1)]

/-- The late request is processed, although no request is allowed. -/
theorem late_request_processed :
    ∃ event, (run (serverMachine ⟨⟨0⟩, ⟨1⟩⟩) .new lateRequest)[2]? = some event ∧
      event.after.gauge = 0 ∧ event.output = some (.processed sampleCall) := by
  obtain ⟨_, tracked⟩ := open_sessions_tracked ⟨⟨0⟩, ⟨1⟩⟩ lateRequest _ rfl
  have closed : ¬IsOpen sampleSession (lateRequest.take 2) := by
    intro stillOpen
    have last : IsOpen sampleSession
        ([.openSession sampleSession 0] ++ [.closeSession sampleSession]) := stillOpen
    rw [IsOpen, stands_snoc] at last
    simp at last
  obtain ⟨_, gauge, unlimited⟩ := tracked 2 _ rfl
  exact ⟨_, rfl, gauge, unlimited _ _ _ rfl closed⟩

section Pace

/-- A tick, with a clock that goes on. -/
abbrev ClockTick := Event RateCalculator ClockReadings Nat

/-- A calculator by its ticks, with a clock that goes on. -/
def clockMachine : Machine RateCalculator ClockReadings Nat :=
  fun rate clock => some (rate.tickDuring clock)

namespace ClockTick

/-- The start of the era of a request. -/
def era (tick : ClockTick) : Instant := tick.after.era

/-- The second of its era in which a request is counted. -/
def second (tick : ClockTick) : Nat := tick.after.elapsed tick.input.atSlot

/-- The request falls into a second of an era. -/
def isIn (era : Instant) (second : Nat) (tick : ClockTick) : Bool :=
  tick.era = era && tick.second = second

/-- The request falls into the second, and its count is allowed. -/
def allowedIn (limit : Nat) (era : Instant) (second : Nat) (tick : ClockTick) : Bool :=
  tick.isIn era second && tick.output ≤ limit

end ClockTick

/-- Calls of `tick` for one session come one after the other. -/
def InTurn (ticks : List ClockTick) : Prop :=
  (ticks.map (·.input)).Pairwise fun earlier later => earlier.atSlot ≤ later.atCheck

/-- Of the requests of a second only so many are allowed. -/
def Paced (limit : Nat) (ticks : List ClockTick) : Prop :=
  ∀ era second, ticks.countP (ClockTick.allowedIn limit era second) ≤ limit

/-- No era is later than that of the calculator, and the slot of a second that has no later one in
it holds at least the requests of that second. -/
structure HoldsCount (past : List ClockTick) (rate : RateCalculator) : Prop where
  eras : ∀ tick ∈ past, tick.era ≤ rate.era
  held : ∀ second, (∀ tick ∈ past, tick.era = rate.era → tick.second ≤ second) →
    min (past.countP (ClockTick.isIn rate.era second)) u16Max ≤
      rate.samples (Fin.ofNat rateSeconds second)

/-- What a tick does: it counts in the slot of its second, over what the slot had. -/
structure ClockTickEffect (tick : ClockTick) : Prop where
  era : tick.after.era = (tick.before.renewDuring tick.input).era
  output : tick.output = min ((tick.before.renewDuring tick.input).samples
    (Fin.ofNat rateSeconds tick.second) + 1) u16Max
  slot : tick.after.samples (Fin.ofNat rateSeconds tick.second) = tick.output

theorem clockTickEffect_of {tick : ClockTick} (step : tick.Of clockMachine) :
    ClockTickEffect tick := by
  have ticked : tick.before.tickDuring tick.input = (tick.output, tick.after) :=
    Option.some.inj step
  have after : tick.after = (tick.before.tickDuring tick.input).2 := by rw [ticked]
  have second : tick.second = (tick.before.renewDuring tick.input).elapsed tick.input.atSlot := by
    rw [ClockTick.second, after]
    rfl
  have slot : tick.after.samples (Fin.ofNat rateSeconds tick.second) = tick.output := by
    have output : tick.output = (tick.before.tickDuring tick.input).1 := by rw [ticked]
    rw [output, second, after]
    rfl
  refine ⟨by rw [after]; rfl, ?_, slot⟩
  rw [← slot, after, second]
  change Function.update _ _ _ _ = _
  rw [Function.update_self, Function.update_of_ne (next_ne _).symm]

variable {past : List ClockTick} {tick : ClockTick}

theorem countP_isIn_eq_zero {era : Instant} {second : Nat}
    (none : ∀ tick ∈ past, tick.era = era → tick.second ≠ second) :
    past.countP (ClockTick.isIn era second) = 0 := by
  rw [List.countP_eq_zero]
  intro tick member isIn
  simp only [ClockTick.isIn, Bool.and_eq_true, decide_eq_true_eq] at isIn
  exact none tick member isIn.1 isIn.2

/-- An era ends only after its start. -/
theorem era_lt_of_ends {rate : RateCalculator} {clock : ClockReadings}
    (ends : rateSeconds ≤ rate.elapsed clock.atCheck) : rate.era < clock.atEra := by
  refine Nat.lt_of_lt_of_le ?_ clock.forward.1
  by_contra early
  rw [RateCalculator.elapsed, Nat.sub_eq_zero_of_le (Nat.not_lt.mp early)] at ends
  simp at ends

/-- A tick finds in its slot at least the earlier requests of its second. -/
theorem HoldsCount.before_tick (held : HoldsCount past tick.before) (effect : ClockTickEffect tick)
    (turn : InTurn (past ++ [tick])) :
    (∀ earlier ∈ past, earlier.era ≤ tick.era) ∧
    (∀ earlier ∈ past, earlier.era = tick.era → earlier.second ≤ tick.second) ∧
    min (past.countP (ClockTick.isIn tick.era tick.second)) u16Max ≤
      (tick.before.renewDuring tick.input).samples (Fin.ofNat rateSeconds tick.second) := by
  have sameEra : tick.era = (tick.before.renewDuring tick.input).era := effect.era
  by_cases ends : rateSeconds ≤ tick.before.elapsed tick.input.atCheck
  · -- no earlier request is in the new era
    have started : tick.era = tick.input.atEra := by
      rw [sameEra, RateCalculator.renewDuring, if_pos ends]
    have older : ∀ earlier ∈ past, earlier.era < tick.era := by
      intro earlier member
      rw [started]
      exact Nat.lt_of_le_of_lt (held.eras earlier member) (era_lt_of_ends ends)
    have apart : ∀ earlier ∈ past, earlier.era ≠ tick.era :=
      fun earlier member => Nat.ne_of_lt (older earlier member)
    refine ⟨fun earlier member => Nat.le_of_lt (older earlier member),
      fun earlier member same => absurd same (apart earlier member), ?_⟩
    rw [countP_isIn_eq_zero fun earlier member same => absurd same (apart earlier member)]
    simp
  · have kept : tick.before.renewDuring tick.input = tick.before := if_neg ends
    rw [kept] at sameEra ⊢
    rw [sameEra]
    have seconds : ∀ earlier ∈ past, earlier.era = tick.before.era →
        earlier.second ≤ tick.second := by
      intro earlier member same
      have ordered : earlier.input.atSlot ≤ tick.input.atSlot := by
        rw [InTurn, List.map_append, List.pairwise_append] at turn
        have turned := turn.2.2 _ (List.mem_map_of_mem member) tick.input (by simp)
        exact Nat.le_trans turned (Nat.le_trans tick.input.forward.1 tick.input.forward.2)
      have start : earlier.after.era = tick.after.era := same.trans sameEra.symm
      unfold ClockTick.second RateCalculator.elapsed
      rw [start]
      exact Nat.div_le_div_right (Nat.sub_le_sub_right ordered _)
    exact ⟨held.eras, seconds, held.held tick.second seconds⟩

theorem HoldsCount.snoc (held : HoldsCount past tick.before) (effect : ClockTickEffect tick)
    (turn : InTurn (past ++ [tick])) : HoldsCount (past ++ [tick]) tick.after := by
  obtain ⟨eras, seconds, found⟩ := held.before_tick effect turn
  refine ⟨fun earlier member => ?_, fun second last => ?_⟩
  · rcases List.mem_append.mp member with before | now
    · exact eras earlier before
    · rw [List.mem_singleton.mp now]
      exact Nat.le_refl _
  · change min (List.countP (ClockTick.isIn tick.era second) _) u16Max ≤ _
    rw [List.countP_append, List.countP_singleton]
    have reached : tick.second ≤ second := last tick (by simp) rfl
    by_cases same : tick.second = second
    · subst same
      have within : tick.isIn tick.era tick.second = true := by simp [ClockTick.isIn]
      rw [effect.slot, effect.output, within, if_pos rfl]
      omega
    · -- the second lies ahead of every request
      have ahead : ∀ earlier ∈ past, earlier.era = tick.era → earlier.second ≠ second :=
        fun earlier member sameEra => by
          have := seconds earlier member sameEra
          omega
      rw [countP_isIn_eq_zero ahead]
      simp [ClockTick.isIn, same]

/-- The count of a request is at least that of its second, so a further request is allowed only
while the second has room. -/
theorem Paced.snoc {limit : Nat} (limited : limit < u16Max) (paced : Paced limit past)
    (held : HoldsCount past tick.before) (effect : ClockTickEffect tick)
    (turn : InTurn (past ++ [tick])) : Paced limit (past ++ [tick]) := by
  intro era second
  rw [List.countP_append, List.countP_singleton]
  cases allowed : tick.allowedIn limit era second with
  | false => simpa using paced era second
  | true =>
    simp only [ClockTick.allowedIn, ClockTick.isIn, Bool.and_eq_true, decide_eq_true_eq] at allowed
    obtain ⟨⟨rfl, rfl⟩, below⟩ := allowed
    have found := (held.before_tick effect turn).2.2
    have fewer : past.countP (ClockTick.allowedIn limit tick.era tick.second) ≤
        past.countP (ClockTick.isIn tick.era tick.second) :=
      List.countP_mono_left fun _ _ allowed => (Bool.and_eq_true _ _ ▸ allowed).1
    rw [effect.output] at below
    rw [if_pos rfl]
    omega

end Pace

section Calls

/-- A size that only marked values have is bounded by their number. -/
theorem sum_map_le_countP_mul {α : Type} {size : α → Nat} {marked : α → Bool} {bound : Nat}
    {values : List α} (bounded : ∀ value ∈ values, size value ≤ if marked value then bound else 0) :
    (values.map size).sum ≤ values.countP marked * bound := by
  induction values with
  | nil => simp
  | cons value values ih =>
    have first := bounded value List.mem_cons_self
    have rest := ih fun other member => bounded other (List.mem_cons_of_mem _ member)
    rw [List.map_cons, List.sum_cons, List.countP_cons, Nat.add_mul]
    cases mark : marked value with
    | false =>
      simp only [mark, Bool.false_eq_true, if_false] at first ⊢
      omega
    | true =>
      simp only [mark, if_true] at first ⊢
      omega

/-- The calls of a request. -/
def RpcRequest.calls : RpcRequest → List RpcCall
  | .single call => [call]
  | .batch calls => calls

/-- The calls that an answer lets through. -/
def processedCalls : Option Handled → List RpcCall
  | some (.processed request) => request.calls
  | _ => []

/-- The tick of a session that an event of a server makes. -/
def serverTick (id : H256) (event : ServerEvent) : Option ClockTick :=
  match event.input, event.before.table.stats.sessions id with
  | .request origin _ clock, some rate =>
    if origin = .ws id then
      some ⟨rate, clock, (rate.tickDuring clock).1, (rate.tickDuring clock).2⟩
    else none
  | _, _ => none

variable {stack : WsMiddlewares} {id : H256}

/-- While a session stays open, an event leaves its calculator alone or is a tick of it. -/
theorem serverTick_cases {event : ServerEvent} {rate : RateCalculator}
    (step : event.Of (serverMachine stack)) (kept : ¬event.input.Switches id)
    (opened : event.before.table.stats.sessions id = some rate) :
    (serverTick id event = none ∧ event.after.table.stats.sessions id = some rate) ∨
    ∃ tick : ClockTick, serverTick id event = some tick ∧ tick.before = rate ∧
      tick.Of clockMachine ∧ event.after.table.stats.sessions id = some tick.after := by
  obtain ⟨before, input, output, after⟩ := event
  change serverMachine stack before input = some (output, after) at step
  cases input with
  | openSession other now =>
    cases step
    exact .inl ⟨rfl, (Function.update_of_ne (Ne.symm kept) _ _).trans opened⟩
  | closeSession other =>
    cases step
    exact .inl ⟨rfl, (Function.update_of_ne (Ne.symm kept) _ _).trans opened⟩
  | request origin request clock =>
    cases step
    simp only at opened
    have after : (before.afterRequest stack origin request clock).table.stats =
        (stack.dispatcher.onRequestDuring before.table.stats origin request clock).2 :=
      stack.onRequest_snd _ _ _ _
    cases origin with
    | other =>
      refine .inl ⟨by simp [serverTick, opened], ?_⟩
      rw [after]
      exact opened
    | ws session =>
      rw [onRequestDuring_snd] at after
      by_cases own : session = id
      · subst own
        refine .inr ⟨⟨rate, clock, (rate.tickDuring clock).1, (rate.tickDuring clock).2⟩,
          by simp only [serverTick, opened, if_true], rfl, rfl, ?_⟩
        rw [after, countRequestDuring_of_open opened]
        exact Function.update_self _ _ _
      · refine .inl ⟨by simp [serverTick, opened, own], ?_⟩
        rw [after, countRequestDuring_other own]
        exact opened

/-- A batch that is let through is not longer than allowed. -/
theorem length_processedCalls_middleware (middleware : Middleware) (request : RpcRequest) :
    (processedCalls (some (middleware.onRequest request))).length ≤
      max 1 middleware.maxBatchSize := by
  cases request with
  | single call => exact Nat.le_max_left _ _
  | batch calls =>
    unfold Middleware.onRequest
    dsimp only
    split
    · exact Nat.zero_le _
    · rename_i fits
      exact Nat.le_trans (Nat.not_lt.mp fits) (Nat.le_max_right _ _)

/-- A request of an open session lets its calls through only when its count is allowed. -/
theorem length_processedCalls_of_tick {event : ServerEvent} {tick : ClockTick}
    (step : event.Of (serverMachine stack)) (ticked : serverTick id event = some tick) :
    (processedCalls event.output).length ≤
      if tick.output ≤ stack.dispatcher.maxReqPerSec then max 1 stack.middleware.maxBatchSize
      else 0 := by
  obtain ⟨before, input, output, after⟩ := event
  change serverMachine stack before input = some (output, after) at step
  cases input with
  | openSession other now => cases ticked
  | closeSession other => cases ticked
  | request origin request clock =>
    cases step
    cases opened : before.table.stats.sessions id with
    | none => simp [serverTick, opened] at ticked
    | some rate =>
      by_cases own : origin = .ws id
      · subst own
        simp only [serverTick, opened, if_true, Option.some.injEq] at ticked
        subst ticked
        have count := countRequestDuring_of_open opened clock
        by_cases allowed : (rate.tickDuring clock).1 ≤ stack.dispatcher.maxReqPerSec
        · rw [if_pos allowed]
          simp only [WsMiddlewares.onRequest, WsDispatcher.onRequestDuring, count,
            Nat.not_lt.mpr allowed, if_false]
          exact length_processedCalls_middleware stack.middleware request
        · rw [if_neg allowed]
          simp only [WsMiddlewares.onRequest, WsDispatcher.onRequestDuring, count,
            Nat.not_le.mp allowed, if_true]
          exact Nat.le_refl _
      · simp [serverTick, opened, own] at ticked

/-- A request is passed on as it is, or every call of it is answered with one of the two errors. -/
theorem answer_of_request {event : ServerEvent} (step : event.Of (serverMachine stack))
    {origin : Origin} {request : RpcRequest} {clock : ClockReadings}
    (isInput : event.input = .request origin request clock) :
    event.output = some (.processed request) ∨
      ∃ error ∈ [errorRateLimited, errorBatchSize],
        event.output = some (.rejected (generateErrorResponse error request)) := by
  rw [Event.Of, isInput] at step
  have output := (Prod.mk.inj (Option.some.inj step)).1
  rw [← output]
  have second : stack.middleware.onRequest request = .processed request ∨
      stack.middleware.onRequest request =
        .rejected (generateErrorResponse errorBatchSize request) := by
    cases request with
    | single call => exact .inl rfl
    | batch calls =>
      unfold Middleware.onRequest
      dsimp only
      split
      · exact .inr rfl
      · exact .inl rfl
  have first :
      (stack.dispatcher.onRequestDuring event.before.table.stats origin request clock).1 =
        .processed request ∨
      (stack.dispatcher.onRequestDuring event.before.table.stats origin request clock).1 =
        .rejected (generateErrorResponse errorRateLimited request) := by
    cases origin with
    | other => exact .inl rfl
    | ws session =>
      unfold WsDispatcher.onRequestDuring
      dsimp only
      split
      · exact .inr rfl
      · exact .inl rfl
  rw [stack.onRequest_fst]
  rcases first with passed | rejected
  · rw [passed]
    rcases second with passedToo | rejected
    · exact .inl (congrArg some passedToo)
    · exact .inr ⟨errorBatchSize, by simp, congrArg some rejected⟩
  · rw [rejected]
    exact .inr ⟨errorRateLimited, by simp, rfl⟩

variable (stack)

/-- The calculator of a session that stays open holds its counts, and its ticks were paced. -/
def SessionPaced (limit : Nat) (id : H256) (past : List ServerEvent) (server : WsServer) : Prop :=
  (∀ event ∈ past, ¬event.input.Switches id) → InTurn (past.filterMap (serverTick id)) →
    ∃ rate, server.table.stats.sessions id = some rate ∧
      HoldsCount (past.filterMap (serverTick id)) rate ∧
      Paced limit (past.filterMap (serverTick id))

theorem InTurn.init {past later : List ClockTick} (turn : InTurn (past ++ later)) :
    InTurn past := by
  rw [InTurn, List.map_append, List.pairwise_append] at turn
  exact turn.1

variable {stack} in
theorem sessionPaced_step {limit : Nat} (limited : limit < u16Max) (past : List ServerEvent)
    (event : ServerEvent) (step : event.Of (serverMachine stack))
    (held : SessionPaced limit id past event.before) :
    SessionPaced limit id (past ++ [event]) event.after := by
  intro kept turn
  rw [List.filterMap_append] at turn ⊢
  obtain ⟨rate, opened, counts, paced⟩ :=
    held (fun earlier member => kept earlier (by simp [member])) turn.init
  rcases serverTick_cases step (kept event (by simp)) opened with
    ⟨idle, unchanged⟩ | ⟨tick, ticked, rfl, ticks, changed⟩
  · rw [List.filterMap_cons_none idle, List.filterMap_nil, List.append_nil]
    exact ⟨rate, unchanged, counts, paced⟩
  · rw [List.filterMap_cons_some ticked, List.filterMap_nil] at turn ⊢
    have effect := clockTickEffect_of ticks
    exact ⟨tick.after, changed, counts.snoc effect turn, paced.snoc limited counts effect turn⟩

theorem sessionPaced_open (limit : Nat) (start : WsServer) (opened : Instant) :
    SessionPaced limit id [] (start.openSession id opened) := by
  intro _ _
  exact ⟨.default opened, Function.update_self _ _ _, ⟨by simp, by simp⟩, fun _ _ => by simp⟩

/-- What a session can have processed in a second. Let the requests of all sessions come in any
order, while one session stays open and its requests are counted one after the other, by a clock
that may go on at any point. In every second of it the calls that are processed are at most as many
as the product of the two limits, however they are divided into batches. A request is passed on as
it is or rejected as a whole, with one error for each of its calls. -/
theorem processed_calls_bounded (limited : stack.dispatcher.maxReqPerSec < u16Max)
    (start : WsServer) (id : H256) (opened : Instant) (inputs : List ServerInput)
    (kept : ∀ input ∈ inputs, ¬input.Switches id) (events : List ServerEvent)
    (ran : run (serverMachine stack) (start.openSession id opened) inputs = events)
    (turn : InTurn (events.filterMap (serverTick id))) :
    (∀ era second, ((events.filter fun event =>
        (serverTick id event).any (ClockTick.isIn era second)).map
          fun event => (processedCalls event.output).length).sum ≤
      stack.dispatcher.maxReqPerSec * max 1 stack.middleware.maxBatchSize) ∧
    ∀ event ∈ events, ∀ origin request clock, event.input = .request origin request clock →
      event.output = some (.processed request) ∨
        ∃ error ∈ [errorRateLimited, errorBatchSize],
          event.output = some (.rejected (generateErrorResponse error request)) := by
  subst ran
  refine ⟨fun era second => ?_, fun event member origin request clock isInput =>
    answer_of_request (of_mem_run member) isInput⟩
  let limit := stack.dispatcher.maxReqPerSec
  let events := run (serverMachine stack) (start.openSession id opened) inputs
  let allowed (event : ServerEvent) : Bool :=
    (serverTick id event).any (ClockTick.allowedIn limit era second)
  have sized : ∀ event ∈ events.filter fun event =>
        (serverTick id event).any (ClockTick.isIn era second),
      (processedCalls event.output).length ≤
        if allowed event then max 1 stack.middleware.maxBatchSize else 0 := by
    intro event member
    obtain ⟨among, within⟩ := List.mem_filter.mp member
    obtain ⟨tick, ticked, isIn⟩ := (Option.any_eq_true _ _).mp within
    have bound := length_processedCalls_of_tick (of_mem_run among) ticked
    simpa [allowed, ticked, ClockTick.allowedIn, isIn] using bound
  have counted : events.countP allowed =
      (events.filterMap (serverTick id)).countP (ClockTick.allowedIn limit era second) := by
    rw [List.countP_filterMap]
    refine congrArg (events.countP ·) (funext fun event => ?_)
    cases ticked : serverTick id event <;> simp [allowed, ticked]
  have untouched : ∀ event ∈ events, ¬event.input.Switches id :=
    fun event member => kept _ (input_mem_of_mem_run member)
  obtain ⟨_, _, _, paced⟩ := (run_history_always (SessionPaced limit id)
    (sessionPaced_step limited) (sessionPaced_open limit start opened)).2 untouched turn
  calc _ ≤ (events.filter _).countP allowed * max 1 stack.middleware.maxBatchSize :=
        sum_map_le_countP_mul sized
    _ ≤ events.countP allowed * max 1 stack.middleware.maxBatchSize :=
        Nat.mul_le_mul_right _ List.filter_sublist.countP_le
    _ ≤ limit * max 1 stack.middleware.maxBatchSize := by
        rw [counted]
        exact Nat.mul_le_mul_right _ (paced era second)

end Calls

/-- A batch of a call and a notification. -/
def twoCalls : RpcRequest := .batch [.methodCall (some .v2) (.num 1), .notification (some .v2)]

/-- The slot is chosen later than the end of the era is looked for. -/
def slowReadings (check slot : Nat) (later : check ≤ slot) : ClockReadings :=
  ⟨check, check, slot, Nat.le_refl check, later⟩

/-- The batch three times before the end of an era; the third is counted when the era is over. -/
def repeatedBatch : List ServerInput :=
  [.request (.ws sampleSession) twoCalls (slowReadings 9900000000 9950000000 (by decide)),
    .request (.ws sampleSession) twoCalls (slowReadings 9960000000 9970000000 (by decide)),
    .request (.ws sampleSession) twoCalls (slowReadings 9980000000 10010000000 (by decide))]

/-- One batch is processed in the last second, every call of the next is rejected, and the third is
counted in a second after the end of its era. -/
theorem second_batch_rejected :
    let events := run (serverMachine ⟨⟨1⟩, ⟨2⟩⟩) (WsServer.new.openSession sampleSession 0)
      repeatedBatch
    ((events.filter fun event => (serverTick sampleSession event).any
        (ClockTick.isIn 0 9)).map fun event => (processedCalls event.output).length).sum ≤ 2 ∧
      (events.filterMap (serverTick sampleSession)).map (·.second) = [9, 9, 10] ∧
      events.map (·.output) = [some (.processed twoCalls), some (.rejected (.batch
        [⟨some .v2, errorRateLimited, .num 1⟩, ⟨some .v2, errorRateLimited, .null⟩])),
        some (.processed twoCalls)] := by
  have turn : InTurn ((run (serverMachine ⟨⟨1⟩, ⟨2⟩⟩)
      (WsServer.new.openSession sampleSession 0) repeatedBatch).filterMap
        (serverTick sampleSession)) := by
    unfold InTurn
    decide
  have kept : ∀ input ∈ repeatedBatch, ¬input.Switches sampleSession := by
    simp [repeatedBatch, ServerInput.Switches]
  have bounded := (processed_calls_bounded ⟨⟨1⟩, ⟨2⟩⟩ (by decide) .new sampleSession 0
    repeatedBatch kept _ rfl turn).1 0 9
  exact ⟨bounded, by decide, by decide⟩

end Ethwasi.Gateway
