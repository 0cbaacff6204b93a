import Mathlib.Data.Fin.Basic
import Mathlib.Data.List.Induction
import Mathlib.Logic.Function.Basic
import Ethwasi.Common
import Ethwasi.Transition.Run

/-!
# The rate limit of a session

Every WebSocket session has a calculator that counts requests by the second. It keeps ten counters,
one for each second of an era, and a new era starts with the first request that comes ten seconds
or more after the start of the last one. A counter is cleared when a request falls into the second
before it, and the first counter also when an era starts. Nothing clears a counter whose second
comes after a second without requests, so it still holds what was counted in it in an earlier era.

Time is counted in nanoseconds from some moment. A call reads the clock up to three times, and the
functions take all readings. The exact account of the counters is given for a clock that stands
still during a call.
-/

namespace Ethwasi.Gateway

open Ethwasi.Rust Ethwasi.Transition

/-- `Instant`. -/
abbrev Instant := Nat

/-- `RATE_SECONDS`. -/
abbrev rateSeconds : Nat := 10

/-- What the clock shows in a call of `tick`: when it looks for the end of the era, when it starts
a new one, and when it chooses the slot. The second one is read only for a new era. -/
structure ClockReadings where
  atCheck : Instant
  atEra : Instant
  atSlot : Instant
  forward : atCheck ≤ atEra ∧ atEra ≤ atSlot

/-- A clock that stands still during a call. -/
def ClockReadings.still (now : Instant) : ClockReadings :=
  ⟨now, now, now, Nat.le_refl now, Nat.le_refl now⟩

/-- `RateCalculator`; the samples are of type `u16`. -/
structure RateCalculator where
  era : Instant
  samples : Fin rateSeconds → Nat

/-- `u16::MAX`. -/
def u16Max : Nat := 65535

namespace RateCalculator

/-- `default`. -/
def default (now : Instant) : RateCalculator := ⟨now, fun _ => 0⟩

/-- `elapsed`: whole seconds since the start of the era. -/
def elapsed (rate : RateCalculator) (now : Instant) : Nat := (now - rate.era) / 1000000000

/-- The first step of `tick`: after ten seconds a new era starts. -/
def renewDuring (rate : RateCalculator) (clock : ClockReadings) : RateCalculator :=
  if rateSeconds ≤ rate.elapsed clock.atCheck then
    { era := clock.atEra, samples := Function.update rate.samples 0 0 }
  else rate

/-- `tick`. -/
def tickDuring (rate : RateCalculator) (clock : ClockReadings) : Nat × RateCalculator :=
  let rate := rate.renewDuring clock
  let pos := Fin.ofNat rateSeconds (rate.elapsed clock.atSlot)
  let next := Fin.ofNat rateSeconds (pos + 1)
  let samples := Function.update rate.samples next 0
  let samples := Function.update samples pos (min (samples pos + 1) u16Max)
  (samples pos, { rate with samples })

/-- The first step of `tick`, while the clock stands still. -/
def renew (rate : RateCalculator) (now : Instant) : RateCalculator := rate.renewDuring (.still now)

/-- `tick`, while the clock stands still. -/
def tick (rate : RateCalculator) (now : Instant) : Nat × RateCalculator :=
  rate.tickDuring (.still now)

end RateCalculator

/-- `rpc::Id`. -/
inductive RpcId where
  | null
  | num (value : Nat)
  | str (value : String)
  deriving DecidableEq

/-- `rpc::Version`. -/
inductive RpcVersion where
  | v2
  deriving DecidableEq

/-- `rpc::Call`, without methods and parameters. -/
inductive RpcCall where
  | methodCall (jsonrpc : Option RpcVersion) (id : RpcId)
  | notification (jsonrpc : Option RpcVersion)
  | invalid (id : RpcId)
  deriving DecidableEq

/-- `rpc::Request`. -/
inductive RpcRequest where
  | single (call : RpcCall)
  | batch (calls : List RpcCall)
  deriving DecidableEq

/-- `rpc::Error`; those of the middleware carry no data. -/
structure RpcFault where
  code : Int
  message : String
  deriving DecidableEq

/-- `rpc::Output::Failure`. -/
structure RpcOutput where
  jsonrpc : Option RpcVersion
  error : RpcFault
  id : RpcId
  deriving DecidableEq

/-- `rpc::Response`. -/
inductive RpcResponse where
  | single (output : RpcOutput)
  | batch (outputs : List RpcOutput)
  deriving DecidableEq

/-- `error_rate_limited`. -/
def errorRateLimited : RpcFault := ⟨-32098, "Too many requests"⟩

/-- `generate_error_response_call`. -/
def generateErrorResponseCall (error : RpcFault) : RpcCall → RpcOutput
  | .methodCall jsonrpc id => ⟨jsonrpc, error, id⟩
  | .notification jsonrpc => ⟨jsonrpc, error, .null⟩
  | .invalid id => ⟨none, error, id⟩

/-- `generate_error_response`. -/
def generateErrorResponse (error : RpcFault) : RpcRequest → RpcResponse
  | .single call => .single (generateErrorResponseCall error call)
  | .batch calls => .batch (calls.map (generateErrorResponseCall error))

/-- `RpcStats`. -/
structure RpcStats where
  sessions : H256 → Option RateCalculator

namespace RpcStats

/-- `open_session`. -/
def openSession (stats : RpcStats) (id : H256) (now : Instant) : RpcStats :=
  ⟨Function.update stats.sessions id (some (.default now))⟩

/-- `close_session`. -/
def closeSession (stats : RpcStats) (id : H256) : RpcStats :=
  ⟨Function.update stats.sessions id none⟩

/-- `count_request`. -/
def countRequestDuring (stats : RpcStats) (id : H256) (clock : ClockReadings) : Nat × RpcStats :=
  match stats.sessions id with
  | none => (0, stats)
  | some rate =>
    let (count, rate) := rate.tickDuring clock
    (count, ⟨Function.update stats.sessions id (some rate)⟩)

end RpcStats

/-- `Origin`, by the sessions of WebSocket requests. -/
inductive Origin where
  | ws (session : H256)
  | other
  deriving DecidableEq

/-- `WsDispatcher`. -/
structure WsDispatcher where
  maxReqPerSec : Nat

/-- A request is answered with an error or processed. -/
inductive Handled where
  | rejected (response : RpcResponse)
  | processed (request : RpcRequest)
  deriving DecidableEq

/-- `on_request`. -/
def WsDispatcher.onRequestDuring (dispatcher : WsDispatcher) (stats : RpcStats) (origin : Origin)
    (request : RpcRequest) (clock : ClockReadings) : Handled × RpcStats :=
  match origin with
  | .ws session =>
    let (count, stats) := stats.countRequestDuring session clock
    if dispatcher.maxReqPerSec < count then
      (.rejected (generateErrorResponse errorRateLimited request), stats)
    else (.processed request, stats)
  | .other => (.processed request, stats)

/-- `on_request`, while the clock stands still. -/
def WsDispatcher.onRequest (dispatcher : WsDispatcher) (stats : RpcStats) (origin : Origin)
    (request : RpcRequest) (now : Instant) : Handled × RpcStats :=
  dispatcher.onRequestDuring stats origin request (.still now)

/-- What happens at a server, and when. -/
inductive WsInput where
  | openSession (id : H256) (now : Instant)
  | closeSession (id : H256)
  | request (origin : Origin) (request : RpcRequest) (now : Instant)

/-- A server with all its sessions. -/
def wsMachine (dispatcher : WsDispatcher) : Machine RpcStats WsInput (Option Handled) :=
  fun stats input =>
    match input with
    | .openSession id now => some (none, stats.openSession id now)
    | .closeSession id => some (none, stats.closeSession id)
    | .request origin request now =>
      let (handled, stats) := dispatcher.onRequest stats origin request now
      some (some handled, stats)

/-- An event of a server. -/
abbrev WsEvent := Event RpcStats WsInput (Option Handled)

/-- A calculator by its ticks. -/
def tickMachine : Machine RateCalculator Instant Nat := fun rate now => some (rate.tick now)

/-- A tick. -/
abbrev RateEvent := Event RateCalculator Instant Nat

namespace RateEvent

/-- The request starts a new era. -/
def startsEra (event : RateEvent) : Bool := rateSeconds ≤ event.before.elapsed event.input

/-- The start of the era of a request. -/
def era (event : RateEvent) : Instant := event.after.era

/-- The whole second of a request, counted from its era. -/
def second (event : RateEvent) : Nat := event.after.elapsed event.input

/-- The counter of a request. -/
def slot (event : RateEvent) : Fin rateSeconds := Fin.ofNat rateSeconds event.second

/-- The request clears the counter before it counts. -/
def clears (slot : Fin rateSeconds) (event : RateEvent) : Bool :=
  slot = Fin.ofNat rateSeconds (event.slot + 1) || event.startsEra && slot = 0

end RateEvent

/-- How many of the requests that are counted are in a counter. -/
def tally (counted : RateEvent → Bool) (slot : Fin rateSeconds) (past : List RateEvent) : Nat :=
  past.foldl (fun sum event =>
    (if event.clears slot then 0 else sum) + if event.slot = slot && counted event then 1 else 0) 0

/-- The requests in the second of a request, up to this one. -/
def inSecond (past : List RateEvent) (event : RateEvent) : Nat :=
  past.countP (fun earlier => earlier.era = event.era && earlier.second = event.second) + 1

/-- The requests of earlier eras that are still in the counter of a request. -/
def carriedOver (past : List RateEvent) (event : RateEvent) : Nat :=
  if event.clears event.slot then 0
  else tally (fun earlier => earlier.era ≠ event.era) event.slot past

/-- The next counter is another one. -/
theorem next_ne (slot : Fin rateSeconds) : Fin.ofNat rateSeconds (slot + 1) ≠ slot := by
  revert slot
  decide

/-- What a tick does. -/
structure TickEffect (event : RateEvent) : Prop where
  era : event.era = if event.startsEra then event.input else event.before.era
  /-- Every second lies within its era. -/
  second : event.second < rateSeconds
  samples : ∀ slot, event.after.samples slot =
    if slot = event.slot then
      min ((if event.clears slot then 0 else event.before.samples slot) + 1) u16Max
    else if event.clears slot then 0 else event.before.samples slot
  output : event.output = event.after.samples event.slot

theorem renew_eq (rate : RateCalculator) (now : Instant) :
    rate.renew now =
      if rateSeconds ≤ rate.elapsed now then
        { era := now, samples := Function.update rate.samples 0 0 }
      else rate := rfl

/-- The counters after the first step of a tick. -/
theorem renew_samples (rate : RateCalculator) (now : Instant) (slot : Fin rateSeconds) :
    (rate.renew now).samples slot =
      if rateSeconds ≤ rate.elapsed now ∧ slot = 0 then 0 else rate.samples slot := by
  rw [renew_eq]
  by_cases starts : rateSeconds ≤ rate.elapsed now
  · simp [starts, Function.update_apply]
  · simp [starts]

/-- An era starts with its first second. -/
theorem renew_elapsed (rate : RateCalculator) (now : Instant) :
    (rate.renew now).elapsed now =
      if rateSeconds ≤ rate.elapsed now then 0 else rate.elapsed now := by
  rw [renew_eq]
  split
  · simp [RateCalculator.elapsed]
  · rfl

theorem tickEffect_of {event : RateEvent} (step : event.Of tickMachine) : TickEffect event := by
  have ticked : event.before.tick event.input = (event.output, event.after) := Option.some.inj step
  have after : event.after = (event.before.tick event.input).2 := by rw [ticked]
  have second : event.second = (event.before.renew event.input).elapsed event.input := by
    rw [RateEvent.second, after]
    rfl
  have slot : event.slot =
      Fin.ofNat rateSeconds ((event.before.renew event.input).elapsed event.input) := by
    rw [RateEvent.slot, second]
  have samples : event.after.samples = Function.update
      (Function.update (event.before.renew event.input).samples
        (Fin.ofNat rateSeconds (event.slot + 1)) 0) event.slot
      (min ((event.before.renew event.input).samples event.slot + 1) u16Max) := by
    have kept : Function.update (event.before.renew event.input).samples
        (Fin.ofNat rateSeconds (event.slot + 1)) 0 event.slot =
          (event.before.renew event.input).samples event.slot :=
      Function.update_of_ne (next_ne event.slot).symm _ _
    rw [← kept, slot, after]
    rfl
  refine ⟨?_, ?_, ?_, ?_⟩
  · rw [RateEvent.era, after]
    change (event.before.renew event.input).era = _
    simp only [RateEvent.startsEra, decide_eq_true_eq]
    exact apply_ite RateCalculator.era _ _ _
  · rw [second, renew_elapsed]
    split
    · decide
    · rename_i goesOn
      exact Nat.not_le.mp goesOn
  · intro other
    rw [samples, Function.update_apply, Function.update_apply, renew_samples, renew_samples]
    by_cases own : other = event.slot
    · have notNext : ¬event.slot = Fin.ofNat rateSeconds (event.slot + 1) :=
        (next_ne event.slot).symm
      simp only [own, if_true, RateEvent.clears, notNext, decide_false, Bool.false_or,
        RateEvent.startsEra, Bool.and_eq_true, decide_eq_true_eq]
    · simp only [own, if_false, RateEvent.clears, Bool.or_eq_true, decide_eq_true_eq,
        RateEvent.startsEra, Bool.and_eq_true]
      by_cases next : other = Fin.ofNat rateSeconds (event.slot + 1)
      · simp only [next, if_true, true_or]
      · simp only [next, if_false, false_or]
  · have output : event.output = (event.before.tick event.input).1 := by rw [ticked]
    rw [output, slot, after]
    rfl

section Tally

variable {counted : RateEvent → Bool} {slot : Fin rateSeconds} {past : List RateEvent}
  {event : RateEvent}

theorem tally_append :
    tally counted slot (past ++ [event]) =
      (if event.clears slot then 0 else tally counted slot past) +
        if event.slot = slot && counted event then 1 else 0 := by
  rw [tally, List.foldl_append]
  rfl

/-- What is in a counter is of one kind or of the other. -/
theorem tally_split (kind : RateEvent → Bool) (slot : Fin rateSeconds) (past : List RateEvent) :
    tally (fun _ => true) slot past =
      tally kind slot past + tally (fun event => !kind event) slot past := by
  induction past using List.reverseRecOn with
  | nil => rfl
  | append_singleton past event ih =>
    rw [tally_append, tally_append, tally_append, ih]
    cases event.clears slot <;> cases kind event <;> by_cases own : event.slot = slot <;>
      simp [own] <;> omega

/-- One request comes after another: the eras grow, and so do the seconds of an era, of which only
the first request is its start. -/
def Follows (earlier later : RateEvent) : Prop :=
  earlier.era ≤ later.era ∧
    (earlier.era = later.era → earlier.second ≤ later.second ∧ later.startsEra = false)

/-- The seconds of an era have counters of their own. -/
theorem ofNat_eq_iff {left right : Nat} (leftSmall : left < rateSeconds)
    (rightSmall : right < rateSeconds) :
    Fin.ofNat rateSeconds left = Fin.ofNat rateSeconds right ↔ left = right := by
  simp [Fin.ext_iff, Nat.mod_eq_of_lt leftSmall, Nat.mod_eq_of_lt rightSmall]

/-- The counter of a second is not the one after it. -/
theorem slot_ne_next {event : RateEvent} {second : Nat} (same : event.second = second) :
    Fin.ofNat rateSeconds second ≠ Fin.ofNat rateSeconds (event.slot + 1) := by
  rw [← same]
  exact (next_ne event.slot).symm

/-- Within an era, nothing that is counted in a second is cleared before the second is over. -/
theorem tally_eq_countP (ordered : past.Pairwise Follows) (era : Instant) (second : Nat)
    (small : second < rateSeconds) (within : ∀ event ∈ past, event.second < rateSeconds)
    (last : ∀ event ∈ past, event.era ≤ era ∧ (event.era = era → event.second ≤ second)) :
    tally (fun event => event.era = era) (Fin.ofNat rateSeconds second) past =
      past.countP fun event => event.era = era && event.second = second := by
  induction past using List.reverseRecOn with
  | nil => rfl
  | append_singleton past event ih =>
    obtain ⟨before, _, crossing⟩ := List.pairwise_append.mp ordered
    have rest := ih before (fun earlier member => within earlier (by simp [member]))
      (fun earlier member => last earlier (by simp [member]))
    have sameSlot : event.slot = Fin.ofNat rateSeconds second ↔ event.second = second :=
      ofNat_eq_iff (within event (by simp)) small
    have noneLost : event.clears (Fin.ofNat rateSeconds second) = true →
        past.countP (fun earlier => earlier.era = era && earlier.second = second) = 0 := by
      intro cleared
      rw [List.countP_eq_zero]
      intro earlier member inSecond
      simp only [Bool.and_eq_true, decide_eq_true_eq] at inSecond
      obtain ⟨eras, seconds⟩ := crossing earlier member event (by simp)
      obtain ⟨upTo, upToSecond⟩ := last event (by simp)
      have sameEra : event.era = era := Nat.le_antisymm upTo (inSecond.1 ▸ eras)
      obtain ⟨ahead, goesOn⟩ := seconds (inSecond.1.trans sameEra.symm)
      have sameSecond : event.second = second :=
        Nat.le_antisymm (upToSecond sameEra) (inSecond.2 ▸ ahead)
      simp only [RateEvent.clears, goesOn, Bool.false_and, Bool.or_false, decide_eq_true_eq]
        at cleared
      exact slot_ne_next sameSecond cleared
    rw [tally_append, List.countP_append, rest]
    simp only [sameSlot, List.countP_singleton, Bool.and_comm]
    split
    · rename_i cleared
      rw [noneLost cleared]
    · rfl

end Tally

/-- What holds of a calculator after some ticks. -/
structure RateInvariant (past : List RateEvent) (rate : RateCalculator) : Prop where
  eras : ∀ event ∈ past, event.era ≤ rate.era
  within : ∀ event ∈ past, event.second < rateSeconds
  ordered : past.Pairwise Follows
  samples : ∀ slot, rate.samples slot = min (tally (fun _ => true) slot past) u16Max

section Run

variable {past : List RateEvent} {event : RateEvent}

/-- Requests come in order. -/
def Chronological (past : List RateEvent) : Prop := (past.map (·.input)).Pairwise (· ≤ ·)

theorem Chronological.init {later : List RateEvent} (times : Chronological (past ++ later)) :
    Chronological past := by
  unfold Chronological at times ⊢
  rw [List.map_append] at times
  exact (List.pairwise_append.mp times).1

theorem Chronological.le_last (times : Chronological (past ++ [event])) :
    ∀ earlier ∈ past, earlier.input ≤ event.input := by
  unfold Chronological at times
  rw [List.map_append] at times
  intro earlier member
  exact (List.pairwise_append.mp times).2.2 _ (List.mem_map_of_mem member) _ (by simp)

/-- A new era starts later than the last one. -/
theorem era_lt_of_startsEra (starts : event.startsEra = true) : event.before.era < event.input := by
  have long : rateSeconds ≤ (event.input - event.before.era) / 1000000000 :=
    of_decide_eq_true starts
  by_contra early
  rw [Nat.sub_eq_zero_of_le (Nat.not_lt.mp early)] at long
  simp at long

/-- A request comes after all earlier ones. -/
theorem RateInvariant.follows (held : RateInvariant past event.before)
    (effect : TickEffect event) (times : Chronological (past ++ [event])) :
    ∀ earlier ∈ past, Follows earlier event := by
  intro earlier member
  have eras := held.eras earlier member
  have era := effect.era
  cases starts : event.startsEra with
  | true =>
    rw [starts, if_pos rfl] at era
    have newer : earlier.era < event.era := by
      rw [era]
      exact Nat.lt_of_le_of_lt eras (era_lt_of_startsEra starts)
    exact ⟨Nat.le_of_lt newer, fun same => absurd same (Nat.ne_of_lt newer)⟩
  | false =>
    rw [starts, if_neg (by simp)] at era
    refine ⟨era ▸ eras, fun same => ⟨?_, starts⟩⟩
    have ordered := times.le_last earlier member
    change (earlier.input - earlier.era) / 1000000000 ≤ (event.input - event.era) / 1000000000
    rw [same]
    exact Nat.div_le_div_right (Nat.sub_le_sub_right ordered _)

/-- A tick keeps the invariant. -/
theorem RateInvariant.tick (held : RateInvariant past event.before)
    (effect : TickEffect event) (times : Chronological (past ++ [event])) :
    RateInvariant (past ++ [event]) event.after := by
  have follows := held.follows effect times
  constructor
  · intro other member
    rcases List.mem_append.mp member with old | new
    · exact (follows other old).1
    · rw [List.mem_singleton.mp new]
      exact Nat.le_refl _
  · intro other member
    rcases List.mem_append.mp member with old | new
    · exact held.within other old
    · rw [List.mem_singleton.mp new]
      exact effect.second
  · refine List.pairwise_append.mpr ⟨held.ordered, List.pairwise_singleton _ _, ?_⟩
    intro earlier member last new
    rw [List.mem_singleton.mp new]
    exact follows earlier member
  · intro slot
    rw [effect.samples, tally_append, held.samples]
    by_cases own : slot = event.slot
    · subst own
      cases event.clears event.slot with
      | true => simp
      | false =>
        simp only [Bool.false_eq_true, if_false, if_true, decide_true, Bool.and_self]
        omega
    · have other : ¬event.slot = slot := fun same => own same.symm
      cases event.clears slot with
      | true => simp [own, other]
      | false => simp [own, other]

/-- What a tick returns: the requests of its second, and those that earlier eras left in the
counter. -/
theorem RateInvariant.output (held : RateInvariant past event.before)
    (effect : TickEffect event) (times : Chronological (past ++ [event])) :
    event.output = min (inSecond past event + carriedOver past event) u16Max := by
  have after := held.tick effect times
  have ownSlot : event.slot = Fin.ofNat rateSeconds event.second := rfl
  have own : tally (fun other => other.era = event.era) event.slot (past ++ [event]) =
      inSecond past event := by
    rw [ownSlot, tally_eq_countP after.ordered event.era event.second effect.second after.within]
    · rw [List.countP_append]
      simp [inSecond]
    · intro other member
      rcases List.mem_append.mp member with old | new
      · have follows := held.follows effect times other old
        exact ⟨follows.1, fun same => (follows.2 same).1⟩
      · rw [List.mem_singleton.mp new]
        exact ⟨Nat.le_refl _, fun _ => Nat.le_refl _⟩
  have others : tally (fun other => !decide (other.era = event.era)) event.slot
      (past ++ [event]) = carriedOver past event := by
    rw [tally_append, carriedOver]
    simp
  rw [effect.output, after.samples, tally_split (fun other => other.era = event.era), own, others]

end Run

/-- The input opens or closes the session. -/
def WsInput.Switches (id : H256) : WsInput → Prop
  | .openSession other _ => other = id
  | .closeSession other => other = id
  | .request _ _ _ => False

/-- The tick of a session that an event makes. -/
def tickOf (id : H256) (event : WsEvent) : Option RateEvent :=
  match event.input, event.before.sessions id with
  | .request origin _ now, some rate =>
    if origin = .ws id then some ⟨rate, now, (rate.tick now).1, (rate.tick now).2⟩ else none
  | _, _ => none

/-- The request of an event was rejected. -/
def Rejects (event : WsEvent) : Prop := ∃ response, event.output = some (.rejected response)

section Counting

variable {stats : RpcStats} {id : H256}

/-- The statistics after a request are those of its count. -/
theorem onRequestDuring_snd (dispatcher : WsDispatcher) (stats : RpcStats) (session : H256)
    (request : RpcRequest) (clock : ClockReadings) :
    (dispatcher.onRequestDuring stats (.ws session) request clock).2 =
      (stats.countRequestDuring session clock).2 := by
  unfold WsDispatcher.onRequestDuring
  dsimp only
  split <;> rfl

/-- A request of an open session is counted by its calculator. -/
theorem countRequestDuring_of_open {rate : RateCalculator}
    (opened : stats.sessions id = some rate) (clock : ClockReadings) :
    stats.countRequestDuring id clock =
      ((rate.tickDuring clock).1,
        ⟨Function.update stats.sessions id (some (rate.tickDuring clock).2)⟩) := by
  simp [RpcStats.countRequestDuring, opened]

/-- A request is counted with its own session only. -/
theorem countRequestDuring_other {session : H256} (other : session ≠ id)
    (clock : ClockReadings) :
    (stats.countRequestDuring session clock).2.sessions id = stats.sessions id := by
  unfold RpcStats.countRequestDuring
  cases stats.sessions session with
  | none => rfl
  | some rate => exact Function.update_of_ne other.symm _ _

end Counting

section Sessions

variable {dispatcher : WsDispatcher} {id : H256}

/-- An event ticks the calculator of a session or leaves it alone. -/
theorem tickOf_cases {event : WsEvent} (step : event.Of (wsMachine dispatcher))
    (kept : ¬event.input.Switches id) {rate : RateCalculator}
    (opened : event.before.sessions id = some rate) :
    (tickOf id event = none ∧ event.after.sessions id = some rate ∧
        ∀ request now, event.input ≠ .request (.ws id) request now) ∨
      ∃ request now, event.input = .request (.ws id) request now ∧
        tickOf id event = some ⟨rate, now, (rate.tick now).1, (rate.tick now).2⟩ ∧
        event.after.sessions id = some (rate.tick now).2 ∧
        (Rejects event ↔ dispatcher.maxReqPerSec < (rate.tick now).1) := by
  obtain ⟨before, input, output, after⟩ := event
  change wsMachine dispatcher before input = some (output, after) at step
  cases input with
  | openSession other now =>
    cases step
    exact .inl ⟨rfl, (Function.update_of_ne (Ne.symm kept) _ _).trans opened, by simp⟩
  | closeSession other =>
    cases step
    exact .inl ⟨rfl, (Function.update_of_ne (Ne.symm kept) _ _).trans opened, by simp⟩
  | request origin request now =>
    simp only [wsMachine, Option.some.injEq, Prod.mk.injEq] at step
    obtain ⟨rfl, rfl⟩ := step
    simp only at opened
    by_cases own : origin = .ws id
    · subst own
      have count : before.countRequestDuring id (.still now) = ((rate.tick now).1,
          ⟨Function.update before.sessions id (some (rate.tick now).2)⟩) :=
        countRequestDuring_of_open opened (.still now)
      refine .inr ⟨request, now, rfl, by simp [tickOf, opened], ?_, ?_⟩
      · simp only [WsDispatcher.onRequest, onRequestDuring_snd, count, Function.update_self]
      · simp only [Rejects, WsDispatcher.onRequest, WsDispatcher.onRequestDuring, count]
        by_cases exceeded : dispatcher.maxReqPerSec < (rate.tick now).1
        · simp [exceeded]
        · simp [exceeded]
    · refine .inl ⟨by simp [tickOf, opened, own], ?_, by simp [own]⟩
      cases origin with
      | other => exact opened
      | ws session =>
        have different : session ≠ id := fun same => own (by rw [same])
        simp only [WsDispatcher.onRequest, onRequestDuring_snd, countRequestDuring_other different,
          opened]

/-- As long as a session stays open and time does not run backwards, its calculator has counted
its ticks. -/
def SessionInvariant (id : H256) (past : List WsEvent) (stats : RpcStats) : Prop :=
  (∀ event ∈ past, ¬event.input.Switches id) → Chronological (past.filterMap (tickOf id)) →
    ∃ rate, stats.sessions id = some rate ∧
      RateInvariant (past.filterMap (tickOf id)) rate

theorem sessionInvariant_step (past : List WsEvent) (event : WsEvent)
    (step : event.Of (wsMachine dispatcher)) (held : SessionInvariant id past event.before) :
    SessionInvariant id (past ++ [event]) event.after := by
  intro kept times
  rw [List.filterMap_append] at times ⊢
  obtain ⟨rate, found, invariant⟩ :=
    held (fun earlier member => kept earlier (by simp [member])) times.init
  rcases tickOf_cases step (kept event (by simp)) found with ⟨idle, after, _⟩ |
    ⟨request, now, _, ticked, after, _⟩
  · rw [List.filterMap_cons_none idle, List.filterMap_nil, List.append_nil]
    exact ⟨rate, after, invariant⟩
  · rw [List.filterMap_cons_some ticked, List.filterMap_nil] at times ⊢
    exact ⟨_, after, @RateInvariant.tick _ ⟨rate, now, (rate.tick now).1, (rate.tick now).2⟩
      invariant (tickEffect_of rfl) times⟩

/-- A session starts with an empty calculator. -/
theorem sessionInvariant_open (stats : RpcStats) (opened : Instant) :
    SessionInvariant id [] (stats.openSession id opened) := by
  intro _ _
  refine ⟨.default opened, Function.update_self .., by simp, by simp, .nil, ?_⟩
  intro slot
  rfl

variable (dispatcher)

/-- The limit counts the requests of a second and what earlier eras left in its counter. For every
order of openings, closings and requests of all sessions, and a session that stays open, a request
is rejected exactly when these are more than the limit together. The count is that of the second,
up to the greatest `u16`, exactly when the counter had nothing left in it, or the second alone
exceeds that number; and a request is rejected exactly when its second has more requests than
allowed unless what was left in the counter takes it over the limit. -/
theorem rate_limit_exact_iff (limited : dispatcher.maxReqPerSec < u16Max) (stats : RpcStats)
    (id : H256) (opened : Instant) (inputs : List WsInput)
    (kept : ∀ input ∈ inputs, ¬input.Switches id) (events : List WsEvent)
    (ran : run (wsMachine dispatcher) (stats.openSession id opened) inputs = events)
    (times : Chronological (events.filterMap (tickOf id))) :
    events.length = inputs.length ∧
    ∀ (index : Nat) event request now, events[index]? = some event →
      event.input = .request (.ws id) request now →
      ∃ tick past, tickOf id event = some tick ∧ (events.take index).filterMap (tickOf id) = past ∧
        tick.output = min (inSecond past tick + carriedOver past tick) u16Max ∧
        (tick.output = min (inSecond past tick) u16Max ↔
          carriedOver past tick = 0 ∨ u16Max ≤ inSecond past tick) ∧
        (Rejects event ↔ dispatcher.maxReqPerSec < inSecond past tick + carriedOver past tick) ∧
        ((Rejects event ↔ dispatcher.maxReqPerSec < inSecond past tick) ↔
          ¬(inSecond past tick ≤ dispatcher.maxReqPerSec ∧
            dispatcher.maxReqPerSec < inSecond past tick + carriedOver past tick)) := by
  subst ran
  constructor
  · exact run_complete (fun _ => True) (fun _ => True)
      (fun stats input _ _ => by cases input <;> exact ⟨_, _, rfl, trivial⟩) trivial
      (fun _ _ => trivial)
  intro index event request now located input
  let events := run (wsMachine dispatcher) (stats.openSession id opened) inputs
  have step : event.Of (wsMachine dispatcher) := of_mem_run (List.mem_of_getElem? located)
  have untouched : ∀ other ∈ events, ¬other.input.Switches id :=
    fun other member => kept _ (input_mem_of_mem_run member)
  have prefixed : (events.take index ++ [event]) ++ events.drop (index + 1) = events := by
    rw [List.append_assoc, List.singleton_append]
    exact (eq_take_append_cons_drop located).symm
  have timely : Chronological ((events.take index).filterMap (tickOf id) ++
      [event].filterMap (tickOf id)) := by
    rw [← List.filterMap_append]
    refine @Chronological.init _ ((events.drop (index + 1)).filterMap (tickOf id)) ?_
    rw [← List.filterMap_append, prefixed]
    exact times
  obtain ⟨rate, found, invariant⟩ :=
    (run_history_always (SessionInvariant id) sessionInvariant_step
      (sessionInvariant_open stats opened)).1 index event located
      (fun other member => untouched other (List.mem_of_mem_take member)) timely.init
  rcases tickOf_cases step (untouched event (List.mem_of_getElem? located)) found with
    ⟨_, _, never⟩ | ⟨_, now, _, ticked, _, rejects⟩
  · exact absurd input (never request now)
  · rw [List.filterMap_cons_some ticked, List.filterMap_nil] at timely
    let tick : RateEvent := ⟨rate, now, (rate.tick now).1, (rate.tick now).2⟩
    have counted : tick.output = _ := invariant.output (tickEffect_of rfl) timely
    have limits : Rejects event ↔ dispatcher.maxReqPerSec < tick.output := rejects
    refine ⟨tick, _, ticked, rfl, counted, ?_⟩
    rw [limits]
    generalize tick.output = output at counted ⊢
    generalize inSecond _ tick = own at counted ⊢
    generalize carriedOver _ tick = carried at counted ⊢
    omega

end Sessions

/-- The id of a session. -/
def sampleSession : H256 := ⟨List.replicate 32 7, rfl⟩

/-- A call of the session. -/
def sampleCall : RpcRequest := .single (.methodCall (some .v2) (.num 1))

/-- Requests of the session at given milliseconds. -/
def requestsAt (times : List Nat) : List WsInput :=
  times.map fun time => .request (.ws sampleSession) sampleCall (time * 1000000)

/-- What happens at a server that allows one request in a second. -/
def sampleServer (times : List Nat) : List WsEvent :=
  run (wsMachine ⟨1⟩) (RpcStats.openSession ⟨fun _ => none⟩ sampleSession 0) (requestsAt times)

/-- The second of two requests of a second is rejected when one is allowed. -/
theorem second_request_rejected :
    let events := sampleServer [500, 900]
    let past := (events.take 1).filterMap (tickOf sampleSession)
    Chronological (events.filterMap (tickOf sampleSession)) ∧ events.length = 2 ∧
      ∃ event tick, events[1]? = some event ∧ tickOf sampleSession event = some tick ∧
        inSecond past tick = 2 ∧ carriedOver past tick = 0 ∧ Rejects event := by
  have times : Chronological ((sampleServer [500, 900]).filterMap (tickOf sampleSession)) := by
    unfold Chronological
    decide
  have kept : ∀ input ∈ requestsAt [500, 900], ¬input.Switches sampleSession := by
    simp [requestsAt, WsInput.Switches]
  obtain ⟨length, counted⟩ := rate_limit_exact_iff ⟨1⟩ (by decide) ⟨fun _ => none⟩ sampleSession 0
    _ kept (sampleServer [500, 900]) rfl times
  obtain ⟨tick, past, ticked, rfl, _, _, rejects, _⟩ := counted 1 _ _ _ rfl rfl
  cases ticked
  exact ⟨times, length, _, _, rfl, rfl, by decide, by decide, rejects.mpr (by decide)⟩

/-- A request that is alone in its second is rejected when one is allowed: its counter still holds
a request of the era before, as the second before it had none. -/
theorem lone_request_rejected :
    let events := sampleServer [2000, 10000, 12000]
    events.map (·.output) = [some (.processed sampleCall), some (.processed sampleCall),
        some (.rejected (.single ⟨some .v2, ⟨-32098, "Too many requests"⟩, .num 1⟩))] ∧
      (events.filterMap (tickOf sampleSession)).map
          (fun tick => (tick.era, tick.second, tick.output)) =
        [(0, 2, 1), (10000000000, 0, 1), (10000000000, 2, 2)] := by
  decide

end Ethwasi.Gateway
