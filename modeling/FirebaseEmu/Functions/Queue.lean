import FirebaseEmu.Firestore.Messages
import FirebaseEmu.Lib.Json

namespace FirebaseEmu.Functions
open Lib
open Firestore (Document)

def directTriggerLoopLimit : Nat := 1000

def durableBurstLimit : Nat := 32

def failureHistoryLimit : Nat := 1000

/-- The capacity of the channel between `enqueue` and the queue loop. -/
def queueCapacity : Nat := 4096

inductive EventSource where
  | firestore (before after : Option Document)
  | storage (kind : String) (object : Json)
  | pubSub (topic : String) (message : Json)
  | schedule (function : String)

structure QueuedEvent where
  source : EventSource
  id : Nat

inductive QueueMessage where
  | direct (event : QueuedEvent)
  | durableWake

structure Failure where
  eventId : Option Nat
  error : String
  deriving DecidableEq

/-- A failure is listed once; the oldest one goes when the list is full. -/
def recordFailure (failures : List Failure) (eventId : Option Nat) (error : String) :
    List Failure :=
  let failure : Failure := ⟨eventId, error⟩
  if failures.contains failure then failures
  else (if failureHistoryLimit ≤ failures.length then failures.tail else failures) ++ [failure]

def clearEventFailures (failures : List Failure) (eventId : Nat) : List Failure :=
  failures.filter fun failure => failure.eventId != some eventId

def clearSystemFailures (failures : List Failure) : List Failure :=
  failures.filter fun failure => failure.eventId.isSome

/-- How the loop deals with a direct event. -/
inductive Handling where
  | dispatched (error : Option String)
  | refused
  deriving DecidableEq

def Handling.error : Handling → Option String
  | .dispatched error => error
  | .refused =>
    some s!"trigger loop limit exceeded ({directTriggerLoopLimit} events without an idle queue)"

/-- Where the queue loop stands: before its next durable event, at work on one, waiting for a
message (`draining` when it throttles durable events), at work on a direct event, or between
the two counters it changes afterwards. -/
inductive Stage where
  | polling
  | durable (id : Nat)
  | receiving
  | draining
  | dispatching (event : QueuedEvent)
  | finished (event : QueuedEvent) (handling : Handling)
  | settling

/-- The hub with its channel and counters, the calls of `enqueue` in progress (by what they did
last), the loop, and which events were accepted and handled so far. -/
structure Queue where
  channel : List QueueMessage
  pending : Int
  sequence : Nat
  failures : List Failure
  completed : Nat
  reserved : List QueuedEvent
  counted : List QueuedEvent
  rejected : List QueuedEvent
  stage : Stage
  durableBurst : Nat
  directBusyCount : Nat
  accepted : List QueuedEvent
  handled : List (QueuedEvent × Handling)

/-- The settings of the loop. -/
structure QueueConfig where
  persistent : Bool
  burstLimit : Nat
  positive : 0 < burstLimit
  bounded : burstLimit ≤ durableBurstLimit

/-- A step of a call of `enqueue` (it takes an id, counts itself, sends its event and, when the
channel is full, takes its count back), of `outbox_committed`, or of the loop. -/
inductive QueueEvent where
  | reserve (source : EventSource)
  | count (id : Nat)
  | send (id : Nat)
  | withdraw (id : Nat)
  | wake
  | turn (claimed : Except String (Option Nat))
  | settle (error : Option String)
  | poll (elapsed : Bool)
  | finish (error : Option String)
  | complete
  | discount

def QueueConfig.throttled (config : QueueConfig) (durableBurst : Nat) : Bool :=
  config.persistent && config.burstLimit ≤ durableBurst

namespace Queue

def start : Queue := ⟨[], 0, 0, [], 0, [], [], [], .polling, 0, 0, [], []⟩

def reserve (queue : Queue) (source : EventSource) : Queue :=
  { queue with
    sequence := queue.sequence + 1
    reserved := queue.reserved ++ [⟨source, queue.sequence + 1⟩] }

/-- The call with an id, among those at one point of `enqueue`. -/
def call (calls : List QueuedEvent) (id : Nat) : Option QueuedEvent :=
  calls.find? fun event => event.id == id

def without (calls : List QueuedEvent) (id : Nat) : List QueuedEvent :=
  calls.eraseP fun event => event.id == id

def count (queue : Queue) (id : Nat) : Queue :=
  match call queue.reserved id with
  | some event =>
    { queue with
      pending := queue.pending + 1
      reserved := without queue.reserved id
      counted := queue.counted ++ [event] }
  | none => queue

def send (queue : Queue) (id : Nat) : Queue :=
  match call queue.counted id with
  | some event =>
    if queue.channel.length < queueCapacity then
      { queue with
        channel := queue.channel ++ [.direct event]
        counted := without queue.counted id
        accepted := queue.accepted ++ [event] }
    else
      { queue with
        counted := without queue.counted id
        rejected := queue.rejected ++ [event] }
  | none => queue

def withdraw (queue : Queue) (id : Nat) : Queue :=
  match call queue.rejected id with
  | some event =>
    { queue with
      pending := queue.pending - 1
      failures := recordFailure queue.failures (some event.id)
        "trigger queue rejected event: no available capacity"
      rejected := without queue.rejected id }
  | none => queue

/-- A full channel wakes the loop by itself. -/
def wake (queue : Queue) : Queue :=
  if queue.channel.length < queueCapacity then
    { queue with channel := queue.channel ++ [.durableWake] }
  else queue

/-- The top of the loop: it claims a durable event unless it throttles them. -/
def turn (config : QueueConfig) (queue : Queue) (claimed : Except String (Option Nat)) : Queue :=
  match queue.stage with
  | .polling =>
    if config.persistent && queue.durableBurst < config.burstLimit then
      match claimed with
      | .ok (some id) =>
        { queue with
          failures := clearSystemFailures queue.failures
          durableBurst := queue.durableBurst + 1
          stage := .durable id }
      | .ok none =>
        { queue with
          failures := clearSystemFailures queue.failures
          durableBurst := 0
          stage := .receiving }
      | .error error =>
        { queue with
          failures := recordFailure queue.failures none error
          durableBurst := 0
          stage := .receiving }
    else
      { queue with
        stage := if config.throttled queue.durableBurst then .draining else .receiving }
  | _ => queue

/-- The durable event is dispatched and its outcome is written, or the write has failed. -/
def settle (queue : Queue) (error : Option String) : Queue :=
  match queue.stage with
  | .durable id =>
    { queue with
      failures := match error with
        | none => clearEventFailures queue.failures id
        | some error => recordFailure queue.failures (some id) error
      stage := .polling }
  | _ => queue

def take (queue : Queue) (event : QueuedEvent) (rest : List QueueMessage) : Queue :=
  { queue with
    channel := rest
    durableBurst := 0
    directBusyCount := queue.directBusyCount + 1
    stage := if directTriggerLoopLimit < queue.directBusyCount + 1 then .finished event .refused
      else .dispatching event }

/-- One receive: `recv` under its timeout, or `try_recv` while the loop throttles, which passes
over wake-ups until it has a direct event or the channel is empty. -/
def poll (queue : Queue) (elapsed : Bool) : Queue :=
  match queue.stage with
  | .receiving =>
    match queue.channel with
    | .direct event :: rest => queue.take event rest
    | .durableWake :: rest =>
      { queue with channel := rest, durableBurst := 0, stage := .polling }
    | [] => if elapsed then { queue with durableBurst := 0, stage := .polling } else queue
  | .draining =>
    match queue.channel with
    | .direct event :: rest => queue.take event rest
    | .durableWake :: rest => { queue with channel := rest }
    | [] => { queue with durableBurst := 0, stage := .polling }
  | _ => queue

def finish (queue : Queue) (error : Option String) : Queue :=
  match queue.stage with
  | .dispatching event => { queue with stage := .finished event (.dispatched error) }
  | _ => queue

def complete (queue : Queue) : Queue :=
  match queue.stage with
  | .finished event handling =>
    { queue with
      failures := match handling.error with
        | some error => recordFailure queue.failures (some event.id) error
        | none => queue.failures
      completed := queue.completed + 1
      stage := .settling
      handled := queue.handled ++ [(event, handling)] }
  | _ => queue

def discount (queue : Queue) : Queue :=
  match queue.stage with
  | .settling =>
    { queue with
      pending := queue.pending - 1
      stage := .polling
      directBusyCount := if queue.pending = 1 then 0 else queue.directBusyCount }
  | _ => queue

def step (config : QueueConfig) (queue : Queue) : QueueEvent → Queue
  | .reserve source => queue.reserve source
  | .count id => queue.count id
  | .send id => queue.send id
  | .withdraw id => queue.withdraw id
  | .wake => queue.wake
  | .turn claimed => queue.turn config claimed
  | .settle error => queue.settle error
  | .poll elapsed => queue.poll elapsed
  | .finish error => queue.finish error
  | .complete => queue.complete
  | .discount => queue.discount

def run (config : QueueConfig) (queue : Queue) (events : List QueueEvent) : Queue :=
  events.foldl (step config) queue

/-- The direct events in the channel, in order. -/
def directs : List QueueMessage → List QueuedEvent
  | [] => []
  | .direct event :: rest => event :: directs rest
  | .durableWake :: rest => directs rest

/-- The direct event the loop has taken and not counted. -/
def inHand (queue : Queue) : List QueuedEvent :=
  match queue.stage with
  | .dispatching event => [event]
  | .finished event _ => [event]
  | _ => []

/-- The event that is counted as completed and still as pending. -/
def unsettled (queue : Queue) : Nat :=
  match queue.stage with
  | .settling => 1
  | _ => 0

@[simp] theorem directs_append (front back : List QueueMessage) :
    directs (front ++ back) = directs front ++ directs back := by
  induction front with
  | nil => rfl
  | cons message rest ih =>
    cases message with
    | direct event => simp [directs, ih]
    | durableWake => simpa [directs] using ih

theorem call_perm {calls : List QueuedEvent} {id : Nat} {event : QueuedEvent}
    (h : call calls id = some event) : (event :: without calls id).Perm calls := by
  obtain ⟨hid, front, back, rfl, hfront⟩ := List.find?_eq_some_iff_append.mp h
  have hwithout : without (front ++ event :: back) id = front ++ back := by
    have hpass : ∀ other ∈ front, ¬ (other.id == id) = true := by
      intro other hm
      simpa using hfront other hm
    rw [without, List.eraseP_append_right _ hpass, List.eraseP_cons, hid]
    rfl
  rw [hwithout]
  exact List.perm_middle.symm

theorem call_length {calls : List QueuedEvent} {id : Nat} {event : QueuedEvent}
    (h : call calls id = some event) : (without calls id).length + 1 = calls.length :=
  (call_perm h).length_eq

/-- The accounts agree: what was accepted is handled, in hand, or waits in the channel, in this
order; each counter is what it counts. -/
structure Conserved (queue : Queue) : Prop where
  accepted : queue.accepted =
    queue.handled.map Prod.fst ++ queue.inHand ++ directs queue.channel
  completed : queue.completed = queue.handled.length
  pending : queue.pending = (queue.inHand.length + (directs queue.channel).length +
    queue.counted.length + queue.rejected.length + queue.unsettled : Nat)
  capacity : queue.channel.length ≤ queueCapacity

variable {queue : Queue}

theorem start_conserved : start.Conserved := ⟨rfl, rfl, rfl, Nat.zero_le _⟩

theorem Conserved.reserve (h : queue.Conserved) (source : EventSource) :
    (queue.reserve source).Conserved :=
  ⟨h.accepted, h.completed, h.pending, h.capacity⟩

theorem Conserved.count (h : queue.Conserved) (id : Nat) : (queue.count id).Conserved := by
  unfold Queue.count
  split
  · refine ⟨h.accepted, h.completed, ?_, h.capacity⟩
    have hpending := h.pending
    simp only [inHand, unsettled, List.length_append, List.length_singleton] at hpending ⊢
    omega
  · exact h

theorem Conserved.send (h : queue.Conserved) (id : Nat) : (queue.send id).Conserved := by
  unfold Queue.send
  split
  · rename_i event hc
    have hlen := call_length hc
    have hpending := h.pending
    have haccepted := h.accepted
    split
    · refine ⟨?_, h.completed, ?_, ?_⟩
      · change queue.accepted ++ [event] = _ ++ _ ++ directs (queue.channel ++ [.direct event])
        rw [haccepted, directs_append, ← List.append_assoc]
        rfl
      · simp only [inHand, unsettled, directs_append, directs, List.length_append,
          List.length_singleton] at hpending ⊢
        omega
      · simp only [List.length_append, List.length_singleton]
        omega
    · refine ⟨haccepted, h.completed, ?_, h.capacity⟩
      simp only [inHand, unsettled, List.length_append, List.length_singleton] at hpending ⊢
      omega
  · exact h

theorem Conserved.withdraw (h : queue.Conserved) (id : Nat) : (queue.withdraw id).Conserved := by
  unfold Queue.withdraw
  split
  · rename_i event hc
    have hlen := call_length hc
    have hpending := h.pending
    refine ⟨h.accepted, h.completed, ?_, h.capacity⟩
    simp only [inHand, unsettled] at hpending ⊢
    omega
  · exact h

theorem Conserved.wake (h : queue.Conserved) : queue.wake.Conserved := by
  unfold Queue.wake
  split
  · refine ⟨?_, h.completed, ?_, ?_⟩
    · change queue.accepted = _ ++ _ ++ directs (queue.channel ++ [.durableWake])
      rw [directs_append, directs, directs, List.append_nil]
      exact h.accepted
    · change queue.pending = (_ + (directs (queue.channel ++ [.durableWake])).length + _ + _ + _ :
        Nat)
      rw [directs_append, directs, directs, List.append_nil]
      exact h.pending
    · simp only [List.length_append, List.length_singleton]
      omega
  · exact h

/-- A move of the loop that neither takes a message nor touches the two counters. -/
theorem Conserved.move (h : queue.Conserved) {failures : List Failure} {stage : Stage}
    {durableBurst : Nat}
    (hhand : Queue.inHand { queue with stage } = queue.inHand)
    (hunsettled : Queue.unsettled { queue with stage } = queue.unsettled) :
    Conserved { queue with failures, stage, durableBurst } := by
  refine ⟨?_, h.completed, ?_, h.capacity⟩
  · exact h.accepted.trans (congrArg (fun hand => _ ++ hand ++ _) hhand.symm)
  · have hpending := h.pending
    rw [← hhand, ← hunsettled] at hpending
    exact hpending

theorem Conserved.turn (h : queue.Conserved) (config : QueueConfig)
    (claimed : Except String (Option Nat)) : (queue.turn config claimed).Conserved := by
  unfold Queue.turn
  split
  · rename_i hs
    have hhand : queue.inHand = [] := by rw [inHand, hs]
    have hunsettled : queue.unsettled = 0 := by rw [unsettled, hs]
    split
    · split
      · exact h.move hhand.symm hunsettled.symm
      · exact h.move hhand.symm hunsettled.symm
      · exact h.move hhand.symm hunsettled.symm
    · apply h.move
      · rw [hhand]
        cases config.throttled queue.durableBurst <;> rfl
      · rw [hunsettled]
        cases config.throttled queue.durableBurst <;> rfl
  · exact h

theorem Conserved.settle (h : queue.Conserved) (error : Option String) :
    (queue.settle error).Conserved := by
  unfold Queue.settle
  split
  · rename_i id hs
    apply h.move
    · rw [inHand, inHand, hs]
    · rw [unsettled, unsettled, hs]
  · exact h

theorem take_inHand (event : QueuedEvent) (rest : List QueueMessage) :
    (queue.take event rest).inHand = [event] := by
  unfold take inHand
  by_cases hlimit : directTriggerLoopLimit < queue.directBusyCount + 1 <;> simp [hlimit]

theorem take_unsettled (event : QueuedEvent) (rest : List QueueMessage) :
    (queue.take event rest).unsettled = 0 := by
  unfold take unsettled
  by_cases hlimit : directTriggerLoopLimit < queue.directBusyCount + 1 <;> simp [hlimit]

theorem Conserved.take (h : queue.Conserved) {event : QueuedEvent} {rest : List QueueMessage}
    (hhand : queue.inHand = []) (hunsettled : queue.unsettled = 0)
    (hc : queue.channel = .direct event :: rest) : (queue.take event rest).Conserved := by
  have haccepted := h.accepted
  have hpending := h.pending
  have hcapacity := h.capacity
  rw [hhand, hc] at haccepted
  rw [hhand, hunsettled, hc] at hpending
  rw [hc, List.length_cons] at hcapacity
  refine ⟨?_, h.completed, ?_, ?_⟩
  · rw [take_inHand]
    change queue.accepted = queue.handled.map Prod.fst ++ [event] ++ directs rest
    rw [haccepted, List.append_nil, directs, List.append_assoc]
    rfl
  · rw [take_inHand, take_unsettled]
    change queue.pending =
      (1 + (directs rest).length + queue.counted.length + queue.rejected.length + 0 : Nat)
    rw [hpending, directs, List.length_cons, List.length_nil]
    omega
  · change rest.length ≤ queueCapacity
    omega

/-- A wake-up leaves the channel; no event goes with it. -/
theorem Conserved.skip (h : queue.Conserved) {rest : List QueueMessage}
    (hc : queue.channel = .durableWake :: rest) : Conserved { queue with channel := rest } := by
  have haccepted := h.accepted
  have hpending := h.pending
  have hcapacity := h.capacity
  rw [hc, directs] at haccepted hpending
  rw [hc, List.length_cons] at hcapacity
  exact ⟨haccepted, h.completed, hpending, by change rest.length ≤ _; omega⟩

theorem Conserved.poll (h : queue.Conserved) (elapsed : Bool) : (queue.poll elapsed).Conserved := by
  unfold Queue.poll
  split
  · rename_i hs
    have hhand : queue.inHand = [] := by rw [inHand, hs]
    have hunsettled : queue.unsettled = 0 := by rw [unsettled, hs]
    split
    · exact h.take hhand hunsettled ‹_›
    · rename_i rest hc
      exact (h.skip hc).move hhand.symm hunsettled.symm
    · split
      · exact h.move hhand.symm hunsettled.symm
      · exact h
  · rename_i hs
    have hhand : queue.inHand = [] := by rw [inHand, hs]
    have hunsettled : queue.unsettled = 0 := by rw [unsettled, hs]
    split
    · exact h.take hhand hunsettled ‹_›
    · exact h.skip ‹_›
    · exact h.move hhand.symm hunsettled.symm
  · exact h

theorem Conserved.finish (h : queue.Conserved) (error : Option String) :
    (queue.finish error).Conserved := by
  unfold Queue.finish
  split
  · rename_i event hs
    apply h.move
    · rw [inHand, inHand, hs]
    · rw [unsettled, unsettled, hs]
  · exact h

theorem Conserved.complete (h : queue.Conserved) : queue.complete.Conserved := by
  unfold Queue.complete
  split
  · rename_i event handling hs
    have hhand : queue.inHand = [event] := by rw [inHand, hs]
    have hunsettled : queue.unsettled = 0 := by rw [unsettled, hs]
    have haccepted := h.accepted
    have hpending := h.pending
    rw [hhand] at haccepted
    rw [hhand, hunsettled] at hpending
    refine ⟨?_, ?_, ?_, h.capacity⟩
    · change queue.accepted =
        (queue.handled ++ [(event, handling)]).map Prod.fst ++ [] ++ directs queue.channel
      rw [haccepted, List.map_append, List.append_nil]
      rfl
    · change queue.completed + 1 = (queue.handled ++ [(event, handling)]).length
      rw [h.completed, List.length_append, List.length_singleton]
    · change queue.pending = (0 + (directs queue.channel).length + queue.counted.length +
        queue.rejected.length + 1 : Nat)
      rw [hpending, List.length_singleton]
      omega
  · exact h

theorem Conserved.discount (h : queue.Conserved) : queue.discount.Conserved := by
  unfold Queue.discount
  split
  · rename_i hs
    have hhand : queue.inHand = [] := by rw [inHand, hs]
    have hunsettled : queue.unsettled = 1 := by rw [unsettled, hs]
    have haccepted := h.accepted
    have hpending := h.pending
    rw [hhand] at haccepted
    rw [hhand, hunsettled] at hpending
    refine ⟨haccepted, h.completed, ?_, h.capacity⟩
    change queue.pending - 1 = (0 + (directs queue.channel).length + queue.counted.length +
      queue.rejected.length + 0 : Nat)
    rw [hpending, List.length_nil]
    omega
  · exact h

theorem Conserved.step (h : queue.Conserved) (config : QueueConfig) (event : QueueEvent) :
    (queue.step config event).Conserved := by
  cases event with
  | reserve source => exact h.reserve source
  | count id => exact h.count id
  | send id => exact h.send id
  | withdraw id => exact h.withdraw id
  | wake => exact h.wake
  | turn claimed => exact h.turn config claimed
  | settle error => exact h.settle error
  | poll elapsed => exact h.poll elapsed
  | finish error => exact h.finish error
  | complete => exact h.complete
  | discount => exact h.discount

theorem run_append (config : QueueConfig) (queue : Queue) (events more : List QueueEvent) :
    queue.run config (events ++ more) = (queue.run config events).run config more :=
  List.foldl_append

theorem Conserved.run (h : queue.Conserved) (config : QueueConfig) (events : List QueueEvent) :
    (queue.run config events).Conserved := by
  induction events generalizing queue with
  | nil => exact h
  | cons event events ih => exact ih (h.step config event)

/-- The calls of `enqueue` and the events that were accepted are the same; what was handled
stays so. -/
structure SameCalls (queue next : Queue) : Prop where
  sequence : next.sequence = queue.sequence
  reserved : next.reserved = queue.reserved
  counted : next.counted = queue.counted
  rejected : next.rejected = queue.rejected
  accepted : next.accepted = queue.accepted
  handled : queue.handled <+: next.handled

theorem SameCalls.refl (queue : Queue) : queue.SameCalls queue :=
  ⟨rfl, rfl, rfl, rfl, rfl, List.prefix_refl _⟩

theorem sameCalls_wake : queue.SameCalls queue.wake := by
  unfold wake
  split <;> exact ⟨rfl, rfl, rfl, rfl, rfl, List.prefix_refl _⟩

theorem sameCalls_turn (config : QueueConfig) (claimed : Except String (Option Nat)) :
    queue.SameCalls (queue.turn config claimed) := by
  unfold turn
  split
  · split
    · split <;> exact ⟨rfl, rfl, rfl, rfl, rfl, List.prefix_refl _⟩
    · exact ⟨rfl, rfl, rfl, rfl, rfl, List.prefix_refl _⟩
  · exact .refl queue

theorem sameCalls_settle (error : Option String) : queue.SameCalls (queue.settle error) := by
  unfold settle
  split <;> exact ⟨rfl, rfl, rfl, rfl, rfl, List.prefix_refl _⟩

theorem sameCalls_poll (elapsed : Bool) : queue.SameCalls (queue.poll elapsed) := by
  unfold poll
  split
  · split
    · exact ⟨rfl, rfl, rfl, rfl, rfl, List.prefix_refl _⟩
    · exact ⟨rfl, rfl, rfl, rfl, rfl, List.prefix_refl _⟩
    · split <;> exact ⟨rfl, rfl, rfl, rfl, rfl, List.prefix_refl _⟩
  · split <;> exact ⟨rfl, rfl, rfl, rfl, rfl, List.prefix_refl _⟩
  · exact .refl queue

theorem sameCalls_finish (error : Option String) : queue.SameCalls (queue.finish error) := by
  unfold finish
  split <;> exact ⟨rfl, rfl, rfl, rfl, rfl, List.prefix_refl _⟩

theorem sameCalls_complete : queue.SameCalls queue.complete := by
  unfold complete
  split
  · exact ⟨rfl, rfl, rfl, rfl, rfl, List.prefix_append _ _⟩
  · exact .refl queue

theorem sameCalls_discount : queue.SameCalls queue.discount := by
  unfold discount
  split <;> exact ⟨rfl, rfl, rfl, rfl, rfl, List.prefix_refl _⟩

/-- The events that have an id and were not given back to their callers. -/
def known (queue : Queue) : List QueuedEvent :=
  queue.accepted ++ queue.reserved ++ queue.counted ++ queue.rejected

theorem SameCalls.known {next : Queue} (h : queue.SameCalls next) : next.known = queue.known := by
  rw [Queue.known, Queue.known, h.accepted, h.reserved, h.counted, h.rejected]

/-- What one step does to the events with an id. -/
inductive Knows (queue next : Queue) : Prop where
  | kept (hk : next.known.Perm queue.known) (hs : next.sequence = queue.sequence)
    (ha : queue.accepted <+: next.accepted)
  | gave (event : QueuedEvent) (hk : (event :: next.known).Perm queue.known)
    (hs : next.sequence = queue.sequence) (ha : next.accepted = queue.accepted)
  | issued (source : EventSource)
    (hk : next.known.Perm (⟨source, queue.sequence + 1⟩ :: queue.known))
    (hs : next.sequence = queue.sequence + 1) (ha : next.accepted = queue.accepted)

theorem SameCalls.knows {next : Queue} (h : queue.SameCalls next) : queue.Knows next :=
  .kept (h.known ▸ .refl _) h.sequence (h.accepted ▸ List.prefix_refl _)

theorem knows_reserve (source : EventSource) : queue.Knows (queue.reserve source) := by
  refine .issued source ?_ rfl rfl
  change (queue.accepted ++ (queue.reserved ++ [_]) ++ queue.counted ++ queue.rejected).Perm _
  simp only [known, List.append_assoc, List.singleton_append]
  rw [← List.append_assoc, ← List.append_assoc queue.accepted queue.reserved]
  exact List.perm_middle

theorem knows_count (id : Nat) : queue.Knows (queue.count id) := by
  unfold count
  split
  · rename_i event hc
    refine .kept ?_ rfl (List.prefix_refl _)
    change (queue.accepted ++ without queue.reserved id ++ (queue.counted ++ [event]) ++
      queue.rejected).Perm (queue.accepted ++ queue.reserved ++ queue.counted ++ queue.rejected)
    have hcall := call_perm hc
    classical
    grind
  · exact (SameCalls.refl queue).knows

theorem knows_send (id : Nat) : queue.Knows (queue.send id) := by
  unfold send
  split
  · rename_i event hc
    have hcall := call_perm hc
    split
    · refine .kept ?_ rfl (List.prefix_append _ _)
      change (queue.accepted ++ [event] ++ queue.reserved ++ without queue.counted id ++
        queue.rejected).Perm (queue.accepted ++ queue.reserved ++ queue.counted ++ queue.rejected)
      classical
      grind
    · refine .kept ?_ rfl (List.prefix_refl _)
      change (queue.accepted ++ queue.reserved ++ without queue.counted id ++
        (queue.rejected ++ [event])).Perm
          (queue.accepted ++ queue.reserved ++ queue.counted ++ queue.rejected)
      classical
      grind
  · exact (SameCalls.refl queue).knows

theorem knows_withdraw (id : Nat) : queue.Knows (queue.withdraw id) := by
  unfold withdraw
  split
  · rename_i event hc
    have hcall := call_perm hc
    refine .gave event ?_ rfl rfl
    change (event :: (queue.accepted ++ queue.reserved ++ queue.counted ++
      without queue.rejected id)).Perm
        (queue.accepted ++ queue.reserved ++ queue.counted ++ queue.rejected)
    classical
    grind
  · exact (SameCalls.refl queue).knows

theorem knows_step (config : QueueConfig) (event : QueueEvent) :
    queue.Knows (queue.step config event) := by
  cases event with
  | reserve source => exact knows_reserve source
  | count id => exact knows_count id
  | send id => exact knows_send id
  | withdraw id => exact knows_withdraw id
  | wake => exact sameCalls_wake.knows
  | turn claimed => exact (sameCalls_turn config claimed).knows
  | settle error => exact (sameCalls_settle error).knows
  | poll elapsed => exact (sameCalls_poll elapsed).knows
  | finish error => exact (sameCalls_finish error).knows
  | complete => exact sameCalls_complete.knows
  | discount => exact sameCalls_discount.knows

theorem accepted_step (config : QueueConfig) (event : QueueEvent) :
    queue.accepted <+: (queue.step config event).accepted := by
  cases queue.knows_step config event with
  | kept hk hs ha => exact ha
  | gave other hk hs ha => exact ha ▸ List.prefix_refl _
  | issued source hk hs ha => exact ha ▸ List.prefix_refl _

theorem sequence_step (config : QueueConfig) {event : QueueEvent}
    (h : ∀ source, event ≠ .reserve source) :
    (queue.step config event).sequence = queue.sequence := by
  cases event with
  | reserve source => exact absurd rfl (h source)
  | count id =>
    change (queue.count id).sequence = _
    unfold count
    split <;> rfl
  | send id =>
    change (queue.send id).sequence = _
    unfold send
    split
    · split <;> rfl
    · rfl
  | withdraw id =>
    change (queue.withdraw id).sequence = _
    unfold withdraw
    split <;> rfl
  | wake => exact sameCalls_wake.sequence
  | turn claimed => exact (sameCalls_turn config claimed).sequence
  | settle error => exact (sameCalls_settle error).sequence
  | poll elapsed => exact (sameCalls_poll elapsed).sequence
  | finish error => exact (sameCalls_finish error).sequence
  | complete => exact sameCalls_complete.sequence
  | discount => exact sameCalls_discount.sequence

theorem handled_step (config : QueueConfig) (event : QueueEvent) :
    queue.handled <+: (queue.step config event).handled := by
  cases event with
  | reserve source => exact List.prefix_refl _
  | count id =>
    change queue.handled <+: (queue.count id).handled
    unfold count
    split <;> exact List.prefix_refl _
  | send id =>
    change queue.handled <+: (queue.send id).handled
    unfold send
    split
    · split <;> exact List.prefix_refl _
    · exact List.prefix_refl _
  | withdraw id =>
    change queue.handled <+: (queue.withdraw id).handled
    unfold withdraw
    split <;> exact List.prefix_refl _
  | wake => exact sameCalls_wake.handled
  | turn claimed => exact (sameCalls_turn config claimed).handled
  | settle error => exact (sameCalls_settle error).handled
  | poll elapsed => exact (sameCalls_poll elapsed).handled
  | finish error => exact (sameCalls_finish error).handled
  | complete => exact sameCalls_complete.handled
  | discount => exact sameCalls_discount.handled

theorem handled_run (config : QueueConfig) (events : List QueueEvent) :
    queue.handled <+: (queue.run config events).handled := by
  induction events generalizing queue with
  | nil => exact List.prefix_refl _
  | cons event events ih => exact (handled_step config event).trans ih

theorem accepted_run (config : QueueConfig) (events : List QueueEvent) :
    queue.accepted <+: (queue.run config events).accepted := by
  induction events generalizing queue with
  | nil => exact List.prefix_refl _
  | cons event events ih => exact (accepted_step config event).trans ih

/-- Every event has an id of its own, which the sequence has passed. -/
structure Numbered (queue : Queue) : Prop where
  distinct : (queue.known.map QueuedEvent.id).Nodup
  passed : ∀ event ∈ queue.known, event.id ≤ queue.sequence

theorem start_numbered : start.Numbered := ⟨List.nodup_nil, fun event hm => by cases hm⟩

theorem Numbered.knows (h : queue.Numbered) {next : Queue} (hk : queue.Knows next) :
    next.Numbered := by
  cases hk with
  | kept hk hs ha =>
    refine ⟨(hk.map _).nodup_iff.mpr h.distinct, fun event hm => ?_⟩
    rw [hs]
    exact h.passed event (hk.mem_iff.mp hm)
  | gave given hk hs ha =>
    have hdistinct := (hk.map _).nodup_iff.mpr h.distinct
    refine ⟨(List.nodup_cons.mp hdistinct).2, fun event hm => ?_⟩
    rw [hs]
    exact h.passed event (hk.mem_iff.mp (List.mem_cons_of_mem _ hm))
  | issued source hk hs ha =>
    refine ⟨(hk.map _).nodup_iff.mpr (List.nodup_cons.mpr ⟨fun hm => ?_, h.distinct⟩),
      fun event hm => ?_⟩
    · obtain ⟨event, he, hid⟩ := List.mem_map.mp hm
      have hpassed := h.passed event he
      rw [hid] at hpassed
      exact absurd hpassed (Nat.not_succ_le_self _)
    · rw [hs]
      rcases List.mem_cons.mp (hk.mem_iff.mp hm) with rfl | hm
      · exact Nat.le_refl _
      · exact Nat.le_succ_of_le (h.passed event hm)

theorem Numbered.run (h : queue.Numbered) (config : QueueConfig) (events : List QueueEvent) :
    (queue.run config events).Numbered := by
  induction events generalizing queue with
  | nil => exact h
  | cons event events ih => exact ih (h.knows (knows_step config event))

theorem Numbered.accepted (h : queue.Numbered) :
    (queue.accepted.map QueuedEvent.id).Nodup := by
  have hdistinct := h.distinct
  rw [known, List.append_assoc, List.append_assoc, List.map_append] at hdistinct
  exact hdistinct.of_append_left

end Queue

end FirebaseEmu.Functions
