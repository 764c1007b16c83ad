import FirebaseEmu.Functions.Queue
import Std.Data.String.ToNat

namespace FirebaseEmu.Functions
open Lib

/-- `body.get(key)`, which tells a missing key from a null. -/
def field (key : String) : Json → Option Json
  | .object entries => entries.lookup key
  | _ => none

def validTopic (topic : String) : Bool :=
  !topic.isEmpty && topic.toList.all fun c => c.isAlphanum || c == '-' || c == '_' || c == '.'

/-- An injection that has read the sequence counter and not entered the queue; `overtaken`
counts the ids that others took since. -/
structure Prepared where
  topic : String
  message : Json
  overtaken : Nat

/-- The queue, the injections on their way to it, and the events they took an id for, with how
often each was overtaken. -/
structure Injections where
  queue : Queue
  prepared : List Prepared
  injected : List (QueuedEvent × Nat)

/-- A request reads the counter, and enters the queue as a step of its own; the other steps are
those of the queue. -/
inductive InjectionEvent where
  | request (topic : String) (body : Json) (timestamp : String)
  | enter (position : Nat)
  | queue (event : QueueEvent)

def QueuedEvent.messageId (event : QueuedEvent) : Option String :=
  match event.source with
  | .pubSub _ message =>
    match field "messageId" message with
    | some (.string messageId) => some messageId
    | _ => none
  | _ => none

/-- The message id of the event that gets the given id. -/
def injectedId (id : Nat) : String := "rust-" ++ toString id

namespace Injections

/-- `encode` is the base64 text of the JSON text of a value. -/
def message (encode : Json → String) (sequence : Nat) (data : Json) (body : Json)
    (timestamp : String) : Json :=
  .object [("attributes", (field "attributes" body).getD (.object [])),
    ("data", .string (encode data)), ("messageId", .string (injectedId (sequence + 1))),
    ("publishTime", .string timestamp)]

/-- The checks of `inject_pubsub` and the message it prepares. -/
def injectPubsub (encode : Json → String) (sequence : Nat) (topic : String) (body : Json)
    (timestamp : String) : Except (Nat × String) Prepared :=
  if !validTopic topic then .error (400, "Invalid topic")
  else
    match field "data" body with
    | none => .error (400, "Expected data")
    | some data => .ok ⟨topic, message encode sequence data body timestamp, 0⟩

def start : Injections := ⟨.start, [], []⟩

def request (encode : Json → String) (state : Injections) (topic : String) (body : Json)
    (timestamp : String) : Injections :=
  match injectPubsub encode state.queue.sequence topic body timestamp with
  | .ok prepared => { state with prepared := state.prepared ++ [prepared] }
  | .error _ => state

/-- The injections that wait when someone takes an id. -/
def overtake (prepared : List Prepared) : List Prepared :=
  prepared.map fun entry => { entry with overtaken := entry.overtaken + 1 }

def enter (state : Injections) (position : Nat) : Injections :=
  match state.prepared[position]? with
  | some entry =>
    let source := EventSource.pubSub entry.topic entry.message
    { queue := state.queue.reserve source
      prepared := overtake (state.prepared.eraseIdx position)
      injected :=
        state.injected ++ [(⟨source, state.queue.sequence + 1⟩, entry.overtaken)] }
  | none => state

def onQueue (config : QueueConfig) (state : Injections) (event : QueueEvent) : Injections :=
  { state with
    queue := state.queue.step config event
    prepared := match event with
      | .reserve _ => overtake state.prepared
      | _ => state.prepared }

def step (encode : Json → String) (config : QueueConfig) (state : Injections) :
    InjectionEvent → Injections
  | .request topic body timestamp => state.request encode topic body timestamp
  | .enter position => state.enter position
  | .queue event => state.onQueue config event

def run (encode : Json → String) (config : QueueConfig) (state : Injections)
    (events : List InjectionEvent) : Injections :=
  events.foldl (step encode config) state

/-- Nobody takes an id while another injection has read the counter and not taken its own. -/
def Alone (state : Injections) : InjectionEvent → Prop
  | .request _ _ _ => True
  | .enter _ => state.prepared.length ≤ 1
  | .queue event =>
    match event with
    | .reserve _ => state.prepared = []
    | _ => True

/-- The steps of a run are all alone. -/
def AllAlone (encode : Json → String) (config : QueueConfig) (state : Injections) :
    List InjectionEvent → Prop
  | [] => True
  | event :: events =>
    state.Alone event ∧ AllAlone encode config (step encode config state event) events

/-- The message was made when the counter stood the given number of ids before its id. -/
def Named (event : QueuedEvent) (overtaken : Nat) : Prop :=
  ∃ read, read + overtaken + 1 = event.id ∧ event.messageId = some (injectedId (read + 1))

/-- The message ids tell what the counter was when they were read; the events taken an id for
have different ones. -/
structure Predicted (state : Injections) : Prop where
  waiting : ∀ entry ∈ state.prepared,
    Named ⟨.pubSub entry.topic entry.message, state.queue.sequence + 1⟩ entry.overtaken
  entered : ∀ entry ∈ state.injected, Named entry.1 entry.2
  distinct : (state.injected.map fun entry => entry.1.id).Nodup
  passed : ∀ entry ∈ state.injected, entry.1.id ≤ state.queue.sequence

variable {encode : Json → String} {config : QueueConfig} {state : Injections}

theorem injectedId_injective : Function.Injective injectedId := by
  intro a b h
  rw [injectedId, injectedId, String.append_right_inj] at h
  exact Nat.repr_injective h

theorem named_message {sequence : Nat} {topic : String} {body : Json} {timestamp : String}
    {prepared : Prepared}
    (h : injectPubsub encode sequence topic body timestamp = .ok prepared) :
    Named ⟨.pubSub prepared.topic prepared.message, sequence + 1⟩ prepared.overtaken := by
  unfold injectPubsub at h
  split at h
  · cases h
  · split at h
    · cases h
    · obtain rfl := Except.ok.inj h
      exact ⟨sequence, rfl, rfl⟩

theorem Named.overtake {source : EventSource} {sequence overtaken : Nat}
    (h : Named ⟨source, sequence + 1⟩ overtaken) :
    Named ⟨source, sequence + 1 + 1⟩ (overtaken + 1) := by
  obtain ⟨read, hread, hid⟩ := h
  refine ⟨read, ?_, hid⟩
  change read + overtaken + 1 = sequence + 1 at hread
  change read + (overtaken + 1) + 1 = sequence + 1 + 1
  omega

theorem Named.iff {event : QueuedEvent} {overtaken : Nat} (h : Named event overtaken) :
    event.messageId = some (injectedId event.id) ↔ overtaken = 0 := by
  obtain ⟨read, hread, hid⟩ := h
  rw [hid, Option.some.injEq, injectedId_injective.eq_iff]
  omega

theorem start_predicted : start.Predicted :=
  ⟨List.forall_mem_nil _, List.forall_mem_nil _, List.nodup_nil, List.forall_mem_nil _⟩

theorem Predicted.request (h : state.Predicted) (topic : String) (body : Json)
    (timestamp : String) : (state.request encode topic body timestamp).Predicted := by
  unfold Injections.request
  split
  · rename_i prepared hok
    refine ⟨fun entry hm => ?_, h.entered, h.distinct, h.passed⟩
    rcases List.mem_append.mp hm with hm | hm
    · exact h.waiting entry hm
    · rw [List.mem_singleton.mp hm]
      exact named_message hok
  · exact h

theorem waiting_overtake {prepared : List Prepared} {sequence : Nat}
    (h : ∀ entry ∈ prepared,
      Named ⟨.pubSub entry.topic entry.message, sequence + 1⟩ entry.overtaken) :
    ∀ entry ∈ overtake prepared,
      Named ⟨.pubSub entry.topic entry.message, sequence + 1 + 1⟩ entry.overtaken := by
  intro entry hm
  obtain ⟨old, ho, rfl⟩ := List.mem_map.mp hm
  exact (h old ho).overtake

theorem Predicted.enter (h : state.Predicted) (position : Nat) :
    (state.enter position).Predicted := by
  unfold Injections.enter
  split
  · rename_i entry hentry
    have hwaits := h.waiting entry (List.mem_of_getElem? hentry)
    refine ⟨waiting_overtake fun other hm => h.waiting other (List.mem_of_mem_eraseIdx hm),
      fun other hm => ?_, ?_, fun other hm => ?_⟩
    · rcases List.mem_append.mp hm with hm | hm
      · exact h.entered other hm
      · rw [List.mem_singleton.mp hm]
        exact hwaits
    · rw [List.map_append, List.nodup_append]
      refine ⟨h.distinct, List.nodup_singleton _, fun id hid id' hid' heq => ?_⟩
      obtain ⟨other, ho, rfl⟩ := List.mem_map.mp hid
      have hpassed := h.passed other ho
      have hnew : id' = state.queue.sequence + 1 := List.mem_singleton.mp hid'
      omega
    · change other.1.id ≤ state.queue.sequence + 1
      rcases List.mem_append.mp hm with hm | hm
      · exact Nat.le_succ_of_le (h.passed other hm)
      · rw [List.mem_singleton.mp hm]
  · exact h

theorem Predicted.onQueue (h : state.Predicted) (event : QueueEvent) :
    (state.onQueue config event).Predicted := by
  by_cases hreserve : ∃ source, event = .reserve source
  · obtain ⟨source, rfl⟩ := hreserve
    exact ⟨waiting_overtake h.waiting, h.entered, h.distinct,
      fun entry hm => Nat.le_succ_of_le (h.passed entry hm)⟩
  · have hsequence : (state.onQueue config event).queue.sequence = state.queue.sequence :=
      Queue.sequence_step config fun source he => hreserve ⟨source, he⟩
    have hprepared : (state.onQueue config event).prepared = state.prepared := by
      cases event with
      | reserve source => exact absurd ⟨source, rfl⟩ hreserve
      | _ => rfl
    refine ⟨?_, h.entered, h.distinct, ?_⟩
    · rw [hprepared, hsequence]
      exact h.waiting
    · rw [hsequence]
      exact h.passed

theorem Predicted.step (h : state.Predicted) (event : InjectionEvent) :
    (state.step encode config event).Predicted := by
  cases event with
  | request topic body timestamp => exact h.request topic body timestamp
  | enter position => exact h.enter position
  | queue event => exact h.onQueue event

theorem Predicted.run (h : state.Predicted) (events : List InjectionEvent) :
    (state.run encode config events).Predicted := by
  induction events generalizing state with
  | nil => exact h
  | cons event events ih => exact ih (h.step event)

/-- No injection was overtaken. -/
structure Prompt (state : Injections) : Prop where
  waiting : ∀ entry ∈ state.prepared, entry.overtaken = 0
  entered : ∀ entry ∈ state.injected, entry.2 = 0

theorem Prompt.step (h : state.Prompt) {event : InjectionEvent} (ha : state.Alone event) :
    (state.step encode config event).Prompt := by
  cases event with
  | request topic body timestamp =>
    change (state.request encode topic body timestamp).Prompt
    unfold Injections.request
    split
    · rename_i prepared hok
      refine ⟨fun entry hm => ?_, h.entered⟩
      rcases List.mem_append.mp hm with hm | hm
      · exact h.waiting entry hm
      · rw [List.mem_singleton.mp hm]
        unfold injectPubsub at hok
        split at hok
        · cases hok
        · split at hok
          · cases hok
          · exact (Except.ok.inj hok) ▸ rfl
    · exact h
  | enter position =>
    change (state.enter position).Prompt
    unfold Injections.enter
    split
    · rename_i entry hentry
      have hposition : position < state.prepared.length :=
        (List.getElem?_eq_some_iff.mp hentry).1
      have hle : state.prepared.length ≤ 1 := ha
      have hleft : state.prepared.eraseIdx position = [] := by
        apply List.eq_nil_of_length_eq_zero
        rw [List.length_eraseIdx_of_lt hposition]
        omega
      refine ⟨fun other hm => ?_, fun other hm => ?_⟩
      · rw [hleft] at hm
        cases hm
      · rcases List.mem_append.mp hm with hm | hm
        · exact h.entered other hm
        · rw [List.mem_singleton.mp hm]
          exact h.waiting entry (List.mem_of_getElem? hentry)
    · exact h
  | queue event =>
    refine ⟨fun entry hm => ?_, h.entered⟩
    cases event with
    | reserve source =>
      have hnone : state.prepared = [] := ha
      change entry ∈ overtake state.prepared at hm
      rw [hnone] at hm
      cases hm
    | _ => exact h.waiting entry hm

theorem Prompt.run (h : state.Prompt) {events : List InjectionEvent}
    (ha : AllAlone encode config state events) : (state.run encode config events).Prompt := by
  induction events generalizing state with
  | nil => exact h
  | cons event events ih => exact ih (h.step ha.1) ha.2

end Injections

/-- An injected message is named after its event exactly if its request was not overtaken; where
no step takes an id between the read of an injection and its own, all are, and no two of them
have one message id. -/
theorem injected_ids_predicted (encode : Json → String) (config : QueueConfig)
    (events : List InjectionEvent) :
    let state := Injections.start.run encode config events
    (∀ entry ∈ state.injected,
      entry.1.messageId = some (injectedId entry.1.id) ↔ entry.2 = 0) ∧
    (Injections.AllAlone encode config .start events →
      (∀ entry ∈ state.injected, entry.1.messageId = some (injectedId entry.1.id)) ∧
      (state.injected.map fun entry => entry.1.messageId).Nodup) := by
  intro state
  have h : state.Predicted := Injections.start_predicted.run events
  refine ⟨fun entry hm => (h.entered entry hm).iff, fun ha => ?_⟩
  have hprompt : state.Prompt := by
    apply Injections.Prompt.run _ ha
    exact ⟨List.forall_mem_nil _, List.forall_mem_nil _⟩
  have hnamed : ∀ entry ∈ state.injected, entry.1.messageId = some (injectedId entry.1.id) :=
    fun entry hm => (h.entered entry hm).iff.mpr (hprompt.entered entry hm)
  refine ⟨hnamed, ?_⟩
  have hmap : (state.injected.map fun entry => entry.1.messageId) =
      (state.injected.map fun entry => entry.1.id).map (some ∘ injectedId) := by
    rw [List.map_map]
    exact List.map_congr_left hnamed
  rw [hmap]
  exact h.distinct.map ((Option.some_injective _).comp Injections.injectedId_injective)

/-- Two requests read the counter before either takes its id. -/
theorem concurrent_injections_share_id :
    let config : QueueConfig := ⟨false, 32, by decide, by decide⟩
    let body := Json.object [("data", .null)]
    let state := Injections.start.run (fun _ => "") config
      [.request "orders" body "now", .request "orders" body "now", .enter 0, .enter 0,
        .queue (.count 1), .queue (.send 1), .queue (.count 2), .queue (.send 2)]
    state.queue.accepted.map QueuedEvent.id = [1, 2] ∧
    state.queue.accepted.map QueuedEvent.messageId = [some "rust-1", some "rust-1"] := by
  decide

end FirebaseEmu.Functions
