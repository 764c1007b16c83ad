import FirebaseEmu.Functions.PubsubTriggers
import FirebaseEmu.Pubsub.Leases
import FirebaseEmu.Lib.Base64
import FirebaseEmu.Timestamps

namespace FirebaseEmu.Functions.Dispatch
open Lib
open Pubsub (Broker BrokerCodec BrokerMessage PubsubMessage Reply Status)

/-- `message_json`; `none` is an overflow. -/
def messageJson (message : PubsubMessage) : Option Json := do
  let publishTime ← match message.publishTime with
    | some t => Pubsub.timestampRfc3339 t.seconds t.nanos
    | none => some "1970-01-01T00:00:00.000Z"
  return .object [
    ("attributes", .object (message.attributes.map fun (key, value) => (key, .string value))),
    ("data", .string (Base64.standard.encode message.data)),
    ("messageId", .string message.messageId),
    ("orderingKey", .string message.orderingKey),
    ("publishTime", .string publishTime)]

/-- Where the task of a subscription stands. Pulls, acknowledgements and deadline changes look the
subscription up first; `found` says that this is done. -/
inductive TaskStage where
  | pulling
  | claiming (deadlineSeconds : Int)
  | calling (delivery : BrokerMessage)
  | acknowledging (delivery : BrokerMessage) (found : Bool)
  | modifying (delivery : BrokerMessage) (found : Bool)
  | resting
  | stopped

def TaskStage.delivery : TaskStage → Option BrokerMessage
  | .calling delivery => some delivery
  | .acknowledging delivery _ => some delivery
  | .modifying delivery _ => some delivery
  | _ => none

/-- The broker with the tasks of the registrations, all requests to the processes, and all that
the broker was asked. -/
structure Triggers (β η : Type) where
  broker : Broker β
  registrations : List Registration
  stage : Nat → TaskStage
  attempts : List (Attempt η)
  completed : Nat
  performed : List (Pubsub.Event × Reply)

/-- Clients use the broker, other dispatches send requests, a task makes its next step or sees
the database fail, and the process stops and starts again on its tables. -/
inductive TriggersEvent where
  | client (event : Pubsub.Event)
  | request (post : Post)
  | advance (i : Nat) (now : Int)
  | fails (i : Nat)
  | restart

namespace Triggers
variable {β η : Type} (codec : BrokerCodec β) (uuid : Nat → String) (cluster : Cluster η)

def setStage (triggers : Triggers β η) (i : Nat) (stage : TaskStage) : Triggers β η :=
  { triggers with stage := fun j => if j = i then stage else triggers.stage j }

def perform (triggers : Triggers β η) (event : Pubsub.Event) : Triggers β η :=
  { triggers with
    broker := triggers.broker.step codec uuid event
    performed := triggers.performed ++ [(event, triggers.broker.reply codec uuid event)] }

def attempt (triggers : Triggers β η) (post : Post) : Triggers β η :=
  { triggers with attempts := triggers.attempts ++ [cluster.attempt triggers.attempts post] }

/-- The stage after a pull: `pull_one` takes the last of at most one message. -/
def afterClaim : Reply → TaskStage
  | .claimed given =>
    match given.getLast? with
    | some delivery => .calling delivery
    | none => .pulling
  | _ => .resting

/-- The dispatch of a message to the function, and the stage after it. -/
def call (triggers : Triggers β η) (i : Nat) (registration : Registration)
    (delivery : BrokerMessage) : Triggers β η :=
  match messageJson delivery.message with
  | none => triggers.setStage i .stopped
  | some message =>
    let post := pubsubFunctionPost registration.worker registration.function message
    let answer := (cluster.attempt triggers.attempts post).answer
    (triggers.attempt cluster post).setStage i
      (if postError post answer = none then .acknowledging delivery false
      else .modifying delivery false)

def advance (triggers : Triggers β η) (i : Nat) (now : Int) : Triggers β η :=
  match triggers.registrations[i]? with
  | none => triggers
  | some registration =>
    let subscription := registration.subscription
    let found := triggers.broker.service.getSubscriptionValue codec subscription
    match triggers.stage i with
    | .pulling =>
      match found with
      | .ok found => triggers.setStage i (.claiming found.ackDeadlineSeconds)
      | .error status =>
        triggers.setStage i (if status.code = .notFound then .stopped else .resting)
    | .claiming deadlineSeconds =>
      let event := .claim subscription 1 Pubsub.maxDeliveryMessageBytes deadlineSeconds now
      (triggers.perform codec uuid event).setStage i
        (afterClaim (triggers.broker.reply codec uuid event))
    | .calling delivery => triggers.call cluster i registration delivery
    | .acknowledging delivery false =>
      match found with
      | .ok _ => triggers.setStage i (.acknowledging delivery true)
      | .error _ => triggers.setStage i .pulling
    | .acknowledging delivery true =>
      let event := .acknowledge subscription [delivery.ackId]
      let triggers' := (triggers.perform codec uuid event).setStage i .pulling
      match triggers.broker.reply codec uuid event with
      | .done => { triggers' with completed := triggers'.completed + 1 }
      | _ => triggers'
    | .modifying delivery false =>
      match found with
      | .ok _ => triggers.setStage i (.modifying delivery true)
      | .error _ => triggers.setStage i .resting
    | .modifying delivery true =>
      (triggers.perform codec uuid (.modifyAck subscription [delivery.ackId] 1 now)).setStage i
        .resting
    | .resting => triggers.setStage i .pulling
    | .stopped => triggers

/-- The stage after an error of the database. -/
def failed : TaskStage → TaskStage
  | .pulling => .resting
  | .claiming _ => .resting
  | .acknowledging _ _ => .pulling
  | .modifying _ _ => .resting
  | stage => stage

def step (triggers : Triggers β η) : TriggersEvent → Triggers β η
  | .client event => triggers.perform codec uuid event
  | .request post => triggers.attempt cluster post
  | .advance i now => triggers.advance codec uuid cluster i now
  | .fails i => triggers.setStage i (failed (triggers.stage i))
  | .restart =>
    if triggers.broker.service.persistence.isSome then { triggers with stage := fun _ => .pulling }
    else triggers

def run (triggers : Triggers β η) (events : List TriggersEvent) : Triggers β η :=
  events.foldl (step codec uuid cluster) triggers

/-- The tasks start: nothing is pulled yet, and the broker has performed all that is recorded. -/
structure Started (runtime : Runtime) (triggers : Triggers β η) : Prop where
  registered : triggers.registrations = Dispatch.registrations runtime.project runtime.pairs
  pulling : ∀ i, triggers.stage i = .pulling
  ran : ∃ empty : Broker β, empty.Empty ∧ ∃ events, triggers.broker = empty.run codec uuid events ∧
    triggers.performed = empty.history codec uuid events

end Triggers

/-- Timestamps of messages never overflow. -/
theorem messageJson_total (message : PubsubMessage) : ∃ json, messageJson message = some json := by
  have htext : ∀ t : Firestore.Timestamp,
      ∃ text, Pubsub.timestampRfc3339 t.seconds t.nanos = some text := by
    intro t
    have hmoment : ∃ m, Pubsub.moment t.seconds = some m := by
      by_cases h : 0 ≤ t.seconds.toInt
      · obtain ⟨⟨m, hm, -⟩, hsame⟩ := timestamps_are_dates t.seconds
        exact ⟨m, (hsame h).1.trans hm⟩
      · unfold Pubsub.moment
        rw [Int.max_eq_right (by omega)]
        exact ⟨_, rfl⟩
    obtain ⟨m, hm⟩ := hmoment
    exact ⟨_, by rw [Pubsub.timestampRfc3339, hm, Option.map_some]⟩
  unfold messageJson
  cases message.publishTime with
  | none => exact ⟨_, rfl⟩
  | some t =>
    obtain ⟨text, ht⟩ := htext t
    simp only [ht]
    exact ⟨_, rfl⟩

theorem messageJson_id {message : PubsubMessage} {json : Json}
    (h : messageJson message = some json) : json.get "messageId" = .string message.messageId := by
  unfold messageJson at h
  cases hp : message.publishTime with
  | none =>
    rw [hp] at h
    cases h
    rfl
  | some t =>
    rw [hp] at h
    obtain ⟨text, -, hjson⟩ := Option.bind_eq_some_iff.mp h
    cases hjson
    rfl

/-- The task is about to acknowledge. -/
def TaskStage.acks : TaskStage → Bool
  | .acknowledging _ _ => true
  | _ => false

/-- A request with the message for the function of a registration succeeded. -/
structure Attempt.Handled {η : Type} (cluster : Cluster η) (attempt : Attempt η)
    (registration : Registration) (message : PubsubMessage) : Prop where
  post : ∃ json, messageJson message = some json ∧
    attempt.post = pubsubFunctionPost registration.worker registration.function json
  made : ∃ before, attempt = cluster.attempt before attempt.post
  succeeded : attempt.answer.succeeds = true

namespace Triggers
variable {β η : Type} {codec : BrokerCodec β} {uuid : Nat → String} {cluster : Cluster η}
variable {triggers : Triggers β η}

/-- What the broker is asked, by a client or by the task whose turn it is. -/
inductive Requests (triggers : Triggers β η) : TriggersEvent → Pubsub.Event → Prop where
  | client (event : Pubsub.Event) : Requests triggers (.client event) event
  | claim {i : Nat} {now : Int} {registration : Registration} (deadlineSeconds : Int)
    (hr : triggers.registrations[i]? = some registration) : Requests triggers (.advance i now)
      (.claim registration.subscription 1 Pubsub.maxDeliveryMessageBytes deadlineSeconds now)
  | acknowledge {i : Nat} {now : Int} {registration : Registration} {delivery : BrokerMessage}
    (hr : triggers.registrations[i]? = some registration)
    (hs : triggers.stage i = .acknowledging delivery true) : Requests triggers (.advance i now)
      (.acknowledge registration.subscription [delivery.ackId])
  | modifyAck {i : Nat} {now : Int} {registration : Registration} (ackId : String)
    (hr : triggers.registrations[i]? = some registration) : Requests triggers (.advance i now)
      (.modifyAck registration.subscription [ackId] 1 now)

/-- The step performs one operation of the broker, or none. -/
def Performs (codec : BrokerCodec β) (uuid : Nat → String) (triggers triggers' : Triggers β η)
    (asked : Option Pubsub.Event) : Prop :=
  match asked with
  | none => triggers'.broker = triggers.broker ∧ triggers'.performed = triggers.performed
  | some event => triggers'.broker = triggers.broker.step codec uuid event ∧
    triggers'.performed = triggers.performed ++ [(event, triggers.broker.reply codec uuid event)]

/-- Where the deliveries of the tasks come from, and their acknowledgements. -/
structure Steps (codec : BrokerCodec β) (uuid : Nat → String) (cluster : Cluster η)
    (triggers triggers' : Triggers β η) (asked : Option Pubsub.Event) : Prop where
  registrations : triggers'.registrations = triggers.registrations
  attempts : ∃ made, triggers'.attempts = triggers.attempts ++ made
  performs : Performs codec uuid triggers triggers' asked
  held : ∀ i delivery, (triggers'.stage i).delivery = some delivery →
    (triggers.stage i).delivery = some delivery ∨
      ∃ registration, triggers.registrations[i]? = some registration ∧
        ∃ maxCount maxBytes deadlineSeconds now given,
          asked = some (.claim registration.subscription maxCount maxBytes deadlineSeconds now) ∧
          triggers.broker.reply codec uuid
            (.claim registration.subscription maxCount maxBytes deadlineSeconds now) =
              .claimed given ∧ delivery ∈ given
  acks : ∀ i delivery, (triggers'.stage i).delivery = some delivery →
    (triggers'.stage i).acks = true → (triggers.stage i).delivery = some delivery ∧
      ((triggers.stage i).acks = true ∨
        ∃ registration, triggers.registrations[i]? = some registration ∧
          ∃ attempt, triggers'.attempts = triggers.attempts ++ [attempt] ∧
            attempt.Handled cluster registration delivery.message)

/-- The new stage has no delivery, or it has the old one and does not start to acknowledge it. -/
def Follows (stage stage' : TaskStage) : Prop :=
  ∀ delivery, stage'.delivery = some delivery →
    stage.delivery = some delivery ∧ (stage'.acks = true → stage.acks = true)

theorem Follows.of_none {stage stage' : TaskStage} (h : stage'.delivery = none) :
    Follows stage stage' := by
  intro delivery hd
  rw [h] at hd
  cases hd

/-- A step that sends nothing moves the tasks along. -/
theorem Steps.of_follows {triggers' : Triggers β η} {asked : Option Pubsub.Event}
    (hr : triggers'.registrations = triggers.registrations)
    (ha : ∃ made, triggers'.attempts = triggers.attempts ++ made)
    (hp : Performs codec uuid triggers triggers' asked)
    (hf : ∀ i, Follows (triggers.stage i) (triggers'.stage i)) :
    Steps codec uuid cluster triggers triggers' asked := by
  refine ⟨hr, ha, hp, fun i delivery hd => .inl (hf i delivery hd).1, fun i delivery hd hacks => ?_⟩
  obtain ⟨hold, hsame⟩ := hf i delivery hd
  exact ⟨hold, .inl (hsame hacks)⟩

theorem follows_setStage {i : Nat} {stage' : TaskStage} (h : Follows (triggers.stage i) stage')
    (j : Nat) : Follows (triggers.stage j) ((triggers.setStage i stage').stage j) := by
  unfold setStage
  dsimp only
  split
  · rename_i hj
    rw [hj]
    exact h
  · exact fun delivery hd => ⟨hd, id⟩

theorem steps_setStage {i : Nat} {stage' : TaskStage} (h : Follows (triggers.stage i) stage') :
    Steps codec uuid cluster triggers (triggers.setStage i stage') none :=
  .of_follows rfl ⟨[], (List.append_nil _).symm⟩ ⟨rfl, rfl⟩ (follows_setStage h)

theorem afterClaim_delivery {reply : Reply} {delivery : BrokerMessage}
    (h : (afterClaim reply).delivery = some delivery) :
    (∃ given, reply = .claimed given ∧ delivery ∈ given) ∧ (afterClaim reply).acks = false := by
  unfold afterClaim at h ⊢
  cases reply with
  | claimed given =>
    dsimp only at h ⊢
    cases hl : given.getLast? with
    | none =>
      rw [hl] at h
      cases h
    | some last =>
      rw [hl] at h
      obtain rfl := Option.some.inj h
      exact ⟨⟨given, rfl, List.mem_of_getLast? hl⟩, rfl⟩
  | done => cases h
  | published ids => cases h
  | refused status => cases h

theorem steps_claim {i : Nat} {registration : Registration}
    (hr : triggers.registrations[i]? = some registration) (deadlineSeconds now : Int) :
    let event := Pubsub.Event.claim registration.subscription 1 Pubsub.maxDeliveryMessageBytes
      deadlineSeconds now
    Steps codec uuid cluster triggers ((triggers.perform codec uuid event).setStage i
      (afterClaim (triggers.broker.reply codec uuid event))) (some event) := by
  intro event
  refine ⟨rfl, ⟨[], (List.append_nil _).symm⟩, ⟨rfl, rfl⟩, fun j delivery hd => ?_,
    fun j delivery hd hacks => ?_⟩
  · unfold setStage at hd
    dsimp only at hd
    split at hd
    · rename_i hj
      subst hj
      obtain ⟨⟨given, hgiven, hm⟩, -⟩ := afterClaim_delivery hd
      exact .inr ⟨registration, hr, _, _, _, _, given, rfl, hgiven, hm⟩
    · exact .inl hd
  · unfold setStage at hd hacks
    dsimp only at hd hacks
    split at hd
    · rename_i hj
      rw [if_pos hj, (afterClaim_delivery hd).2] at hacks
      cases hacks
    · rename_i hj
      rw [if_neg hj] at hacks
      exact ⟨hd, .inl hacks⟩

theorem steps_call {i : Nat} {registration : Registration} {delivery : BrokerMessage}
    (hr : triggers.registrations[i]? = some registration)
    (hs : triggers.stage i = .calling delivery) :
    Steps codec uuid cluster triggers (triggers.call cluster i registration delivery) none := by
  unfold call
  obtain ⟨json, hjson⟩ := messageJson_total delivery.message
  rw [hjson]
  dsimp only
  have hpost := cluster.attempt_post triggers.attempts
    (pubsubFunctionPost registration.worker registration.function json)
  refine ⟨rfl, ⟨_, rfl⟩, ⟨rfl, rfl⟩, fun j found hd => ?_, fun j found hd hacks => ?_⟩
  · left
    unfold setStage at hd
    dsimp only at hd
    split at hd
    · rename_i hj
      rw [hj, hs]
      split at hd <;> exact hd
    · exact hd
  · unfold setStage at hd hacks
    dsimp only at hd hacks
    split at hd
    · rename_i hj
      subst hj
      rw [if_pos rfl] at hacks
      split at hacks
      · rename_i herror
        rw [if_pos herror] at hd
        obtain rfl := Option.some.inj hd
        rw [hs]
        exact ⟨rfl, .inr ⟨registration, hr, _, rfl, ⟨json, hjson, hpost⟩,
          ⟨triggers.attempts, by rw [hpost]⟩, postError_eq_none.mp herror⟩⟩
      · cases hacks
    · rename_i hj
      rw [if_neg hj] at hacks
      exact ⟨hd, .inl hacks⟩

/-- What a task does in its turn. -/
theorem steps_advance (triggers : Triggers β η) (i : Nat) (now : Int) :
    ∃ asked, (∀ event, asked = some event → triggers.Requests (.advance i now) event) ∧
      Steps codec uuid cluster triggers (triggers.advance codec uuid cluster i now) asked := by
  have hstays : ∀ stage', Follows (triggers.stage i) stage' →
      ∃ asked, (∀ event, asked = some event → triggers.Requests (.advance i now) event) ∧
        Steps codec uuid cluster triggers (triggers.setStage i stage') asked :=
    fun stage' hf => ⟨none, fun _ he => (by cases he), steps_setStage hf⟩
  have hidle : Steps codec uuid cluster triggers triggers none :=
    .of_follows rfl ⟨[], (List.append_nil _).symm⟩ ⟨rfl, rfl⟩ fun _ _ hd => ⟨hd, id⟩
  unfold advance
  cases hr : triggers.registrations[i]? with
  | none => exact ⟨none, fun _ he => (by cases he), hidle⟩
  | some registration =>
    dsimp only
    cases hs : triggers.stage i with
    | pulling =>
      rw [hs] at hstays
      dsimp only
      split
      · exact hstays _ (.of_none rfl)
      · split
        · exact hstays _ (.of_none rfl)
        · exact hstays _ (.of_none rfl)
    | claiming deadlineSeconds =>
      refine ⟨_, fun event he => ?_, steps_claim hr deadlineSeconds now⟩
      obtain rfl := Option.some.inj he
      exact .claim deadlineSeconds hr
    | calling delivery => exact ⟨none, fun _ he => (by cases he), steps_call hr hs⟩
    | acknowledging delivery found =>
      rw [hs] at hstays
      cases found with
      | false =>
        dsimp only
        split
        · exact hstays _ fun other hd => ⟨hd, fun _ => rfl⟩
        · exact hstays _ (.of_none rfl)
      | true =>
        refine ⟨some (.acknowledge registration.subscription [delivery.ackId]), fun event he => ?_,
          ?_⟩
        · obtain rfl := Option.some.inj he
          exact .acknowledge hr hs
        · dsimp only
          have hnone : Follows (triggers.stage i) .pulling := .of_none rfl
          split
          · exact .of_follows rfl ⟨[], (List.append_nil _).symm⟩ ⟨rfl, rfl⟩ (follows_setStage hnone)
          · exact .of_follows rfl ⟨[], (List.append_nil _).symm⟩ ⟨rfl, rfl⟩ (follows_setStage hnone)
    | modifying delivery found =>
      rw [hs] at hstays
      cases found with
      | false =>
        dsimp only
        split
        · exact hstays _ fun other hd => ⟨hd, nofun⟩
        · exact hstays _ (.of_none rfl)
      | true =>
        refine ⟨some (.modifyAck registration.subscription [delivery.ackId] 1 now),
          fun event he => ?_, ?_⟩
        · obtain rfl := Option.some.inj he
          exact .modifyAck delivery.ackId hr
        · exact .of_follows rfl ⟨[], (List.append_nil _).symm⟩ ⟨rfl, rfl⟩
            (follows_setStage (.of_none rfl))
    | resting =>
      rw [hs] at hstays
      exact hstays _ (.of_none rfl)
    | stopped => exact ⟨none, fun _ he => (by cases he), hidle⟩

theorem failed_follows (stage : TaskStage) : Follows stage (failed stage) := by
  cases stage with
  | calling delivery => exact fun _ hd => ⟨hd, id⟩
  | _ => exact .of_none rfl

/-- What any step does. -/
theorem steps_step (codec : BrokerCodec β) (uuid : Nat → String) (cluster : Cluster η)
    (triggers : Triggers β η) (event : TriggersEvent) :
    ∃ asked, (∀ e, asked = some e → triggers.Requests event e) ∧
      Steps codec uuid cluster triggers (triggers.step codec uuid cluster event) asked := by
  have hsame : ∀ i, Follows (triggers.stage i) (triggers.stage i) := fun _ _ hd => ⟨hd, id⟩
  cases event with
  | client event =>
    refine ⟨some event, fun e he => ?_, ?_⟩
    · obtain rfl := Option.some.inj he
      exact .client event
    · exact .of_follows rfl ⟨[], (List.append_nil _).symm⟩ ⟨rfl, rfl⟩ hsame
  | request post =>
    exact ⟨none, fun _ he => (by cases he), .of_follows rfl ⟨_, rfl⟩ ⟨rfl, rfl⟩ hsame⟩
  | advance i now => exact steps_advance triggers i now
  | fails i => exact ⟨none, fun _ he => (by cases he), steps_setStage (failed_follows _)⟩
  | restart =>
    refine ⟨none, fun _ he => (by cases he), ?_⟩
    unfold step
    dsimp only
    split
    · exact .of_follows rfl ⟨[], (List.append_nil _).symm⟩ ⟨rfl, rfl⟩ fun i => .of_none rfl
    · exact .of_follows rfl ⟨[], (List.append_nil _).symm⟩ ⟨rfl, rfl⟩ hsame

/-- The board has one content for each identifier. -/
theorem view_carries {service : Pubsub.PubSubService β} {subscription id : String}
    {held : Held String PubsubMessage}
    (hb : (service.view codec).board subscription id = some held) :
    (service.view codec).Carries id held.content := by
  intro other found hf
  cases hp : service.persistence with
  | some tables =>
    rw [Pubsub.PubSubService.view_tables hp] at hb hf
    obtain ⟨stored, _, hstored, -, rfl⟩ := Pubsub.joined_some.mp hb
    obtain ⟨stored', _, hstored', -, rfl⟩ := Pubsub.joined_some.mp hf
    obtain rfl := Option.some.inj (hstored.symm.trans hstored')
    rfl
  | none =>
    rw [Pubsub.PubSubService.view_memory hp] at hb hf
    obtain ⟨stored, _, hstored, -, rfl⟩ := Pubsub.joined_some.mp hb
    obtain ⟨stored', _, hstored', -, rfl⟩ := Pubsub.joined_some.mp hf
    obtain rfl := Option.some.inj (hstored.symm.trans hstored')
    rfl

/-- The leases of the broker are those that it has handed out. -/
structure Recorded (codec : BrokerCodec β) (uuid : Nat → String) (broker : Broker β)
    (performed : List (Pubsub.Event × Reply)) : Prop where
  sound : broker.Sound codec uuid
  tracked : broker.Tracked codec uuid (Pubsub.standingLeases performed)
  nodup : (performed.flatMap Pubsub.handedOut).Nodup
  drawn : ∀ ackId ∈ performed.flatMap Pubsub.handedOut, ∃ n < broker.drawn, uuid n = ackId

theorem Recorded.step {broker : Broker β} {performed : List (Pubsub.Event × Reply)}
    (h : Recorded codec uuid broker performed) (hu : Function.Injective uuid)
    (event : Pubsub.Event) :
    Recorded codec uuid (broker.step codec uuid event)
      (performed ++ [(event, broker.reply codec uuid event)]) := by
  obtain ⟨hnodup, hnew⟩ := h.sound.handedOut_step hu event
  refine ⟨h.sound.step hu event, ?_, ?_, fun ackId hm => ?_⟩
  · have htracked := h.sound.tracked_step hu h.tracked event
    unfold Pubsub.standingLeases Pubsub.notes at htracked ⊢
    rw [List.foldl_append]
    exact htracked
  · rw [List.flatMap_append, List.flatMap_singleton]
    refine List.nodup_append.mpr ⟨h.nodup, hnodup, fun ackId hm ackId' hm' he => ?_⟩
    obtain ⟨n, hn, rfl⟩ := h.drawn ackId hm
    obtain ⟨n', hn', -, rfl⟩ := hnew ackId' hm'
    have hsame := hu he
    omega
  · rw [List.flatMap_append, List.flatMap_singleton] at hm
    rcases List.mem_append.mp hm with hm | hm
    · obtain ⟨n, hn, he⟩ := h.drawn ackId hm
      exact ⟨n, Nat.lt_of_lt_of_le hn (Nat.le_add_right _ _), he⟩
    · obtain ⟨n, -, hn, he⟩ := hnew ackId hm
      exact ⟨n, hn, he⟩

theorem Recorded.run {broker : Broker β} {performed : List (Pubsub.Event × Reply)}
    (h : Recorded codec uuid broker performed) (hu : Function.Injective uuid)
    (events : List Pubsub.Event) :
    Recorded codec uuid (broker.run codec uuid events)
      (performed ++ broker.history codec uuid events) := by
  induction events generalizing broker performed with
  | nil =>
    rw [Broker.history, List.append_nil]
    exact h
  | cons event events ih =>
    have hrest := ih (h.step hu event)
    rw [List.append_assoc] at hrest
    exact hrest

theorem recorded_empty {broker : Broker β} (h : broker.Empty) :
    Recorded codec uuid broker [] := by
  refine ⟨h.sound, ⟨?_, ?_⟩, .nil, ?_⟩
  · intro s id held hb
    rw [h.board] at hb
    cases hb
  · intro s id lease hl
    cases hl
  · intro ackId hm
    cases hm

/-- A delivery is one that the broker has handed out for the subscription, as it stands there. -/
structure HeldFor (codec : BrokerCodec β) (uuid : Nat → String) (triggers : Triggers β η)
    (subscription : String) (delivery : BrokerMessage) : Prop where
  issued : Pubsub.Issued triggers.performed subscription delivery.message.messageId delivery.ackId
  drew : triggers.broker.Drew uuid delivery.message.messageId
  carries : ∃ expiry, (triggers.broker.service.view codec).Carries delivery.message.messageId
    (delivery.message, expiry)

/-- The invariant of the tasks. -/
structure Sound (codec : BrokerCodec β) (uuid : Nat → String) (runtime : Runtime)
    (triggers : Triggers β η) : Prop where
  registered : triggers.registrations = Dispatch.registrations runtime.project runtime.pairs
  recorded : Recorded codec uuid triggers.broker triggers.performed
  held : ∀ i registration delivery, triggers.registrations[i]? = some registration →
    (triggers.stage i).delivery = some delivery →
      HeldFor codec uuid triggers registration.subscription delivery

theorem Started.sound {runtime : Runtime} (h : triggers.Started codec uuid runtime)
    (hu : Function.Injective uuid) : triggers.Sound codec uuid runtime := by
  obtain ⟨empty, hempty, events, hbroker, hperformed⟩ := h.ran
  refine ⟨h.registered, ?_, fun i registration delivery _ hd => ?_⟩
  · rw [hbroker, hperformed, ← List.nil_append (empty.history codec uuid events)]
    exact (recorded_empty hempty).run hu events
  · rw [h.pulling i] at hd
    cases hd

theorem HeldFor.step {subscription : String} {delivery : BrokerMessage}
    (h : HeldFor codec uuid triggers subscription delivery) (hu : Function.Injective uuid)
    (hs : Recorded codec uuid triggers.broker triggers.performed) {triggers' : Triggers β η}
    {asked : Option Pubsub.Event} (hp : Performs codec uuid triggers triggers' asked) :
    HeldFor codec uuid triggers' subscription delivery := by
  cases asked with
  | none =>
    obtain ⟨hbroker, hperformed⟩ := hp
    constructor
    · rw [hperformed]
      exact h.issued
    · rw [hbroker]
      exact h.drew
    · rw [hbroker]
      exact h.carries
  | some event =>
    obtain ⟨hbroker, hperformed⟩ := hp
    constructor
    · rw [hperformed]
      exact h.issued.append_left _
    · rw [hbroker]
      exact h.drew.step event
    · obtain ⟨expiry, hc⟩ := h.carries
      rw [hbroker]
      exact ⟨expiry, hc.step (hs.sound.serve hu event).2 (h.drew.fresh hu)⟩

/-- What a claim hands out is held. -/
theorem claimed_heldFor (hu : Function.Injective uuid)
    (hs : Recorded codec uuid triggers.broker triggers.performed) {triggers' : Triggers β η}
    {subscription : String} {maxCount : Nat} {maxBytes deadlineSeconds now : Int}
    {given : List BrokerMessage} {delivery : BrokerMessage}
    (hr : triggers.broker.reply codec uuid
      (.claim subscription maxCount maxBytes deadlineSeconds now) = .claimed given)
    (hm : delivery ∈ given) (hp : Performs codec uuid triggers triggers'
      (some (.claim subscription maxCount maxBytes deadlineSeconds now))) :
    HeldFor codec uuid triggers' subscription delivery := by
  obtain ⟨hbroker, hperformed⟩ := hp
  have hclaim := (hs.sound.serve hu (.claim subscription maxCount maxBytes deadlineSeconds now)).2
  have hreply := hr
  unfold Broker.reply at hr
  rw [hr] at hclaim
  obtain ⟨held, hb, hpayload, -⟩ := hclaim.claimed.2.1.on_board hm
  have hdrew : triggers.broker.Drew uuid delivery.message.messageId := hs.sound.board_drawn hb
  have hcarries := view_carries hb
  have hcontent : held.content = (delivery.message, held.expiry) := by
    rw [← hpayload]
    rfl
  rw [hcontent] at hcarries
  constructor
  · rw [hperformed, hreply]
    exact .append_right _ ⟨_, _, _, _, given, List.mem_singleton_self _, delivery, hm, rfl, rfl⟩
  · rw [hbroker]
    exact hdrew.step _
  · rw [hbroker]
    exact ⟨held.expiry, hcarries.step
      (hs.sound.serve hu (.claim subscription maxCount maxBytes deadlineSeconds now)).2
      (hdrew.fresh hu)⟩

theorem Sound.steps {runtime : Runtime} (h : triggers.Sound codec uuid runtime)
    (hu : Function.Injective uuid) {triggers' : Triggers β η} {asked : Option Pubsub.Event}
    (hs : Steps codec uuid cluster triggers triggers' asked) :
    triggers'.Sound codec uuid runtime := by
  refine ⟨hs.registrations.trans h.registered, ?_, fun i registration delivery hr hd => ?_⟩
  · have hp := hs.performs
    cases asked with
    | none =>
      obtain ⟨hbroker, hperformed⟩ := hp
      rw [hbroker, hperformed]
      exact h.recorded
    | some event =>
      obtain ⟨hbroker, hperformed⟩ := hp
      rw [hbroker, hperformed]
      exact h.recorded.step hu event
  · rw [hs.registrations] at hr
    rcases hs.held i delivery hd with hold | ⟨found, hf, _, _, _, _, given, rfl, hgiven, hm⟩
    · exact (h.held i registration delivery hr hold).step hu h.recorded hs.performs
    · obtain rfl := Option.some.inj (hr.symm.trans hf)
      exact claimed_heldFor hu h.recorded hgiven hm hs.performs

theorem Sound.step {runtime : Runtime} (h : triggers.Sound codec uuid runtime)
    (hu : Function.Injective uuid) (event : TriggersEvent) :
    (triggers.step codec uuid cluster event).Sound codec uuid runtime := by
  obtain ⟨asked, -, hs⟩ := steps_step codec uuid cluster triggers event
  exact h.steps hu hs

/-- An acknowledgement is a client's, or that of a task with its delivery. -/
theorem Requests.acknowledged {event : TriggersEvent} {subscription : String}
    {ackIds : List String} (h : triggers.Requests event (.acknowledge subscription ackIds)) :
    event = .client (.acknowledge subscription ackIds) ∨
      ∃ i registration delivery, triggers.registrations[i]? = some registration ∧
        triggers.stage i = .acknowledging delivery true ∧
        registration.subscription = subscription ∧ ackIds = [delivery.ackId] := by
  generalize hasked : Pubsub.Event.acknowledge subscription ackIds = asked at h
  cases h with
  | client => exact .inl rfl
  | claim => cases hasked
  | modifyAck => cases hasked
  | acknowledge hr hs =>
    obtain ⟨rfl, rfl⟩ := Pubsub.Event.acknowledge.inj hasked
    exact .inr ⟨_, _, _, hr, hs, rfl, rfl⟩

theorem Requests.unsubscribed {event : TriggersEvent} {subscription : String}
    (h : triggers.Requests event (.deleteSubscription subscription)) :
    event = .client (.deleteSubscription subscription) := by
  generalize hasked : Pubsub.Event.deleteSubscription subscription = asked at h
  cases h with
  | client => rfl
  | claim => cases hasked
  | modifyAck => cases hasked
  | acknowledge => cases hasked

section Fate
variable {runtime : Runtime} {registration : Registration} {id : String}
variable {message : PubsubMessage} {expiry : Int}

/-- Whoever acknowledges the message, the handler has returned before. -/
def Acked (cluster : Cluster η) (registration : Registration) (message : PubsubMessage) (n : Nat)
    (triggers : Triggers β η) : Prop :=
  ∀ (i : Nat) (delivery : BrokerMessage), triggers.registrations[i]? = some registration →
    (triggers.stage i).delivery = some delivery → (triggers.stage i).acks = true →
    delivery.message = message →
      ∃ attempt ∈ triggers.attempts.drop n, attempt.Handled cluster registration message

theorem Acked.steps {n : Nat} (h : Acked cluster registration message n triggers)
    (hn : n ≤ triggers.attempts.length) {triggers' : Triggers β η} {asked : Option Pubsub.Event}
    (hs : Steps codec uuid cluster triggers triggers' asked) :
    Acked cluster registration message n triggers' := by
  intro i delivery hr hd hacks hmessage
  rw [hs.registrations] at hr
  obtain ⟨hold, hbefore | ⟨found, hf, attempt, hattempts, hhandled⟩⟩ := hs.acks i delivery hd hacks
  · obtain ⟨attempt, hattempt, hhandled⟩ := h i delivery hr hold hbefore hmessage
    obtain ⟨made, hmade⟩ := hs.attempts
    refine ⟨attempt, ?_, hhandled⟩
    rw [hmade, List.drop_append_of_le_length hn]
    exact List.mem_append_left _ hattempt
  · obtain rfl := Option.some.inj (hr.symm.trans hf)
    subst hmessage
    refine ⟨attempt, ?_, hhandled⟩
    rw [hattempts, List.drop_append_of_le_length hn]
    exact List.mem_append_right _ (List.mem_singleton_self _)

/-- A handler of the function of a registration was called with a message, and it returned. -/
def Attempt.Ran (cluster : Cluster η) (attempt : Attempt η) (registration : Registration)
    (message : PubsubMessage) : Prop :=
  ∃ call value item json, attempt.call = some (call, .returned value) ∧
    Adapter.lookup (cluster.registry registration.worker.base) registration.function.name =
      some item ∧
    item.trigger = registration.function.trigger ∧ call.handler = item.fn ∧
    messageJson message = some json ∧ call.data = json ∧
    call.context.get "eventId" = .string message.messageId

/-- What may have become of a message by a later state: it still waits, a cleanup found it
expired, a client took or deleted it at the subscription, or the function has handled it. -/
inductive Fate (codec : BrokerCodec β) (cluster : Cluster η) (registration : Registration)
    (id : String) (message : PubsubMessage) (expiry : Int) (start later : Triggers β η)
    (events : List TriggersEvent) : Prop where
  | waits (h : later.broker.Pending codec registration.subscription id message expiry)
  | expired {event : Pubsub.Event} {reply : Reply} {now : Int}
    (h : (event, reply) ∈ later.performed.drop start.performed.length)
    (hs : event.sweeps = some now) (hle : expiry ≤ now)
  | taken {event : Pubsub.Event} (h : .client event ∈ events)
    (hc : event.concerns registration.subscription)
  | handled {attempt : Attempt η} (h : attempt ∈ later.attempts.drop start.attempts.length)
    (hr : Attempt.Ran cluster attempt registration message)

theorem Fate.cons {start later : Triggers β η} {event : TriggersEvent}
    {events : List TriggersEvent}
    (h : Fate codec cluster registration id message expiry start later events) :
    Fate codec cluster registration id message expiry start later (event :: events) := by
  cases h with
  | waits h => exact .waits h
  | expired h hs hle => exact .expired h hs hle
  | taken h hc => exact .taken (List.mem_cons_of_mem _ h) hc
  | handled h hr => exact .handled h hr

/-- A request that succeeded has run the function's handler. -/
theorem Handled.ran (hlinked : Linked cluster runtime.workers)
    (hm : registration ∈ Dispatch.registrations runtime.project runtime.pairs)
    {attempt : Attempt η} (h : attempt.Handled cluster registration message) :
    Attempt.Ran cluster attempt registration message := by
  obtain ⟨pair, hpair, hregistration⟩ := List.mem_filterMap.mp hm
  obtain ⟨topic, -, rfl⟩ := Option.map_eq_some_iff.mp hregistration
  obtain ⟨hworker, hf⟩ := mem_pairs.mp hpair
  obtain ⟨json, hjson, hpost⟩ := h.post
  obtain ⟨before, hmade⟩ := h.made
  obtain ⟨hreceive, hreturn⟩ := cluster.attempt_call before attempt.post
  rw [← hmade] at hreceive hreturn
  obtain ⟨call, value, hcall⟩ := hreturn h.succeeded
  obtain ⟨item, type, hlookup, htype, rfl⟩ := receiveEvent_ok (hreceive call _ hcall)
  obtain ⟨found, hfound, htrigger⟩ := hlinked.lookup hworker hf
  rw [hpost] at hlookup htype
  obtain rfl := Option.some.inj (hfound.symm.trans hlookup)
  have hid := messageJson_id hjson
  refine ⟨_, value, found, json, hcall, hfound, htrigger, rfl, hjson, ?_, ?_⟩
  · rw [hpost]
    rfl
  · have hsame : type = (eventType pair.2).getD publishType := (Option.some.inj htype).symm
    rw [hpost, hsame]
    unfold pubsubFunctionPost
    dsimp only
    rw [hid, heard_context]
    rfl

end Fate

end Triggers

end FirebaseEmu.Functions.Dispatch
