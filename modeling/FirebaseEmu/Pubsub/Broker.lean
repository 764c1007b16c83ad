import FirebaseEmu.Pubsub.Tables
import FirebaseEmu.Lib.Machine

namespace FirebaseEmu.Pubsub
open Lib Std
open Firestore (Timestamp)

/-- The broker: its tables with the SQLite backend, else its maps. -/
structure PubSubService (β : Type) where
  persistence : Option (Tables β)
  memory : MemoryState

variable {β : Type} (codec : BrokerCodec β)

namespace PubSubService

def inMemory : PubSubService β := ⟨none, .empty⟩

def onTables (tables : Tables β) : PubSubService β := ⟨some tables, .empty⟩

def setMemory (service : PubSubService β) (memory : MemoryState) : PubSubService β :=
  { service with memory }

def setTables (service : PubSubService β) (tables : Tables β) : PubSubService β :=
  { service with persistence := some tables }

/-- An operation that a backend either refuses or carries out. -/
def update (service : PubSubService β) (sql : Tables β → Except Status (Tables β))
    (memory : MemoryState → Except Status MemoryState) : Except Status Unit × PubSubService β :=
  match service.persistence with
  | some tables =>
    match sql tables with
    | .ok tables => (.ok (), service.setTables tables)
    | .error e => (.error e, service)
  | none =>
    match memory service.memory with
    | .ok memory => (.ok (), service.setMemory memory)
    | .error e => (.error e, service)

def createTopicValue (service : PubSubService β) (topic : Topic) :
    Except Status Unit × PubSubService β :=
  match (parseResource topic.name "topics").bind fun _ => topicSupported topic with
  | .error e => (.error e, service)
  | .ok () => service.update (·.createTopic codec topic) (·.createTopic topic)

def deleteTopicValue (service : PubSubService β) (name : String) :
    Except Status Unit × PubSubService β :=
  match parseResource name "topics" with
  | .error e => (.error e, service)
  | .ok _ => service.update (·.deleteTopic codec name) (·.deleteTopic name)

/-- A subscription as it is stored. -/
def checkSubscription (subscription : Subscription) : Except Status Subscription := do
  let subscription ← normalizeSubscription subscription
  let (subscriptionProject, _) ← parseResource subscription.name "subscriptions"
  let (topicProject, _) ← parseResource subscription.topic "topics"
  if subscriptionProject != topicProject then
    throw (invalidArgument "cross-project subscriptions are outside local emulator scope")
  pure subscription

def createSubscriptionValue (service : PubSubService β) (subscription : Subscription) :
    Except Status Unit × PubSubService β :=
  match checkSubscription subscription with
  | .error e => (.error e, service)
  | .ok subscription =>
    service.update (·.createSubscription codec subscription) (·.createSubscription subscription)

def deleteSubscriptionValue (service : PubSubService β) (name : String) :
    Except Status Unit × PubSubService β :=
  match parseResource name "subscriptions" with
  | .error e => (.error e, service)
  | .ok _ => service.update (·.deleteSubscription name) (·.deleteSubscription name)

def getSubscriptionValue (service : PubSubService β) (name : String) :
    Except Status Subscription := do
  let _ ← parseResource name "subscriptions"
  match service.persistence with
  | some tables =>
    match tables.subscriptions[name]? with
    | some row => (codec.subscription.decode row.subscription).mapError corrupt
    | none => .error (notFound "subscription not found")
  | none =>
    match service.memory.subscriptions[name]? with
    | some subscription => .ok subscription
    | none => .error (notFound "subscription not found")

def publishValues (service : PubSubService β) (topic : String) (messages : List PubsubMessage)
    (published : Timestamp) (publishedMs : Int) (uuids : Nat → String) :
    Except Status (List String) × PubSubService β :=
  match preparePublish topic messages uuids published with
  | .error e => (.error e, service)
  | .ok messages =>
    let expiry := saturatingAdd publishedMs (retentionSeconds * 1000)
    match service.persistence with
    | some tables =>
      match tables.publish codec topic messages publishedMs expiry with
      | .error e => (.error e, service)
      | .ok tables => (.ok (messages.map PubsubMessage.messageId), service.setTables tables)
    | none =>
      let (outcome, memory) := service.memory.publish topic messages publishedMs expiry
      (outcome.map fun _ => messages.map PubsubMessage.messageId, service.setMemory memory)

/-- What a claim does after it has looked up the subscription. -/
def claimLeases (service : PubSubService β) (subscription : String) (maxCount : Nat)
    (maxBytes : Int) (deadlineSeconds now : Int) (uuids : Nat → String) :
    Except Status (List BrokerMessage) × PubSubService β :=
  let deadline := saturatingAdd now (max 10 (min 600 deadlineSeconds) * 1000)
  match service.persistence with
  | some tables =>
    let (outcome, tables) := tables.claim codec subscription maxCount maxBytes deadline now uuids
    (outcome, service.setTables tables)
  | none =>
    let (outcome, memory) := service.memory.claim subscription maxCount maxBytes deadline now uuids
    (outcome, service.setMemory memory)

/-- What an acknowledgement does after it has looked up the subscription. -/
def acknowledgeLeases (service : PubSubService β) (subscription : String)
    (ackIds : List String) : Except Status Unit × PubSubService β :=
  if ackIds.isEmpty then (.error (invalidArgument "ack_ids must not be empty"), service)
  else service.update (.ok <| ·.acknowledge subscription ackIds)
    (.ok <| ·.acknowledge subscription ackIds)

/-- What a deadline change does after it has looked up the subscription. -/
def modifyLeases (service : PubSubService β) (subscription : String) (ackIds : List String)
    (seconds now : Int) : Except Status Unit × PubSubService β :=
  if ackIds.isEmpty then (.error (invalidArgument "ack_ids must not be empty"), service)
  else if ¬ (0 ≤ seconds ∧ seconds ≤ 600) then
    (.error (invalidArgument "ack deadline must be between 0 and 600"), service)
  else
    let deadline := saturatingAdd now (seconds * 1000)
    service.update (.ok <| ·.modifyAck subscription ackIds seconds deadline)
      (.ok <| ·.modifyAck subscription ackIds seconds deadline)

end PubSubService

/-- The operations of the broker, each a lock section or a transaction, with the clock
reading it took before. The lookups of claims and acknowledgements are reads of their own,
and anything may happen after them. A transaction that fails changes nothing, as does the
restart of a process on its tables. -/
inductive Event where
  | createTopic (topic : Topic)
  | deleteTopic (name : String)
  | createSubscription (subscription : Subscription)
  | deleteSubscription (name : String)
  | publish (topic : String) (messages : List PubsubMessage) (published : Timestamp)
    (publishedMs : Int)
  | claim (subscription : String) (maxCount : Nat) (maxBytes deadlineSeconds now : Int)
  | acknowledge (subscription : String) (ackIds : List String)
  | modifyAck (subscription : String) (ackIds : List String) (seconds now : Int)
  deriving DecidableEq

/-- What an operation answers. -/
inductive Reply where
  | done
  | published (ids : List String)
  | claimed (messages : List BrokerMessage)
  | refused (status : Status)
  deriving DecidableEq

def Reply.ofDone : Except Status Unit → Reply
  | .ok () => .done
  | .error e => .refused e

def Reply.ofPublished : Except Status (List String) → Reply
  | .ok ids => .published ids
  | .error e => .refused e

def Reply.ofClaimed : Except Status (List BrokerMessage) → Reply
  | .ok messages => .claimed messages
  | .error e => .refused e

/-- The broker with the number of identifiers drawn. -/
structure Broker (β : Type) where
  service : PubSubService β
  drawn : Nat

/-- No operation draws more identifiers than this. -/
def Event.draws : Event → Nat
  | .publish _ messages _ _ => messages.length
  | .claim _ maxCount _ _ _ => maxCount
  | _ => 0

namespace Broker

/-- An operation, with `uuid` the identifiers in the order they are drawn. -/
def serve (uuid : Nat → String) (broker : Broker β) (event : Event) : Reply × PubSubService β :=
  let service := broker.service
  let uuids := fun n => uuid (broker.drawn + n)
  match event with
  | .createTopic topic => (service.createTopicValue codec topic).map Reply.ofDone id
  | .deleteTopic name => (service.deleteTopicValue codec name).map Reply.ofDone id
  | .createSubscription subscription =>
    (service.createSubscriptionValue codec subscription).map Reply.ofDone id
  | .deleteSubscription name => (service.deleteSubscriptionValue name).map Reply.ofDone id
  | .publish topic messages published publishedMs =>
    (service.publishValues codec topic messages published publishedMs uuids).map
      Reply.ofPublished id
  | .claim subscription maxCount maxBytes deadlineSeconds now =>
    (service.claimLeases codec subscription maxCount maxBytes deadlineSeconds now uuids).map
      Reply.ofClaimed id
  | .acknowledge subscription ackIds =>
    (service.acknowledgeLeases subscription ackIds).map Reply.ofDone id
  | .modifyAck subscription ackIds seconds now =>
    (service.modifyLeases subscription ackIds seconds now).map Reply.ofDone id

def reply (uuid : Nat → String) (broker : Broker β) (event : Event) : Reply :=
  (serve codec uuid broker event).1

def step (uuid : Nat → String) (broker : Broker β) (event : Event) : Broker β :=
  ⟨(serve codec uuid broker event).2, broker.drawn + event.draws⟩

end Broker
end FirebaseEmu.Pubsub
