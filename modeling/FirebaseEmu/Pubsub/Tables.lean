import FirebaseEmu.Pubsub.Memory
import Mathlib.Data.List.Sort

namespace FirebaseEmu.Pubsub
open Lib Std

/-- The protobuf encoding of a value as a blob: decoding undoes encoding. A blob that is no
such value decodes to the decoder's text. -/
structure Codec (α β : Type) where
  encode : α → β
  decode : β → Except String α
  decode_encode : ∀ value, decode (encode value) = .ok value

/-- The encodings of what the broker stores. -/
structure BrokerCodec (β : Type) where
  topic : Codec Topic β
  subscription : Codec Subscription β
  message : Codec PubsubMessage β

/-- A row of `pubsub_subscriptions`, beside its primary key. -/
structure SubscriptionRow (β : Type) where
  topicName : String
  subscription : β

/-- A row of `pubsub_messages`, beside its primary key. -/
structure MessageRow (β : Type) where
  topicName : String
  message : β
  sizeBytes : Int
  publishedAt : Int
  expireAt : Int

/-- A row of `pubsub_deliveries`, beside its primary key. -/
structure DeliveryRow where
  state : DeliveryState
  ackId : Option String
  deadline : Option Int
  attempts : Int
  deriving DecidableEq

def DeliveryRow.available : DeliveryRow := ⟨.available, none, none, 0⟩

def DeliveryRow.release (row : DeliveryRow) : DeliveryRow :=
  { row with state := .available, ackId := none, deadline := none }

def DeliveryRow.lease (ackId : String) (deadline : Int) (row : DeliveryRow) : DeliveryRow :=
  { row with
    state := .inFlight
    ackId := some ackId
    deadline := some deadline
    attempts := row.attempts + 1 }

def DeliveryRow.expired (now : Int) (row : DeliveryRow) : Bool :=
  row.state == .inFlight && row.deadline.any (· ≤ now)

/-- The tables of the broker. -/
structure Tables (β : Type) where
  topics : ExtTreeMap String β
  subscriptions : ExtTreeMap String (SubscriptionRow β)
  messages : ExtTreeMap String (MessageRow β)
  deliveries : ExtTreeMap DeliveryKey DeliveryRow

/-- The text of a blob that does not decode. -/
def corrupt (error : String) : Status :=
  status ("persistence database failed integrity_check: " ++ error)

/-- The text of an insert under a key that is taken. -/
def uniqueFailed (column : String) : Status :=
  status ("SQLite persistence error: UNIQUE constraint failed: " ++ column)

variable {β : Type} (codec : BrokerCodec β)

namespace Tables

def empty : Tables β := ⟨∅, ∅, ∅, ∅⟩

def createTopic (tables : Tables β) (topic : Topic) : Except Status (Tables β) :=
  if tables.topics.contains topic.name then .error (alreadyExists "topic already exists")
  else .ok { tables with topics := tables.topics.insert topic.name (codec.topic.encode topic) }

/-- The row of a subscription whose topic is deleted. -/
def detach (row : SubscriptionRow β) : Except Status (SubscriptionRow β) :=
  match codec.subscription.decode row.subscription with
  | .error e => .error (corrupt e)
  | .ok subscription =>
    .ok ⟨deletedTopic, codec.subscription.encode { subscription with topic := deletedTopic }⟩

/-- The update loop over the affected rows. -/
def detachAll : List (String × SubscriptionRow β) → Tables β → Except Status (Tables β)
  | [], tables => .ok tables
  | (name, row) :: affected, tables =>
    match detach codec row with
    | .error e => .error e
    | .ok row =>
      detachAll affected { tables with subscriptions := tables.subscriptions.insert name row }

def deleteTopic (tables : Tables β) (name : String) : Except Status (Tables β) :=
  if !tables.topics.contains name then .error (notFound "topic not found")
  else
    let tables := { tables with topics := tables.topics.erase name }
    detachAll codec (tables.subscriptions.toList.filter (·.2.topicName == name)) tables

def createSubscription (tables : Tables β) (subscription : Subscription) :
    Except Status (Tables β) :=
  if !tables.topics.contains subscription.topic then .error (notFound "topic not found")
  else if tables.subscriptions.contains subscription.name then
    .error (alreadyExists "subscription already exists")
  else .ok { tables with
    subscriptions := tables.subscriptions.insert subscription.name
      ⟨subscription.topic, codec.subscription.encode subscription⟩ }

/-- A delete from `pubsub_messages`; the deliveries that refer to a deleted row go with it. -/
def deleteMessages (tables : Tables β) (which : String → MessageRow β → Bool) : Tables β :=
  { tables with
    messages := tables.messages.filter fun id row => !which id row
    deliveries := tables.deliveries.filter fun key _ =>
      !(tables.messages[key.message]?.any (which key.message)) }

def deleteDeliveries (tables : Tables β) (which : DeliveryKey → DeliveryRow → Bool) : Tables β :=
  { tables with deliveries := tables.deliveries.filter fun key row => !which key row }

/-- Messages without a delivery are deleted. -/
def deleteOrphans (tables : Tables β) : Tables β :=
  let live := tables.deliveries.keys.map DeliveryKey.message
  tables.deleteMessages fun id _ => !live.contains id

/-- The delete of the subscription cascades before the deliveries are deleted by name. -/
def deleteSubscription (tables : Tables β) (name : String) : Except Status (Tables β) :=
  if !tables.subscriptions.contains name then .error (notFound "subscription not found")
  else
    let tables := { tables with subscriptions := tables.subscriptions.erase name }
    let tables := tables.deleteDeliveries fun key _ => key.subscription == name
    .ok (tables.deleteDeliveries fun key _ => key.subscription == name).deleteOrphans

def cleanupSql (tables : Tables β) (now : Int) : Tables β :=
  tables.deleteMessages fun _ row => row.expireAt ≤ now

/-- The deliveries joined with their messages, counted and summed. -/
def usage (tables : Tables β) : Int × Int :=
  let joined := tables.deliveries.keys.filterMap fun key => tables.messages[key.message]?
  (joined.length, (joined.map MessageRow.sizeBytes).sum)

def attachedTo (tables : Tables β) (topic : String) : List String :=
  (tables.subscriptions.toList.filter (·.2.topicName == topic)).map Prod.fst

/-- The deliveries of a new message, one for each subscription. -/
def insertDeliveries (id : String) :
    List String → ExtTreeMap DeliveryKey DeliveryRow → Except Status (ExtTreeMap DeliveryKey DeliveryRow)
  | [], deliveries => .ok deliveries
  | subscription :: subscriptions, deliveries =>
    if deliveries.contains ⟨subscription, id⟩ then
      .error (uniqueFailed "pubsub_deliveries.subscription_name, pubsub_deliveries.message_id")
    else insertDeliveries id subscriptions (deliveries.insert ⟨subscription, id⟩ .available)

/-- The insert loop of a publish. -/
def insertMessages (topic : String) (publishedMs expiry : Int) (subscriptions : List String) :
    List PubsubMessage → Tables β → Except Status (Tables β)
  | [], tables => .ok tables
  | message :: messages, tables =>
    if tables.messages.contains message.messageId then
      .error (uniqueFailed "pubsub_messages.message_id")
    else
      match insertDeliveries message.messageId subscriptions tables.deliveries with
      | .error e => .error e
      | .ok deliveries =>
        insertMessages topic publishedMs expiry subscriptions messages { tables with
          messages := tables.messages.insert message.messageId
            ⟨topic, codec.message.encode message, message.encodedLen, publishedMs, expiry⟩
          deliveries }

/-- The transaction of a publish; the messages carry their identifiers. -/
def publish (tables : Tables β) (topic : String) (messages : List PubsubMessage)
    (publishedMs expiry : Int) : Except Status (Tables β) :=
  let tables := tables.cleanupSql publishedMs
  if !tables.topics.contains topic then .error (notFound "topic not found")
  else
    let subscriptions := tables.attachedTo topic
    if subscriptions.isEmpty then .ok tables
    else
      let addedCount : Int := subscriptions.length * messages.length
      let addedBytes : Int :=
        (messages.map fun message => (message.encodedLen : Int)).sum * subscriptions.length
      let (count, bytes) := tables.usage
      if maxPendingDeliveries < saturatingAdd count addedCount ∨
          maxPendingBytes < saturatingAdd bytes addedBytes then
        .error (resourceExhausted "Pub/Sub backlog capacity exceeded")
      else insertMessages codec topic publishedMs expiry subscriptions messages tables

def expireLeases (tables : Tables β) (subscription : String) (now : Int) : Tables β :=
  { tables with
    deliveries := tables.deliveries.map fun key row =>
      if key.subscription == subscription && row.expired now then row.release else row }

/-- The available deliveries of a subscription with their messages, oldest first, and of
messages published at one moment by id. -/
def candidates (tables : Tables β) (subscription : String) (limit : Nat) :
    List (DeliveryKey × MessageRow β) :=
  let joined := (tables.deliveries.toList.filter fun entry =>
    entry.1.subscription == subscription && entry.2.state == .available).filterMap fun entry =>
      tables.messages[entry.1.message]?.map fun row => (entry.1, row)
  (joined.insertionSort fun a b =>
    ((compare a.2.publishedAt b.2.publishedAt).then
      (compare a.1.message b.1.message)).isLE).take limit

/-- The update of a claimed delivery. The row is a candidate, so it is found available. -/
def leaseDelivery (deadline : Int) (key : DeliveryKey) (ackId : String) (tables : Tables β) :
    Tables β :=
  { tables with deliveries := tables.deliveries.modify key (DeliveryRow.lease ackId deadline) }

/-- The selection of a claim. -/
def handOut (tables : Tables β) (subscription : String) (maxCount : Nat)
    (maxBytes deadline : Int) (uuids : Nat → String) :
    Except Status (List BrokerMessage) × Tables β :=
  let candidates := tables.candidates subscription (max 16 (min 1000 (maxCount * 4)))
  claimLoop (fun candidate => candidate.2.sizeBytes)
    (fun candidate => corrupt
      s!"Pub/Sub message {candidate.1.message} exceeds delivery response budget")
    (fun candidate => (codec.message.decode candidate.2.message).mapError corrupt)
    (fun candidate => leaseDelivery deadline candidate.1) maxCount maxBytes
    (candidates.any fun candidate => decide (candidate.2.sizeBytes ≤ maxBytes))
    uuids candidates [] 0 tables

/-- The transaction of a claim, rolled back on an error. -/
def claim (tables : Tables β) (subscription : String) (maxCount : Nat) (maxBytes : Int)
    (deadline now : Int) (uuids : Nat → String) : Except Status (List BrokerMessage) × Tables β :=
  match ((tables.cleanupSql now).expireLeases subscription now).handOut codec subscription maxCount
      maxBytes deadline uuids with
  | (.error e, _) => (.error e, tables)
  | (.ok result, tables) => (.ok result, tables)

/-- The row is of the subscription and under one of the leases. -/
def names (subscription : String) (ackIds : List String) (key : DeliveryKey) (row : DeliveryRow) :
    Bool :=
  key.subscription == subscription && row.ackId.any ackIds.contains

/-- The deletes of the leases one after the other, then of the messages left without any. -/
def acknowledge (tables : Tables β) (subscription : String) (ackIds : List String) : Tables β :=
  (ackIds.foldl (fun tables ackId => tables.deleteDeliveries (names subscription [ackId]))
    tables).deleteOrphans

/-- One update of the loop over the leases. -/
def modifyOne (subscription : String) (seconds deadline : Int) (tables : Tables β)
    (ackId : String) : Tables β :=
  { tables with
    deliveries := tables.deliveries.map fun key row =>
      if seconds = 0 then
        if names subscription [ackId] key row then row.release else row
      else if names subscription [ackId] key row && row.state == .inFlight then
        { row with deadline := some deadline }
      else row }

def modifyAck (tables : Tables β) (subscription : String) (ackIds : List String)
    (seconds deadline : Int) : Tables β :=
  ackIds.foldl (modifyOne subscription seconds deadline) tables

end Tables
end FirebaseEmu.Pubsub
