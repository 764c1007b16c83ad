import FirebaseEmu.Firestore.Messages
import FirebaseEmu.Lib.Results
import FirebaseEmu.Lib.Text

namespace FirebaseEmu.Pubsub
open Lib
open Firestore (Timestamp)

/-- The gRPC codes the Pub/Sub service answers with. -/
inductive Code where
  | invalidArgument
  | notFound
  | alreadyExists
  | resourceExhausted
  | unimplemented
  | internal
  deriving DecidableEq

structure Status where
  code : Code
  message : String
  deriving DecidableEq

def invalidArgument (message : String) : Status := ⟨.invalidArgument, message⟩

def notFound (message : String) : Status := ⟨.notFound, message⟩

def alreadyExists (message : String) : Status := ⟨.alreadyExists, message⟩

def resourceExhausted (message : String) : Status := ⟨.resourceExhausted, message⟩

def unimplemented (message : String) : Status := ⟨.unimplemented, message⟩

def internal (message : String) : Status := ⟨.internal, message⟩

/-- An error of the store behind the broker. -/
def status (error : String) : Status := internal ("Pub/Sub persistence error: " ++ error)

def maxMessageBytes : Nat := 10 * 1024 * 1024

def maxPublishBytes : Nat := 10 * 1024 * 1024

/-- Room for the message id and the publish time the server adds. -/
def maxDeliveryMessageBytes : Nat := maxMessageBytes + 1024

def maxPendingDeliveries : Int := 10000

def maxPendingBytes : Int := 64 * 1024 * 1024

def retentionSeconds : Int := 24 * 60 * 60

def defaultAckDeadline : Int := 10

def saturatingAdd (a b : Int) : Int := max (-2 ^ 63) (min (2 ^ 63 - 1) (a + b))

/-- A topic; of the settings it may not have only their presence is kept. -/
structure Topic where
  name : String
  messageStoragePolicy : Bool
  kmsKeyName : String
  schemaSettings : Bool
  messageRetentionDuration : Bool
  ingestionDataSourceSettings : List UInt8
  deriving DecidableEq

/-- A subscription; of the settings it may not have only their presence is kept. -/
structure Subscription where
  name : String
  topic : String
  pushConfig : Bool
  ackDeadlineSeconds : Int
  retainAckedMessages : Bool
  messageRetentionDuration : Bool
  enableMessageOrdering : Bool
  expirationPolicy : Bool
  filter : String
  deadLetterPolicy : Bool
  retryPolicy : Bool
  enableExactlyOnceDelivery : Bool
  topicMessageRetentionDuration : Bool
  bigqueryConfig : Bool
  cloudStorageConfig : Bool
  analyticsHubSubscriptionInfo : List UInt8
  deriving DecidableEq

/-- A message; its attributes are kept as the entries of the map, in key order. -/
structure PubsubMessage where
  data : List UInt8
  attributes : List (String × String)
  messageId : String
  publishTime : Option Timestamp
  orderingKey : String
  deriving DecidableEq

/-- The bytes of a protobuf varint: one for every seven bits. -/
def varintLen (n : Nat) : Nat := n.log2 / 7 + 1

/-- A length-delimited field with a one-byte key. -/
def fieldLen (n : Nat) : Nat := 1 + varintLen n + n

def stringLen (s : String) : Nat := if s.utf8ByteSize = 0 then 0 else fieldLen s.utf8ByteSize

/-- A varint field with a one-byte key; negative numbers take ten bytes. -/
def intLen (i : Int) : Nat := if i = 0 then 0 else 1 + varintLen (i % 2 ^ 64).toNat

def timestampLen (t : Timestamp) : Nat := intLen t.seconds.toInt + intLen t.nanos.toInt

/-- The size of the protobuf encoding. -/
def PubsubMessage.encodedLen (message : PubsubMessage) : Nat :=
  (if message.data.isEmpty then 0 else fieldLen message.data.length) +
  (message.attributes.map fun (key, value) => fieldLen (stringLen key + stringLen value)).sum +
  stringLen message.messageId +
  (message.publishTime.map fun t => fieldLen (timestampLen t)).getD 0 +
  stringLen message.orderingKey

def validId (id : String) : Bool :=
  decide (3 ≤ id.utf8ByteSize ∧ id.utf8ByteSize ≤ 255) &&
  id.toList.all (fun c => c.isAlphanum || "-_.~+%".toList.contains c) &&
  (id.toList.head?.map Char.isAlpha).getD false &&
  !startsWith id.toLower "goog"

def parseResource (value kind : String) : Except Status (String × String) :=
  match split '/' value with
  | ["projects", project, found, id] =>
    if found == kind && project != "" && validId id then .ok (project, id)
    else .error (invalidArgument s!"expected projects/\x7bproject\x7d/{kind}/\x7bid\x7d")
  | _ => .error (invalidArgument s!"expected projects/\x7bproject\x7d/{kind}/\x7bid\x7d")

def topicSupported (topic : Topic) : Except Status Unit :=
  if topic.messageStoragePolicy || topic.kmsKeyName != "" || topic.schemaSettings ||
      topic.messageRetentionDuration || !topic.ingestionDataSourceSettings.isEmpty then
    .error (unimplemented
      "topic storage policies, KMS, schemas, ingestion, and configurable retention are unsupported")
  else .ok ()

def normalizeSubscription (subscription : Subscription) : Except Status Subscription :=
  if subscription.pushConfig then
    .error (unimplemented "push subscriptions are unsupported; use a pull subscription")
  else if subscription.bigqueryConfig || subscription.cloudStorageConfig then
    .error (unimplemented "BigQuery and Cloud Storage subscriptions are unsupported")
  else if subscription.enableMessageOrdering || subscription.retainAckedMessages ||
      subscription.messageRetentionDuration || subscription.expirationPolicy ||
      subscription.filter != "" || subscription.deadLetterPolicy || subscription.retryPolicy ||
      subscription.enableExactlyOnceDelivery || subscription.topicMessageRetentionDuration ||
      !subscription.analyticsHubSubscriptionInfo.isEmpty then
    .error (unimplemented
      ("ordering, filters, snapshots/retention, dead-letter/retry policies, " ++
        "and exactly-once delivery are unsupported"))
  else if subscription.ackDeadlineSeconds = 0 then
    .ok { subscription with ackDeadlineSeconds := defaultAckDeadline }
  else if 10 ≤ subscription.ackDeadlineSeconds ∧ subscription.ackDeadlineSeconds ≤ 600 then
    .ok subscription
  else .error (invalidArgument "ack_deadline_seconds must be zero or between 10 and 600")

/-- The checks of a published message, with the bytes of those before it. -/
def checkMessages : List PubsubMessage → Nat → Except Status Nat
  | [], requestBytes => .ok requestBytes
  | message :: messages, requestBytes =>
    if message.data.isEmpty && message.attributes.isEmpty then
      .error (invalidArgument "each message needs data or attributes")
    else if message.messageId != "" || message.publishTime.isSome then
      .error (invalidArgument "message_id and publish_time are server assigned")
    else if message.orderingKey != "" then
      .error (unimplemented "ordering keys are unsupported")
    else if maxMessageBytes < message.encodedLen then
      .error (resourceExhausted "message exceeds 10 MiB")
    else checkMessages messages (requestBytes + message.encodedLen)

/-- A message as the server stores it. -/
def PubsubMessage.assign (message : PubsubMessage) (id : String) (published : Timestamp) :
    PubsubMessage :=
  { message with messageId := id, publishTime := some published }

/-- The messages with the fields the server assigns; `uuids` are the next identifiers drawn. -/
def assignMessages (uuids : Nat → String) (published : Timestamp) :
    List PubsubMessage → Except Status (List PubsubMessage)
  | [] => .ok []
  | message :: messages =>
    let message := message.assign (uuids 0) published
    if maxDeliveryMessageBytes < message.encodedLen then
      .error (resourceExhausted "message exceeds delivery response budget")
    else (assignMessages (fun n => uuids (n + 1)) published messages).map (message :: ·)

theorem assignMessages_ok {uuids : Nat → String} {published : Timestamp}
    {messages assigned : List PubsubMessage}
    (h : assignMessages uuids published messages = .ok assigned) :
    assigned.length = messages.length ∧ ∀ (i : Nat) (stored : PubsubMessage),
      assigned[i]? = some stored → stored.encodedLen ≤ maxDeliveryMessageBytes ∧
        ∃ message, messages[i]? = some message ∧ stored = message.assign (uuids i) published := by
  induction messages generalizing uuids assigned with
  | nil =>
    obtain rfl := Except.ok.inj h
    simp
  | cons message messages ih =>
    simp only [assignMessages] at h
    split at h
    · cases h
    · rename_i hlen
      obtain ⟨rest, hrest, rfl⟩ := exceptMap_eq_ok.mp h
      obtain ⟨hl, hi⟩ := ih hrest
      refine ⟨by simp [hl], fun i stored hs => ?_⟩
      cases i with
      | zero =>
        obtain rfl := Option.some.inj hs
        exact ⟨Nat.not_lt.mp hlen, message, rfl, rfl⟩
      | succ i => exact hi i stored hs

/-- The part of a publish before it touches the store. -/
def preparePublish (topic : String) (messages : List PubsubMessage) (uuids : Nat → String)
    (published : Timestamp) : Except Status (List PubsubMessage) := do
  let _ ← parseResource topic "topics"
  if messages.isEmpty then throw (invalidArgument "messages must not be empty")
  let requestBytes ← checkMessages messages 0
  if maxPublishBytes < requestBytes then
    throw (resourceExhausted "publish request exceeds 10 MiB")
  assignMessages uuids published messages

/-- One message handed to a puller, with the lease it is under. -/
structure BrokerMessage where
  ackId : String
  message : PubsubMessage
  sizeBytes : Int
  deriving DecidableEq

inductive DeliveryState where
  | available
  | inFlight
  deriving DecidableEq

/-- A delivery stands under its subscription and its message. -/
structure DeliveryKey where
  subscription : String
  message : String
  deriving DecidableEq

instance : Ord DeliveryKey :=
  ⟨compareLex (compareOn DeliveryKey.subscription) (compareOn DeliveryKey.message)⟩

instance : Std.TransOrd DeliveryKey :=
  inferInstanceAs (Std.TransCmp (compareLex (compareOn _) (compareOn _)))

instance : Std.LawfulEqOrd DeliveryKey where
  compare_self := Std.ReflCmp.compare_self
  eq_of_compare {a b} h := by
    obtain ⟨hs, hm⟩ := Ordering.then_eq_eq.mp h
    obtain ⟨s, m⟩ := a
    obtain ⟨s', m'⟩ := b
    obtain rfl := Std.LawfulEqOrd.eq_of_compare hs
    obtain rfl := Std.LawfulEqOrd.eq_of_compare hm
    rfl

example : (parseResource "projects/p/topics/events" "topics").toOption = some ("p", "events") := by
  decide +kernel

end FirebaseEmu.Pubsub
