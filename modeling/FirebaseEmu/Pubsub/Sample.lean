import FirebaseEmu.Pubsub.Broker

namespace FirebaseEmu.Pubsub
open Lib
open Firestore (Timestamp)

/-! A small broker for the concrete runs of the modules below. -/

/-- Blobs that are the values themselves. -/
inductive Blob where
  | topic (value : Topic)
  | subscription (value : Subscription)
  | message (value : PubsubMessage)

def Blob.toTopic : Blob → Except String Topic
  | .topic value => .ok value
  | _ => .error "not a topic"

def Blob.toSubscription : Blob → Except String Subscription
  | .subscription value => .ok value
  | _ => .error "not a subscription"

def Blob.toMessage : Blob → Except String PubsubMessage
  | .message value => .ok value
  | _ => .error "not a message"

def plainCodec : BrokerCodec Blob :=
  ⟨⟨.topic, Blob.toTopic, fun _ => rfl⟩, ⟨.subscription, Blob.toSubscription, fun _ => rfl⟩,
    ⟨.message, Blob.toMessage, fun _ => rfl⟩⟩

/-- Identifiers that grow. -/
def sampleUuid (n : Nat) : String := String.ofList (List.replicate n 'u')

theorem sampleUuid_injective : Function.Injective sampleUuid := by
  intro m n h
  have hlen := congrArg (fun s => s.toList.length) h
  simpa [sampleUuid] using hlen

/-- Identifiers of which the first are as long as those of the server. -/
def wireUuid (n : Nat) : String :=
  String.ofList (List.replicate n 'v' ++ List.replicate (36 - n) 'u')

theorem wireUuid_injective : Function.Injective wireUuid := by
  intro m n h
  have hcount := congrArg (fun s => s.toList.count 'v') h
  simpa [wireUuid, List.count_replicate] using hcount

def sampleTopic : String := "projects/p/topics/events"

def sampleSubscription (id : String) : String := "projects/p/subscriptions/" ++ id

def sampleCreateTopic : Event := .createTopic ⟨sampleTopic, false, "", false, false, []⟩

def sampleCreateSubscription (id : String) : Event :=
  .createSubscription ⟨sampleSubscription id, sampleTopic, false, 10, false, false, false, false, "",
    false, false, false, false, false, false, []⟩

/-- A publish of messages of one byte each. -/
def samplePublish (data : List UInt8) (publishedMs : Int) : Event :=
  .publish sampleTopic (data.map fun byte => ⟨[byte], [], "", none, ""⟩) ⟨0, 0⟩ publishedMs

def sampleClaim (id : String) (maxCount : Nat) (now : Int) : Event :=
  .claim (sampleSubscription id) maxCount maxDeliveryMessageBytes 10 now

/-- The broker after some operations on an empty backend. -/
def sampleRun (service : PubSubService Blob) (events : List Event) : Broker Blob :=
  events.foldl (Broker.step plainCodec sampleUuid) ⟨service, 0⟩

theorem sampleRun_reach (service : PubSubService Blob) (events : List Event) :
    Reach (Broker.step plainCodec sampleUuid) (fun _ _ => True)
      (fun broker => broker.service = service) (sampleRun service events) := by
  have hstart : Reach (Broker.step plainCodec sampleUuid) (fun _ _ => True)
      (fun broker => broker.service = service) ⟨service, 0⟩ := .start rfl
  exact hstart.run (Reach.along_free (fun _ _ => trivial) _ _)

end FirebaseEmu.Pubsub
