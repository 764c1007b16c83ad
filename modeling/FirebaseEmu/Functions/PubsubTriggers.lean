import FirebaseEmu.Functions.Reach
import FirebaseEmu.Pubsub.Matched
import FirebaseEmu.Pubsub.Sample

namespace FirebaseEmu.Functions.Dispatch
open Lib
open Std (ExtTreeMap)
open Adapter (Function)
open Pubsub (BrokerCodec PubSubService Status Subscription Topic parseResource validId)

def topicName (project id : String) : String := s!"projects/{project}/topics/{id}"

def subscriptionName (project id : String) : String := s!"projects/{project}/subscriptions/{id}"

def pubsubTriggerTopic (f : Function) : Option String := do
  let event ← f.trigger.find? "eventTrigger"
  let type ← (event.find? "eventType").bind Json.asStr
  if type ≠ publishType ∨ scheduled f then none
  else ((event.find? "resource").bind Json.asStr).bind lastPart

def subscriptionId (f : Function) : String := "firebase-functions-" ++ f.name

section Registration
variable {β : Type} (codec : BrokerCodec β)

/-- A function with the subscription that its task pulls from. -/
structure Registration where
  worker : Worker
  function : Function
  subscription : String

end Registration

section Services
variable {β : Type} {codec : BrokerCodec β} {service : PubSubService β}

/-- The topic is there. -/
def HasTopic (service : PubSubService β) (name : String) : Prop :=
  match service.persistence with
  | some tables => tables.topics.contains name = true
  | none => service.memory.topics.contains name = true

/-- What a service becomes by the creation of a topic or of a subscription. -/
structure Becomes (codec : BrokerCodec β) (service after : PubSubService β)
    (topics : String → Prop) (topicOf : String → Option String) : Prop where
  matched : after.Matched codec
  topics : ∀ name, HasTopic after name ↔ topics name
  topicOf : (after.view codec).topicOf = topicOf
  board : (after.view codec).board = (service.view codec).board

theorem Becomes.trans {service' after : PubSubService β} {topics topics' : String → Prop}
    {topicOf topicOf' : String → Option String}
    (h : Becomes codec service service' topics topicOf)
    (h' : Becomes codec service' after topics' topicOf') :
    Becomes codec service after topics' topicOf' :=
  ⟨h'.matched, h'.topics, h'.topicOf, h'.board.trans h.board⟩

theorem Becomes.congr {after : PubSubService β} {topics topics' : String → Prop}
    {topicOf topicOf' : String → Option String} (h : Becomes codec service after topics topicOf)
    (ht : ∀ name, topics name ↔ topics' name) (hs : topicOf = topicOf') :
    Becomes codec service after topics' topicOf' :=
  ⟨h.matched, fun name => (h.topics name).trans (ht name), h.topicOf.trans hs, h.board⟩

theorem Becomes.refl (hm : service.Matched codec) :
    Becomes codec service service (HasTopic service) (service.view codec).topicOf :=
  ⟨hm, fun _ => Iff.rfl, rfl, rfl⟩

variable {project : String}

/-- A registration for each function with a Pub/Sub trigger. -/
def registrations (project : String) (pairs : List (Worker × Function)) : List Registration :=
  pairs.filterMap fun pair => (pubsubTriggerTopic pair.2).map fun _ =>
    ⟨pair.1, pair.2, subscriptionName project (subscriptionId pair.2)⟩

end Services

/-- The functions that processes announce have valid names. -/
theorem Linked.validName {η : Type} {cluster : Cluster η} {workers : List Worker}
    (h : Linked cluster workers) {worker : Worker} (hw : worker ∈ workers) {f : Function}
    (hf : f ∈ worker.functions) : Adapter.validName f.name = true := by
  obtain ⟨item, hm, ha⟩ := mem_mapM (h.announced worker hw) hf
  rw [(announced_eq ha).1]
  exact ((h.sound worker hw).items item hm).name

end FirebaseEmu.Functions.Dispatch
