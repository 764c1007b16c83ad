import FirebaseEmu.Pubsub.Refines

namespace FirebaseEmu.Pubsub
open Lib Std

variable {β : Type} {codec : BrokerCodec β} {uuid : Nat → String}

namespace Tables
variable {tables tables' : Tables β}

/-- The rows of topics and subscriptions are encodings, and a subscription is filed under its
topic. -/
structure Matched (codec : BrokerCodec β) (tables : Tables β) : Prop where
  topics : ∀ (name : String) (blob : β), tables.topics[name]? = some blob →
    ∃ topic, blob = codec.topic.encode topic
  subscriptions : ∀ (name : String) (row : SubscriptionRow β),
    tables.subscriptions[name]? = some row →
      ∃ subscription, row = ⟨subscription.topic, codec.subscription.encode subscription⟩

/-- The tables that messages do not touch. -/
def resources (tables : Tables β) :
    ExtTreeMap String β × ExtTreeMap String (SubscriptionRow β) :=
  (tables.topics, tables.subscriptions)

theorem Matched.congr (h : tables.Matched codec) (he : tables'.resources = tables.resources) :
    tables'.Matched codec := by
  obtain ⟨ht, hs⟩ := Prod.mk.inj he
  constructor
  · rw [ht]
    exact h.topics
  · rw [hs]
    exact h.subscriptions

theorem Matched.insertTopic (h : tables.Matched codec) (topic : Topic) :
    Matched codec { tables with
      topics := tables.topics.insert topic.name (codec.topic.encode topic) } := by
  refine ⟨fun name blob hb => ?_, h.subscriptions⟩
  rw [ExtTreeMap.getElem?_insert] at hb
  split at hb
  · cases hb
    exact ⟨topic, rfl⟩
  · exact h.topics name blob hb

theorem Matched.insertSubscription (h : tables.Matched codec) (name : String)
    (subscription : Subscription) :
    Matched codec { tables with
      subscriptions := tables.subscriptions.insert name
        ⟨subscription.topic, codec.subscription.encode subscription⟩ } := by
  refine ⟨h.topics, fun other row hr => ?_⟩
  rw [ExtTreeMap.getElem?_insert] at hr
  split at hr
  · cases hr
    exact ⟨subscription, rfl⟩
  · exact h.subscriptions other row hr

theorem Matched.createTopic (h : tables.Matched codec) {topic : Topic}
    (ho : tables.createTopic codec topic = .ok tables') : tables'.Matched codec := by
  unfold Tables.createTopic at ho
  split at ho
  · cases ho
  · cases ho
    exact h.insertTopic topic

theorem Matched.createSubscription (h : tables.Matched codec) {subscription : Subscription}
    (ho : tables.createSubscription codec subscription = .ok tables') :
    tables'.Matched codec := by
  unfold Tables.createSubscription at ho
  split at ho
  · cases ho
  · split at ho
    · cases ho
    · cases ho
      exact h.insertSubscription subscription.name subscription

theorem Matched.detachAll {affected : List (String × SubscriptionRow β)}
    (h : tables.Matched codec) (ho : detachAll codec affected tables = .ok tables') :
    tables'.Matched codec := by
  induction affected generalizing tables with
  | nil =>
    cases ho
    exact h
  | cons entry affected ih =>
    obtain ⟨name, row⟩ := entry
    unfold Tables.detachAll detach at ho
    cases hd : codec.subscription.decode row.subscription with
    | error e =>
      rw [hd] at ho
      cases ho
    | ok subscription =>
      rw [hd] at ho
      exact ih (h.insertSubscription name { subscription with topic := deletedTopic }) ho

theorem Matched.deleteTopic (h : tables.Matched codec) {name : String}
    (ho : tables.deleteTopic codec name = .ok tables') : tables'.Matched codec := by
  unfold Tables.deleteTopic at ho
  split at ho
  · cases ho
  · have herased : Matched codec { tables with topics := tables.topics.erase name } := by
      refine ⟨fun other blob hb => ?_, h.subscriptions⟩
      rw [ExtTreeMap.getElem?_erase] at hb
      split at hb
      · cases hb
      · exact h.topics other blob hb
    exact herased.detachAll ho

theorem Matched.deleteSubscription (h : tables.Matched codec) {name : String}
    (ho : tables.deleteSubscription name = .ok tables') : tables'.Matched codec := by
  unfold Tables.deleteSubscription at ho
  split at ho
  · cases ho
  · cases ho
    refine ⟨h.topics, fun other row hr => ?_⟩
    have hr' : (tables.subscriptions.erase name)[other]? = some row := hr
    rw [ExtTreeMap.getElem?_erase] at hr'
    split at hr'
    · cases hr'
    · exact h.subscriptions other row hr'

end Tables

namespace PubSubService
variable {service : PubSubService β}

def Matched (codec : BrokerCodec β) (service : PubSubService β) : Prop :=
  ∀ tables, service.persistence = some tables → tables.Matched codec

theorem Matched.update (h : service.Matched codec) {sql : Tables β → Except Status (Tables β)}
    (hs : ∀ tables tables' : Tables β, tables.Matched codec → sql tables = .ok tables' →
      tables'.Matched codec) (memory : MemoryState → Except Status MemoryState) :
    (service.update sql memory).2.Matched codec := by
  unfold PubSubService.update
  split
  · rename_i tables hp
    split
    · rename_i tables' ho
      intro other hother
      cases hother
      exact hs tables tables' (h tables hp) ho
    · exact h
  · rename_i hp
    split
    · intro other hother
      exact absurd (hp.symm.trans hother) (by simp)
    · exact h

theorem Matched.createTopic (h : service.Matched codec) (topic : Topic) :
    (service.createTopicValue codec topic).2.Matched codec := by
  unfold createTopicValue
  split
  · exact h
  · exact h.update (fun _ _ ht ho => ht.createTopic ho) _

theorem Matched.createSubscription (h : service.Matched codec) (subscription : Subscription) :
    (service.createSubscriptionValue codec subscription).2.Matched codec := by
  unfold createSubscriptionValue
  split
  · exact h
  · exact h.update (fun _ _ ht ho => ht.createSubscription ho) _

end PubSubService

namespace Broker
variable {broker : Broker β}

theorem Empty.matched (h : broker.Empty) : broker.service.Matched codec := by
  intro tables hp
  rcases h with hs | hs
  · rw [hs] at hp
    cases hp
  · rw [hs] at hp
    cases hp
    exact ⟨fun name blob hb => by simp [Tables.empty] at hb,
      fun name row hr => by simp [Tables.empty] at hr⟩

end Broker
end FirebaseEmu.Pubsub
