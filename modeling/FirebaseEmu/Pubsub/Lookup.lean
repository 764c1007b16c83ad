import FirebaseEmu.Pubsub.Refines

namespace FirebaseEmu.Pubsub
open Lib Std

variable {β : Type} {codec : BrokerCodec β} {uuid : Nat → String}

namespace Tables
variable {tables tables' : Tables β}

/-- The subscriptions decode. -/
def Readable (codec : BrokerCodec β) (tables : Tables β) : Prop :=
  ∀ (name : String) (row : SubscriptionRow β), tables.subscriptions[name]? = some row →
    ∃ subscription, row.subscription = codec.subscription.encode subscription

theorem Readable.congr (h : tables.Readable codec)
    (he : tables'.subscriptions = tables.subscriptions) : tables'.Readable codec := by
  unfold Readable
  rw [he]
  exact h

theorem Readable.insert (h : tables.Readable codec) (name topic : String)
    (subscription : Subscription) : Readable codec { tables with
      subscriptions := tables.subscriptions.insert name
        ⟨topic, codec.subscription.encode subscription⟩ } := by
  intro other row hr
  rw [ExtTreeMap.getElem?_insert] at hr
  split at hr
  · obtain rfl := Option.some.inj hr
    exact ⟨subscription, rfl⟩
  · exact h other row hr

theorem Readable.detachAll {affected : List (String × SubscriptionRow β)}
    (h : tables.Readable codec) (hs : detachAll codec affected tables = .ok tables') :
    tables'.Readable codec := by
  induction affected generalizing tables with
  | nil =>
    obtain rfl := Except.ok.inj hs
    exact h
  | cons entry affected ih =>
    unfold Tables.detachAll detach at hs
    cases hd : codec.subscription.decode entry.2.subscription with
    | error e =>
      rw [hd] at hs
      cases hs
    | ok subscription =>
      rw [hd] at hs
      exact ih (h.insert entry.1 deletedTopic _) hs

theorem subscriptions_foldl {α : Type} {f : Tables β → α → Tables β}
    (hf : ∀ tables a, (f tables a).subscriptions = tables.subscriptions) (as : List α)
    (tables : Tables β) : (as.foldl f tables).subscriptions = tables.subscriptions := by
  induction as generalizing tables with
  | nil => rfl
  | cons a as ih => rw [List.foldl_cons, ih, hf]

theorem subscriptions_insertMessages {topic : String} {publishedMs expiry : Int}
    {subscriptions : List String} {messages : List PubsubMessage}
    (h : insertMessages codec topic publishedMs expiry subscriptions messages tables =
      .ok tables') : tables'.subscriptions = tables.subscriptions := by
  induction messages generalizing tables with
  | nil =>
    obtain rfl := Except.ok.inj h
    rfl
  | cons message messages ih =>
    unfold insertMessages at h
    split at h
    · cases h
    · split at h
      · cases h
      · exact (ih h).trans rfl

theorem subscriptions_publish {topic : String} {publishedMs expiry : Int}
    {messages : List PubsubMessage}
    (h : tables.publish codec topic messages publishedMs expiry = .ok tables') :
    tables'.subscriptions = tables.subscriptions := by
  unfold Tables.publish at h
  dsimp only at h
  split at h
  · cases h
  · split at h
    · obtain rfl := Except.ok.inj h
      rfl
    · split at h
      · cases h
      · exact (subscriptions_insertMessages h).trans rfl

theorem subscriptions_handed {κ ε : Type} {size : κ → Int}
    {message : κ → Except ε PubsubMessage} {key : κ → DeliveryKey} {deadline : Int}
    {uuids : Nat → String} {n : Nat} {keys : List κ} {given : List BrokerMessage}
    (h : Handed size message (fun candidate => leaseDelivery deadline (key candidate)) uuids n
      keys given tables tables') : tables'.subscriptions = tables.subscriptions := by
  induction h with
  | stop => rfl
  | skip _ ih => exact ih
  | take _ _ ih => exact ih

theorem subscriptions_claim (tables : Tables β) (subscription : String) (maxCount : Nat)
    (maxBytes deadline now : Int) (uuids : Nat → String) :
    (tables.claim codec subscription maxCount maxBytes deadline now uuids).2.subscriptions =
      tables.subscriptions := by
  unfold Tables.claim
  split
  · rfl
  · rename_i hc
    obtain ⟨given, -, -, hh⟩ := claimLoop_ok hc
    exact (subscriptions_handed hh).trans rfl

theorem subscriptions_acknowledge (tables : Tables β) (subscription : String)
    (ackIds : List String) :
    (tables.acknowledge subscription ackIds).subscriptions = tables.subscriptions :=
  subscriptions_foldl (f := fun tables ackId => tables.deleteDeliveries (names subscription [ackId]))
    (fun _ _ => rfl) ackIds tables

theorem subscriptions_modifyAck (tables : Tables β) (subscription : String)
    (ackIds : List String) (seconds deadline : Int) :
    (tables.modifyAck subscription ackIds seconds deadline).subscriptions =
      tables.subscriptions :=
  subscriptions_foldl (f := modifyOne subscription seconds deadline) (fun _ _ => rfl) ackIds tables

end Tables

namespace PubSubService
variable {service : PubSubService β}

def Readable (codec : BrokerCodec β) (service : PubSubService β) : Prop :=
  ∀ tables, service.persistence = some tables → tables.Readable codec

theorem Readable.setTables {tables : Tables β} (h : tables.Readable codec) :
    (service.setTables tables).Readable codec := by
  intro other ho
  obtain rfl := Option.some.inj ho
  exact h

theorem Readable.update (h : service.Readable codec) {sql : Tables β → Except Status (Tables β)}
    (hs : ∀ tables tables' : Tables β, tables.Readable codec → sql tables = .ok tables' →
      tables'.Readable codec) (memory : MemoryState → Except Status MemoryState) :
    (service.update sql memory).2.Readable codec := by
  unfold PubSubService.update
  split
  · rename_i tables hp
    split
    · rename_i tables' ho
      exact .setTables (hs tables tables' (h tables hp) ho)
    · exact h
  · split
    · exact h
    · exact h

theorem Readable.createSubscription (h : service.Readable codec) (subscription : Subscription) :
    (service.createSubscriptionValue codec subscription).2.Readable codec := by
  unfold createSubscriptionValue
  split
  · exact h
  · refine h.update (fun tables tables' ht ho => ?_) _
    unfold Tables.createSubscription at ho
    split at ho
    · cases ho
    · split at ho
      · cases ho
      · obtain rfl := Except.ok.inj ho
        exact ht.insert _ _ _

theorem Readable.deleteTopic (h : service.Readable codec) (name : String) :
    (service.deleteTopicValue codec name).2.Readable codec := by
  unfold deleteTopicValue
  split
  · exact h
  · refine h.update (fun tables tables' ht ho => ?_) _
    unfold Tables.deleteTopic at ho
    split at ho
    · cases ho
    · have herased : Tables.Readable codec { tables with topics := tables.topics.erase name } := ht
      exact herased.detachAll ho

theorem Readable.deleteSubscription (h : service.Readable codec) (name : String) :
    (service.deleteSubscriptionValue name).2.Readable codec := by
  unfold deleteSubscriptionValue
  split
  · exact h
  · refine h.update (fun tables tables' ht ho other row hr => ?_) _
    unfold Tables.deleteSubscription at ho
    split at ho
    · cases ho
    · obtain rfl := Except.ok.inj ho
      have hr' : (tables.subscriptions.erase name)[other]? = some row := hr
      rw [ExtTreeMap.getElem?_erase] at hr'
      split at hr'
      · cases hr'
      · exact ht other row hr'

theorem Readable.createTopic (h : service.Readable codec) (topic : Topic) :
    (service.createTopicValue codec topic).2.Readable codec := by
  unfold createTopicValue
  split
  · exact h
  · refine h.update (fun tables tables' ht ho => ?_) _
    unfold Tables.createTopic at ho
    split at ho
    · cases ho
    · obtain rfl := Except.ok.inj ho
      exact ht

theorem Readable.publish (h : service.Readable codec) (topic : String)
    (messages : List PubsubMessage) (published : Firestore.Timestamp) (publishedMs : Int)
    (uuids : Nat → String) :
    (service.publishValues codec topic messages published publishedMs uuids).2.Readable codec := by
  unfold publishValues
  split
  · exact h
  · dsimp only
    split
    · rename_i tables hp
      split
      · exact h
      · rename_i ho
        exact .setTables ((h tables hp).congr (Tables.subscriptions_publish ho))
    · exact h

theorem Readable.claim (h : service.Readable codec) (subscription : String) (maxCount : Nat)
    (maxBytes deadlineSeconds now : Int) (uuids : Nat → String) :
    (service.claimLeases codec subscription maxCount maxBytes deadlineSeconds now
      uuids).2.Readable codec := by
  unfold claimLeases
  dsimp only
  split
  · rename_i tables hp
    exact .setTables ((h tables hp).congr (Tables.subscriptions_claim ..))
  · exact h

/-- The lookup of a subscription fails only when there is none. -/
theorem Readable.lookup (h : service.Readable codec) {name : String} {parsed : String × String}
    (hn : parseResource name "subscriptions" = .ok parsed) {status : Status}
    (hs : service.getSubscriptionValue codec name = .error status) :
    (service.view codec).topicOf name = none := by
  unfold getSubscriptionValue at hs
  rw [hn] at hs
  unfold PubSubService.view
  dsimp only [bind, Except.bind] at hs
  cases hp : service.persistence with
  | some tables =>
    rw [hp] at hs
    dsimp only at hs
    cases hr : tables.subscriptions[name]? with
    | none => simp [Tables.view, hr]
    | some row =>
      obtain ⟨subscription, he⟩ := h tables hp name row hr
      rw [hr] at hs
      dsimp only at hs
      rw [he, codec.subscription.decode_encode] at hs
      cases hs
  | none =>
    rw [hp] at hs
    dsimp only at hs
    cases hm : service.memory.subscriptions[name]? with
    | none => simp [MemoryState.view, hm]
    | some subscription =>
      rw [hm] at hs
      cases hs

theorem named_of_lookup {name : String} {subscription : Subscription}
    (h : service.getSubscriptionValue codec name = .ok subscription) :
    ∃ parsed, parseResource name "subscriptions" = .ok parsed := by
  obtain ⟨parsed, hp, -⟩ := exceptBind_eq_ok.mp h
  exact ⟨parsed, hp⟩

end PubSubService

namespace Broker
variable {broker : Broker β}

theorem readable_step (h : broker.service.Readable codec) (event : Event) :
    (broker.step codec uuid event).service.Readable codec := by
  unfold Broker.step
  dsimp only
  unfold Broker.serve
  cases event with
  | createTopic topic => exact h.createTopic topic
  | deleteTopic name => exact h.deleteTopic name
  | createSubscription subscription => exact h.createSubscription subscription
  | deleteSubscription name => exact h.deleteSubscription name
  | publish topic messages published publishedMs =>
    exact h.publish topic messages published publishedMs _
  | claim subscription maxCount maxBytes deadlineSeconds now =>
    exact h.claim subscription maxCount maxBytes deadlineSeconds now _
  | acknowledge subscription ackIds =>
    dsimp only
    unfold PubSubService.acknowledgeLeases
    split
    · exact h
    · rw [Prod.map_snd, id_eq]
      refine h.update (fun tables tables' ht ho => ?_) _
      obtain rfl := Except.ok.inj ho
      exact ht.congr (Tables.subscriptions_acknowledge ..)
  | modifyAck subscription ackIds seconds now =>
    dsimp only
    unfold PubSubService.modifyLeases
    split
    · exact h
    · split
      · exact h
      · dsimp only
        rw [Prod.map_snd, id_eq]
        refine h.update (fun tables tables' ht ho => ?_) _
        obtain rfl := Except.ok.inj ho
        exact ht.congr (Tables.subscriptions_modifyAck ..)

theorem Empty.readable (h : broker.Empty) : broker.service.Readable codec := by
  intro tables hp name row hr
  rcases h with hs | hs
  · rw [hs] at hp
    cases hp
  · rw [hs] at hp
    obtain rfl := Option.some.inj hp
    simp [Tables.empty] at hr

end Broker

namespace BrokerView
variable {uuids : Nat → String} {view view' : BrokerView} {event : Event} {reply : Reply}

/-- Only subscriptions that there are have deliveries. -/
def Attached (view : BrokerView) : Prop :=
  ∀ (subscription id : String) (held : Held String PubsubMessage),
    view.board subscription id = some held → view.topicOf subscription ≠ none

theorem Attached.sweep (h : view.Attached) {now : Int} {subscription id : String}
    {held : Held String PubsubMessage} (hb : view.board.sweep now subscription id = some held) :
    view.topicOf subscription ≠ none :=
  h subscription id held (Board.sweep_some.mp hb).1

theorem Attached.onReader (h : view.Attached) {reader : String}
    {f : Held String PubsubMessage → Option (Held String PubsubMessage)} :
    (view.setBoard (view.board.onReader reader f)).Attached := by
  intro subscription id held hb
  rw [setBoard_board] at hb
  unfold Board.onReader at hb
  split at hb
  · obtain ⟨old, ho, -⟩ := Option.bind_eq_some_iff.mp hb
    exact h subscription id old ho
  · exact h subscription id held hb

theorem Attached.step (h : view.Attached) (hs : Step uuids view event reply view') :
    view'.Attached := by
  cases hs with
  | refused => exact h
  | cleaned topic messages published publishedMs status =>
    exact fun subscription id held hb => h.sweep hb
  | createTopic => exact h
  | deleteTopic name =>
    intro subscription id held hb hn
    exact h subscription id held hb (Option.map_eq_none_iff.mp hn)
  | createSubscription subscription hfree =>
    intro other id held hb hn
    dsimp only [subscribe] at hn
    split at hn
    · cases hn
    · exact h other id held hb hn
  | deleteSubscription name =>
    intro subscription id held hb hn
    dsimp only [unsubscribe, Board.drop, Board.onReader] at hb hn
    split at hb
    · cases ho : view.board subscription id <;> rw [ho] at hb <;> cases hb
    · rename_i hne
      rw [if_neg hne] at hn
      exact h subscription id held hb hn
  | @publish topic messages assigned published publishedMs ha =>
    intro subscription id held hb
    cases hw : view.attached topic subscription with
    | true => simp [BrokerView.publish, beq_iff_eq.mp hw]
    | false => exact h.sweep ((Board.posts_unheard hw).symm.trans hb)
  | @claim name maxCount maxBytes deadlineSeconds now given hlen hg =>
    intro subscription id held hb
    have hc : (view.claim name deadlineSeconds now given).board.contents subscription id =
        some held.content := by
      rw [Board.contents, hb, Option.map_some]
    unfold BrokerView.claim claimable Board.free at hc
    rw [Board.contents_grants, Board.contents_onLeases] at hc
    obtain ⟨old, ho, -⟩ := Option.map_eq_some_iff.mp hc
    exact h.sweep ho
  | acknowledge subscription ackIds => exact h.onReader
  | modifyAck subscription ackIds seconds now =>
    unfold BrokerView.modifyAck
    split
    · exact h.onReader
    · exact h.onReader

end BrokerView

end FirebaseEmu.Pubsub
