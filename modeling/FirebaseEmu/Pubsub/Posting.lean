import FirebaseEmu.Pubsub.FlowControl

namespace FirebaseEmu.Pubsub
open Lib Std
open Firestore (Timestamp)

/-- A message as a store keeps it. The tables keep the time of the publish as well. -/
structure StoredMessage where
  topic : Option String
  message : Except String PubsubMessage
  size : Option Int
  publishedAt : Option Int
  expiry : Option Int

def StoredMessage.lasts (now : Int) (stored : StoredMessage) : Bool :=
  stored.expiry.all fun expiry => decide (now < expiry)

/-- What a publish stores of a message. -/
def StoredMessage.stamp (topic : String) (publishedAt : Option Int) (expiry : Int)
    (message : PubsubMessage) : StoredMessage :=
  ⟨some topic, .ok message, some (message.encodedLen : Int), publishedAt, some expiry⟩

/-- Everything that a backend stores: the topics, the subscriptions with the topics they are
attached to, the messages, and the deliveries by subscription and message. -/
structure Contents where
  topics : String → Option (Except String Topic)
  subscriptions : String → Option (String × Except String Subscription)
  messages : String → Option StoredMessage
  deliveries : String → String → Option DeliveryRow

namespace Contents
variable {contents : Contents} {now : Int}

/-- The message has not expired, if there is one. -/
def lasts (now : Int) (contents : Contents) (id : String) : Bool :=
  (contents.messages id).all (StoredMessage.lasts now)

/-- What has not expired, with the deliveries of it. -/
def unexpired (now : Int) (contents : Contents) : Contents where
  topics := contents.topics
  subscriptions := contents.subscriptions
  messages id := if contents.lasts now id = true then contents.messages id else none
  deliveries subscription id :=
    if contents.lasts now id = true then contents.deliveries subscription id else none

def attached (topic : String) (contents : Contents) (subscription : String) : Prop :=
  (contents.subscriptions subscription).map Prod.fst = some topic

/-- A new message, with a delivery for each of the subscriptions that wait for it. -/
def post (waits : String → Bool) (id : String) (stored : StoredMessage) (contents : Contents) :
    Contents where
  topics := contents.topics
  subscriptions := contents.subscriptions
  messages id' := if id' = id then some stored else contents.messages id'
  deliveries subscription id' :=
    if id' = id ∧ waits subscription = true then some .available
    else contents.deliveries subscription id'

/-- The messages posted one after the other. -/
def posts (waits : String → Bool) (stamp : PubsubMessage → StoredMessage)
    (messages : List PubsubMessage) (contents : Contents) : Contents :=
  messages.foldl (fun contents message => contents.post waits message.messageId (stamp message))
    contents

theorem lasts_unexpired (now : Int) (contents : Contents) (id : String) :
    (contents.unexpired now).lasts now id = true := by
  have hall : (if contents.lasts now id = true then contents.messages id else none).all
      (StoredMessage.lasts now) = true := by
    split
    · rename_i hl
      exact hl
    · rfl
  exact hall

theorem unexpired_unexpired (now : Int) (contents : Contents) :
    (contents.unexpired now).unexpired now = contents.unexpired now := by
  rw [unexpired, Contents.mk.injEq]
  refine ⟨rfl, rfl, ?_, ?_⟩
  · funext id
    exact if_pos (lasts_unexpired now contents id)
  · funext subscription id
    exact if_pos (lasts_unexpired now contents id)

theorem unexpired_none {id : String} (hm : contents.messages id = none)
    (hd : ∀ subscription, contents.deliveries subscription id = none) :
    (contents.unexpired now).messages id = none ∧
      ∀ subscription, (contents.unexpired now).deliveries subscription id = none := by
  unfold unexpired
  simp only [hm, hd, ite_self, implies_true, and_self]

section
variable {waits : String → Bool} {stamp : PubsubMessage → StoredMessage}
variable {messages : List PubsubMessage}

theorem posts_topics : (contents.posts waits stamp messages).topics = contents.topics := by
  unfold posts
  induction messages generalizing contents with
  | nil => rfl
  | cons message messages ih => exact ih

theorem posts_subscriptions :
    (contents.posts waits stamp messages).subscriptions = contents.subscriptions := by
  unfold posts
  induction messages generalizing contents with
  | nil => rfl
  | cons message messages ih => exact ih

theorem posts_other {id : String} (hid : id ∉ messages.map PubsubMessage.messageId) :
    (contents.posts waits stamp messages).messages id = contents.messages id ∧
      ∀ subscription, (contents.posts waits stamp messages).deliveries subscription id =
        contents.deliveries subscription id := by
  unfold posts
  induction messages generalizing contents with
  | nil => exact ⟨rfl, fun _ => rfl⟩
  | cons message messages ih =>
    rw [List.map_cons, List.mem_cons, not_or] at hid
    obtain ⟨hm, hd⟩ := @ih (contents.post waits message.messageId (stamp message)) hid.2
    refine ⟨hm.trans (if_neg hid.1), fun subscription => (hd subscription).trans ?_⟩
    exact if_neg fun h => hid.1 h.1

/-- Messages under different identifiers do not hide one another. -/
theorem posts_posted (hn : (messages.map PubsubMessage.messageId).Nodup) {message : PubsubMessage}
    (hm : message ∈ messages) :
    (contents.posts waits stamp messages).messages message.messageId = some (stamp message) ∧
      ∀ subscription, (contents.posts waits stamp messages).deliveries subscription
        message.messageId = if waits subscription = true then some .available
          else contents.deliveries subscription message.messageId := by
  induction messages generalizing contents with
  | nil => cases hm
  | cons first messages ih =>
    rw [List.map_cons, List.nodup_cons] at hn
    rcases List.mem_cons.mp hm with rfl | hm
    · obtain ⟨hsame, hd⟩ := @posts_other (contents.post waits message.messageId (stamp message))
        waits stamp messages message.messageId hn.1
      refine ⟨hsame.trans (if_pos rfl), fun subscription => (hd subscription).trans ?_⟩
      unfold post
      simp only [true_and]
    · have hne : message.messageId ≠ first.messageId := by
        intro he
        exact hn.1 (he ▸ List.mem_map_of_mem hm)
      obtain ⟨hposted, hd⟩ := @ih (contents.post waits first.messageId (stamp first)) hn.2 hm
      refine ⟨hposted, fun subscription => (hd subscription).trans ?_⟩
      unfold post
      simp only [hne, false_and, if_false]

end

end Contents

/-- What a publish that is done leaves: each of its messages, stored with a delivery for each
subscription attached to the topic, or nowhere if there is none; and the rest, as it was. -/
structure Posted (topic : String) (stamp : PubsubMessage → StoredMessage)
    (assigned : List PubsubMessage) (before after : Contents) : Prop where
  topics : after.topics = before.topics
  subscriptions : after.subscriptions = before.subscriptions
  stored : ∀ message ∈ assigned, (∃ subscription, before.attached topic subscription) →
    after.messages message.messageId = some (stamp message)
  unheard : ∀ message ∈ assigned, (¬ ∃ subscription, before.attached topic subscription) →
    after.messages message.messageId = none
  delivered : ∀ message ∈ assigned, ∀ subscription, before.attached topic subscription →
    after.deliveries subscription message.messageId = some .available
  undelivered : ∀ message ∈ assigned, ∀ subscription, ¬ before.attached topic subscription →
    after.deliveries subscription message.messageId = none
  others : ∀ id ∉ assigned.map PubsubMessage.messageId,
    after.messages id = before.messages id ∧
      ∀ subscription, after.deliveries subscription id = before.deliveries subscription id

/-- The messages are posted to the subscriptions attached to the topic, if there are any. -/
def Contents.Broadcast (topic : String) (stamp : PubsubMessage → StoredMessage)
    (messages : List PubsubMessage) (before after : Contents) : Prop :=
  ∃ subscriptions : List String,
    (∀ subscription, before.attached topic subscription ↔ subscription ∈ subscriptions) ∧
    after = if subscriptions = [] then before
      else before.posts (fun subscription => subscriptions.contains subscription) stamp messages

/-- New messages under different identifiers do not touch what is there. -/
theorem Contents.Broadcast.posted {topic : String} {stamp : PubsubMessage → StoredMessage}
    {assigned : List PubsubMessage} {before after : Contents}
    (h : before.Broadcast topic stamp assigned after)
    (hn : (assigned.map PubsubMessage.messageId).Nodup)
    (hfresh : ∀ message ∈ assigned, before.messages message.messageId = none ∧
      ∀ subscription, before.deliveries subscription message.messageId = none) :
    Posted topic stamp assigned before after := by
  obtain ⟨subscriptions, hs, ha⟩ := h
  by_cases hnil : subscriptions = []
  · rw [if_pos hnil] at ha
    subst ha hnil
    have hnobody : ∀ subscription, ¬ after.attached topic subscription := fun subscription h =>
      List.not_mem_nil ((hs subscription).mp h)
    exact {
      topics := rfl
      subscriptions := rfl
      stored := fun message _ h => absurd h.choose_spec (hnobody _)
      unheard := fun message hm _ => (hfresh message hm).1
      delivered := fun message _ subscription h => absurd h (hnobody subscription)
      undelivered := fun message hm subscription _ => (hfresh message hm).2 subscription
      others := fun id _ => ⟨rfl, fun _ => rfl⟩ }
  · rw [if_neg hnil] at ha
    subst ha
    exact {
      topics := Contents.posts_topics
      subscriptions := Contents.posts_subscriptions
      stored := fun message hm _ => (Contents.posts_posted hn hm).1
      unheard := fun message _ h => by
        obtain ⟨first, hf⟩ := List.exists_mem_of_ne_nil _ hnil
        exact absurd ⟨first, (hs first).mpr hf⟩ h
      delivered := fun message hm subscription h => by
        rw [(Contents.posts_posted hn hm).2, if_pos]
        exact List.contains_iff_mem.mpr ((hs subscription).mp h)
      undelivered := fun message hm subscription h => by
        rw [(Contents.posts_posted hn hm).2, if_neg, (hfresh message hm).2]
        exact fun hc => h ((hs subscription).mpr (List.contains_iff_mem.mp hc))
      others := fun id hid => Contents.posts_other hid }

namespace MemoryState
variable {uuid : Nat → String} {drawn : Nat} {state : MemoryState}

def contents (state : MemoryState) : Contents where
  topics name := state.topics[name]?.map .ok
  subscriptions name := state.subscriptions[name]?.map fun subscription =>
    (subscription.topic, .ok subscription)
  messages id := state.messages[id]?.map fun message =>
    ⟨state.messageTopics[id]?, .ok message, state.messageSizes[id]?, none, state.messageExpiry[id]?⟩
  deliveries subscription id := state.deliveries[(⟨subscription, id⟩ : DeliveryKey)]?.map
    fun delivery => ⟨delivery.state, delivery.ackId, delivery.deadlineMs, delivery.attempts⟩

theorem kept_dropMessages (ids : List String) (state : MemoryState) :
    (∀ id : String, id ∉ ids → (ids.foldl dropMessage state).messageTopics[id]? =
        state.messageTopics[id]?) ∧
      (∀ id : String, id ∉ ids → (ids.foldl dropMessage state).messageSizes[id]? =
        state.messageSizes[id]?) ∧
      (ids.foldl dropMessage state).topics = state.topics := by
  induction ids generalizing state with
  | nil => exact ⟨fun _ _ => rfl, fun _ _ => rfl, rfl⟩
  | cons first ids ih =>
    obtain ⟨ht, hs, htopics⟩ := ih (state.dropMessage first)
    refine ⟨fun id hid => ?_, fun id hid => ?_, htopics⟩
    · rw [List.mem_cons, not_or] at hid
      rw [List.foldl_cons, ht id hid.2, dropMessage, ExtTreeMap.getElem?_erase]
      simp [Ne.symm hid.1]
    · rw [List.mem_cons, not_or] at hid
      rw [List.foldl_cons, hs id hid.2, dropMessage, ExtTreeMap.getElem?_erase]
      simp [Ne.symm hid.1]

theorem Linked.lasts_iff (h : state.Linked uuid drawn) {now : Int} {id : String} :
    state.contents.lasts now id = true ↔
      ¬ ∃ expiry, state.messageExpiry[id]? = some expiry ∧ expiry ≤ now := by
  unfold Contents.lasts contents
  dsimp only
  cases hm : state.messages[id]? with
  | none =>
    have hnone : state.messageExpiry[id]? = none :=
      ExtTreeMap.getElem?_eq_none fun hk => by
        obtain ⟨message, hmessage⟩ := mem_iff_exists.mp ((h.expiry id).mp hk)
        rw [hm] at hmessage
        cases hmessage
    simp [hnone]
  | some message => cases he : state.messageExpiry[id]? <;> simp [StoredMessage.lasts]

/-- The cleanup drops what has expired, and nothing else. -/
theorem Linked.contents_cleanup (h : state.Linked uuid drawn) (now : Int) :
    (state.cleanupMemory now).contents = state.contents.unexpired now := by
  obtain ⟨hm, he, hd, hs⟩ := getElem?_dropMessages
    ((state.messageExpiry.toList.filter (·.2 ≤ now)).map Prod.fst) state
  obtain ⟨ht, hsizes, htopics⟩ := kept_dropMessages
    ((state.messageExpiry.toList.filter (·.2 ≤ now)).map Prod.fst) state
  simp only [mem_expired] at hm he hd ht hsizes
  have hlasts := fun id => @Linked.lasts_iff uuid drawn state h now id
  unfold cleanupMemory
  generalize List.foldl dropMessage state _ = cleaned at *
  have hmessages : ∀ id, cleaned.contents.messages id =
      if state.contents.lasts now id = true then state.contents.messages id else none := by
    intro id
    by_cases hgone : ∃ expiry, state.messageExpiry[id]? = some expiry ∧ expiry ≤ now
    · rw [if_neg fun hl => (hlasts id).mp hl hgone]
      unfold contents
      dsimp only
      rw [hm, if_pos hgone]
      rfl
    · rw [if_pos ((hlasts id).mpr hgone)]
      unfold contents
      dsimp only
      rw [hm, if_neg hgone, he, if_neg hgone, ht id hgone, hsizes id hgone]
  have hdeliveries : ∀ subscription id, cleaned.contents.deliveries subscription id =
      if state.contents.lasts now id = true then state.contents.deliveries subscription id
      else none := by
    intro subscription id
    by_cases hgone : ∃ expiry, state.messageExpiry[id]? = some expiry ∧ expiry ≤ now
    · rw [if_neg fun hl => (hlasts id).mp hl hgone]
      unfold contents
      dsimp only
      rw [hd, if_pos hgone]
      rfl
    · rw [if_pos ((hlasts id).mpr hgone)]
      unfold contents
      dsimp only
      rw [hd, if_neg hgone]
  rw [Contents.unexpired, ← funext hmessages, ← funext fun s => funext (hdeliveries s)]
  unfold contents
  rw [hs, htopics]

theorem contents_insertMessage (topic : String) (expiry : Int) (subscriptions : List String)
    (state : MemoryState) (message : PubsubMessage) :
    (insertMessage topic expiry subscriptions state message).contents =
      state.contents.post (fun subscription => subscriptions.contains subscription)
        message.messageId (.stamp topic none expiry message) := by
  unfold contents Contents.post
  rw [Contents.mk.injEq]
  refine ⟨rfl, rfl, ?_, ?_⟩
  · funext id
    simp only [insertMessage, getElem?_insert_if]
    by_cases he : message.messageId = id
    · simp [he, StoredMessage.stamp]
    · simp [he, Ne.symm he]
  · funext subscription id
    rw [getElem?_insertMessage]
    simp only [List.contains_iff_mem]
    split <;> rfl

theorem contents_insertMessages (topic : String) (expiry : Int) (subscriptions : List String)
    (messages : List PubsubMessage) (state : MemoryState) :
    (messages.foldl (insertMessage topic expiry subscriptions) state).contents =
      state.contents.posts (fun subscription => subscriptions.contains subscription)
        (.stamp topic none expiry) messages := by
  unfold Contents.posts
  induction messages generalizing state with
  | nil => rfl
  | cons message messages ih => rw [List.foldl_cons, ih, contents_insertMessage, List.foldl_cons]

theorem Linked.attached (h : state.Linked uuid drawn) {topic subscription : String} :
    state.contents.attached topic subscription ↔ subscription ∈ state.attachedTo topic := by
  rw [h.mem_attachedTo]
  simp only [Contents.attached, contents, Option.map_map, Option.map_eq_some_iff,
    Function.comp_apply]

/-- A publish that is refused under the lock has done no more than the cleanup. -/
theorem Sound.contents_publish (h : state.Sound uuid drawn) {topic : String}
    {messages : List PubsubMessage} {publishedMs expiry : Int} {outcome : Except Status Unit}
    {state' : MemoryState}
    (hp : state.publish topic messages publishedMs expiry = (outcome, state')) :
    (∃ status, outcome = .error status ∧
      state'.contents = state.contents.unexpired publishedMs) ∨
    outcome = .ok () ∧ (state.contents.unexpired publishedMs).Broadcast topic
      (.stamp topic none expiry) messages state'.contents := by
  have hclean := h.cleanupMemory publishedMs
  rw [← h.linked.contents_cleanup publishedMs]
  unfold MemoryState.publish at hp
  generalize state.cleanupMemory publishedMs = cleaned at *
  dsimp only at hp
  split at hp
  · obtain ⟨rfl, rfl⟩ := Prod.mk.inj hp
    exact .inl ⟨_, rfl, rfl⟩
  · split at hp
    · rename_i hnobody
      obtain ⟨rfl, rfl⟩ := Prod.mk.inj hp
      exact .inr ⟨rfl, _, fun _ => hclean.linked.attached,
        (if_pos (List.isEmpty_iff.mp hnobody)).symm⟩
    · rename_i hsome
      split at hp
      · obtain ⟨rfl, rfl⟩ := Prod.mk.inj hp
        exact .inl ⟨_, rfl, rfl⟩
      · obtain ⟨rfl, rfl⟩ := Prod.mk.inj hp
        refine .inr ⟨rfl, _, fun _ => hclean.linked.attached, ?_⟩
        rw [if_neg fun he => hsome (List.isEmpty_iff.mpr he), contents_insertMessages]

theorem Linked.contents_fresh (h : state.Linked uuid drawn) {id : String}
    (hid : ∀ n < drawn, uuid n ≠ id) : state.contents.messages id = none ∧
      ∀ subscription, state.contents.deliveries subscription id = none := by
  have hm : id ∉ state.messages := by
    intro hm
    obtain ⟨n, hn, he⟩ := h.drawnMessages id hm
    exact hid n hn he
  unfold contents
  dsimp only
  refine ⟨?_, fun subscription => ?_⟩
  · rw [ExtTreeMap.getElem?_eq_none hm, Option.map_none]
  · rw [ExtTreeMap.getElem?_eq_none fun hk => hm (h.stored _ hk), Option.map_none]

end MemoryState

variable {β : Type} {codec : BrokerCodec β} {uuid : Nat → String}

namespace Tables
variable {tables tables' : Tables β}

def contents (codec : BrokerCodec β) (tables : Tables β) : Contents where
  topics name := tables.topics[name]?.map codec.topic.decode
  subscriptions name := tables.subscriptions[name]?.map fun row =>
    (row.topicName, codec.subscription.decode row.subscription)
  messages id := tables.messages[id]?.map fun row => ⟨some row.topicName,
    codec.message.decode row.message, some row.sizeBytes, some row.publishedAt, some row.expireAt⟩
  deliveries subscription id := tables.deliveries[(⟨subscription, id⟩ : DeliveryKey)]?

theorem lasts_eq (tables : Tables β) (now : Int) (id : String) :
    (tables.contents codec).lasts now id =
      !(tables.messages[id]?.any fun row => decide (row.expireAt ≤ now)) := by
  unfold Contents.lasts contents
  dsimp only
  cases tables.messages[id]? with
  | none => rfl
  | some row =>
    have hdecide : decide (now < row.expireAt) = !decide (row.expireAt ≤ now) := by
      by_cases hle : row.expireAt ≤ now
      · simp [hle, Int.not_lt.mpr hle]
      · simp [hle, Int.not_le.mp hle]
    exact hdecide

theorem contents_cleanup (tables : Tables β) (now : Int) :
    (tables.cleanupSql now).contents codec = (tables.contents codec).unexpired now := by
  rw [Contents.unexpired, contents, Contents.mk.injEq]
  refine ⟨rfl, rfl, ?_, ?_⟩
  · funext id
    rw [lasts_eq]
    unfold cleanupSql deleteMessages contents
    dsimp only
    rw [ExtTreeMap.getElem?_filter']
    cases tables.messages[id]? with
    | none => rfl
    | some row => by_cases hle : row.expireAt ≤ now <;> simp [Option.filter_some, hle]
  · funext subscription id
    rw [lasts_eq]
    exact getElem?_filterKeys _ _ _

theorem insertDeliveries_eq {id : String} {subscriptions : List String}
    {deliveries deliveries' : ExtTreeMap DeliveryKey DeliveryRow}
    (h : insertDeliveries id subscriptions deliveries = .ok deliveries') (key : DeliveryKey) :
    deliveries'[key]? = if key.message = id ∧ key.subscription ∈ subscriptions
      then some DeliveryRow.available else deliveries[key]? := by
  induction subscriptions generalizing deliveries with
  | nil =>
    obtain rfl := Except.ok.inj h
    simp
  | cons first subscriptions ih =>
    unfold insertDeliveries at h
    split at h
    · cases h
    · rw [ih h, ExtTreeMap.getElem?_insert]
      simp only [LawfulEqOrd.compare_eq_iff_eq]
      obtain ⟨s, k⟩ := key
      by_cases hk : k = id
      · by_cases hs : s = first
        · simp [hk, hs]
        · simp [hk, hs, Ne.symm hs]
      · simp [hk, Ne.symm hk]

theorem contents_insertMessages {topic : String} {publishedMs expiry : Int}
    {subscriptions : List String} {messages : List PubsubMessage}
    (h : insertMessages codec topic publishedMs expiry subscriptions messages tables =
      .ok tables') : tables'.contents codec =
        (tables.contents codec).posts (fun subscription => subscriptions.contains subscription)
          (.stamp topic (some publishedMs) expiry) messages := by
  unfold Contents.posts
  induction messages generalizing tables with
  | nil =>
    obtain rfl := Except.ok.inj h
    rfl
  | cons message messages ih =>
    unfold insertMessages at h
    split at h
    · cases h
    · split at h
      · cases h
      · rename_i deliveries hi
        rw [ih h, List.foldl_cons]
        congr 1
        rw [contents, Contents.post, Contents.mk.injEq]
        refine ⟨rfl, rfl, ?_, ?_⟩
        · funext id
          unfold contents
          dsimp only
          rw [ExtTreeMap.getElem?_insert]
          simp only [LawfulEqOrd.compare_eq_iff_eq]
          by_cases he : message.messageId = id
          · simp [he, StoredMessage.stamp, codec.message.decode_encode]
          · simp [he, Ne.symm he]
        · funext subscription id
          unfold contents
          dsimp only
          rw [insertDeliveries_eq hi]
          simp only [List.contains_iff_mem]

theorem attached {topic subscription : String} :
    (tables.contents codec).attached topic subscription ↔
      subscription ∈ tables.attachedTo topic := by
  rw [mem_attachedTo codec]
  simp only [Contents.attached, contents, view, Option.map_map, Function.comp_def]

/-- The transaction of a publish that is not refused. -/
theorem contents_publish {topic : String} {messages : List PubsubMessage}
    {publishedMs expiry : Int}
    (hp : tables.publish codec topic messages publishedMs expiry = .ok tables') :
    ((tables.contents codec).unexpired publishedMs).Broadcast topic
      (.stamp topic (some publishedMs) expiry) messages (tables'.contents codec) := by
  rw [← contents_cleanup]
  unfold publish at hp
  generalize tables.cleanupSql publishedMs = cleaned at *
  dsimp only at hp
  split at hp
  · cases hp
  · split at hp
    · rename_i hnobody
      obtain rfl := Except.ok.inj hp
      exact ⟨_, fun _ => attached, (if_pos (List.isEmpty_iff.mp hnobody)).symm⟩
    · rename_i hsome
      split at hp
      · cases hp
      · refine ⟨_, fun _ => attached, ?_⟩
        rw [if_neg fun he => hsome (List.isEmpty_iff.mpr he), contents_insertMessages hp]

theorem Sound.contents_fresh {drawn : Nat} (h : tables.Sound codec uuid drawn) {id : String}
    (hid : ∀ n < drawn, uuid n ≠ id) : (tables.contents codec).messages id = none ∧
      ∀ subscription, (tables.contents codec).deliveries subscription id = none := by
  have hm : id ∉ tables.messages := by
    intro hm
    obtain ⟨n, hn, he⟩ := h.drawnMessages id hm
    exact hid n hn he
  unfold contents
  dsimp only
  refine ⟨?_, fun subscription => ExtTreeMap.getElem?_eq_none fun hk => hm (h.stored _ hk)⟩
  rw [ExtTreeMap.getElem?_eq_none hm, Option.map_none]

end Tables

namespace PubSubService
variable {service : PubSubService β} {drawn : Nat} {id : String}

def contents (codec : BrokerCodec β) (service : PubSubService β) : Contents :=
  match service.persistence with
  | some tables => tables.contents codec
  | none => service.memory.contents

/-- The time of a publish, where it is stored. -/
def stampOf (service : PubSubService β) (topic : String) (publishedMs : Int) :
    PubsubMessage → StoredMessage :=
  .stamp topic (service.persistence.map fun _ => publishedMs)
    (saturatingAdd publishedMs (retentionSeconds * 1000))

theorem Sound.contents_fresh (h : service.Sound codec uuid drawn)
    (hid : ∀ n < drawn, uuid n ≠ id) : (service.contents codec).messages id = none ∧
      ∀ subscription, (service.contents codec).deliveries subscription id = none := by
  unfold contents
  cases hp : service.persistence with
  | some tables => exact (h.tables hp).contents_fresh hid
  | none => exact (h.memory hp).linked.contents_fresh hid

/-- A publish is refused and leaves what has not expired, or it posts its messages. -/
theorem Sound.contents_publish (h : service.Sound codec uuid drawn) {topic : String}
    {messages : List PubsubMessage} {published : Timestamp} {publishedMs : Int}
    {uuids : Nat → String} {outcome : Except Status (List String)} {service' : PubSubService β}
    (hp : service.publishValues codec topic messages published publishedMs uuids =
      (outcome, service')) :
    (∃ status, outcome = .error status ∧ (service'.contents codec).unexpired publishedMs =
      (service.contents codec).unexpired publishedMs) ∨
    ∃ assigned, outcome = .ok (assigned.map PubsubMessage.messageId) ∧
      assignMessages uuids published messages = .ok assigned ∧
      ((service.contents codec).unexpired publishedMs).Broadcast topic
        (service.stampOf topic publishedMs) assigned (service'.contents codec) := by
  unfold publishValues at hp
  cases hprepared : preparePublish topic messages uuids published with
  | error e =>
    rw [hprepared] at hp
    obtain ⟨rfl, rfl⟩ := Prod.mk.inj hp
    exact .inl ⟨e, rfl, rfl⟩
  | ok assigned =>
    rw [hprepared] at hp
    have hassigned := preparePublish_ok hprepared
    unfold contents stampOf
    dsimp only at hp
    cases hpersistence : service.persistence with
    | some tables =>
      rw [hpersistence] at hp
      dsimp only at hp
      cases hpublish : tables.publish codec topic assigned publishedMs
          (saturatingAdd publishedMs (retentionSeconds * 1000)) with
      | error e =>
        rw [hpublish] at hp
        obtain ⟨rfl, rfl⟩ := Prod.mk.inj hp
        rw [hpersistence]
        exact .inl ⟨e, rfl, rfl⟩
      | ok tables' =>
        rw [hpublish] at hp
        obtain ⟨rfl, rfl⟩ := Prod.mk.inj hp
        exact .inr ⟨assigned, rfl, hassigned, Tables.contents_publish hpublish⟩
    | none =>
      rw [hpersistence] at hp
      dsimp only at hp
      cases hpublish : service.memory.publish topic assigned publishedMs
          (saturatingAdd publishedMs (retentionSeconds * 1000)) with
      | mk outcome' memory =>
        rw [hpublish] at hp
        obtain ⟨rfl, rfl⟩ := Prod.mk.inj hp
        have hpersistence' : (service.setMemory memory).persistence = none := hpersistence
        rw [hpersistence']
        rcases (h.memory hpersistence).contents_publish hpublish with
          ⟨status, rfl, hsame⟩ | ⟨rfl, hposted⟩
        · refine .inl ⟨status, rfl, ?_⟩
          exact (congrArg _ hsame).trans (Contents.unexpired_unexpired _ _)
        · exact .inr ⟨assigned, rfl, hassigned, hposted⟩

end PubSubService

/-- A publish that is refused leaves every topic, subscription, message and delivery that has
not expired. One that is done has given each message an identifier that nothing is stored
under, posts all of them to every subscription attached, and touches nothing else. -/
theorem publish_atomic (hu : Function.Injective uuid) {broker : Broker β}
    (h : Reach (Broker.step codec uuid) (fun _ _ => True) Broker.Empty broker) (topic : String)
    (messages : List PubsubMessage) (published : Timestamp) (publishedMs : Int) :
    let event := Event.publish topic messages published publishedMs
    let before := broker.service.contents codec
    let after := (broker.step codec uuid event).service.contents codec
    (∃ status, broker.reply codec uuid event = .refused status ∧
      after.unexpired publishedMs = before.unexpired publishedMs) ∨
    ∃ assigned, broker.reply codec uuid event =
        .published (assigned.map PubsubMessage.messageId) ∧
      assigned.length = messages.length ∧
      (∀ (i : Nat) (stored : PubsubMessage), assigned[i]? = some stored →
        ∃ message, messages[i]? = some message ∧
          stored = message.assign (broker.uuids uuid i) published) ∧
      (assigned.map PubsubMessage.messageId).Nodup ∧
      (∀ message ∈ assigned, before.messages message.messageId = none ∧
        ∀ subscription, before.deliveries subscription message.messageId = none) ∧
      Posted topic (broker.service.stampOf topic publishedMs) assigned
        (before.unexpired publishedMs) after := by
  have hs := Broker.Sound.reach hu h
  intro event before after
  rcases hp : broker.service.publishValues codec topic messages published publishedMs
    (broker.uuids uuid) with ⟨outcome, service'⟩
  have hserve : broker.serve codec uuid event = (Reply.ofPublished outcome, service') :=
    congrArg (Prod.map Reply.ofPublished id) hp
  have hreply : broker.reply codec uuid event = Reply.ofPublished outcome :=
    congrArg Prod.fst hserve
  have hafter : after = service'.contents codec :=
    congrArg (fun served => served.2.contents codec) hserve
  rw [hreply, hafter]
  rcases PubSubService.Sound.contents_publish hs hp with
    ⟨status, rfl, hsame⟩ | ⟨assigned, rfl, hassigned, hposted⟩
  · exact .inl ⟨status, rfl, hsame⟩
  · obtain ⟨hlen, heach⟩ := assignMessages_ok hassigned
    have hn : (assigned.map PubsubMessage.messageId).Nodup := by
      apply BrokerView.nodup_of_drawn (broker.uuids_injective hu)
      intro n stored hstored
      obtain ⟨-, message, -, rfl⟩ := heach n stored hstored
      rfl
    have hfresh : ∀ message ∈ assigned, before.messages message.messageId = none ∧
        ∀ subscription, before.deliveries subscription message.messageId = none := by
      intro message hm
      obtain ⟨k, -, he⟩ := BrokerView.assigned_ids hassigned (List.mem_map_of_mem hm)
      apply PubSubService.Sound.contents_fresh hs
      intro n hlt hd
      have := hu (hd.trans he)
      omega
    refine .inr ⟨assigned, rfl, hlen, fun i stored hi => (heach i stored hi).2, hn, hfresh,
      hposted.posted hn fun message hm => ?_⟩
    obtain ⟨hmessage, hdeliveries⟩ := hfresh message hm
    exact Contents.unexpired_none hmessage hdeliveries

/-- A message reaches the second of two subscriptions. -/
theorem publish_atomic_sample :
    let broker := sampleRun (.onTables .empty) [sampleCreateTopic,
      sampleCreateSubscription "sub-one", sampleCreateSubscription "sub-two"]
    let sent := broker.step plainCodec sampleUuid (samplePublish [1] 0)
    (sent.service.contents plainCodec).deliveries (sampleSubscription "sub-two") (sampleUuid 0) =
      some .available := by
  intro broker sent
  have hreach : Reach (Broker.step plainCodec sampleUuid) (fun _ _ => True) Broker.Empty broker :=
    (sampleRun_reach _ _).mono fun _ hs => .inr hs
  have hr : broker.reply plainCodec sampleUuid (samplePublish [1] 0) =
      .published [sampleUuid 0] := by decide +kernel
  have hattached : ((broker.service.contents plainCodec).unexpired 0).attached sampleTopic
      (sampleSubscription "sub-two") := by
    unfold Contents.attached
    decide +kernel
  rcases publish_atomic sampleUuid_injective hreach sampleTopic [⟨[1], [], "", none, ""⟩] ⟨0, 0⟩ 0
    with ⟨status, he, -⟩ | ⟨assigned, he, -, -, -, -, hposted⟩
  · cases hr.symm.trans he
  · have hids : [sampleUuid 0] = assigned.map PubsubMessage.messageId :=
      Reply.published.inj (hr.symm.trans he)
    have hmem : sampleUuid 0 ∈ assigned.map PubsubMessage.messageId :=
      hids ▸ List.mem_singleton.mpr rfl
    obtain ⟨message, hm, hid⟩ := List.mem_map.mp hmem
    rw [← hid]
    exact hposted.delivered message hm _ hattached

end FirebaseEmu.Pubsub
