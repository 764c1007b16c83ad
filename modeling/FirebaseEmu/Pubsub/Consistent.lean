import FirebaseEmu.Pubsub.Sample
import Mathlib.Tactic.Ring

namespace FirebaseEmu.Pubsub
open Lib Std
open Firestore (Timestamp)

/-- A lease is an identifier and a deadline, and there is one exactly in flight. -/
structure Delivery.Leased (delivery : Delivery) : Prop where
  ackId : delivery.state = .inFlight ↔ delivery.ackId.isSome = true
  deadline : delivery.state = .inFlight ↔ delivery.deadlineMs.isSome = true

theorem Delivery.available_leased (subscription : String) :
    (Delivery.available subscription).Leased :=
  ⟨by simp [available], by simp [available]⟩

theorem Delivery.release_leased (delivery : Delivery) : delivery.release.Leased :=
  ⟨by simp [release], by simp [release]⟩

theorem Delivery.lease_leased (ackId : String) (deadline : Int) (delivery : Delivery) :
    (delivery.lease ackId deadline).Leased :=
  ⟨by simp [lease], by simp [lease]⟩

/-- What holds of the maps between any two operations. -/
structure MemoryState.Consistent (state : MemoryState) : Prop where
  delivery : ∀ (key : DeliveryKey) (delivery : Delivery), state.deliveries[key]? = some delivery →
    delivery.subscription = key.subscription
  subscribed : ∀ key : DeliveryKey, key ∈ state.deliveries → key.subscription ∈ state.subscriptions
  stored : ∀ key : DeliveryKey, key ∈ state.deliveries → key.message ∈ state.messages
  topics : ∀ id : String, id ∈ state.messageTopics ↔ id ∈ state.messages
  sizes : ∀ id : String, state.messageSizes[id]? =
    state.messages[id]?.map fun message => (message.encodedLen : Int)
  expiry : ∀ id : String, id ∈ state.messageExpiry ↔ id ∈ state.messages
  delivered : ∀ id : String, id ∈ state.messages →
    ∃ subscription, (⟨subscription, id⟩ : DeliveryKey) ∈ state.deliveries
  leased : ∀ (key : DeliveryKey) (delivery : Delivery), state.deliveries[key]? = some delivery →
    delivery.Leased
  distinct : ∀ (key key' : DeliveryKey) (delivery delivery' : Delivery) (ackId : String),
    state.deliveries[key]? = some delivery → state.deliveries[key']? = some delivery' →
    delivery.ackId = some ackId → delivery'.ackId = some ackId → key = key'
  count : state.memoryUsage.1 ≤ maxPendingDeliveries
  bytes : state.memoryUsage.2 ≤ maxPendingBytes

namespace MemoryState

/-- `Consistent` short of the bounds and of the messages having deliveries, with where the
identifiers come from: all are among the first `drawn` ones. -/
structure Linked (uuid : Nat → String) (drawn : Nat) (state : MemoryState) : Prop where
  delivery : ∀ (key : DeliveryKey) (delivery : Delivery), state.deliveries[key]? = some delivery →
    delivery.subscription = key.subscription
  subscribed : ∀ key : DeliveryKey, key ∈ state.deliveries → key.subscription ∈ state.subscriptions
  stored : ∀ key : DeliveryKey, key ∈ state.deliveries → key.message ∈ state.messages
  topics : ∀ id : String, id ∈ state.messageTopics ↔ id ∈ state.messages
  sizes : ∀ id : String, state.messageSizes[id]? =
    state.messages[id]?.map fun message => (message.encodedLen : Int)
  expiry : ∀ id : String, id ∈ state.messageExpiry ↔ id ∈ state.messages
  leased : ∀ (key : DeliveryKey) (delivery : Delivery), state.deliveries[key]? = some delivery →
    delivery.Leased
  distinct : ∀ (key key' : DeliveryKey) (delivery delivery' : Delivery) (ackId : String),
    state.deliveries[key]? = some delivery → state.deliveries[key']? = some delivery' →
    delivery.ackId = some ackId → delivery'.ackId = some ackId → key = key'
  names : ∀ (name : String) (subscription : Subscription),
    state.subscriptions[name]? = some subscription → subscription.name = name
  ids : ∀ (id : String) (message : PubsubMessage), state.messages[id]? = some message →
    message.messageId = id ∧ message.encodedLen ≤ maxDeliveryMessageBytes
  drawnMessages : ∀ id : String, id ∈ state.messages → ∃ n < drawn, uuid n = id
  drawnAcks : ∀ (key : DeliveryKey) (delivery : Delivery) (ackId : String),
    state.deliveries[key]? = some delivery → delivery.ackId = some ackId →
    ∃ n < drawn, uuid n = ackId

def Delivered (state : MemoryState) : Prop := ∀ id : String, id ∈ state.messages →
  ∃ subscription, (⟨subscription, id⟩ : DeliveryKey) ∈ state.deliveries

structure Bounded (state : MemoryState) : Prop where
  count : state.memoryUsage.1 ≤ maxPendingDeliveries
  bytes : state.memoryUsage.2 ≤ maxPendingBytes

/-- The invariant. -/
structure Sound (uuid : Nat → String) (drawn : Nat) (state : MemoryState) : Prop where
  linked : state.Linked uuid drawn
  delivered : state.Delivered
  bounded : state.Bounded

theorem Sound.consistent {uuid : Nat → String} {drawn : Nat} {state : MemoryState}
    (h : state.Sound uuid drawn) : state.Consistent where
  delivery := h.linked.delivery
  subscribed := h.linked.subscribed
  stored := h.linked.stored
  topics := h.linked.topics
  sizes := h.linked.sizes
  expiry := h.linked.expiry
  delivered := h.delivered
  leased := h.linked.leased
  distinct := h.linked.distinct
  count := h.bounded.count
  bytes := h.bounded.bytes

variable {uuid : Nat → String} {drawn : Nat} {state : MemoryState}

theorem Linked.mono (h : state.Linked uuid drawn) {drawn' : Nat} (hd : drawn ≤ drawn') :
    state.Linked uuid drawn' where
  __ := h
  drawnMessages id hm := by
    obtain ⟨n, hn, he⟩ := h.drawnMessages id hm
    exact ⟨n, by omega, he⟩
  drawnAcks key delivery ackId hk ha := by
    obtain ⟨n, hn, he⟩ := h.drawnAcks key delivery ackId hk ha
    exact ⟨n, by omega, he⟩

theorem Linked.sizeOf_nonneg (h : state.Linked uuid drawn) (id : String) : 0 ≤ state.sizeOf id := by
  rw [sizeOf, h.sizes]
  cases state.messages[id]? <;> simp

/-- Fewer deliveries of the same sizes stay within the bounds. -/
theorem Bounded.of_fewer {state' : MemoryState} (h : state.Bounded)
    (hs : ∀ key : DeliveryKey, key ∈ state'.deliveries → key ∈ state.deliveries ∧
      state'.sizeOf key.message = state.sizeOf key.message)
    (hn : ∀ id, 0 ≤ state.sizeOf id) : state'.Bounded := by
  have hsub : state'.deliveries.keys ⊆ state.deliveries.keys := by
    intro key hk
    rw [ExtTreeMap.mem_keys] at hk ⊢
    exact (hs key hk).1
  constructor
  · have hlen : state'.deliveries.keys.length ≤ state.deliveries.keys.length :=
      (ExtTreeMap.nodup_keys.subperm hsub).length_le
    have hc := h.count
    simp only [memoryUsage, ExtTreeMap.length_keys] at hlen hc ⊢
    omega
  · have hsum := sum_map_le_of_subset (f := fun key : DeliveryKey => state.sizeOf key.message)
      (fun key _ => hn key.message) ExtTreeMap.nodup_keys hsub
    have hcongr : state'.deliveries.keys.map (fun key => state'.sizeOf key.message) =
        state'.deliveries.keys.map fun key => state.sizeOf key.message :=
      List.map_congr_left fun key hk => (hs key (ExtTreeMap.mem_keys.mp hk)).2
    have hb := h.bytes
    simp only [memoryUsage, hcongr] at hb ⊢
    omega

/-- Deliveries may be dropped, given back or given another deadline. -/
theorem Linked.restrict (h : state.Linked uuid drawn)
    {deliveries : ExtTreeMap DeliveryKey Delivery}
    (hd : ∀ (key : DeliveryKey) (d' : Delivery), deliveries[key]? = some d' →
      ∃ d : Delivery, state.deliveries[key]? = some d ∧ d'.subscription = d.subscription ∧
        (d.Leased → d'.Leased) ∧ (d'.ackId = none ∨ d'.ackId = d.ackId)) :
    Linked uuid drawn { state with deliveries } where
  __ := h
  delivery key d' hk := by
    obtain ⟨d, hd, hs, -, -⟩ := hd key d' hk
    rw [hs, h.delivery key d hd]
  subscribed key hk := by
    obtain ⟨d', hk⟩ := mem_iff_exists.mp hk
    obtain ⟨d, hd, -, -, -⟩ := hd key d' hk
    exact h.subscribed key (mem_of_getElem? hd)
  stored key hk := by
    obtain ⟨d', hk⟩ := mem_iff_exists.mp hk
    obtain ⟨d, hd, -, -, -⟩ := hd key d' hk
    exact h.stored key (mem_of_getElem? hd)
  leased key d' hk := by
    obtain ⟨d, hd, -, hl, -⟩ := hd key d' hk
    exact hl (h.leased key d hd)
  distinct key key' d d' ackId hk hk' ha ha' := by
    obtain ⟨e, he, -, -, hs⟩ := hd key d hk
    obtain ⟨e', he', -, -, hs'⟩ := hd key' d' hk'
    rw [ha] at hs
    rw [ha'] at hs'
    refine h.distinct key key' e e' ackId he he' ?_ ?_
    · rcases hs with hs | hs
      · cases hs
      · exact hs.symm
    · rcases hs' with hs | hs
      · cases hs
      · exact hs.symm
  drawnAcks key d ackId hk ha := by
    obtain ⟨e, he, -, -, hs⟩ := hd key d hk
    rw [ha] at hs
    rcases hs with hs | hs
    · cases hs
    · exact h.drawnAcks key e ackId he hs.symm

theorem Linked.filterDeliveries (h : state.Linked uuid drawn)
    (keep : DeliveryKey → Delivery → Bool) :
    Linked uuid drawn { state with deliveries := state.deliveries.filter keep } := by
  refine h.restrict fun key d' hk => ⟨d', ?_, rfl, id, .inr rfl⟩
  rw [ExtTreeMap.getElem?_filter', Option.filter_eq_some_iff] at hk
  exact hk.1

theorem Linked.mapDeliveries (h : state.Linked uuid drawn) (f : Delivery → Delivery)
    (hs : ∀ d, (f d).subscription = d.subscription) (hl : ∀ d, d.Leased → (f d).Leased)
    (ha : ∀ d, (f d).ackId = none ∨ (f d).ackId = d.ackId) :
    Linked uuid drawn { state with deliveries := state.deliveries.map fun _ => f } := by
  refine h.restrict fun key d' hk => ?_
  rw [ExtTreeMap.getElem?_map, Option.map_eq_some_iff] at hk
  obtain ⟨d, hd, rfl⟩ := hk
  exact ⟨d, hd, hs d, hl d, ha d⟩

/-- The messages that satisfy a test, in all maps of messages. -/
def keepMessages (state : MemoryState) (keep : String → Bool) : MemoryState :=
  { state with
    messages := state.messages.filter fun id _ => keep id
    messageTopics := state.messageTopics.filter fun id _ => keep id
    messageSizes := state.messageSizes.filter fun id _ => keep id
    messageExpiry := state.messageExpiry.filter fun id _ => keep id }

theorem mem_keep {γ : Type} {m : ExtTreeMap String γ} {keep : String → Bool} {id : String} :
    id ∈ m.filter (fun id _ => keep id) ↔ id ∈ m ∧ keep id = true := by
  rw [mem_filter, mem_iff_exists]
  simp

theorem Linked.keepMessages (h : state.Linked uuid drawn) {keep : String → Bool}
    (hk : ∀ key : DeliveryKey, key ∈ state.deliveries → keep key.message = true) :
    (state.keepMessages keep).Linked uuid drawn where
  __ := h
  stored key hm := mem_keep.mpr ⟨h.stored key hm, hk key hm⟩
  topics id := by
    rw [MemoryState.keepMessages, mem_keep, mem_keep, h.topics]
  sizes id := by
    simp only [MemoryState.keepMessages, getElem?_filterKeys, h.sizes]
    cases keep id <;> rfl
  expiry id := by
    rw [MemoryState.keepMessages, mem_keep, mem_keep, h.expiry]
  ids id message hm := by
    simp only [MemoryState.keepMessages, ExtTreeMap.getElem?_filter',
      Option.filter_eq_some_iff] at hm
    exact h.ids id message hm.1
  drawnMessages id hm := h.drawnMessages id (mem_keep.mp hm).1

theorem keepMessages_sizeOf {keep : String → Bool} {id : String} (hk : keep id = true) :
    (state.keepMessages keep).sizeOf id = state.sizeOf id := by
  rw [sizeOf, MemoryState.keepMessages, getElem?_filterKeys, if_pos hk, sizeOf]

theorem Bounded.keepMessages (h : state.Bounded) (hl : state.Linked uuid drawn)
    {keep : String → Bool}
    (hk : ∀ key : DeliveryKey, key ∈ state.deliveries → keep key.message = true) :
    (state.keepMessages keep).Bounded :=
  h.of_fewer (fun key hm => ⟨hm, keepMessages_sizeOf (hk key hm)⟩) hl.sizeOf_nonneg

/-- The garbage collection makes every stored message have a delivery. -/
theorem Linked.gc (h : state.Linked uuid drawn) (hb : state.Bounded) :
    state.memoryGc.Sound uuid drawn := by
  have hlive : ∀ key : DeliveryKey, key ∈ state.deliveries →
      (state.deliveries.keys.map DeliveryKey.message).contains key.message = true := by
    intro key hm
    rw [List.contains_iff_mem]
    exact List.mem_map_of_mem (ExtTreeMap.mem_keys.mpr hm)
  refine ⟨h.keepMessages hlive, fun id hm => ?_, hb.keepMessages h hlive⟩
  have hkept := (mem_keep.mp hm).2
  rw [List.contains_iff_mem, List.mem_map] at hkept
  obtain ⟨⟨subscription, id'⟩, hkey, rfl⟩ := hkept
  exact ⟨subscription, ExtTreeMap.mem_keys.mp hkey⟩

theorem dropMessage_eq (state : MemoryState) (id : String) : state.dropMessage id =
    keepMessages { state with deliveries := state.deliveries.filter fun key _ => key.message != id }
      (· != id) := by
  simp only [dropMessage, keepMessages, erase_eq_filter]

/-- Dropping a message with all its deliveries keeps the invariant. -/
theorem Sound.dropMessage (h : state.Sound uuid drawn) (id : String) :
    (state.dropMessage id).Sound uuid drawn := by
  have hkeep : ∀ key : DeliveryKey,
      key ∈ state.deliveries.filter (fun key _ => key.message != id) →
      (key.message != id) = true := by
    intro key hk
    obtain ⟨d, -, hd⟩ := mem_filter.mp hk
    exact hd
  have hlinked := h.linked.filterDeliveries fun key _ => key.message != id
  rw [dropMessage_eq]
  refine ⟨hlinked.keepMessages hkeep, fun id' hm => ?_, Bounded.keepMessages ?_ hlinked hkeep⟩
  · obtain ⟨hm, hne⟩ := mem_keep.mp hm
    obtain ⟨subscription, hs⟩ := h.delivered id' hm
    obtain ⟨d, hd⟩ := mem_iff_exists.mp hs
    exact ⟨subscription, mem_filter.mpr ⟨d, hd, hne⟩⟩
  · refine h.bounded.of_fewer (fun key hk => ?_) h.linked.sizeOf_nonneg
    obtain ⟨d, hd, -⟩ := mem_filter.mp hk
    exact ⟨mem_of_getElem? hd, rfl⟩

theorem Sound.cleanupMemory (h : state.Sound uuid drawn) (now : Int) :
    (state.cleanupMemory now).Sound uuid drawn := by
  unfold MemoryState.cleanupMemory
  generalize (state.messageExpiry.toList.filter _).map Prod.fst = expired
  induction expired generalizing state with
  | nil => exact h
  | cons id expired ih => exact ih (h.dropMessage id)

/-- Deliveries changed in place keep the invariant. -/
theorem Sound.mapDeliveries (h : state.Sound uuid drawn) (f : Delivery → Delivery)
    (hs : ∀ d, (f d).subscription = d.subscription) (hl : ∀ d, d.Leased → (f d).Leased)
    (ha : ∀ d, (f d).ackId = none ∨ (f d).ackId = d.ackId) :
    Sound uuid drawn { state with deliveries := state.deliveries.map fun _ => f } := by
  refine ⟨h.linked.mapDeliveries f hs hl ha, fun id hm => ?_, ?_⟩
  · obtain ⟨subscription, hd⟩ := h.delivered id hm
    exact ⟨subscription, ExtTreeMap.mem_map.mpr hd⟩
  · exact h.bounded.of_fewer (fun key hk => ⟨ExtTreeMap.mem_map.mp hk, rfl⟩)
      h.linked.sizeOf_nonneg

theorem Sound.expireLeases (h : state.Sound uuid drawn) (subscription : String) (now : Int) :
    (state.expireLeases subscription now).Sound uuid drawn := by
  refine h.mapDeliveries _ (fun d => ?_) (fun d hd => ?_) fun d => ?_
  · split <;> rfl
  · split
    · exact d.release_leased
    · exact hd
  · split
    · exact .inl rfl
    · exact .inr rfl

theorem Sound.modifyAck (h : state.Sound uuid drawn) (subscription : String)
    (ackIds : List String) (seconds deadline : Int) :
    (state.modifyAck subscription ackIds seconds deadline).Sound uuid drawn := by
  refine h.mapDeliveries _ (fun d => ?_) (fun d hd => ?_) fun d => ?_
  · split <;> [split <;> rfl; rfl]
  · split
    · rename_i hn
      split
      · exact d.release_leased
      · -- a delivery that is named has an identifier, so it is in flight
        have hack : d.ackId.isSome = true := by
          rw [names, Bool.and_eq_true, Option.any_eq_true] at hn
          obtain ⟨-, ackId, ha, -⟩ := hn
          rw [ha]
          rfl
        exact ⟨hd.ackId, ⟨fun _ => rfl, fun _ => hd.ackId.mpr hack⟩⟩
    · exact hd
  · split
    · split
      · exact .inl rfl
      · exact .inr rfl
    · exact .inr rfl

theorem Sound.acknowledge (h : state.Sound uuid drawn) (subscription : String)
    (ackIds : List String) : (state.acknowledge subscription ackIds).Sound uuid drawn := by
  refine (h.linked.filterDeliveries _).gc ?_
  refine h.bounded.of_fewer (fun key hk => ?_) h.linked.sizeOf_nonneg
  obtain ⟨d, hd, -⟩ := mem_filter.mp hk
  exact ⟨mem_of_getElem? hd, rfl⟩

theorem Sound.createTopic (h : state.Sound uuid drawn) {topic : Topic} {state' : MemoryState}
    (hs : state.createTopic topic = .ok state') : state'.Sound uuid drawn := by
  unfold MemoryState.createTopic at hs
  split at hs
  · cases hs
  · obtain rfl := Except.ok.inj hs
    exact ⟨{ h.linked with }, h.delivered, { h.bounded with }⟩

/-- The subscriptions may change as long as those that have deliveries stay. -/
theorem Linked.setSubscriptions (h : state.Linked uuid drawn)
    {subscriptions : ExtTreeMap String Subscription}
    (hm : ∀ key : DeliveryKey, key ∈ state.deliveries → key.subscription ∈ subscriptions)
    (hn : ∀ (name : String) (subscription : Subscription),
      subscriptions[name]? = some subscription → subscription.name = name) :
    Linked uuid drawn { state with subscriptions } where
  __ := h
  subscribed := hm
  names := hn

theorem Sound.setSubscriptions (h : state.Sound uuid drawn)
    {subscriptions : ExtTreeMap String Subscription}
    (hm : ∀ name : String, name ∈ state.subscriptions → name ∈ subscriptions)
    (hn : ∀ (name : String) (subscription : Subscription),
      subscriptions[name]? = some subscription → subscription.name = name) :
    Sound uuid drawn { state with subscriptions } :=
  ⟨h.linked.setSubscriptions (fun key hk => hm _ (h.linked.subscribed key hk)) hn, h.delivered,
    { h.bounded with }⟩

theorem Sound.deleteTopic (h : state.Sound uuid drawn) {name : String} {state' : MemoryState}
    (hs : state.deleteTopic name = .ok state') : state'.Sound uuid drawn := by
  unfold MemoryState.deleteTopic at hs
  split at hs
  · cases hs
  · obtain rfl := Except.ok.inj hs
    have ht : Sound uuid drawn { state with topics := state.topics.erase name } :=
      ⟨{ h.linked with }, h.delivered, { h.bounded with }⟩
    refine ht.setSubscriptions (fun name hm => ExtTreeMap.mem_map.mpr hm) fun name' s hm => ?_
    rw [ExtTreeMap.getElem?_map, Option.map_eq_some_iff] at hm
    obtain ⟨s', hs', rfl⟩ := hm
    split <;> exact h.linked.names name' s' hs'

theorem Sound.createSubscription (h : state.Sound uuid drawn) {subscription : Subscription}
    {state' : MemoryState} (hs : state.createSubscription subscription = .ok state') :
    state'.Sound uuid drawn := by
  unfold MemoryState.createSubscription at hs
  split at hs
  · cases hs
  · split at hs
    · cases hs
    · obtain rfl := Except.ok.inj hs
      refine h.setSubscriptions (fun name hm => ExtTreeMap.mem_insert.mpr (.inr hm)) ?_
      intro name s hm
      rw [ExtTreeMap.getElem?_insert] at hm
      split at hm
      · rename_i he
        obtain rfl := Option.some.inj hm
        exact LawfulEqOrd.eq_of_compare he
      · exact h.linked.names name s hm

theorem Sound.deleteSubscription (h : state.Sound uuid drawn) {name : String}
    {state' : MemoryState} (hs : state.deleteSubscription name = .ok state') :
    state'.Sound uuid drawn := by
  unfold MemoryState.deleteSubscription at hs
  split at hs
  · cases hs
  · obtain rfl := Except.ok.inj hs
    have hlinked := h.linked.filterDeliveries fun key _ => key.subscription != name
    refine (hlinked.setSubscriptions (fun key hk => ?_) fun name' s hm => ?_).gc ?_
    · obtain ⟨d, hd, hne⟩ := mem_filter.mp hk
      rw [bne_iff_ne] at hne
      rw [ExtTreeMap.mem_erase, ne_eq, LawfulEqOrd.compare_eq_iff_eq]
      exact ⟨hne.symm, h.linked.subscribed key (mem_of_getElem? hd)⟩
    · rw [ExtTreeMap.getElem?_erase] at hm
      split at hm
      · cases hm
      · exact h.linked.names name' s hm
    · refine h.bounded.of_fewer (fun key hk => ?_) h.linked.sizeOf_nonneg
      obtain ⟨d, hd, -⟩ := mem_filter.mp hk
      exact ⟨mem_of_getElem? hd, rfl⟩

theorem getElem?_leaseDelivery (state : MemoryState) (deadline : Int) (key : DeliveryKey)
    (ackId : String) (k : DeliveryKey) :
    (leaseDelivery deadline key ackId state).deliveries[k]? =
      if key = k then state.deliveries[k]?.map (Delivery.lease ackId deadline)
      else state.deliveries[k]? := by
  rw [leaseDelivery, ExtTreeMap.getElem?_modify]
  by_cases he : key = k
  · simp [he]
  · simp [he]

/-- A lease under the next identifier. -/
theorem Linked.lease (h : state.Linked uuid drawn) (hu : Function.Injective uuid) (deadline : Int)
    (key : DeliveryKey) : (leaseDelivery deadline key (uuid drawn) state).Linked uuid (drawn + 1) := by
  have hcases : ∀ (k : DeliveryKey) (d' : Delivery),
      (leaseDelivery deadline key (uuid drawn) state).deliveries[k]? = some d' →
      ∃ d, state.deliveries[k]? = some d ∧
        ((k = key ∧ d' = d.lease (uuid drawn) deadline) ∨ d' = d) := by
    intro k d' hk
    rw [getElem?_leaseDelivery] at hk
    split at hk
    · rename_i he
      obtain ⟨d, hd, rfl⟩ := Option.map_eq_some_iff.mp hk
      exact ⟨d, hd, .inl ⟨he.symm, rfl⟩⟩
    · exact ⟨d', hk, .inr rfl⟩
  have hold : ∀ (k : DeliveryKey) (d : Delivery), state.deliveries[k]? = some d →
      d.ackId ≠ some (uuid drawn) := by
    intro k d hd ha
    obtain ⟨n, hn, he⟩ := h.drawnAcks k d (uuid drawn) hd ha
    have := hu he
    omega
  have hmem : ∀ k : DeliveryKey,
      k ∈ (leaseDelivery deadline key (uuid drawn) state).deliveries → k ∈ state.deliveries :=
    fun k hk => ExtTreeMap.mem_modify.mp hk
  exact {
    delivery := fun k d' hk => by
      obtain ⟨d, hd, ⟨-, rfl⟩ | rfl⟩ := hcases k d' hk
      · exact h.delivery k d hd
      · exact h.delivery k _ hd
    subscribed := fun k hk => h.subscribed k (hmem k hk)
    stored := fun k hk => h.stored k (hmem k hk)
    topics := h.topics
    sizes := h.sizes
    expiry := h.expiry
    leased := fun k d' hk => by
      obtain ⟨d, hd, ⟨-, rfl⟩ | rfl⟩ := hcases k d' hk
      · exact d.lease_leased _ _
      · exact h.leased k _ hd
    distinct := fun k k' d' e' ackId hk hk' ha ha' => by
      obtain ⟨d, hd, ⟨rfl, rfl⟩ | rfl⟩ := hcases k d' hk <;>
        obtain ⟨e, he, ⟨rfl, rfl⟩ | rfl⟩ := hcases k' e' hk'
      · rfl
      · obtain rfl := Option.some.inj ha
        exact absurd ha' (hold k' _ he)
      · obtain rfl := Option.some.inj ha'
        exact absurd ha (hold k _ hd)
      · exact h.distinct k k' _ _ ackId hd he ha ha'
    names := h.names
    ids := h.ids
    drawnMessages := fun id hm => by
      obtain ⟨n, hn, he⟩ := h.drawnMessages id hm
      exact ⟨n, by omega, he⟩
    drawnAcks := fun k d' ackId hk ha => by
      obtain ⟨d, hd, ⟨-, rfl⟩ | rfl⟩ := hcases k d' hk
      · obtain rfl := Option.some.inj ha
        exact ⟨drawn, by omega, rfl⟩
      · obtain ⟨n, hn, he⟩ := h.drawnAcks k _ ackId hd ha
        exact ⟨n, by omega, he⟩ }

theorem Sound.lease (h : state.Sound uuid drawn) (hu : Function.Injective uuid) (deadline : Int)
    (key : DeliveryKey) : (leaseDelivery deadline key (uuid drawn) state).Sound uuid (drawn + 1) := by
  refine ⟨h.linked.lease hu deadline key, fun id hm => ?_, ?_⟩
  · obtain ⟨subscription, hd⟩ := h.delivered id hm
    exact ⟨subscription, ExtTreeMap.mem_modify.mpr hd⟩
  · exact h.bounded.of_fewer (fun k hk => ⟨ExtTreeMap.mem_modify.mp hk, rfl⟩)
      h.linked.sizeOf_nonneg

/-- What a claim hands out leaves the state sound. -/
theorem Sound.handed (hu : Function.Injective uuid) {deadline : Int}
    {size : DeliveryKey → Int} {message : DeliveryKey → Except Status PubsubMessage}
    {n : Nat} {keys : List DeliveryKey} {given : List BrokerMessage} {state' : MemoryState}
    (hh : Handed size message (leaseDelivery deadline) (fun n => uuid (drawn + n)) n keys given
      state state') (h : state.Sound uuid (drawn + n)) :
    state'.Sound uuid (drawn + n + given.length) := by
  induction hh with
  | stop => exact h
  | skip _ ih => exact ih h
  | take hm _ ih =>
    have hs := ih (h.lease hu deadline _)
    rw [List.length_cons, ← Nat.add_assoc, Nat.add_right_comm]
    exact hs

theorem Sound.mono (h : state.Sound uuid drawn) {drawn' : Nat} (hd : drawn ≤ drawn') :
    state.Sound uuid drawn' :=
  ⟨h.linked.mono hd, h.delivered, h.bounded⟩

theorem mem_availableKeys {subscription : String} {key : DeliveryKey} :
    key ∈ state.availableKeys subscription ↔ ∃ d, state.deliveries[key]? = some d ∧
      key.subscription = subscription ∧ d.state = .available := by
  simp only [availableKeys, List.mem_map, List.mem_filter, Bool.and_eq_true, beq_iff_eq]
  constructor
  · rintro ⟨⟨key', d⟩, ⟨hm, hs, ha⟩, rfl⟩
    exact ⟨d, ExtTreeMap.mem_toList_iff_getElem?_eq_some.mp hm, hs, ha⟩
  · rintro ⟨d, hd, hs, ha⟩
    exact ⟨(key, d), ⟨ExtTreeMap.mem_toList_iff_getElem?_eq_some.mpr hd, hs, ha⟩, rfl⟩

/-- A claim hands these messages out, starting from a cleaned state. -/
def Claims (subscription : String) (deadline : Int) (uuids : Nat → String)
    (given : List BrokerMessage) (state state' : MemoryState) : Prop :=
  Handed (fun key : DeliveryKey => state.sizeOf key.message) state.messageOf
    (leaseDelivery deadline) uuids 0 (state.availableKeys subscription) given state state'

/-- A claim never fails on a sound state, and what it hands out are available deliveries of
the cleaned state. -/
theorem Sound.claim (h : state.Sound uuid drawn) (hu : Function.Injective uuid)
    (subscription : String) (maxCount : Nat) (maxBytes deadline now : Int) :
    ∃ given state', state.claim subscription maxCount maxBytes deadline now
        (fun n => uuid (drawn + n)) = (.ok given, state') ∧
      given.length ≤ maxCount ∧ state'.Sound uuid (drawn + maxCount) ∧
      Claims subscription deadline (fun n => uuid (drawn + n)) given
        ((state.cleanupMemory now).expireLeases subscription now) state' := by
  have hclean := (h.cleanupMemory now).expireLeases subscription now
  unfold MemoryState.claim
  generalize (state.cleanupMemory now).expireLeases subscription now = cleaned at *
  have hmessage : ∀ key ∈ cleaned.availableKeys subscription,
      ∃ message, cleaned.messages[key.message]? = some message := by
    intro key hk
    obtain ⟨d, hd, -⟩ := mem_availableKeys.mp hk
    exact mem_iff_exists.mp (hclean.linked.stored key (mem_of_getElem? hd))
  have hfound : ∀ key ∈ cleaned.availableKeys subscription,
      ∃ message, cleaned.messageOf key = .ok message := by
    intro key hk
    obtain ⟨message, hm⟩ := hmessage key hk
    exact ⟨message, by rw [messageOf, hm]⟩
  have hsize : ∀ key ∈ cleaned.availableKeys subscription,
      cleaned.sizeOf key.message ≤ maxDeliveryMessageBytes := by
    intro key hk
    obtain ⟨message, hm⟩ := hmessage key hk
    have hl := (hclean.linked.ids key.message message hm).2
    rw [sizeOf, hclean.linked.sizes, hm, Option.map_some, Option.getD_some]
    exact Int.ofNat_le.mpr hl
  have hok : ∃ given state', cleaned.handOut subscription maxCount maxBytes deadline
      (fun n => uuid (drawn + n)) = (.ok given, state') := claimLoop_isOk hsize hfound
  obtain ⟨given, state', hc⟩ := hok
  obtain ⟨_, rfl, hlen, hh⟩ := claimLoop_ok hc
  refine ⟨_, state', hc, hlen, (Sound.handed hu hh hclean).mono ?_, hh⟩
  simp only [List.length_nil] at hlen ⊢
  omega

theorem Linked.mem_attachedTo (h : state.Linked uuid drawn) {topic name : String} :
    name ∈ state.attachedTo topic ↔
      ∃ s, state.subscriptions[name]? = some s ∧ s.topic = topic := by
  simp only [attachedTo, List.mem_map, List.mem_filter, beq_iff_eq]
  constructor
  · rintro ⟨⟨key, s⟩, ⟨hm, ht⟩, rfl⟩
    rw [ExtTreeMap.mem_toList_iff_getElem?_eq_some] at hm
    refine ⟨s, ?_, ht⟩
    rw [h.names key s hm]
    exact hm
  · rintro ⟨s, hs, ht⟩
    exact ⟨(name, s), ⟨ExtTreeMap.mem_toList_iff_getElem?_eq_some.mpr hs, ht⟩, h.names name s hs⟩

theorem Linked.attachedTo_nodup (h : state.Linked uuid drawn) (topic : String) :
    (state.attachedTo topic).Nodup := by
  have hnames : state.attachedTo topic =
      (state.subscriptions.toList.filter (·.2.topic == topic)).map Prod.fst := by
    refine List.map_congr_left fun entry hm => ?_
    exact h.names entry.1 entry.2 (ExtTreeMap.mem_toList_iff_getElem?_eq_some.mp
      (List.mem_filter.mp hm).1)
  have hkeys : (state.subscriptions.toList.map Prod.fst).Nodup := by
    rw [ExtTreeMap.map_fst_toList_eq_keys]
    exact ExtTreeMap.nodup_keys
  rw [hnames]
  exact hkeys.sublist (List.filter_sublist.map _)

section
variable {topic : String} {expiry : Int} {subscriptions : List String} {message : PubsubMessage}

theorem getElem?_insertMessage (key : DeliveryKey) :
    (insertMessage topic expiry subscriptions state message).deliveries[key]? =
      if key.message = message.messageId ∧ key.subscription ∈ subscriptions then
        some (.available key.subscription)
      else state.deliveries[key]? := by
  have hfold : (insertMessage topic expiry subscriptions state message).deliveries =
      (subscriptions.map fun s => (⟨s, message.messageId⟩ : DeliveryKey)).foldl
        (fun m k => m.insert k (.available k.subscription)) state.deliveries := by
    rw [insertMessage, List.foldl_map]
  rw [hfold, getElem?_insertAll fun k : DeliveryKey => Delivery.available k.subscription]
  congr 1
  obtain ⟨s, id⟩ := key
  simp [List.mem_map, and_comm, eq_comm]

theorem mem_insertMessage {key : DeliveryKey} :
    key ∈ (insertMessage topic expiry subscriptions state message).deliveries ↔
      (key.message = message.messageId ∧ key.subscription ∈ subscriptions) ∨
        key ∈ state.deliveries := by
  rw [mem_iff_exists, getElem?_insertMessage, mem_iff_exists]
  split
  · rename_i h
    simp [h]
  · rename_i h
    simp [h]

theorem mem_insert_iff {γ : Type} {m : ExtTreeMap String γ} {k id : String} {v : γ} :
    id ∈ m.insert k v ↔ k = id ∨ id ∈ m := by
  rw [ExtTreeMap.mem_insert, LawfulEqOrd.compare_eq_iff_eq]

theorem getElem?_insert_if {γ : Type} (m : ExtTreeMap String γ) (k id : String) (v : γ) :
    (m.insert k v)[id]? = if k = id then some v else m[id]? := by
  rw [ExtTreeMap.getElem?_insert]
  simp only [LawfulEqOrd.compare_eq_iff_eq]

/-- A message under the next identifier, with a delivery for each of the subscriptions. -/
theorem Linked.insertMessage (h : state.Linked uuid drawn)
    (hs : ∀ s ∈ subscriptions, s ∈ state.subscriptions) (hid : message.messageId = uuid drawn)
    (hlen : message.encodedLen ≤ maxDeliveryMessageBytes) :
    (insertMessage topic expiry subscriptions state message).Linked uuid (drawn + 1) := by
  have hcases : ∀ (k : DeliveryKey) (d : Delivery),
      (MemoryState.insertMessage topic expiry subscriptions state message).deliveries[k]? =
        some d →
      d = .available k.subscription ∨ state.deliveries[k]? = some d := by
    intro k d hk
    rw [getElem?_insertMessage] at hk
    split at hk
    · exact .inl (Option.some.inj hk).symm
    · exact .inr hk
  exact {
    delivery := fun k d hk => by
      rcases hcases k d hk with rfl | hd
      · rfl
      · exact h.delivery k d hd
    subscribed := fun k hk => by
      rcases mem_insertMessage.mp hk with ⟨-, hm⟩ | hm
      · exact hs _ hm
      · exact h.subscribed k hm
    stored := fun k hk => by
      refine mem_insert_iff.mpr ?_
      rcases mem_insertMessage.mp hk with ⟨hm, -⟩ | hm
      · exact .inl hm.symm
      · exact .inr (h.stored k hm)
    topics := fun id => by
      simp only [MemoryState.insertMessage, mem_insert_iff, h.topics]
    sizes := fun id => by
      simp only [MemoryState.insertMessage, getElem?_insert_if, h.sizes]
      split <;> rfl
    expiry := fun id => by
      simp only [MemoryState.insertMessage, mem_insert_iff, h.expiry]
    leased := fun k d hk => by
      rcases hcases k d hk with rfl | hd
      · exact Delivery.available_leased _
      · exact h.leased k d hd
    distinct := fun k k' d d' ackId hk hk' ha ha' => by
      rcases hcases k d hk with rfl | hd
      · cases ha
      · rcases hcases k' d' hk' with rfl | hd'
        · cases ha'
        · exact h.distinct k k' d d' ackId hd hd' ha ha'
    names := h.names
    ids := fun id m hm => by
      simp only [MemoryState.insertMessage, getElem?_insert_if] at hm
      split at hm
      · rename_i he
        obtain rfl := Option.some.inj hm
        exact ⟨he, hlen⟩
      · exact h.ids id m hm
    drawnMessages := fun id hm => by
      rcases mem_insert_iff.mp hm with rfl | hm
      · exact ⟨drawn, by omega, hid.symm⟩
      · obtain ⟨n, hn, he⟩ := h.drawnMessages id hm
        exact ⟨n, by omega, he⟩
    drawnAcks := fun k d ackId hk ha => by
      rcases hcases k d hk with rfl | hd
      · cases ha
      · obtain ⟨n, hn, he⟩ := h.drawnAcks k d ackId hd ha
        exact ⟨n, by omega, he⟩ }

/-- A message that is not stored yet adds its deliveries to the usage. -/
theorem Linked.usage_insertMessage (h : state.Linked uuid drawn) (hn : subscriptions.Nodup)
    (hid : message.messageId ∉ state.messages) :
    (MemoryState.insertMessage topic expiry subscriptions state message).memoryUsage =
      (state.memoryUsage.1 + subscriptions.length,
        state.memoryUsage.2 + subscriptions.length * message.encodedLen) := by
  have hnew : ∀ key : DeliveryKey, key ∈ state.deliveries → key.message ≠ message.messageId :=
    fun key hk he => hid (he ▸ h.stored key hk)
  have hperm : (MemoryState.insertMessage topic expiry subscriptions state message).deliveries.keys.Perm
      (state.deliveries.keys ++ subscriptions.map fun s => ⟨s, message.messageId⟩) := by
    refine keys_perm (List.nodup_append.mpr ⟨ExtTreeMap.nodup_keys, ?_, ?_⟩) fun key => ?_
    · exact hn.map fun a b hab => (DeliveryKey.mk.inj hab).1
    · rintro key hk key' hk' rfl
      obtain ⟨s, -, rfl⟩ := List.mem_map.mp hk'
      exact hnew _ (ExtTreeMap.mem_keys.mp hk) rfl
    · rw [mem_insertMessage, List.mem_append, ExtTreeMap.mem_keys, List.mem_map, or_comm]
      obtain ⟨s, id⟩ := key
      simp [and_comm, eq_comm]
  have hsize : ∀ id, (MemoryState.insertMessage topic expiry subscriptions state message).sizeOf id =
      if message.messageId = id then (message.encodedLen : Int) else state.sizeOf id := by
    intro id
    simp only [sizeOf, MemoryState.insertMessage, getElem?_insert_if]
    split <;> rfl
  have hold : state.deliveries.keys.map (fun key =>
      (MemoryState.insertMessage topic expiry subscriptions state message).sizeOf key.message) =
      state.deliveries.keys.map fun key => state.sizeOf key.message := by
    refine List.map_congr_left fun key hk => ?_
    rw [hsize, if_neg (Ne.symm (hnew key (ExtTreeMap.mem_keys.mp hk)))]
  refine Prod.ext ?_ ?_
  · have hlen := hperm.length_eq
    simp only [memoryUsage, ExtTreeMap.length_keys, List.length_append, List.length_map] at hlen ⊢
    omega
  · simp only [memoryUsage]
    rw [(hperm.map _).sum_eq, List.map_append, List.sum_append, hold, List.map_map]
    congr 1
    have hconst : (subscriptions.map ((fun key : DeliveryKey =>
        (MemoryState.insertMessage topic expiry subscriptions state message).sizeOf key.message) ∘
        fun s => ⟨s, message.messageId⟩)) =
        subscriptions.map fun _ => (message.encodedLen : Int) :=
      List.map_congr_left fun s _ => by simp [hsize]
    rw [hconst, List.map_const', List.sum_replicate, nsmul_eq_mul]

theorem Delivered.insertMessage (h : state.Delivered) (hs : subscriptions ≠ []) :
    (MemoryState.insertMessage topic expiry subscriptions state message).Delivered := by
  intro id hm
  rcases mem_insert_iff.mp hm with rfl | hm
  · obtain ⟨s, hs⟩ := List.exists_mem_of_ne_nil _ hs
    exact ⟨s, mem_insertMessage.mpr (.inl ⟨rfl, hs⟩)⟩
  · obtain ⟨s, hd⟩ := h id hm
    exact ⟨s, mem_insertMessage.mpr (.inr hd)⟩

theorem Linked.fresh (h : state.Linked uuid drawn) (hu : Function.Injective uuid) :
    uuid drawn ∉ state.messages := by
  intro hm
  obtain ⟨n, hn, he⟩ := h.drawnMessages _ hm
  have := hu he
  omega

/-- The insert loop of a publish. -/
theorem Linked.insertMessages (hu : Function.Injective uuid) (h : state.Linked uuid drawn)
    (hd : state.Delivered) (hs : ∀ s ∈ subscriptions, s ∈ state.subscriptions)
    (hn : subscriptions.Nodup) (hne : subscriptions ≠ []) {messages : List PubsubMessage}
    (hm : ∀ (i : Nat) (message : PubsubMessage), messages[i]? = some message →
      message.messageId = uuid (drawn + i) ∧ message.encodedLen ≤ maxDeliveryMessageBytes) :
    (messages.foldl (MemoryState.insertMessage topic expiry subscriptions) state).Linked uuid
        (drawn + messages.length) ∧
      (messages.foldl (MemoryState.insertMessage topic expiry subscriptions) state).Delivered ∧
      (messages.foldl (MemoryState.insertMessage topic expiry subscriptions) state).memoryUsage =
        (state.memoryUsage.1 + subscriptions.length * messages.length,
          state.memoryUsage.2 +
            (messages.map fun message => (message.encodedLen : Int)).sum * subscriptions.length) := by
  induction messages generalizing state drawn with
  | nil => exact ⟨h, hd, by simp⟩
  | cons message messages ih =>
    obtain ⟨hid, hlen⟩ := hm 0 message rfl
    have hfresh : message.messageId ∉ state.messages := by
      rw [hid]
      exact h.fresh hu
    obtain ⟨hl, hd', husage⟩ := ih (h.insertMessage hs hid hlen) (hd.insertMessage hne) hs
      fun i m hi => by
        rw [Nat.add_assoc, Nat.add_comm 1]
        exact hm (i + 1) m hi
    rw [List.foldl_cons, List.length_cons, ← Nat.add_assoc, Nat.add_right_comm]
    refine ⟨hl, hd', ?_⟩
    rw [husage, h.usage_insertMessage hn hfresh, List.map_cons, List.sum_cons]
    refine Prod.ext ?_ ?_
    · simp only
      push_cast
      ring
    · simp only
      ring

end

theorem Sound.publish (h : state.Sound uuid drawn) (hu : Function.Injective uuid)
    (topic : String) {messages : List PubsubMessage} (publishedMs expiry : Int)
    (hm : ∀ (i : Nat) (message : PubsubMessage), messages[i]? = some message →
      message.messageId = uuid (drawn + i) ∧ message.encodedLen ≤ maxDeliveryMessageBytes) :
    (state.publish topic messages publishedMs expiry).2.Sound uuid (drawn + messages.length) := by
  have hclean := h.cleanupMemory publishedMs
  have hmono : (state.cleanupMemory publishedMs).Sound uuid (drawn + messages.length) :=
    hclean.mono (by omega)
  unfold MemoryState.publish
  generalize state.cleanupMemory publishedMs = cleaned at *
  dsimp only
  split
  · exact hmono
  · split
    · exact hmono
    · rename_i hne
      split
      · exact hmono
      · rename_i hfits
        have hsubs : ∀ s ∈ cleaned.attachedTo topic, s ∈ cleaned.subscriptions := by
          intro s hs
          obtain ⟨sub, hsub, -⟩ := hclean.linked.mem_attachedTo.mp hs
          exact mem_of_getElem? hsub
        have hnil : cleaned.attachedTo topic ≠ [] := fun he => hne (by rw [he]; rfl)
        obtain ⟨hl, hd, husage⟩ := hclean.linked.insertMessages hu hclean.delivered hsubs
          (hclean.linked.attachedTo_nodup topic) hnil hm
        refine ⟨hl, hd, ?_, ?_⟩
        · rw [husage]
          unfold saturatingAdd maxPendingDeliveries at hfits
          unfold maxPendingDeliveries
          omega
        · rw [husage]
          unfold saturatingAdd maxPendingBytes at hfits
          unfold maxPendingBytes
          omega

end MemoryState
theorem preparePublish_ok {topic : String} {messages assigned : List PubsubMessage}
    {uuids : Nat → String} {published : Timestamp}
    (h : preparePublish topic messages uuids published = .ok assigned) :
    assignMessages uuids published messages = .ok assigned := by
  obtain ⟨-, -, h⟩ := exceptBind_eq_ok.mp h
  split at h
  · cases h
  · obtain ⟨-, -, h⟩ := exceptBind_eq_ok.mp h
    obtain ⟨bytes, -, h⟩ := exceptBind_eq_ok.mp h
    split at h
    · cases h
    · exact h

variable {β : Type} {codec : BrokerCodec β} {uuid : Nat → String}

/-- The broker is in memory, and its maps are sound. -/
structure Broker.InMemory (uuid : Nat → String) (broker : Broker β) : Prop where
  memory : broker.service.persistence = none
  sound : broker.service.memory.Sound uuid broker.drawn

theorem MemoryState.empty_sound (uuid : Nat → String) (drawn : Nat) :
    MemoryState.empty.Sound uuid drawn := by
  refine ⟨?_, ?_, ?_⟩
  · constructor <;> simp [MemoryState.empty]
  · intro id hm
    simp [MemoryState.empty] at hm
  · exact ⟨by decide, by decide⟩

namespace Broker.InMemory
variable {broker : Broker β}

/-- An update of the maps that keeps them sound. -/
theorem update (h : broker.InMemory uuid) {sql : Tables β → Except Status (Tables β)}
    {memory : MemoryState → Except Status MemoryState}
    (hs : ∀ state, memory broker.service.memory = .ok state → state.Sound uuid broker.drawn) :
    Broker.InMemory uuid ⟨(broker.service.update sql memory).2, broker.drawn⟩ := by
  unfold PubSubService.update
  rw [h.memory]
  cases hm : memory broker.service.memory with
  | error e => exact h
  | ok state => exact ⟨h.memory, hs state hm⟩

theorem mono (h : broker.InMemory uuid) {drawn : Nat} (hd : broker.drawn ≤ drawn) :
    Broker.InMemory uuid ⟨broker.service, drawn⟩ :=
  ⟨h.memory, h.sound.mono hd⟩

/-- Every operation keeps the maps sound. -/
theorem step (hu : Function.Injective uuid) (h : broker.InMemory uuid) (event : Event) :
    (Broker.step codec uuid broker event).InMemory uuid := by
  cases event with
  | createTopic topic =>
    simp only [Broker.step, Broker.serve, PubSubService.createTopicValue, Prod.map_snd, id_eq,
      Event.draws, Nat.add_zero]
    split
    · exact h
    · exact h.update fun state hs => h.sound.createTopic hs
  | deleteTopic name =>
    simp only [Broker.step, Broker.serve, PubSubService.deleteTopicValue, Prod.map_snd, id_eq,
      Event.draws, Nat.add_zero]
    split
    · exact h
    · exact h.update fun state hs => h.sound.deleteTopic hs
  | createSubscription subscription =>
    simp only [Broker.step, Broker.serve, PubSubService.createSubscriptionValue, Prod.map_snd, id_eq,
      Event.draws, Nat.add_zero]
    split
    · exact h
    · exact h.update fun state hs => h.sound.createSubscription hs
  | deleteSubscription name =>
    simp only [Broker.step, Broker.serve, PubSubService.deleteSubscriptionValue, Prod.map_snd, id_eq,
      Event.draws, Nat.add_zero]
    split
    · exact h
    · exact h.update fun state hs => h.sound.deleteSubscription hs
  | publish topic messages published publishedMs =>
    simp only [Broker.step, Broker.serve, PubSubService.publishValues]
    split
    · exact h.mono (Nat.le_add_right _ _)
    · rename_i assigned hp
      obtain ⟨hlen, hassigned⟩ := assignMessages_ok (preparePublish_ok hp)
      rw [h.memory]
      have hs := h.sound.publish hu topic publishedMs
        (saturatingAdd publishedMs (retentionSeconds * 1000)) fun i message hi => by
          obtain ⟨hsize, original, -, rfl⟩ := hassigned i message hi
          exact ⟨rfl, hsize⟩
      rw [hlen] at hs
      exact ⟨h.memory, hs⟩
  | claim subscription maxCount maxBytes deadlineSeconds now =>
    simp only [Broker.step, Broker.serve, PubSubService.claimLeases]
    obtain ⟨given, state, hc, -, hs, -⟩ := h.sound.claim hu subscription maxCount maxBytes
      (saturatingAdd now (max 10 (min 600 deadlineSeconds) * 1000)) now
    rw [h.memory]
    simp only [hc]
    exact ⟨h.memory, hs⟩
  | acknowledge subscription ackIds =>
    simp only [Broker.step, Broker.serve, PubSubService.acknowledgeLeases, Prod.map_snd, id_eq,
      Event.draws, Nat.add_zero]
    split
    · exact h
    · refine h.update fun state hs => ?_
      obtain rfl := Except.ok.inj hs
      exact h.sound.acknowledge subscription ackIds
  | modifyAck subscription ackIds seconds now =>
    simp only [Broker.step, Broker.serve, PubSubService.modifyLeases, Prod.map_snd, id_eq,
      Event.draws, Nat.add_zero]
    split
    · exact h
    · split
      · exact h
      · refine h.update fun state hs => ?_
        obtain rfl := Except.ok.inj hs
        exact h.sound.modifyAck subscription ackIds seconds _

theorem reach (hu : Function.Injective uuid)
    (h : Reach (Broker.step codec uuid) (fun _ _ => True)
      (fun broker => broker.service = .inMemory) broker) : broker.InMemory uuid := by
  refine h.invariant (fun broker hs => ?_) fun broker event hb _ => hb.step hu event
  refine ⟨by rw [hs]; rfl, ?_⟩
  rw [hs]
  exact MemoryState.empty_sound uuid broker.drawn

end Broker.InMemory

/-- In every run of the in-memory broker the maps are consistent, and no claim is refused. -/
theorem memory_consistent (hu : Function.Injective uuid) {broker : Broker β}
    (h : Reach (Broker.step codec uuid) (fun _ _ => True)
      (fun broker => broker.service = .inMemory) broker) :
    broker.service.memory.Consistent ∧
      ∀ (subscription : String) (maxCount : Nat) (maxBytes deadlineSeconds now : Int), ∃ given,
        broker.reply codec uuid (.claim subscription maxCount maxBytes deadlineSeconds now) =
          .claimed given := by
  have hm := Broker.InMemory.reach hu h
  refine ⟨hm.sound.consistent, fun subscription maxCount maxBytes deadlineSeconds now => ?_⟩
  obtain ⟨given, state, hc, -⟩ := hm.sound.claim hu subscription maxCount maxBytes
    (saturatingAdd now (max 10 (min 600 deadlineSeconds) * 1000)) now
  refine ⟨given, ?_⟩
  simp only [Broker.reply, Broker.serve, PubSubService.claimLeases, hm.memory, hc]
  rfl

/-- Two subscriptions, a published message, a claim and its acknowledgement. -/
theorem memory_consistent_sample : (sampleRun .inMemory [sampleCreateTopic,
      sampleCreateSubscription "sub-one", sampleCreateSubscription "sub-two",
      samplePublish [1] 0, sampleClaim "sub-one" 5 1,
      .acknowledge (sampleSubscription "sub-one") [sampleUuid 1]]).service.memory.Consistent :=
  (memory_consistent sampleUuid_injective (sampleRun_reach _ _)).1

end FirebaseEmu.Pubsub
