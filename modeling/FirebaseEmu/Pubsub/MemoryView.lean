import FirebaseEmu.Pubsub.Consistent
import FirebaseEmu.Pubsub.View

namespace FirebaseEmu.Pubsub
open Lib Std

theorem Delivery.Leased.columns {delivery : Delivery} (h : delivery.Leased) :
    Columns delivery.state delivery.ackId delivery.deadlineMs :=
  ⟨h.ackId, h.deadline⟩

@[simp] theorem Delivery.held_release (delivery : Delivery) : delivery.release.held = none := rfl

@[simp] theorem Delivery.held_lease (ackId : String) (deadline : Int) (delivery : Delivery) :
    (delivery.lease ackId deadline).held = some ⟨ackId, deadline⟩ := rfl

theorem Delivery.Leased.free {delivery : Delivery} (h : delivery.Leased) (now : Int) :
    Lease.free now delivery.held =
      if delivery.expired now = true then none else delivery.held :=
  h.columns.lease_free now

theorem Delivery.Leased.close {delivery : Delivery} (h : delivery.Leased) (ackIds : List String) :
    Lease.close ackIds delivery.held =
      if delivery.ackId.any ackIds.contains = true then none else delivery.held :=
  h.columns.lease_close ackIds

namespace MemoryState
variable {uuid : Nat → String} {drawn : Nat} {state : MemoryState}

/-- The collection drops no message that a delivery refers to. -/
theorem view_memoryGc (state : MemoryState) : state.memoryGc.view = state.view := by
  have hboard : state.memoryGc.view.board = state.view.board := by
    refine joined_congr fun key hk => ?_
    have hlive : (state.deliveries.keys.map DeliveryKey.message).contains key.message = true := by
      rw [List.contains_iff_mem]
      exact List.mem_map_of_mem (ExtTreeMap.mem_keys.mpr hk)
    simp only [stored, memoryGc, getElem?_filterKeys, hlive, if_true]
  rw [BrokerView.mk.injEq]
  exact ⟨rfl, hboard⟩

theorem getElem?_dropMessages (ids : List String) (state : MemoryState) :
    (∀ id : String, (ids.foldl dropMessage state).messages[id]? =
        if id ∈ ids then none else state.messages[id]?) ∧
      (∀ id : String, (ids.foldl dropMessage state).messageExpiry[id]? =
        if id ∈ ids then none else state.messageExpiry[id]?) ∧
      (∀ key : DeliveryKey, (ids.foldl dropMessage state).deliveries[key]? =
        if key.message ∈ ids then none else state.deliveries[key]?) ∧
      (ids.foldl dropMessage state).subscriptions = state.subscriptions := by
  induction ids generalizing state with
  | nil => simp
  | cons first ids ih =>
    obtain ⟨hm, he, hd, hs⟩ := ih (state.dropMessage first)
    have hfirst : ∀ id : String, (first = id) = (id = first) := fun id => propext eq_comm
    refine ⟨fun id => ?_, fun id => ?_, fun key => ?_, hs⟩
    · rw [List.foldl_cons, hm, dropMessage, ExtTreeMap.getElem?_erase]
      by_cases h1 : id ∈ ids <;> by_cases h2 : id = first <;> simp [h1, h2, hfirst]
    · rw [List.foldl_cons, he, dropMessage, ExtTreeMap.getElem?_erase]
      by_cases h1 : id ∈ ids <;> by_cases h2 : id = first <;> simp [h1, h2, hfirst]
    · rw [List.foldl_cons, hd, dropMessage, ExtTreeMap.getElem?_filter']
      by_cases h1 : key.message ∈ ids <;> by_cases h2 : key.message = first <;>
        cases state.deliveries[key]? <;> simp [h1, h2, Option.filter_some]

theorem mem_expired {now : Int} {id : String} :
    id ∈ (state.messageExpiry.toList.filter (·.2 ≤ now)).map Prod.fst ↔
      ∃ expiry, state.messageExpiry[id]? = some expiry ∧ expiry ≤ now := by
  simp only [List.mem_map, List.mem_filter, decide_eq_true_eq]
  constructor
  · rintro ⟨⟨id, expiry⟩, ⟨hm, hle⟩, rfl⟩
    exact ⟨expiry, ExtTreeMap.mem_toList_iff_getElem?_eq_some.mp hm, hle⟩
  · rintro ⟨expiry, he, hle⟩
    exact ⟨(id, expiry), ⟨ExtTreeMap.mem_toList_iff_getElem?_eq_some.mpr he, hle⟩, rfl⟩

theorem view_cleanupMemory (state : MemoryState) (now : Int) :
    (state.cleanupMemory now).view = state.view.setBoard (state.view.board.sweep now) := by
  obtain ⟨hm, he, hd, hs⟩ := getElem?_dropMessages
    ((state.messageExpiry.toList.filter (·.2 ≤ now)).map Prod.fst) state
  simp only [mem_expired] at hm he hd
  unfold cleanupMemory
  generalize List.foldl dropMessage state _ = cleaned at *
  have hstored : ∀ id, cleaned.stored id =
      (state.stored id).filter fun found => decide (now < found.2) := by
    intro id
    simp only [stored, hm, he]
    cases hexp : state.messageExpiry[id]? with
    | none => cases state.messages[id]? <;> simp
    | some expiry =>
      by_cases hle : expiry ≤ now
      · cases state.messages[id]? <;> simp [hle, Option.filter_some]
      · cases state.messages[id]? <;> simp [hle, Option.filter_some, Int.not_le.mp hle]
  rw [BrokerView.mk.injEq]
  refine ⟨?_, joined_sweep hstored fun key found hf hlt => ?_⟩
  · simp only [view, hs, BrokerView.setBoard_topicOf]
  · obtain ⟨message, -, hf⟩ := Option.bind_eq_some_iff.mp hf
    obtain ⟨expiry, hexp, rfl⟩ := Option.map_eq_some_iff.mp hf
    rw [hd, if_neg]
    rintro ⟨expiry', hexp', hle⟩
    obtain rfl := Option.some.inj (hexp.symm.trans hexp')
    exact absurd hle (Int.not_le.mpr hlt)

/-- Deliveries changed in place, by what happens to the leases of one subscription. -/
theorem Linked.view_mapDeliveries (h : state.Linked uuid drawn) {subscription : String}
    {f : Delivery → Delivery} {g : Option (Lease String) → Option (Lease String)}
    (ha : ∀ d, (f d).attempts = d.attempts)
    (hf : ∀ d : Delivery, d.Leased →
      (f d).held = if d.subscription = subscription then g d.held else d.held) :
    view { state with deliveries := state.deliveries.map fun _ => f } =
      state.view.setBoard (state.view.board.onLeases subscription g) := by
  rw [BrokerView.mk.injEq]
  refine ⟨rfl, joined_map fun key d hd => ⟨ha d, ?_⟩⟩
  rw [hf d (h.leased key d hd), h.delivery key d hd]

theorem Linked.view_expireLeases (h : state.Linked uuid drawn) (subscription : String)
    (now : Int) : (state.expireLeases subscription now).view =
      state.view.setBoard (state.view.board.free subscription now) := by
  refine h.view_mapDeliveries (fun d => ?_) fun d hd => ?_
  · split <;> rfl
  · rw [hd.free]
    by_cases hs : d.subscription = subscription
    · cases he : d.expired now <;> simp [hs]
    · simp [hs]

theorem view_leaseDelivery (state : MemoryState) (deadline : Int) (key : DeliveryKey)
    (ackId : String) : (leaseDelivery deadline key ackId state).view =
      state.view.setBoard
        (state.view.board.grant key.subscription deadline (key.message, ackId)) := by
  rw [BrokerView.mk.injEq]
  exact ⟨rfl, joined_modify (fun _ => rfl) fun _ => rfl⟩

theorem Linked.view_acknowledge (h : state.Linked uuid drawn) (subscription : String)
    (ackIds : List String) :
    (state.acknowledge subscription ackIds).view = state.view.acknowledge subscription ackIds := by
  rw [acknowledge, view_memoryGc, BrokerView.acknowledge, BrokerView.mk.injEq]
  refine ⟨rfl, joined_filter _ fun key d found hd => ?_⟩
  rw [MemoryState.names, Held.under, Delivery.held, (h.leased key d hd).columns.lease_under,
    h.delivery key d hd]

theorem Linked.view_modifyAck (h : state.Linked uuid drawn) (subscription : String)
    (ackIds : List String) (seconds now : Int) :
    (state.modifyAck subscription ackIds seconds (saturatingAdd now (seconds * 1000))).view =
      state.view.modifyAck subscription ackIds seconds now := by
  by_cases hz : seconds = 0
  · rw [BrokerView.modifyAck, if_pos hz]
    refine h.view_mapDeliveries (fun d => ?_) fun d hd => ?_
    · simp only [hz, if_true]
      split <;> rfl
    · rw [hd.close]
      by_cases hs : d.subscription = subscription
      · cases hn : d.ackId.any ackIds.contains <;> simp [MemoryState.names, hs, hn, hz]
      · simp [MemoryState.names, hs]
  · rw [BrokerView.modifyAck, if_neg hz]
    refine h.view_mapDeliveries (fun d => ?_) fun d hd => ?_
    · simp only [hz, if_false]
      split <;> rfl
    · rw [Delivery.held, Delivery.held, hd.columns.lease_extend]
      by_cases hs : d.subscription = subscription
      · cases hn : d.ackId.any ackIds.contains <;> simp [MemoryState.names, hs, hn, hz]
      · simp [MemoryState.names, hs]

theorem view_createTopic {topic : Topic} {state' : MemoryState}
    (hs : state.createTopic topic = .ok state') : state'.view = state.view := by
  unfold createTopic at hs
  split at hs
  · cases hs
  · obtain rfl := Except.ok.inj hs
    rfl

theorem view_deleteTopic {name : String} {state' : MemoryState}
    (hs : state.deleteTopic name = .ok state') : state'.view = state.view.detach name := by
  unfold deleteTopic at hs
  split at hs
  · cases hs
  · obtain rfl := Except.ok.inj hs
    rw [BrokerView.detach, BrokerView.mk.injEq]
    refine ⟨?_, rfl⟩
    funext subscription
    simp only [view, ExtTreeMap.getElem?_map]
    cases state.subscriptions[subscription]? with
    | none => rfl
    | some s => by_cases ht : s.topic = name <;> simp [ht]

theorem view_createSubscription {subscription : Subscription} {state' : MemoryState}
    (hs : state.createSubscription subscription = .ok state') :
    state.view.topicOf subscription.name = none ∧
      state'.view = state.view.subscribe subscription.name subscription.topic := by
  unfold createSubscription at hs
  split at hs
  · cases hs
  · split at hs
    · cases hs
    · rename_i hfree
      obtain rfl := Except.ok.inj hs
      constructor
      · rw [view, Option.map_eq_none_iff]
        exact ExtTreeMap.getElem?_eq_none hfree
      · rw [BrokerView.subscribe, BrokerView.mk.injEq]
        refine ⟨?_, rfl⟩
        funext name
        simp only [view, getElem?_insert_if]
        by_cases hn : subscription.name = name
        · simp [hn]
        · simp [hn, Ne.symm hn]

theorem view_deleteSubscription {name : String} {state' : MemoryState}
    (hs : state.deleteSubscription name = .ok state') : state'.view = state.view.unsubscribe name := by
  unfold deleteSubscription at hs
  split at hs
  · cases hs
  · obtain rfl := Except.ok.inj hs
    rw [view_memoryGc, BrokerView.unsubscribe, BrokerView.mk.injEq]
    refine ⟨?_, ?_⟩
    · funext subscription
      simp only [view, ExtTreeMap.getElem?_erase, LawfulEqOrd.compare_eq_iff_eq]
      by_cases hn : name = subscription
      · simp [hn]
      · simp [hn, Ne.symm hn]
    · exact joined_filter (fun _ => true) fun key d found hd => by
        rw [Bool.and_true, bne]

theorem Linked.stored_eq (h : state.Linked uuid drawn) {id : String} {message : PubsubMessage}
    (hm : state.messages[id]? = some message) : ∃ expiry, state.stored id = some (message, expiry) := by
  obtain ⟨expiry, he⟩ := mem_iff_exists.mp ((h.expiry id).mpr (mem_of_getElem? hm))
  exact ⟨expiry, by simp [MemoryState.stored, hm, he]⟩

/-- An available delivery of a sound state stands on the board under no lease. -/
theorem Linked.board_available (h : state.Linked uuid drawn) {key : DeliveryKey}
    {subscription : String} (hk : key ∈ state.availableKeys subscription) {message : PubsubMessage}
    (hm : state.messageOf key = .ok message) :
    message.messageId = key.message ∧ ∃ held,
      state.view.board subscription key.message = some held ∧ held.lease = none ∧
        held.payload = message := by
  obtain ⟨d, hd, rfl, ha⟩ := mem_availableKeys.mp hk
  unfold messageOf at hm
  cases hs : state.messages[key.message]? with
  | none =>
    rw [hs] at hm
    cases hm
  | some found =>
    rw [hs] at hm
    obtain rfl := Except.ok.inj hm
    obtain ⟨expiry, he⟩ := h.stored_eq hs
    refine ⟨(h.ids key.message found hs).1, _, joined_some.mpr ⟨_, d, he, hd, rfl⟩, ?_, rfl⟩
    exact (h.leased key d hd).columns.lease_none.mpr ha

theorem availableKeys_nodup (state : MemoryState) (subscription : String) :
    ((state.availableKeys subscription).map DeliveryKey.message).Nodup := by
  have hkeys : (state.availableKeys subscription).Nodup := by
    have hall : (state.deliveries.toList.map Prod.fst).Nodup := by
      rw [ExtTreeMap.map_fst_toList_eq_keys]
      exact ExtTreeMap.nodup_keys
    exact hall.sublist (List.filter_sublist.map _)
  refine List.Nodup.map_on (fun key hk key' hk' he => ?_) hkeys
  obtain ⟨-, -, hs, -⟩ := mem_availableKeys.mp hk
  obtain ⟨-, -, hs', -⟩ := mem_availableKeys.mp hk'
  obtain ⟨s, id⟩ := key
  obtain ⟨s', id'⟩ := key'
  exact DeliveryKey.mk.injEq .. ▸ ⟨hs.trans hs'.symm, he⟩

theorem Sound.view_claim (h : state.Sound uuid drawn) (hu : Function.Injective uuid)
    (subscription : String) (maxCount : Nat) (maxBytes deadlineSeconds now : Int) :
    ∃ given state', state.claim subscription maxCount maxBytes
        (BrokerView.deadlineOf deadlineSeconds now) now (fun n => uuid (drawn + n)) =
          (.ok given, state') ∧
      given.length ≤ maxCount ∧ state'.Sound uuid (drawn + maxCount) ∧
      state.view.Grantable subscription now (fun n => uuid (drawn + n)) given ∧
      state'.view = state.view.claim subscription deadlineSeconds now given := by
  obtain ⟨given, state', hc, hlen, hs, hh⟩ := h.claim hu subscription maxCount maxBytes
    (BrokerView.deadlineOf deadlineSeconds now) now
  have hclean := ((h.cleanupMemory now).expireLeases subscription now).linked
  have hview : ((state.cleanupMemory now).expireLeases subscription now).view =
      state.view.setBoard (state.view.claimable subscription now) := by
    rw [(h.cleanupMemory now).linked.view_expireLeases, view_cleanupMemory]
    rfl
  unfold Claims at hh
  generalize (state.cleanupMemory now).expireLeases subscription now = cleaned at *
  have hid : ∀ key ∈ cleaned.availableKeys subscription, ∀ found,
      cleaned.messageOf key = .ok found → found.messageId = key.message :=
    fun key hk found hf => (hclean.board_available hk hf).1
  refine ⟨given, state', hc, hlen, hs, ⟨fun message hm => ?_, ?_, ?_⟩, ?_⟩
  · obtain ⟨key, hk, hf, -⟩ := hh.exists_key hm
    obtain ⟨he, hheld⟩ := hclean.board_available hk hf
    rw [hview] at hheld
    rwa [he]
  · exact (availableKeys_nodup cleaned subscription).sublist (hh.sublist hid)
  · intro i message hi
    rw [hh.ackId i message hi, Nat.zero_add]
  · rw [hh.view view (fun key hk ackId state => ?_) hid, hview]
    · rfl
    · obtain ⟨-, -, rfl, -⟩ := mem_availableKeys.mp hk
      exact view_leaseDelivery state _ key ackId

section
variable {topic : String} {expiry : Int} {subscriptions : List String}

theorem Linked.view_insertMessage (h : state.Linked uuid drawn) {message : PubsubMessage}
    {waits : String → Bool} (hw : ∀ s, waits s = true ↔ s ∈ subscriptions)
    (hfresh : message.messageId ∉ state.messages) :
    (MemoryState.insertMessage topic expiry subscriptions state message).view =
      state.view.setBoard (state.view.board.post waits expiry (message.messageId, message)) := by
  rw [BrokerView.mk.injEq]
  refine ⟨rfl, joined_post (fun key => Delivery.available key.subscription) (fun id => ?_)
    (fun key => ?_) (fun key hk he => ?_) (fun _ => rfl) fun _ => rfl⟩
  · simp only [MemoryState.stored, MemoryState.insertMessage, getElem?_insert_if]
    by_cases he : message.messageId = id
    · simp [he]
    · simp [he, Ne.symm he]
  · rw [getElem?_insertMessage]
    simp only [hw]
  · exact hfresh (he ▸ h.stored key hk)

theorem Linked.view_insertMessages (h : state.Linked uuid drawn) (hu : Function.Injective uuid)
    {waits : String → Bool} (hw : ∀ s, waits s = true ↔ s ∈ subscriptions)
    (hs : ∀ s ∈ subscriptions, s ∈ state.subscriptions) {messages : List PubsubMessage}
    (hm : ∀ (i : Nat) (message : PubsubMessage), messages[i]? = some message →
      message.messageId = uuid (drawn + i) ∧ message.encodedLen ≤ maxDeliveryMessageBytes) :
    (messages.foldl (MemoryState.insertMessage topic expiry subscriptions) state).view =
      state.view.setBoard (state.view.board.posts waits expiry
        (messages.map fun message => (message.messageId, message))) := by
  induction messages generalizing state drawn with
  | nil => rfl
  | cons message messages ih =>
    obtain ⟨hid, hlen⟩ := hm 0 message rfl
    have hfresh : message.messageId ∉ state.messages := by
      rw [hid]
      exact h.fresh hu
    rw [List.foldl_cons, ih (h.insertMessage hs hid hlen) hs fun i m hi => ?_,
      h.view_insertMessage hw hfresh]
    · rfl
    · rw [Nat.add_assoc, Nat.add_comm 1]
      exact hm (i + 1) m hi

end

/-- A publish on a sound state: it is refused after a cleanup, or it posts the messages. -/
theorem Sound.view_publish (h : state.Sound uuid drawn) (hu : Function.Injective uuid)
    (topic : String) {messages : List PubsubMessage} (publishedMs : Int)
    (hm : ∀ (i : Nat) (message : PubsubMessage), messages[i]? = some message →
      message.messageId = uuid (drawn + i) ∧ message.encodedLen ≤ maxDeliveryMessageBytes)
    {outcome : Except Status Unit} {state' : MemoryState}
    (hp : state.publish topic messages publishedMs
      (saturatingAdd publishedMs (retentionSeconds * 1000)) = (outcome, state')) :
    (∃ status, outcome = .error status ∧
      state'.view = state.view.setBoard (state.view.board.sweep publishedMs)) ∨
    (outcome = .ok () ∧ state'.view = state.view.publish topic messages publishedMs) := by
  have hclean := (h.cleanupMemory publishedMs).linked
  have hview := view_cleanupMemory state publishedMs
  have hwaits : ∀ s, state.view.attached topic s = true ↔
      s ∈ (state.cleanupMemory publishedMs).attachedTo topic := by
    intro s
    have htopic := congrArg (fun view => view.topicOf s) hview
    rw [BrokerView.setBoard_topicOf] at htopic
    rw [hclean.mem_attachedTo, BrokerView.attached, beq_iff_eq, ← htopic]
    simp only [view, Option.map_eq_some_iff]
  unfold MemoryState.publish at hp
  generalize state.cleanupMemory publishedMs = cleaned at *
  dsimp only at hp
  split at hp
  · obtain ⟨rfl, rfl⟩ := Prod.mk.inj hp
    exact .inl ⟨_, rfl, hview⟩
  · split at hp
    · rename_i hnobody
      obtain ⟨rfl, rfl⟩ := Prod.mk.inj hp
      refine .inr ⟨rfl, ?_⟩
      rw [BrokerView.publish, Board.posts_nobody, hview]
      · rfl
      · intro s
        rw [List.isEmpty_iff.mp hnobody] at hwaits
        simpa using hwaits s
    · split at hp
      · obtain ⟨rfl, rfl⟩ := Prod.mk.inj hp
        exact .inl ⟨_, rfl, hview⟩
      · obtain ⟨rfl, rfl⟩ := Prod.mk.inj hp
        refine .inr ⟨rfl, ?_⟩
        rw [hclean.view_insertMessages hu hwaits (fun s hs => ?_) hm, hview]
        · rfl
        · obtain ⟨sub, hsub, -⟩ := hclean.mem_attachedTo.mp hs
          exact mem_of_getElem? hsub

end MemoryState
end FirebaseEmu.Pubsub
