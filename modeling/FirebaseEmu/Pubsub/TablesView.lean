import FirebaseEmu.Pubsub.View

namespace FirebaseEmu.Pubsub
open Lib Std

namespace DeliveryRow

def Leased (row : DeliveryRow) : Prop := Columns row.state row.ackId row.deadline

theorem available_leased : DeliveryRow.available.Leased := ⟨by simp [available], by simp [available]⟩

theorem release_leased (row : DeliveryRow) : row.release.Leased :=
  ⟨by simp [release], by simp [release]⟩

theorem lease_leased (ackId : String) (deadline : Int) (row : DeliveryRow) :
    (row.lease ackId deadline).Leased :=
  ⟨by simp [lease], by simp [lease]⟩

@[simp] theorem held_release (row : DeliveryRow) : row.release.held = none := rfl

@[simp] theorem held_lease (ackId : String) (deadline : Int) (row : DeliveryRow) :
    (row.lease ackId deadline).held = some ⟨ackId, deadline⟩ := rfl

theorem Leased.free {row : DeliveryRow} (h : row.Leased) (now : Int) :
    Lease.free now row.held = if row.expired now = true then none else row.held :=
  Columns.lease_free h now

theorem Leased.close {row : DeliveryRow} (h : row.Leased) (ackIds : List String) :
    Lease.close ackIds row.held =
      if row.ackId.any ackIds.contains = true then none else row.held :=
  Columns.lease_close h ackIds

end DeliveryRow

variable {β : Type} {codec : BrokerCodec β} {uuid : Nat → String} {drawn : Nat}

namespace Tables

/-- The invariant of the tables: foreign keys hold, blobs decode, and the identifiers are
among the first `drawn` ones. -/
structure Sound (codec : BrokerCodec β) (uuid : Nat → String) (drawn : Nat) (tables : Tables β) :
    Prop where
  stored : ∀ key : DeliveryKey, key ∈ tables.deliveries → key.message ∈ tables.messages
  rows : ∀ (id : String) (row : MessageRow β), tables.messages[id]? = some row →
    ∃ message, row.message = codec.message.encode message ∧ message.messageId = id ∧
      row.sizeBytes = message.encodedLen ∧ message.encodedLen ≤ maxDeliveryMessageBytes
  drawnMessages : ∀ id : String, id ∈ tables.messages → ∃ n < drawn, uuid n = id
  leased : ∀ (key : DeliveryKey) (row : DeliveryRow), tables.deliveries[key]? = some row →
    row.Leased

variable {tables : Tables β}

theorem Sound.mono (h : tables.Sound codec uuid drawn) {drawn' : Nat} (hd : drawn ≤ drawn') :
    tables.Sound codec uuid drawn' where
  __ := h
  drawnMessages id hm := by
    obtain ⟨n, hn, he⟩ := h.drawnMessages id hm
    exact ⟨n, by omega, he⟩

theorem Sound.fresh (h : tables.Sound codec uuid drawn) (hu : Function.Injective uuid) :
    uuid drawn ∉ tables.messages := by
  intro hm
  obtain ⟨n, hn, he⟩ := h.drawnMessages _ hm
  have := hu he
  omega

/-- Rows deleted from the tables, with the deliveries that are left referring to messages
that are left. -/
theorem Sound.restrict (h : tables.Sound codec uuid drawn)
    {messages : ExtTreeMap String (MessageRow β)} {deliveries : ExtTreeMap DeliveryKey DeliveryRow}
    (hm : ∀ (id : String) (row : MessageRow β), messages[id]? = some row →
      tables.messages[id]? = some row)
    (hd : ∀ (key : DeliveryKey) (row : DeliveryRow), deliveries[key]? = some row →
      row.Leased ∧ key.message ∈ messages) :
    Sound codec uuid drawn { tables with messages, deliveries } where
  stored key hk := by
    obtain ⟨row, hr⟩ := mem_iff_exists.mp hk
    exact (hd key row hr).2
  rows id row hr := h.rows id row (hm id row hr)
  drawnMessages id hi := by
    obtain ⟨row, hr⟩ := mem_iff_exists.mp hi
    exact h.drawnMessages id (mem_of_getElem? (hm id row hr))
  leased key row hr := (hd key row hr).1

theorem Sound.stored_eq (h : tables.Sound codec uuid drawn) {id : String} {row : MessageRow β}
    (hr : tables.messages[id]? = some row) : ∃ message, codec.message.decode row.message =
      .ok message ∧ message.messageId = id ∧ row.sizeBytes = message.encodedLen ∧
      message.encodedLen ≤ maxDeliveryMessageBytes ∧
      tables.stored codec id = some (message, row.expireAt) := by
  obtain ⟨message, he, hid, hsize, hlen⟩ := h.rows id row hr
  have hdec : codec.message.decode row.message = .ok message := by
    rw [he, codec.message.decode_encode]
  refine ⟨message, hdec, hid, hsize, hlen, ?_⟩
  rw [Tables.stored, hr, Option.bind_some, hdec]
  rfl

/-- Deliveries changed in place, by what happens to the leases of one subscription. -/
theorem Sound.mapDeliveries (h : tables.Sound codec uuid drawn) {subscription : String}
    {f : DeliveryKey → DeliveryRow → DeliveryRow}
    {g : Option (Lease String) → Option (Lease String)}
    (ha : ∀ key row, (f key row).attempts = row.attempts)
    (hl : ∀ key row, row.Leased → (f key row).Leased)
    (hf : ∀ (key : DeliveryKey) (row : DeliveryRow), row.Leased → (f key row).held =
      if key.subscription = subscription then g row.held else row.held) :
    Sound codec uuid drawn { tables with deliveries := tables.deliveries.map f } ∧
      view codec { tables with deliveries := tables.deliveries.map f } =
        (tables.view codec).setBoard ((tables.view codec).board.onLeases subscription g) := by
  constructor
  · refine h.restrict (fun _ _ hr => hr) fun key row hr => ?_
    rw [ExtTreeMap.getElem?_map, Option.map_eq_some_iff] at hr
    obtain ⟨row, hr, rfl⟩ := hr
    exact ⟨hl key row (h.leased key row hr), h.stored key (mem_of_getElem? hr)⟩
  · rw [BrokerView.mk.injEq]
    exact ⟨rfl, joined_map fun key row hr => ⟨ha key row, hf key row (h.leased key row hr)⟩⟩

theorem Sound.expireLeases (h : tables.Sound codec uuid drawn) (subscription : String)
    (now : Int) : (tables.expireLeases subscription now).Sound codec uuid drawn ∧
      (tables.expireLeases subscription now).view codec =
        (tables.view codec).setBoard ((tables.view codec).board.free subscription now) := by
  refine h.mapDeliveries (fun key row => ?_) (fun key row hr => ?_) fun key row hr => ?_
  · split <;> rfl
  · split
    · exact row.release_leased
    · exact hr
  · rw [hr.free]
    by_cases hs : key.subscription = subscription
    · cases he : row.expired now <;> simp [hs]
    · simp [hs]

theorem Sound.modifyOne (h : tables.Sound codec uuid drawn) (subscription : String)
    (seconds now : Int) (ackId : String) :
    (tables.modifyOne subscription seconds (saturatingAdd now (seconds * 1000)) ackId).Sound codec
        uuid drawn ∧
      (tables.modifyOne subscription seconds (saturatingAdd now (seconds * 1000)) ackId).view codec =
        (tables.view codec).modifyAck subscription [ackId] seconds now := by
  by_cases hz : seconds = 0
  · rw [BrokerView.modifyAck, if_pos hz]
    refine h.mapDeliveries (fun key row => ?_) (fun key row hr => ?_) fun key row hr => ?_
    · simp only [hz, if_true]
      split <;> rfl
    · simp only [hz, if_true]
      split
      · exact row.release_leased
      · exact hr
    · rw [hr.close]
      by_cases hs : key.subscription = subscription
      · cases hn : row.ackId.any [ackId].contains <;> simp [names, hs, hn, hz]
      · simp [names, hs]
  · rw [BrokerView.modifyAck, if_neg hz]
    refine h.mapDeliveries (fun key row => ?_) (fun key row hr => ?_) fun key row hr => ?_
    · simp only [hz, if_false]
      split <;> rfl
    · simp only [hz, if_false]
      split
      · rename_i hn
        rw [Bool.and_eq_true, beq_iff_eq] at hn
        exact ⟨hr.ackId, by simp [hn.2]⟩
      · exact hr
    · rw [DeliveryRow.held, DeliveryRow.held, Columns.lease_extend hr]
      by_cases hs : key.subscription = subscription
      · rcases Columns.cases hr with ⟨hst, ha, hd⟩ | ⟨token, time, hst, ha, hd⟩
        · simp [names, hz, ha, leaseOf]
        · cases hn : row.ackId.any [ackId].contains <;> simp [names, hs, hn, hz, hst]
      · simp [names, hs, hz]

theorem Sound.modifyAck (h : tables.Sound codec uuid drawn) (subscription : String)
    (ackIds : List String) (seconds now : Int) :
    (tables.modifyAck subscription ackIds seconds (saturatingAdd now (seconds * 1000))).Sound codec
        uuid drawn ∧
      (tables.modifyAck subscription ackIds seconds (saturatingAdd now (seconds * 1000))).view
        codec = (tables.view codec).modifyAck subscription ackIds seconds now := by
  unfold Tables.modifyAck
  rw [← BrokerView.modifyAck_each]
  induction ackIds generalizing tables with
  | nil => exact ⟨h, rfl⟩
  | cons ackId ackIds ih =>
    obtain ⟨hs, hv⟩ := h.modifyOne subscription seconds now ackId
    rw [List.foldl_cons, List.foldl_cons, ← hv]
    exact ih hs

/-- Rows deleted from `pubsub_messages`, and their deliveries with them. -/
theorem Sound.deleteMessages (h : tables.Sound codec uuid drawn)
    (which : String → MessageRow β → Bool) :
    (tables.deleteMessages which).Sound codec uuid drawn := by
  refine h.restrict (fun id row hr => ?_) fun key row hr => ?_
  · rw [ExtTreeMap.getElem?_filter', Option.filter_eq_some_iff] at hr
    exact hr.1
  · rw [ExtTreeMap.getElem?_filter', Option.filter_eq_some_iff] at hr
    obtain ⟨hr, hkeep⟩ := hr
    refine ⟨h.leased key row hr, mem_filter.mpr ?_⟩
    obtain ⟨mrow, hm⟩ := mem_iff_exists.mp (h.stored key (mem_of_getElem? hr))
    refine ⟨mrow, hm, ?_⟩
    simpa [hm] using hkeep

theorem Sound.deleteDeliveries (h : tables.Sound codec uuid drawn)
    (which : DeliveryKey → DeliveryRow → Bool) :
    (tables.deleteDeliveries which).Sound codec uuid drawn := by
  refine h.restrict (fun _ _ hr => hr) fun key row hr => ?_
  rw [ExtTreeMap.getElem?_filter', Option.filter_eq_some_iff] at hr
  exact ⟨h.leased key row hr.1, h.stored key (mem_of_getElem? hr.1)⟩

/-- The rows deleted have no delivery. -/
theorem view_deleteOrphans (tables : Tables β) :
    tables.deleteOrphans.view codec = tables.view codec := by
  have hlive : ∀ key : DeliveryKey, key ∈ tables.deliveries →
      (tables.deliveries.keys.map DeliveryKey.message).contains key.message = true := by
    intro key hk
    rw [List.contains_iff_mem]
    exact List.mem_map_of_mem (ExtTreeMap.mem_keys.mpr hk)
  have hkept : tables.deleteOrphans.deliveries = tables.deliveries := by
    apply ExtTreeMap.ext_getElem?
    intro key
    simp only [deleteOrphans, Tables.deleteMessages, ExtTreeMap.getElem?_filter']
    cases hd : tables.deliveries[key]? with
    | none => rfl
    | some row =>
      rw [Option.filter_some, hlive key (mem_of_getElem? hd)]
      cases tables.messages[key.message]? <;> simp
  have hboard : (tables.deleteOrphans.view codec).board = (tables.view codec).board := by
    simp only [view, hkept]
    refine joined_congr fun key hk => ?_
    have hrow : tables.deleteOrphans.messages[key.message]? = tables.messages[key.message]? := by
      simp only [deleteOrphans, Tables.deleteMessages, ExtTreeMap.getElem?_filter', hlive key hk]
      cases tables.messages[key.message]? <;> simp
    simp only [Tables.stored, hrow]
  rw [BrokerView.mk.injEq]
  exact ⟨rfl, hboard⟩

theorem Sound.cleanupSql (h : tables.Sound codec uuid drawn) (now : Int) :
    (tables.cleanupSql now).Sound codec uuid drawn ∧
      (tables.cleanupSql now).view codec =
        (tables.view codec).setBoard ((tables.view codec).board.sweep now) := by
  refine ⟨h.deleteMessages _, ?_⟩
  rw [BrokerView.mk.injEq]
  refine ⟨rfl, joined_sweep (fun id => ?_) fun key found hf hlt => ?_⟩
  · simp only [Tables.stored, Tables.cleanupSql, Tables.deleteMessages, ExtTreeMap.getElem?_filter']
    cases hr : tables.messages[id]? with
    | none => rfl
    | some row =>
      cases hd : (codec.message.decode row.message).toOption <;>
        by_cases hle : row.expireAt ≤ now <;>
        simp [Option.filter_some, hd, hle, Int.not_le.mp]
  · obtain ⟨row, hr, hf⟩ := Option.bind_eq_some_iff.mp hf
    obtain ⟨message, -, rfl⟩ := Option.map_eq_some_iff.mp hf
    simp only [Tables.cleanupSql, Tables.deleteMessages, ExtTreeMap.getElem?_filter', hr]
    cases tables.deliveries[key]? with
    | none => rfl
    | some d =>
      have hkeep : ¬ row.expireAt ≤ now := Int.not_le.mpr hlt
      simp [Option.filter_some, hkeep]

theorem Sound.acknowledge (h : tables.Sound codec uuid drawn) (subscription : String)
    (ackIds : List String) :
    (tables.acknowledge subscription ackIds).Sound codec uuid drawn ∧
      (tables.acknowledge subscription ackIds).view codec =
        (tables.view codec).acknowledge subscription ackIds := by
  have hone : ∀ (tables : Tables β) (ackId : String), tables.Sound codec uuid drawn →
      (tables.deleteDeliveries (names subscription [ackId])).view codec =
        (tables.view codec).acknowledge subscription [ackId] := by
    intro tables ackId h
    rw [BrokerView.acknowledge, BrokerView.mk.injEq]
    refine ⟨rfl, joined_filter _ fun key row found hr => ?_⟩
    rw [names, Held.under, DeliveryRow.held, Columns.lease_under (h.leased key row hr)]
  have heach : (ackIds.foldl (fun tables ackId =>
        tables.deleteDeliveries (names subscription [ackId])) tables).Sound codec uuid drawn ∧
      (ackIds.foldl (fun tables ackId =>
        tables.deleteDeliveries (names subscription [ackId])) tables).view codec =
        (tables.view codec).acknowledge subscription ackIds := by
    rw [← BrokerView.acknowledge_each]
    induction ackIds generalizing tables with
    | nil => exact ⟨h, rfl⟩
    | cons ackId ackIds ih =>
      rw [List.foldl_cons, List.foldl_cons, ← hone tables ackId h]
      exact ih (h.deleteDeliveries _)
  exact ⟨heach.1.deleteMessages _, (view_deleteOrphans _).trans heach.2⟩

theorem Sound.deleteSubscription (h : tables.Sound codec uuid drawn) {name : String}
    {tables' : Tables β} (hs : tables.deleteSubscription name = .ok tables') :
    tables'.Sound codec uuid drawn ∧
      tables'.view codec = (tables.view codec).unsubscribe name := by
  unfold Tables.deleteSubscription at hs
  split at hs
  · cases hs
  · obtain rfl := Except.ok.inj hs
    have herased : Sound codec uuid drawn
        { tables with subscriptions := tables.subscriptions.erase name } := { h with }
    refine ⟨((herased.deleteDeliveries _).deleteDeliveries _).deleteMessages _, ?_⟩
    have hdrop : ∀ tables : Tables β,
        ((tables.deleteDeliveries fun key _ => key.subscription == name).view codec).board =
          (tables.view codec).board.drop name := fun tables =>
      joined_filter (fun _ => true) fun key row found _ => by rw [Bool.and_true]
    rw [view_deleteOrphans, BrokerView.mk.injEq, hdrop, hdrop, Board.drop_drop]
    refine ⟨?_, rfl⟩
    funext subscription
    simp only [view, Tables.deleteDeliveries, BrokerView.unsubscribe, ExtTreeMap.getElem?_erase,
      LawfulEqOrd.compare_eq_iff_eq]
    by_cases hn : name = subscription
    · simp [hn]
    · simp [hn, Ne.symm hn]

theorem Sound.createTopic (h : tables.Sound codec uuid drawn) {topic : Topic} {tables' : Tables β}
    (hs : tables.createTopic codec topic = .ok tables') :
    tables'.Sound codec uuid drawn ∧ tables'.view codec = tables.view codec := by
  unfold Tables.createTopic at hs
  split at hs
  · cases hs
  · obtain rfl := Except.ok.inj hs
    exact ⟨{ h with }, rfl⟩

theorem Sound.createSubscription (h : tables.Sound codec uuid drawn)
    {subscription : Subscription} {tables' : Tables β}
    (hs : tables.createSubscription codec subscription = .ok tables') :
    tables'.Sound codec uuid drawn ∧ (tables.view codec).topicOf subscription.name = none ∧
      tables'.view codec =
        (tables.view codec).subscribe subscription.name subscription.topic := by
  unfold Tables.createSubscription at hs
  split at hs
  · cases hs
  · split at hs
    · cases hs
    · rename_i hfree
      obtain rfl := Except.ok.inj hs
      refine ⟨{ h with }, ?_, ?_⟩
      · rw [view, Option.map_eq_none_iff]
        exact ExtTreeMap.getElem?_eq_none hfree
      · rw [BrokerView.subscribe, BrokerView.mk.injEq]
        refine ⟨?_, rfl⟩
        funext name
        simp only [view, ExtTreeMap.getElem?_insert, LawfulEqOrd.compare_eq_iff_eq]
        by_cases hn : subscription.name = name
        · simp [hn]
        · simp [hn, Ne.symm hn]

/-- The update loop gives the affected rows the name of a deleted topic. -/
theorem detachAll_ok {affected : List (String × SubscriptionRow β)} {tables tables' : Tables β}
    (h : detachAll codec affected tables = .ok tables') :
    tables'.messages = tables.messages ∧ tables'.deliveries = tables.deliveries ∧
      ∀ name : String, tables'.subscriptions[name]?.map (·.topicName) =
        if name ∈ affected.map Prod.fst then some deletedTopic
        else tables.subscriptions[name]?.map (·.topicName) := by
  induction affected generalizing tables with
  | nil =>
    obtain rfl := Except.ok.inj h
    simp
  | cons entry affected ih =>
    obtain ⟨first, row⟩ := entry
    unfold detachAll detach at h
    cases hd : codec.subscription.decode row.subscription with
    | error e =>
      rw [hd] at h
      cases h
    | ok subscription =>
      rw [hd] at h
      obtain ⟨hm, hdel, hn⟩ := ih h
      refine ⟨hm, hdel, fun name => ?_⟩
      rw [hn name, ExtTreeMap.getElem?_insert]
      simp only [LawfulEqOrd.compare_eq_iff_eq]
      by_cases hmem : name ∈ affected.map Prod.fst
      · simp [hmem]
      · by_cases he : first = name
        · simp [he]
        · simp [hmem, he, Ne.symm he]

theorem Sound.deleteTopic (h : tables.Sound codec uuid drawn) {name : String}
    {tables' : Tables β} (hs : tables.deleteTopic codec name = .ok tables') :
    tables'.Sound codec uuid drawn ∧ tables'.view codec = (tables.view codec).detach name := by
  unfold Tables.deleteTopic at hs
  split at hs
  · cases hs
  · obtain ⟨hm, hd, hn⟩ := detachAll_ok hs
    dsimp only at hm hd hn
    refine ⟨⟨?_, ?_, ?_, ?_⟩, ?_⟩
    · rw [hm, hd]
      exact h.stored
    · rw [hm]
      exact h.rows
    · rw [hm]
      exact h.drawnMessages
    · rw [hd]
      exact h.leased
    · rw [BrokerView.detach, BrokerView.mk.injEq]
      constructor
      · funext subscription
        simp only [view, hn]
        have hmem : subscription ∈
            (tables.subscriptions.toList.filter (·.2.topicName == name)).map Prod.fst ↔
              tables.subscriptions[subscription]?.map (·.topicName) = some name := by
          simp only [List.mem_map, List.mem_filter, beq_iff_eq, Option.map_eq_some_iff]
          constructor
          · rintro ⟨⟨key, row⟩, ⟨hm, ht⟩, rfl⟩
            exact ⟨row, ExtTreeMap.mem_toList_iff_getElem?_eq_some.mp hm, ht⟩
          · rintro ⟨row, hr, ht⟩
            exact ⟨(subscription, row), ⟨ExtTreeMap.mem_toList_iff_getElem?_eq_some.mpr hr, ht⟩, rfl⟩
        simp only [hmem]
        cases tables.subscriptions[subscription]? with
        | none => simp
        | some row => by_cases ht : row.topicName = name <;> simp [ht]
      · have hstored : tables'.stored codec = tables.stored codec := by
          funext id
          rw [Tables.stored, hm, Tables.stored]
        simp only [view, hd, hstored]

theorem mem_attachedTo (codec : BrokerCodec β) {topic name : String} :
    name ∈ tables.attachedTo topic ↔ (tables.view codec).topicOf name = some topic := by
  simp only [attachedTo, view, List.mem_map, List.mem_filter, beq_iff_eq, Option.map_eq_some_iff]
  constructor
  · rintro ⟨⟨key, row⟩, ⟨hm, ht⟩, rfl⟩
    exact ⟨row, ExtTreeMap.mem_toList_iff_getElem?_eq_some.mp hm, ht⟩
  · rintro ⟨row, hr, ht⟩
    exact ⟨(name, row), ⟨ExtTreeMap.mem_toList_iff_getElem?_eq_some.mpr hr, ht⟩, rfl⟩

theorem attachedTo_nodup (tables : Tables β) (topic : String) :
    (tables.attachedTo topic).Nodup := by
  have hkeys : (tables.subscriptions.toList.map Prod.fst).Nodup := by
    rw [ExtTreeMap.map_fst_toList_eq_keys]
    exact ExtTreeMap.nodup_keys
  exact hkeys.sublist (List.filter_sublist.map _)

/-- Deliveries under an identifier that no delivery has yet meet no primary key. -/
theorem insertDeliveries_ok (id : String) {subscriptions : List String}
    {deliveries : ExtTreeMap DeliveryKey DeliveryRow} (hn : subscriptions.Nodup)
    (hfresh : ∀ s ∈ subscriptions, (⟨s, id⟩ : DeliveryKey) ∉ deliveries) :
    ∃ deliveries', insertDeliveries id subscriptions deliveries = .ok deliveries' ∧
      ∀ key : DeliveryKey, deliveries'[key]? =
        if key.message = id ∧ key.subscription ∈ subscriptions then some .available
        else deliveries[key]? := by
  induction subscriptions generalizing deliveries with
  | nil => exact ⟨deliveries, rfl, by simp⟩
  | cons first subscriptions ih =>
    rw [List.nodup_cons] at hn
    rw [List.forall_mem_cons] at hfresh
    have hother : ∀ s ∈ subscriptions,
        (⟨s, id⟩ : DeliveryKey) ∉ deliveries.insert ⟨first, id⟩ .available := by
      intro s hs hm
      rw [ExtTreeMap.mem_insert, LawfulEqOrd.compare_eq_iff_eq] at hm
      rcases hm with he | hm
      · exact hn.1 ((DeliveryKey.mk.inj he).1 ▸ hs)
      · exact hfresh.2 s hs hm
    obtain ⟨deliveries', hi, hd⟩ := ih hn.2 hother
    refine ⟨deliveries', ?_, fun key => ?_⟩
    · have hfirst : ¬ deliveries.contains (⟨first, id⟩ : DeliveryKey) = true := hfresh.1
      rw [insertDeliveries, if_neg hfirst, hi]
    · rw [hd key, ExtTreeMap.getElem?_insert]
      simp only [LawfulEqOrd.compare_eq_iff_eq]
      obtain ⟨s, k⟩ := key
      have hcomm : (id = k) = (k = id) := propext eq_comm
      have hcomm' : (first = s) = (s = first) := propext eq_comm
      by_cases hk : k = id <;> by_cases hs : s = first <;> by_cases hm : s ∈ subscriptions <;>
        simp [hk, hs, hm, hcomm, hcomm']

section
variable {topic : String} {publishedMs expiry : Int} {subscriptions : List String}

/-- The insert loop of a publish meets no taken key. -/
theorem Sound.insertMessages (h : tables.Sound codec uuid drawn) (hu : Function.Injective uuid)
    {waits : String → Bool} (hw : ∀ s, waits s = true ↔ s ∈ subscriptions)
    (hn : subscriptions.Nodup) {messages : List PubsubMessage}
    (hm : ∀ (i : Nat) (message : PubsubMessage), messages[i]? = some message →
      message.messageId = uuid (drawn + i) ∧ message.encodedLen ≤ maxDeliveryMessageBytes) :
    ∃ tables', insertMessages codec topic publishedMs expiry subscriptions messages tables =
        .ok tables' ∧ tables'.Sound codec uuid (drawn + messages.length) ∧
      tables'.view codec = (tables.view codec).setBoard ((tables.view codec).board.posts waits
        expiry (messages.map fun message => (message.messageId, message))) := by
  induction messages generalizing tables drawn with
  | nil => exact ⟨tables, rfl, h, rfl⟩
  | cons message messages ih =>
    obtain ⟨hid, hlen⟩ := hm 0 message rfl
    have hfresh : message.messageId ∉ tables.messages := by
      rw [hid]
      exact h.fresh hu
    have hnew : ∀ key : DeliveryKey, key ∈ tables.deliveries → key.message ≠ message.messageId :=
      fun key hk he => hfresh (he ▸ h.stored key hk)
    obtain ⟨deliveries, hi, hd⟩ := insertDeliveries_ok message.messageId hn
      fun s _ hk => hnew ⟨s, message.messageId⟩ hk rfl
    have hlookup : ∀ id : String, (tables.messages.insert message.messageId
        (⟨topic, codec.message.encode message, message.encodedLen, publishedMs, expiry⟩ :
          MessageRow β))[id]? = if id = message.messageId then
            some ⟨topic, codec.message.encode message, message.encodedLen, publishedMs, expiry⟩
          else tables.messages[id]? := by
      intro id
      rw [ExtTreeMap.getElem?_insert]
      simp only [LawfulEqOrd.compare_eq_iff_eq]
      by_cases he : message.messageId = id
      · rw [if_pos he, if_pos he.symm]
      · rw [if_neg he, if_neg (Ne.symm he)]
    have hs : Sound codec uuid (drawn + 1) { tables with
        messages := tables.messages.insert message.messageId
          ⟨topic, codec.message.encode message, message.encodedLen, publishedMs, expiry⟩
        deliveries } := by
      constructor
      · intro key hk
        obtain ⟨row, hr⟩ := mem_iff_exists.mp hk
        rw [hd key] at hr
        rw [ExtTreeMap.mem_insert, LawfulEqOrd.compare_eq_iff_eq]
        split at hr
        · rename_i hpost
          exact .inl hpost.1.symm
        · exact .inr (h.stored key (mem_of_getElem? hr))
      · intro id row hr
        rw [hlookup] at hr
        split at hr
        · rename_i he
          obtain rfl := Option.some.inj hr
          exact ⟨message, rfl, he.symm, rfl, hlen⟩
        · exact h.rows id row hr
      · intro id hi
        rw [ExtTreeMap.mem_insert, LawfulEqOrd.compare_eq_iff_eq] at hi
        rcases hi with rfl | hi
        · exact ⟨drawn, by omega, hid.symm⟩
        · obtain ⟨n, hn, he⟩ := h.drawnMessages id hi
          exact ⟨n, by omega, he⟩
      · intro key row hr
        rw [hd key] at hr
        split at hr
        · obtain rfl := Option.some.inj hr
          exact DeliveryRow.available_leased
        · exact h.leased key row hr
    obtain ⟨tables', hins, hs', hv⟩ := ih hs fun i m hi => by
      rw [Nat.add_assoc, Nat.add_comm 1]
      exact hm (i + 1) m hi
    refine ⟨tables', ?_, ?_, ?_⟩
    · have hnone : ¬ tables.messages.contains message.messageId = true := hfresh
      rw [Tables.insertMessages, if_neg hnone, hi]
      exact hins
    · rw [List.length_cons, ← Nat.add_assoc, Nat.add_right_comm]
      exact hs'
    · have hpost : (view codec { tables with
          messages := tables.messages.insert message.messageId
            ⟨topic, codec.message.encode message, message.encodedLen, publishedMs, expiry⟩
          deliveries }).board =
          (tables.view codec).board.post waits expiry (message.messageId, message) := by
        refine joined_post (fun _ => DeliveryRow.available) (fun id => ?_) (fun key => ?_) hnew
          (fun _ => rfl) fun _ => rfl
        · simp only [Tables.stored, hlookup]
          split
          · rw [Option.bind_some, codec.message.decode_encode]
            rfl
          · rfl
        · simp only [hd, hw]
      rw [hv, hpost]
      rfl

end

/-- The transaction of a publish that is not refused. -/
theorem Sound.publish (h : tables.Sound codec uuid drawn) (hu : Function.Injective uuid)
    {topic : String} {messages : List PubsubMessage} {publishedMs : Int}
    (hm : ∀ (i : Nat) (message : PubsubMessage), messages[i]? = some message →
      message.messageId = uuid (drawn + i) ∧ message.encodedLen ≤ maxDeliveryMessageBytes)
    {tables' : Tables β} (hp : tables.publish codec topic messages publishedMs
      (saturatingAdd publishedMs (retentionSeconds * 1000)) = .ok tables') :
    tables'.Sound codec uuid (drawn + messages.length) ∧
      tables'.view codec = (tables.view codec).publish topic messages publishedMs := by
  obtain ⟨hclean, hview⟩ := h.cleanupSql publishedMs
  have hwaits : ∀ s, (tables.view codec).attached topic s = true ↔
      s ∈ (tables.cleanupSql publishedMs).attachedTo topic := by
    intro s
    rw [mem_attachedTo codec, hview, BrokerView.attached, beq_iff_eq, BrokerView.setBoard_topicOf]
  unfold Tables.publish at hp
  generalize tables.cleanupSql publishedMs = cleaned at *
  dsimp only at hp
  split at hp
  · cases hp
  · split at hp
    · rename_i hnobody
      obtain rfl := Except.ok.inj hp
      refine ⟨hclean.mono (Nat.le_add_right _ _), ?_⟩
      rw [BrokerView.publish, Board.posts_nobody, hview]
      · rfl
      · intro s
        rw [List.isEmpty_iff.mp hnobody] at hwaits
        simpa using hwaits s
    · split at hp
      · cases hp
      · obtain ⟨tables'', hi, hs, hv⟩ := hclean.insertMessages hu hwaits
          (cleaned.attachedTo_nodup topic) hm
        obtain rfl := Except.ok.inj (hi.symm.trans hp)
        rw [hv, hview]
        exact ⟨hs, rfl⟩

theorem mem_candidates {subscription : String} {limit : Nat} {key : DeliveryKey}
    {row : MessageRow β} (h : (key, row) ∈ tables.candidates subscription limit) :
    key.subscription = subscription ∧ tables.messages[key.message]? = some row ∧
      ∃ d, tables.deliveries[key]? = some d ∧ d.state = .available := by
  have hjoin := (List.mem_insertionSort _).mp (List.mem_of_mem_take h)
  obtain ⟨⟨key', d⟩, hm, hrow⟩ := List.mem_filterMap.mp hjoin
  rw [List.mem_filter, ExtTreeMap.mem_toList_iff_getElem?_eq_some, Bool.and_eq_true, beq_iff_eq,
    beq_iff_eq] at hm
  obtain ⟨row', hr, he⟩ := Option.map_eq_some_iff.mp hrow
  obtain ⟨rfl, rfl⟩ := Prod.mk.inj he
  exact ⟨hm.2.1, hr, d, hm.1, hm.2.2⟩

/-- A join names each row of its left side at most once. -/
theorem map_filterMap_sublist {ι κ γ : Type} {f : ι → Option κ} {g : ι → γ} {h : κ → γ}
    (hf : ∀ a b, f a = some b → h b = g a) (l : List ι) :
    ((l.filterMap f).map h).Sublist (l.map g) := by
  induction l with
  | nil => exact List.nil_sublist _
  | cons a l ih =>
    cases ha : f a with
    | none =>
      rw [List.filterMap_cons_none ha]
      exact ih.cons _
    | some b =>
      rw [List.filterMap_cons_some ha, List.map_cons, List.map_cons, hf a b ha]
      exact ih.cons_cons _

theorem candidates_nodup (tables : Tables β) (subscription : String) (limit : Nat) :
    ((tables.candidates subscription limit).map fun candidate => candidate.1.message).Nodup := by
  have hkeys : ((tables.candidates subscription limit).map Prod.fst).Nodup := by
    have hall : (tables.deliveries.toList.map Prod.fst).Nodup := by
      rw [ExtTreeMap.map_fst_toList_eq_keys]
      exact ExtTreeMap.nodup_keys
    unfold candidates
    refine List.Nodup.sublist ((List.take_sublist _ _).map _) ?_
    refine ((List.perm_insertionSort _ _).map _).nodup_iff.mpr ?_
    refine hall.sublist ((map_filterMap_sublist (fun entry row hr => ?_) _).trans
      (List.filter_sublist.map _))
    obtain ⟨row, -, rfl⟩ := Option.map_eq_some_iff.mp hr
    rfl
  have hmessages := List.Nodup.map_on (f := DeliveryKey.message) (fun key hk key' hk' he => ?_) hkeys
  · rwa [List.map_map] at hmessages
  · obtain ⟨⟨key, row⟩, hm, rfl⟩ := List.mem_map.mp hk
    obtain ⟨⟨key', row'⟩, hm', rfl⟩ := List.mem_map.mp hk'
    have hs := (mem_candidates hm).1.trans (mem_candidates hm').1.symm
    obtain ⟨s, id⟩ := key
    obtain ⟨s', id'⟩ := key'
    exact DeliveryKey.mk.injEq .. ▸ ⟨hs, he⟩

theorem Sound.leaseDelivery (h : tables.Sound codec uuid drawn) (deadline : Int)
    (key : DeliveryKey) (ackId : String) :
    (leaseDelivery deadline key ackId tables).Sound codec uuid drawn := by
  refine h.restrict (fun _ _ hr => hr) fun k row hr => ?_
  rw [ExtTreeMap.getElem?_modify] at hr
  split at hr
  · rename_i he
    obtain rfl := LawfulEqOrd.eq_of_compare he
    obtain ⟨old, ho, rfl⟩ := Option.map_eq_some_iff.mp hr
    exact ⟨old.lease_leased ackId deadline, h.stored key (mem_of_getElem? ho)⟩
  · exact ⟨h.leased k row hr, h.stored k (mem_of_getElem? hr)⟩

theorem view_leaseDelivery (tables : Tables β) (deadline : Int) (key : DeliveryKey)
    (ackId : String) : (leaseDelivery deadline key ackId tables).view codec =
      (tables.view codec).setBoard
        ((tables.view codec).board.grant key.subscription deadline (key.message, ackId)) := by
  rw [BrokerView.mk.injEq]
  exact ⟨rfl, joined_modify (fun _ => rfl) fun _ => rfl⟩

/-- What a claim hands out leaves the tables sound. -/
theorem Sound.handed {κ ε : Type} {size : κ → Int} {message : κ → Except ε PubsubMessage}
    {key : κ → DeliveryKey} {deadline : Int} {uuids : Nat → String} {n : Nat} {keys : List κ}
    {given : List BrokerMessage} {tables' : Tables β}
    (hh : Handed size message (fun k => Tables.leaseDelivery deadline (key k)) uuids n keys given tables
      tables') (h : tables.Sound codec uuid drawn) : tables'.Sound codec uuid drawn := by
  induction hh with
  | stop => exact h
  | skip _ ih => exact ih h
  | take _ _ ih => exact ih (h.leaseDelivery _ _ _)

/-- A claim never fails on sound tables. -/
theorem Sound.claim (h : tables.Sound codec uuid drawn) (subscription : String) (maxCount : Nat)
    (maxBytes deadlineSeconds now : Int) (uuids : Nat → String) :
    ∃ given tables', tables.claim codec subscription maxCount maxBytes
        (BrokerView.deadlineOf deadlineSeconds now) now uuids = (.ok given, tables') ∧
      given.length ≤ maxCount ∧ tables'.Sound codec uuid drawn ∧
      (tables.view codec).Grantable subscription now uuids given ∧
      tables'.view codec = (tables.view codec).claim subscription deadlineSeconds now given := by
  obtain ⟨hswept, hview⟩ := h.cleanupSql now
  obtain ⟨hclean, hview'⟩ := hswept.expireLeases subscription now
  rw [hview] at hview'
  have hboard : (((tables.cleanupSql now).expireLeases subscription now).view codec).board =
      (tables.view codec).claimable subscription now := by
    rw [hview']
    rfl
  unfold Tables.claim
  generalize (tables.cleanupSql now).expireLeases subscription now = cleaned at *
  have hfound : ∀ candidate ∈ cleaned.candidates subscription (max 16 (min 1000 (maxCount * 4))),
      candidate.2.sizeBytes ≤ maxDeliveryMessageBytes ∧ ∃ message,
        (codec.message.decode candidate.2.message).mapError corrupt = .ok message ∧
          message.messageId = candidate.1.message ∧ ∃ held,
            (cleaned.view codec).board subscription candidate.1.message = some held ∧
              held.lease = none ∧ held.payload = message := by
    rintro ⟨key, row⟩ hm
    obtain ⟨rfl, hr, d, hd, ha⟩ := mem_candidates hm
    obtain ⟨message, hdec, hid, hsize, hlen, hstored⟩ := hclean.stored_eq hr
    refine ⟨?_, message, ?_, hid, _, joined_some.mpr ⟨_, d, hstored, hd, rfl⟩, ?_, rfl⟩
    · rw [hsize]
      exact Int.ofNat_le.mpr hlen
    · rw [hdec]
      rfl
    · exact (Columns.lease_none (hclean.leased key d hd)).mpr ha
  have hok : ∃ given tables', cleaned.handOut codec subscription maxCount maxBytes
      (BrokerView.deadlineOf deadlineSeconds now) uuids = (.ok given, tables') :=
    claimLoop_isOk (fun candidate hm => (hfound candidate hm).1) fun candidate hm => by
      obtain ⟨-, message, hd, -⟩ := hfound candidate hm
      exact ⟨message, hd⟩
  obtain ⟨given, tables', hc⟩ := hok
  obtain ⟨_, rfl, hlen, hh⟩ := claimLoop_ok hc
  have hid : ∀ candidate ∈ cleaned.candidates subscription (max 16 (min 1000 (maxCount * 4))),
      ∀ found, (codec.message.decode candidate.2.message).mapError corrupt = .ok found →
        found.messageId = candidate.1.message := by
    intro candidate hm found hf
    obtain ⟨-, message, hd, hid, -⟩ := hfound candidate hm
    obtain rfl := Except.ok.inj (hd.symm.trans hf)
    exact hid
  refine ⟨_, tables', ?_, hlen, Sound.handed hh hclean, ⟨fun message hm => ?_, ?_, ?_⟩, ?_⟩
  · rw [hc]
  · obtain ⟨candidate, hk, hf, -⟩ := hh.exists_key hm
    obtain ⟨-, found, hd, he, hheld⟩ := hfound candidate hk
    obtain rfl := Except.ok.inj (hd.symm.trans hf)
    rw [← hboard, he]
    exact hheld
  · exact (candidates_nodup cleaned subscription _).sublist (hh.sublist hid)
  · intro i message hi
    rw [hh.ackId i message hi, List.length_nil, Nat.zero_add]
  · rw [hh.view (view codec) (fun candidate hk ackId tables => ?_) hid, hview']
    · rfl
    · obtain ⟨rfl, -⟩ := mem_candidates hk
      exact view_leaseDelivery tables _ candidate.1 ackId

end Tables
end FirebaseEmu.Pubsub
