import FirebaseEmu.Pubsub.MemoryView
import FirebaseEmu.Pubsub.TablesView

namespace FirebaseEmu.Pubsub
open Lib Std

variable {β : Type} {codec : BrokerCodec β} {uuid : Nat → String}

/-- The invariant of the backend in use. -/
def PubSubService.Sound (codec : BrokerCodec β) (uuid : Nat → String) (drawn : Nat)
    (service : PubSubService β) : Prop :=
  match service.persistence with
  | some tables => tables.Sound codec uuid drawn
  | none => service.memory.Sound uuid drawn

namespace PubSubService
variable {drawn : Nat} {service : PubSubService β}

theorem Sound.mono (h : service.Sound codec uuid drawn) {drawn' : Nat} (hd : drawn ≤ drawn') :
    service.Sound codec uuid drawn' := by
  unfold PubSubService.Sound at h ⊢
  split at h
  · exact Tables.Sound.mono h hd
  · exact MemoryState.Sound.mono h hd

theorem Sound.tables (h : service.Sound codec uuid drawn) {tables : Tables β}
    (hp : service.persistence = some tables) : tables.Sound codec uuid drawn := by
  unfold PubSubService.Sound at h
  rwa [hp] at h

theorem Sound.memory (h : service.Sound codec uuid drawn) (hp : service.persistence = none) :
    service.memory.Sound uuid drawn := by
  unfold PubSubService.Sound at h
  rwa [hp] at h

theorem view_tables {tables : Tables β} (hp : service.persistence = some tables) :
    service.view codec = tables.view codec := by
  unfold PubSubService.view
  rw [hp]

theorem view_memory (hp : service.persistence = none) :
    service.view codec = service.memory.view := by
  unfold PubSubService.view
  rw [hp]

theorem Sound.setTables {tables : Tables β} (h : tables.Sound codec uuid drawn) :
    (service.setTables tables).Sound codec uuid drawn := h

theorem Sound.setMemory (hp : service.persistence = none) {memory : MemoryState}
    (h : memory.Sound uuid drawn) : (service.setMemory memory).Sound codec uuid drawn := by
  unfold PubSubService.Sound PubSubService.setMemory
  rw [hp]
  exact h

theorem view_setMemory (hp : service.persistence = none) (memory : MemoryState) :
    (service.setMemory memory).view codec = memory.view := by
  unfold PubSubService.view PubSubService.setMemory
  rw [hp]

/-- An operation is refused and changes nothing, or it does what both backends do. -/
theorem Sound.update (h : service.Sound codec uuid drawn) {P : BrokerView → Prop}
    {sql : Tables β → Except Status (Tables β)} {memory : MemoryState → Except Status MemoryState}
    (hs : ∀ tables tables' : Tables β, tables.Sound codec uuid drawn →
      service.view codec = tables.view codec → sql tables = .ok tables' →
      tables'.Sound codec uuid drawn ∧ P (tables'.view codec))
    (hm : ∀ state state' : MemoryState, state.Sound uuid drawn →
      service.view codec = state.view → memory state = .ok state' →
      state'.Sound uuid drawn ∧ P state'.view) :
    (∃ e, service.update sql memory = (.error e, service)) ∨
      ∃ service', service.update sql memory = (.ok (), service') ∧
        service'.Sound codec uuid drawn ∧ P (service'.view codec) := by
  unfold PubSubService.update
  cases hp : service.persistence with
  | some tables =>
    dsimp only
    cases ho : sql tables with
    | error e => exact .inl ⟨e, rfl⟩
    | ok tables' => exact .inr ⟨_, rfl, hs tables tables' (h.tables hp) (view_tables hp) ho⟩
  | none =>
    dsimp only
    cases ho : memory service.memory with
    | error e => exact .inl ⟨e, rfl⟩
    | ok state =>
      obtain ⟨hsound', hP⟩ := hm service.memory state (h.memory hp) (view_memory hp) ho
      refine .inr ⟨_, rfl, Sound.setMemory hp hsound', ?_⟩
      rw [view_setMemory hp]
      exact hP

end PubSubService

namespace Broker
variable {broker : Broker β}

def Sound (codec : BrokerCodec β) (uuid : Nat → String) (broker : Broker β) : Prop :=
  broker.service.Sound codec uuid broker.drawn

/-- The next identifiers. -/
def uuids (uuid : Nat → String) (broker : Broker β) : Nat → String :=
  fun n => uuid (broker.drawn + n)

/-- The outcome of an operation is one that the view allows. -/
def Allowed (codec : BrokerCodec β) (uuid : Nat → String) (broker : Broker β) (event : Event)
    (outcome : Reply × PubSubService β) : Prop :=
  outcome.2.Sound codec uuid (broker.drawn + event.draws) ∧
    BrokerView.Step (broker.uuids uuid) (broker.service.view codec) event outcome.1
      (outcome.2.view codec)

theorem Allowed.of_view {event : Event} {reply : Reply} {service : PubSubService β}
    (hs : service.Sound codec uuid (broker.drawn + event.draws)) {view view' : BrokerView}
    (hview : broker.service.view codec = view) (hview' : service.view codec = view')
    (hstep : BrokerView.Step (broker.uuids uuid) view event reply view') :
    broker.Allowed codec uuid event (reply, service) := by
  refine ⟨hs, ?_⟩
  rw [hview, hview']
  exact hstep

theorem Sound.refused (h : broker.Sound codec uuid) (event : Event) (status : Status) :
    broker.Allowed codec uuid event (.refused status, broker.service) :=
  ⟨PubSubService.Sound.mono h (Nat.le_add_right _ _), .refused event status⟩

theorem Sound.update (h : broker.Sound codec uuid) {event : Event}
    {sql : Tables β → Except Status (Tables β)} {memory : MemoryState → Except Status MemoryState}
    (hs : ∀ tables tables' : Tables β, tables.Sound codec uuid broker.drawn →
      sql tables = .ok tables' → tables'.Sound codec uuid broker.drawn ∧
        BrokerView.Step (broker.uuids uuid) (tables.view codec) event .done (tables'.view codec))
    (hm : ∀ state state' : MemoryState, state.Sound uuid broker.drawn →
      memory state = .ok state' → state'.Sound uuid broker.drawn ∧
        BrokerView.Step (broker.uuids uuid) state.view event .done state'.view) :
    broker.Allowed codec uuid event ((broker.service.update sql memory).map Reply.ofDone id) := by
  have ho := PubSubService.Sound.update h
    (P := BrokerView.Step (broker.uuids uuid) (broker.service.view codec) event .done)
    (fun tables tables' ht hv ho => hv ▸ hs tables tables' ht ho)
    (fun state state' ht hv ho => hv ▸ hm state state' ht ho)
  rcases ho with ⟨e, he⟩ | ⟨service', he, hsound, hstep⟩
  · rw [he]
    exact h.refused event e
  · rw [he]
    exact ⟨PubSubService.Sound.mono hsound (Nat.le_add_right _ _), hstep⟩

theorem Sound.publish (h : broker.Sound codec uuid) (hu : Function.Injective uuid)
    (topic : String) (messages : List PubsubMessage) (published : Firestore.Timestamp)
    (publishedMs : Int) : broker.Allowed codec uuid (.publish topic messages published publishedMs)
      (broker.serve codec uuid (.publish topic messages published publishedMs)) := by
  unfold serve
  dsimp only
  unfold PubSubService.publishValues
  cases hp : preparePublish topic messages (fun n => uuid (broker.drawn + n)) published with
  | error e => exact h.refused _ e
  | ok assigned =>
    have hassign := preparePublish_ok hp
    obtain ⟨hlen, hassigned⟩ := assignMessages_ok hassign
    have hm : ∀ (i : Nat) (message : PubsubMessage), assigned[i]? = some message →
        message.messageId = uuid (broker.drawn + i) ∧
          message.encodedLen ≤ maxDeliveryMessageBytes := by
      intro i message hi
      obtain ⟨hsize, original, -, rfl⟩ := hassigned i message hi
      exact ⟨rfl, hsize⟩
    dsimp only
    cases hpers : broker.service.persistence with
    | some tables =>
      have hview := @PubSubService.view_tables β codec _ _ hpers
      dsimp only
      cases ho : tables.publish codec topic assigned publishedMs
          (saturatingAdd publishedMs (retentionSeconds * 1000)) with
      | error e => exact h.refused _ e
      | ok tables' =>
        obtain ⟨hs, hv⟩ := (PubSubService.Sound.tables h hpers).publish hu hm ho
        rw [hlen] at hs
        exact .of_view (PubSubService.Sound.setTables hs) hview hv (.publish hassign)
    | none =>
      have hview := @PubSubService.view_memory β codec _ hpers
      have hsound := PubSubService.Sound.memory h hpers
      have hs := hsound.publish hu topic publishedMs
        (saturatingAdd publishedMs (retentionSeconds * 1000)) hm
      dsimp only
      cases ho : broker.service.memory.publish topic assigned publishedMs
          (saturatingAdd publishedMs (retentionSeconds * 1000)) with
      | mk outcome memory =>
        rw [ho, hlen] at hs
        have hs' : (broker.service.setMemory memory).Sound codec uuid
            (broker.drawn + messages.length) := PubSubService.Sound.setMemory hpers hs
        have hv' : (broker.service.setMemory memory).view codec = memory.view :=
          PubSubService.view_setMemory hpers memory
        rcases hsound.view_publish hu topic publishedMs hm ho with
          ⟨status, rfl, hv⟩ | ⟨rfl, hv⟩
        · exact .of_view hs' hview (hv'.trans hv)
            (.cleaned topic messages published publishedMs status)
        · exact .of_view hs' hview (hv'.trans hv) (.publish hassign)

theorem Sound.claim (h : broker.Sound codec uuid) (hu : Function.Injective uuid)
    (subscription : String) (maxCount : Nat) (maxBytes deadlineSeconds now : Int) :
    broker.Allowed codec uuid (.claim subscription maxCount maxBytes deadlineSeconds now)
      (broker.serve codec uuid (.claim subscription maxCount maxBytes deadlineSeconds now)) := by
  unfold serve
  dsimp only
  unfold PubSubService.claimLeases
  cases hpers : broker.service.persistence with
  | some tables =>
    have hview := @PubSubService.view_tables β codec _ _ hpers
    obtain ⟨given, tables', hc, hlen, hs, hg, hv⟩ := (PubSubService.Sound.tables h hpers).claim
      subscription maxCount maxBytes deadlineSeconds now (broker.uuids uuid)
    have hc' : tables.claim codec subscription maxCount maxBytes
        (saturatingAdd now (max 10 (min 600 deadlineSeconds) * 1000)) now
        (fun n => uuid (broker.drawn + n)) = (.ok given, tables') := hc
    dsimp only
    rw [hc']
    exact .of_view (PubSubService.Sound.setTables (hs.mono (Nat.le_add_right _ _))) hview hv
      (.claim hlen hg)
  | none =>
    have hview := @PubSubService.view_memory β codec _ hpers
    obtain ⟨given, state', hc, hlen, hs, hg, hv⟩ :=
      (PubSubService.Sound.memory h hpers).view_claim hu subscription maxCount maxBytes
        deadlineSeconds now
    have hc' : broker.service.memory.claim subscription maxCount maxBytes
        (saturatingAdd now (max 10 (min 600 deadlineSeconds) * 1000)) now
        (fun n => uuid (broker.drawn + n)) = (.ok given, state') := hc
    dsimp only
    rw [hc']
    exact .of_view (PubSubService.Sound.setMemory hpers hs) hview
      ((PubSubService.view_setMemory hpers state').trans hv) (.claim hlen hg)

theorem checkSubscription_ok {subscription checked : Subscription}
    (h : PubSubService.checkSubscription subscription = .ok checked) :
    checked.name = subscription.name ∧ checked.topic = subscription.topic := by
  obtain ⟨normal, hn, h⟩ := exceptBind_eq_ok.mp h
  obtain ⟨parsed, -, h⟩ := exceptBind_eq_ok.mp h
  obtain ⟨parsed', -, h⟩ := exceptBind_eq_ok.mp h
  dsimp only at h
  have hnormal : normal.name = subscription.name ∧ normal.topic = subscription.topic := by
    unfold normalizeSubscription at hn
    repeat' split at hn
    all_goals first
      | (obtain rfl := Except.ok.inj hn
         exact ⟨rfl, rfl⟩)
      | cases hn
  split at h
  · cases h
  · obtain rfl := Except.ok.inj h
    exact hnormal

/-- Either backend does what the view allows. -/
theorem Sound.serve (h : broker.Sound codec uuid) (hu : Function.Injective uuid)
    (event : Event) : broker.Allowed codec uuid event (broker.serve codec uuid event) := by
  cases event with
  | createTopic topic =>
    unfold Broker.serve
    dsimp only
    unfold PubSubService.createTopicValue
    split
    · exact h.refused _ _
    · refine h.update (fun tables tables' hs ho => ?_) fun state state' hs ho => ?_
      · obtain ⟨hs', hv⟩ := Tables.Sound.createTopic hs ho
        exact ⟨hs', hv ▸ .createTopic topic⟩
      · exact ⟨hs.createTopic ho, MemoryState.view_createTopic ho ▸ .createTopic topic⟩
  | deleteTopic name =>
    unfold Broker.serve
    dsimp only
    unfold PubSubService.deleteTopicValue
    split
    · exact h.refused _ _
    · refine h.update (fun tables tables' hs ho => ?_) fun state state' hs ho => ?_
      · obtain ⟨hs', hv⟩ := Tables.Sound.deleteTopic hs ho
        exact ⟨hs', hv ▸ .deleteTopic name⟩
      · exact ⟨hs.deleteTopic ho, MemoryState.view_deleteTopic ho ▸ .deleteTopic name⟩
  | createSubscription subscription =>
    unfold Broker.serve
    dsimp only
    unfold PubSubService.createSubscriptionValue
    split
    · exact h.refused _ _
    · rename_i checked hcheck
      obtain ⟨hname, htopic⟩ := checkSubscription_ok hcheck
      refine h.update (fun tables tables' hs ho => ?_) fun state state' hs ho => ?_
      · obtain ⟨hs', hfree, hv⟩ := Tables.Sound.createSubscription hs ho
        rw [hname] at hfree
        rw [hname, htopic] at hv
        exact ⟨hs', hv ▸ .createSubscription subscription hfree⟩
      · obtain ⟨hfree, hv⟩ := MemoryState.view_createSubscription ho
        rw [hname] at hfree
        rw [hname, htopic] at hv
        exact ⟨hs.createSubscription ho, hv ▸ .createSubscription subscription hfree⟩
  | deleteSubscription name =>
    unfold Broker.serve
    dsimp only
    unfold PubSubService.deleteSubscriptionValue
    split
    · exact h.refused _ _
    · refine h.update (fun tables tables' hs ho => ?_) fun state state' hs ho => ?_
      · obtain ⟨hs', hv⟩ := Tables.Sound.deleteSubscription hs ho
        exact ⟨hs', hv ▸ .deleteSubscription name⟩
      · exact ⟨hs.deleteSubscription ho,
          MemoryState.view_deleteSubscription ho ▸ .deleteSubscription name⟩
  | publish topic messages published publishedMs =>
    exact h.publish hu topic messages published publishedMs
  | claim subscription maxCount maxBytes deadlineSeconds now =>
    exact h.claim hu subscription maxCount maxBytes deadlineSeconds now
  | acknowledge subscription ackIds =>
    unfold Broker.serve
    dsimp only
    unfold PubSubService.acknowledgeLeases
    split
    · exact h.refused _ _
    · refine h.update (fun tables tables' hs ho => ?_) fun state state' hs ho => ?_
      · obtain rfl := Except.ok.inj ho
        obtain ⟨hs', hv⟩ := hs.acknowledge subscription ackIds
        exact ⟨hs', hv ▸ .acknowledge subscription ackIds⟩
      · obtain rfl := Except.ok.inj ho
        exact ⟨hs.acknowledge subscription ackIds,
          hs.linked.view_acknowledge subscription ackIds ▸ .acknowledge subscription ackIds⟩
  | modifyAck subscription ackIds seconds now =>
    unfold Broker.serve
    dsimp only
    unfold PubSubService.modifyLeases
    split
    · exact h.refused _ _
    · split
      · exact h.refused _ _
      · refine h.update (fun tables tables' hs ho => ?_) fun state state' hs ho => ?_
        · obtain rfl := Except.ok.inj ho
          obtain ⟨hs', hv⟩ := hs.modifyAck subscription ackIds seconds now
          exact ⟨hs', hv ▸ .modifyAck subscription ackIds seconds now⟩
        · obtain rfl := Except.ok.inj ho
          exact ⟨hs.modifyAck subscription ackIds seconds _,
            hs.linked.view_modifyAck subscription ackIds seconds now ▸
              .modifyAck subscription ackIds seconds now⟩

/-- A broker on either backend before its first operation. -/
def Empty (broker : Broker β) : Prop :=
  broker.service = .inMemory ∨ broker.service = .onTables .empty

theorem Empty.sound (h : broker.Empty) : broker.Sound codec uuid := by
  unfold Broker.Sound PubSubService.Sound
  rcases h with hs | hs
  · rw [hs]
    exact MemoryState.empty_sound uuid broker.drawn
  · rw [hs]
    constructor <;> simp [Tables.empty]

theorem Empty.board (h : broker.Empty) (subscription id : String) :
    (broker.service.view codec).board subscription id = none := by
  unfold PubSubService.view
  rcases h with hs | hs
  · rw [hs]
    simp [PubSubService.inMemory, MemoryState.view, MemoryState.empty, joined, MemoryState.stored]
  · rw [hs]
    simp [PubSubService.onTables, Tables.view, Tables.empty, joined, Tables.stored]

/-- Only messages under identifiers already drawn are on the board. -/
theorem Sound.board_drawn (h : broker.Sound codec uuid) {subscription id : String}
    {held : Held String PubsubMessage}
    (hb : (broker.service.view codec).board subscription id = some held) :
    ∃ n < broker.drawn, uuid n = id := by
  cases hp : broker.service.persistence with
  | some tables =>
    rw [PubSubService.view_tables hp] at hb
    obtain ⟨found, d, hf, -⟩ := joined_some.mp hb
    obtain ⟨row, hr, -⟩ := Option.bind_eq_some_iff.mp hf
    exact (PubSubService.Sound.tables h hp).drawnMessages id (mem_of_getElem? hr)
  | none =>
    rw [PubSubService.view_memory hp] at hb
    obtain ⟨found, d, hf, -⟩ := joined_some.mp hb
    obtain ⟨message, hm, -⟩ := Option.bind_eq_some_iff.mp hf
    exact (PubSubService.Sound.memory h hp).linked.drawnMessages id (mem_of_getElem? hm)

theorem Sound.step (h : broker.Sound codec uuid) (hu : Function.Injective uuid) (event : Event) :
    (broker.step codec uuid event).Sound codec uuid :=
  (h.serve hu event).1

/-- The broker after some operations. -/
def run (codec : BrokerCodec β) (uuid : Nat → String) (broker : Broker β) (events : List Event) :
    Broker β :=
  events.foldl (Broker.step codec uuid) broker

theorem Sound.run (h : broker.Sound codec uuid) (hu : Function.Injective uuid)
    (events : List Event) : (broker.run codec uuid events).Sound codec uuid := by
  induction events generalizing broker with
  | nil => exact h
  | cons event events ih => exact ih (h.step hu event)

theorem Sound.reach (hu : Function.Injective uuid)
    (h : Reach (Broker.step codec uuid) (fun _ _ => True) Broker.Empty broker) :
    broker.Sound codec uuid :=
  h.invariant (fun _ he => he.sound) fun _ event hs _ => hs.step hu event

end Broker
end FirebaseEmu.Pubsub
