import FirebaseEmu.Pubsub.Broker
import FirebaseEmu.Lib.Board

namespace FirebaseEmu.Pubsub
open Lib Std
open Firestore (Timestamp)

/-- What can be told of a broker on either backend: the topics its subscriptions are
attached to, and the deliveries with their messages. -/
structure BrokerView where
  topicOf : String → Option String
  board : Board String String String PubsubMessage

/-- Deliveries joined with the messages they refer to. -/
def joined {δ : Type} (attempts : δ → Int) (lease : δ → Option (Lease String))
    (message : String → Option (PubsubMessage × Int)) (deliveries : ExtTreeMap DeliveryKey δ) :
    Board String String String PubsubMessage :=
  fun subscription id => (message id).bind fun found =>
    deliveries[(⟨subscription, id⟩ : DeliveryKey)]?.map fun delivery =>
      ⟨found.1, found.2, attempts delivery, lease delivery⟩

/-- A lease as a store keeps it, in two columns. -/
def leaseOf (ackId : Option String) (deadline : Option Int) : Option (Lease String) :=
  ackId.bind fun token => deadline.map fun deadline => ⟨token, deadline⟩

def Delivery.held (delivery : Delivery) : Option (Lease String) :=
  leaseOf delivery.ackId delivery.deadlineMs

def DeliveryRow.held (row : DeliveryRow) : Option (Lease String) := leaseOf row.ackId row.deadline

section
variable {state : DeliveryState} {ackId : Option String} {deadline : Option Int}

/-- The two columns of a lease are both filled in, exactly in flight. -/
structure Columns (state : DeliveryState) (ackId : Option String) (deadline : Option Int) :
    Prop where
  ackId : state = .inFlight ↔ ackId.isSome = true
  deadline : state = .inFlight ↔ deadline.isSome = true

theorem Columns.cases (h : Columns state ackId deadline) :
    (state = .available ∧ ackId = none ∧ deadline = none) ∨
      ∃ token time, state = .inFlight ∧ ackId = some token ∧ deadline = some time := by
  cases state with
  | available =>
    have ha := h.ackId
    have hd := h.deadline
    simp_all
  | inFlight =>
    obtain ⟨token, ht⟩ := Option.isSome_iff_exists.mp (h.ackId.mp rfl)
    obtain ⟨time, hd⟩ := Option.isSome_iff_exists.mp (h.deadline.mp rfl)
    exact .inr ⟨token, time, rfl, ht, hd⟩

theorem Columns.lease_none (h : Columns state ackId deadline) :
    leaseOf ackId deadline = none ↔ state = .available := by
  rcases h.cases with ⟨rfl, rfl, rfl⟩ | ⟨token, time, rfl, rfl, rfl⟩ <;> simp [leaseOf]

theorem Columns.lease_free (h : Columns state ackId deadline) (now : Int) :
    Lease.free now (leaseOf ackId deadline) =
      if (state == .inFlight && deadline.any (· ≤ now)) = true then none
      else leaseOf ackId deadline := by
  rcases h.cases with ⟨rfl, rfl, rfl⟩ | ⟨token, time, rfl, rfl, rfl⟩
  · simp [leaseOf, Lease.free]
  · by_cases hle : time ≤ now
    · simp [leaseOf, Lease.free, hle]
    · simp [leaseOf, Lease.free, hle, Option.filter_some, Int.not_le.mp hle]

theorem Columns.lease_under (h : Columns state ackId deadline) (ackIds : List String) :
    ((leaseOf ackId deadline).any fun lease => decide (lease.token ∈ ackIds)) =
      ackId.any ackIds.contains := by
  rcases h.cases with ⟨rfl, rfl, rfl⟩ | ⟨token, time, rfl, rfl, rfl⟩ <;> simp [leaseOf]

theorem Columns.lease_close (h : Columns state ackId deadline) (ackIds : List String) :
    Lease.close ackIds (leaseOf ackId deadline) =
      if ackId.any ackIds.contains = true then none else leaseOf ackId deadline := by
  rcases h.cases with ⟨rfl, rfl, rfl⟩ | ⟨token, time, rfl, rfl, rfl⟩
  · simp [leaseOf, Lease.close]
  · by_cases hm : token ∈ ackIds <;> simp [leaseOf, Lease.close, Option.filter_some, hm]

theorem Columns.lease_extend (h : Columns state ackId deadline) (ackIds : List String)
    (time : Int) :
    Lease.extend ackIds time (leaseOf ackId deadline) =
      leaseOf ackId (if ackId.any ackIds.contains = true then some time else deadline) := by
  rcases h.cases with ⟨rfl, rfl, rfl⟩ | ⟨token, time', rfl, rfl, rfl⟩
  · simp [leaseOf, Lease.extend]
  · by_cases hm : token ∈ ackIds <;> simp [leaseOf, Lease.extend, hm]

end

namespace MemoryState

def stored (state : MemoryState) (id : String) : Option (PubsubMessage × Int) :=
  state.messages[id]?.bind fun message => state.messageExpiry[id]?.map fun expiry => (message, expiry)

def view (state : MemoryState) : BrokerView where
  topicOf name := state.subscriptions[name]?.map (·.topic)
  board := joined Delivery.attempts Delivery.held state.stored state.deliveries

end MemoryState

variable {β : Type} (codec : BrokerCodec β)

namespace Tables

def stored (tables : Tables β) (id : String) : Option (PubsubMessage × Int) :=
  tables.messages[id]?.bind fun row =>
    (codec.message.decode row.message).toOption.map fun message => (message, row.expireAt)

def view (tables : Tables β) : BrokerView where
  topicOf name := tables.subscriptions[name]?.map (·.topicName)
  board := joined DeliveryRow.attempts DeliveryRow.held (tables.stored codec) tables.deliveries

end Tables

def PubSubService.view (service : PubSubService β) : BrokerView :=
  match service.persistence with
  | some tables => tables.view codec
  | none => service.memory.view

namespace BrokerView

def setBoard (view : BrokerView) (board : Board String String String PubsubMessage) :
    BrokerView :=
  { view with board }

@[simp] theorem setBoard_topicOf (view : BrokerView)
    (board : Board String String String PubsubMessage) :
    (view.setBoard board).topicOf = view.topicOf := rfl

@[simp] theorem setBoard_board (view : BrokerView)
    (board : Board String String String PubsubMessage) : (view.setBoard board).board = board := rfl

/-- The topic is deleted; its subscriptions stay. -/
def detach (view : BrokerView) (name : String) : BrokerView where
  topicOf subscription := (view.topicOf subscription).map fun topic =>
    if topic = name then deletedTopic else topic
  board := view.board

def subscribe (view : BrokerView) (name topic : String) : BrokerView where
  topicOf subscription := if subscription = name then some topic else view.topicOf subscription
  board := view.board

def unsubscribe (view : BrokerView) (name : String) : BrokerView where
  topicOf subscription := if subscription = name then none else view.topicOf subscription
  board := view.board.drop name

/-- The subscription hears of the topic. -/
def attached (view : BrokerView) (topic subscription : String) : Bool :=
  view.topicOf subscription == some topic

def publish (view : BrokerView) (topic : String) (messages : List PubsubMessage)
    (publishedMs : Int) : BrokerView where
  topicOf := view.topicOf
  board := (view.board.sweep publishedMs).posts (view.attached topic)
    (saturatingAdd publishedMs (retentionSeconds * 1000))
    (messages.map fun message => (message.messageId, message))

/-- The deadline of a lease claimed now. -/
def deadlineOf (deadlineSeconds now : Int) : Int :=
  saturatingAdd now (max 10 (min 600 deadlineSeconds) * 1000)

/-- The deliveries as a claim finds them. -/
def claimable (view : BrokerView) (subscription : String) (now : Int) :
    Board String String String PubsubMessage :=
  (view.board.sweep now).free subscription now

def claim (view : BrokerView) (subscription : String) (deadlineSeconds now : Int)
    (given : List BrokerMessage) : BrokerView where
  topicOf := view.topicOf
  board := (view.claimable subscription now).grants subscription (deadlineOf deadlineSeconds now)
    (given.map fun message => (message.message.messageId, message.ackId))

/-- What a claim may hand out: deliveries under no lease, each once, under the next
identifiers. -/
structure Grantable (view : BrokerView) (subscription : String) (now : Int)
    (uuids : Nat → String) (given : List BrokerMessage) : Prop where
  free : ∀ message ∈ given, ∃ held,
    view.claimable subscription now subscription message.message.messageId = some held ∧
      held.lease = none ∧ held.payload = message.message
  once : (given.map fun message => message.message.messageId).Nodup
  fresh : ∀ (i : Nat) (message : BrokerMessage), given[i]? = some message →
    message.ackId = uuids i

def acknowledge (view : BrokerView) (subscription : String) (ackIds : List String) :
    BrokerView :=
  view.setBoard (view.board.take subscription ackIds)

def modifyAck (view : BrokerView) (subscription : String) (ackIds : List String)
    (seconds now : Int) : BrokerView :=
  view.setBoard
    (if seconds = 0 then view.board.giveBack subscription ackIds
    else view.board.extend subscription ackIds (saturatingAdd now (seconds * 1000)))

theorem foldl_board {α : Type} (f : Board String String String PubsubMessage → α →
    Board String String String PubsubMessage) (as : List α) (view : BrokerView) :
    as.foldl (fun view a => view.setBoard (f view.board a)) view =
      view.setBoard (as.foldl f view.board) := by
  induction as generalizing view with
  | nil => rfl
  | cons a as ih =>
    rw [List.foldl_cons, ih, List.foldl_cons]
    rfl

/-- The leases acknowledged one after the other. -/
theorem acknowledge_each (subscription : String) (ackIds : List String) (view : BrokerView) :
    ackIds.foldl (fun view ackId => view.acknowledge subscription [ackId]) view =
      view.acknowledge subscription ackIds := by
  unfold acknowledge
  rw [foldl_board fun board ackId => board.take subscription [ackId], Board.take_each]

theorem modifyAck_each (subscription : String) (ackIds : List String) (seconds now : Int)
    (view : BrokerView) :
    ackIds.foldl (fun view ackId => view.modifyAck subscription [ackId] seconds now) view =
      view.modifyAck subscription ackIds seconds now := by
  unfold modifyAck
  by_cases hz : seconds = 0
  · simp only [hz, if_true]
    rw [foldl_board fun board ackId => board.giveBack subscription [ackId], Board.giveBack_each]
  · simp only [hz, if_false]
    rw [foldl_board fun board ackId => board.extend subscription [ackId] _, Board.extend_each]

/-- What an operation with its answer may do. A refusal leaves the broker as it was, but a
publish in memory cleans up before it is refused. -/
inductive Step (uuids : Nat → String) (view : BrokerView) : Event → Reply → BrokerView → Prop where
  | refused (event : Event) (status : Status) : Step uuids view event (.refused status) view
  | cleaned (topic : String) (messages : List PubsubMessage) (published : Timestamp)
    (publishedMs : Int) (status : Status) :
    Step uuids view (.publish topic messages published publishedMs) (.refused status)
      (view.setBoard (view.board.sweep publishedMs))
  | createTopic (topic : Topic) : Step uuids view (.createTopic topic) .done view
  | deleteTopic (name : String) : Step uuids view (.deleteTopic name) .done (view.detach name)
  | createSubscription (subscription : Subscription)
    (hfree : view.topicOf subscription.name = none) :
    Step uuids view (.createSubscription subscription) .done
      (view.subscribe subscription.name subscription.topic)
  | deleteSubscription (name : String) :
    Step uuids view (.deleteSubscription name) .done (view.unsubscribe name)
  | publish {topic : String} {messages assigned : List PubsubMessage} {published : Timestamp}
    {publishedMs : Int} (ha : assignMessages uuids published messages = .ok assigned) :
    Step uuids view (.publish topic messages published publishedMs)
      (.published (assigned.map PubsubMessage.messageId)) (view.publish topic assigned publishedMs)
  | claim {subscription : String} {maxCount : Nat} {maxBytes deadlineSeconds now : Int}
    {given : List BrokerMessage} (hlen : given.length ≤ maxCount)
    (hg : view.Grantable subscription now uuids given) :
    Step uuids view (.claim subscription maxCount maxBytes deadlineSeconds now) (.claimed given)
      (view.claim subscription deadlineSeconds now given)
  | acknowledge (subscription : String) (ackIds : List String) :
    Step uuids view (.acknowledge subscription ackIds) .done (view.acknowledge subscription ackIds)
  | modifyAck (subscription : String) (ackIds : List String) (seconds now : Int) :
    Step uuids view (.modifyAck subscription ackIds seconds now) .done
      (view.modifyAck subscription ackIds seconds now)

end BrokerView

section
variable {δ : Type} {attempts : δ → Int} {lease : δ → Option (Lease String)}
variable {message : String → Option (PubsubMessage × Int)} {deliveries : ExtTreeMap DeliveryKey δ}

theorem joined_some {subscription id : String} {held : Held String PubsubMessage} :
    joined attempts lease message deliveries subscription id = some held ↔
      ∃ found delivery, message id = some found ∧
        deliveries[(⟨subscription, id⟩ : DeliveryKey)]? = some delivery ∧
        held = ⟨found.1, found.2, attempts delivery, lease delivery⟩ := by
  simp only [joined, Option.bind_eq_some_iff, Option.map_eq_some_iff]
  constructor
  · rintro ⟨found, hf, delivery, hd, rfl⟩
    exact ⟨found, delivery, hf, hd, rfl⟩
  · rintro ⟨found, delivery, hf, hd, rfl⟩
    exact ⟨found, hf, delivery, hd, rfl⟩

/-- The leases of one subscription's deliveries changed. -/
theorem joined_map {reader : String} {f : DeliveryKey → δ → δ}
    {g : Option (Lease String) → Option (Lease String)}
    (hf : ∀ (key : DeliveryKey) (delivery : δ), deliveries[key]? = some delivery →
      attempts (f key delivery) = attempts delivery ∧ lease (f key delivery) =
        if key.subscription = reader then g (lease delivery) else lease delivery) :
    joined attempts lease message (deliveries.map f) =
      (joined attempts lease message deliveries).onLeases reader g := by
  funext s id
  simp only [joined, Board.onLeases, Board.onReader, ExtTreeMap.getElem?_map]
  cases message id with
  | none => simp
  | some found =>
    cases hd : deliveries[(⟨s, id⟩ : DeliveryKey)]? with
    | none => simp
    | some delivery =>
      obtain ⟨ha, hl⟩ := hf ⟨s, id⟩ delivery hd
      simp only [Option.bind_some, Option.map_some, ha, hl]
      split <;> rfl

/-- Some of one subscription's deliveries dropped. -/
theorem joined_filter (gone : Held String PubsubMessage → Bool) {reader : String}
    {keep : DeliveryKey → δ → Bool}
    (hk : ∀ (key : DeliveryKey) (delivery : δ) (found : PubsubMessage × Int),
      deliveries[key]? = some delivery →
      keep key delivery = !(key.subscription == reader &&
        gone ⟨found.1, found.2, attempts delivery, lease delivery⟩)) :
    joined attempts lease message (deliveries.filter keep) =
      (joined attempts lease message deliveries).onReader reader fun held =>
        if gone held then none else some held := by
  funext s id
  simp only [joined, Board.onReader, ExtTreeMap.getElem?_filter']
  cases message id with
  | none => simp
  | some found =>
    cases hd : deliveries[(⟨s, id⟩ : DeliveryKey)]? with
    | none => simp
    | some delivery =>
      have hk := hk ⟨s, id⟩ delivery found hd
      simp only [Option.bind_some, Option.map_some, Option.filter_some, hk]
      by_cases hs : s = reader
      · cases hg : gone ⟨found.1, found.2, attempts delivery, lease delivery⟩ <;> simp [hs]
      · simp [hs]

/-- Deliveries that refer to nothing count for nothing. -/
theorem joined_congr {message' : String → Option (PubsubMessage × Int)}
    (h : ∀ key : DeliveryKey, key ∈ deliveries → message' key.message = message key.message) :
    joined attempts lease message' deliveries = joined attempts lease message deliveries := by
  funext s id
  simp only [joined]
  cases hd : deliveries[(⟨s, id⟩ : DeliveryKey)]? with
  | none => simp
  | some delivery => rw [h ⟨s, id⟩ (mem_of_getElem? hd)]

theorem joined_modify {key : DeliveryKey} {f : δ → δ} {token : String} {deadline : Int}
    (ha : ∀ delivery, attempts (f delivery) = attempts delivery + 1)
    (hl : ∀ delivery, lease (f delivery) = some ⟨token, deadline⟩) :
    joined attempts lease message (deliveries.modify key f) =
      (joined attempts lease message deliveries).grant key.subscription deadline
        (key.message, token) := by
  funext s id
  simp only [joined, Board.grant, ExtTreeMap.getElem?_modify]
  obtain ⟨s', id'⟩ := key
  by_cases he : s = s' ∧ id = id'
  · obtain ⟨rfl, rfl⟩ := he
    cases message id with
    | none => simp
    | some found =>
      cases deliveries[(⟨s, id⟩ : DeliveryKey)]? <;> simp [ha, hl, Held.grant]
  · have hne : (⟨s', id'⟩ : DeliveryKey) ≠ ⟨s, id⟩ := fun h => by
      obtain ⟨rfl, rfl⟩ := DeliveryKey.mk.inj h
      exact he ⟨rfl, rfl⟩
    simp [he, hne]

/-- The messages that have expired are deleted, and their deliveries may be. -/
theorem joined_sweep {message' : String → Option (PubsubMessage × Int)}
    {deliveries' : ExtTreeMap DeliveryKey δ} {now : Int}
    (hm : ∀ id, message' id = (message id).filter fun found => decide (now < found.2))
    (hd : ∀ (key : DeliveryKey) (found : PubsubMessage × Int), message key.message = some found →
      now < found.2 → deliveries'[key]? = deliveries[key]?) :
    joined attempts lease message' deliveries' =
      (joined attempts lease message deliveries).sweep now := by
  funext s id
  simp only [joined, Board.sweep, hm]
  cases hf : message id with
  | none => rfl
  | some found =>
    by_cases hlt : now < found.2
    · rw [Option.filter_some, if_pos (decide_eq_true hlt), Option.bind_some, Option.bind_some,
        hd ⟨s, id⟩ found hf hlt]
      cases deliveries[(⟨s, id⟩ : DeliveryKey)]? <;> simp [Option.filter_some, hlt]
    · cases deliveries[(⟨s, id⟩ : DeliveryKey)]? <;> simp [Option.filter_some, hlt]

/-- A message under an identifier that no delivery has yet, with its deliveries. -/
theorem joined_post (new : DeliveryKey → δ) {message' : String → Option (PubsubMessage × Int)}
    {deliveries' : ExtTreeMap DeliveryKey δ} {id : String} {posted : PubsubMessage} {expiry : Int}
    {waits : String → Bool}
    (hm : ∀ k, message' k = if k = id then some (posted, expiry) else message k)
    (hd : ∀ key : DeliveryKey, deliveries'[key]? =
      if key.message = id ∧ waits key.subscription = true then some (new key) else deliveries[key]?)
    (hfresh : ∀ key : DeliveryKey, key ∈ deliveries → key.message ≠ id)
    (ha : ∀ key, attempts (new key) = 0) (hl : ∀ key, lease (new key) = none) :
    joined attempts lease message' deliveries' =
      (joined attempts lease message deliveries).post waits expiry (id, posted) := by
  funext s k
  simp only [joined, Board.post, hm, hd]
  by_cases hk : k = id
  · subst hk
    cases hw : waits s with
    | true => simp [ha, hl]
    | false =>
      have hnone : deliveries[(⟨s, k⟩ : DeliveryKey)]? = none := by
        cases hdel : deliveries[(⟨s, k⟩ : DeliveryKey)]? with
        | none => rfl
        | some delivery => exact absurd rfl (hfresh ⟨s, k⟩ (mem_of_getElem? hdel))
      simp [hnone]
  · simp [hk]

end

namespace Handed
variable {κ σ ε : Type} {size : κ → Int} {message : κ → Except ε PubsubMessage}
variable {lease : κ → String → σ → σ} {uuids : Nat → String} {n : Nat} {keys : List κ}
variable {given : List BrokerMessage} {state state' : σ}

/-- What is handed out is a candidate, of its size. -/
theorem exists_key (h : Handed size message lease uuids n keys given state state')
    {found : BrokerMessage} (hf : found ∈ given) :
    ∃ key ∈ keys, message key = .ok found.message ∧ found.sizeBytes = size key := by
  induction h with
  | stop => cases hf
  | skip _ ih =>
    obtain ⟨key, hk, hm⟩ := ih hf
    exact ⟨key, List.mem_cons_of_mem _ hk, hm⟩
  | @take n key keys given state state' found' hm' tail ih =>
    rcases List.mem_cons.mp hf with rfl | hf
    · exact ⟨key, List.mem_cons_self, hm', rfl⟩
    · obtain ⟨key, hk, hm⟩ := ih hf
      exact ⟨key, List.mem_cons_of_mem _ hk, hm⟩

theorem ackId (h : Handed size message lease uuids n keys given state state') (i : Nat)
    (found : BrokerMessage) (hi : given[i]? = some found) : found.ackId = uuids (n + i) := by
  induction h generalizing i with
  | stop => cases hi
  | skip _ ih => exact ih i hi
  | @take n key keys given state state' found' hm' tail ih =>
    cases i with
    | zero =>
      obtain rfl := Option.some.inj hi
      rfl
    | succ i =>
      rw [ih i hi]
      congr 1
      omega

/-- The identifiers of the messages follow those of the candidates. -/
theorem sublist {id : κ → String} (h : Handed size message lease uuids n keys given state state')
    (hid : ∀ key ∈ keys, ∀ found, message key = .ok found → found.messageId = id key) :
    (given.map fun found => found.message.messageId).Sublist (keys.map id) := by
  induction h with
  | stop => exact List.nil_sublist _
  | skip _ ih => exact (ih fun key hk => hid key (List.mem_cons_of_mem _ hk)).cons _
  | @take n key keys given state state' found' hm' tail ih =>
    rw [List.map_cons, List.map_cons, hid key List.mem_cons_self found' hm']
    exact (ih fun key hk => hid key (List.mem_cons_of_mem _ hk)).cons_cons _

/-- What a claim hands out is leased in the view of the store. -/
theorem view {deadline : Int} {subscription : String} {id : κ → String}
    (h : Handed size message lease uuids n keys given state state') (view : σ → BrokerView)
    (hlease : ∀ key ∈ keys, ∀ (ackId : String) (state : σ), view (lease key ackId state) =
      (view state).setBoard ((view state).board.grant subscription deadline (id key, ackId)))
    (hid : ∀ key ∈ keys, ∀ found, message key = .ok found → found.messageId = id key) :
    view state' = (view state).setBoard ((view state).board.grants subscription deadline
      (given.map fun found => (found.message.messageId, found.ackId))) := by
  induction h with
  | stop => rfl
  | skip _ ih =>
    exact ih (fun key hk => hlease key (List.mem_cons_of_mem _ hk))
      fun key hk => hid key (List.mem_cons_of_mem _ hk)
  | @take n key keys given state state' found' hm' tail ih =>
    rw [ih (fun key hk => hlease key (List.mem_cons_of_mem _ hk))
      fun key hk => hid key (List.mem_cons_of_mem _ hk), hlease key List.mem_cons_self,
      List.map_cons, hid key List.mem_cons_self found' hm']
    rfl

end Handed
end FirebaseEmu.Pubsub
