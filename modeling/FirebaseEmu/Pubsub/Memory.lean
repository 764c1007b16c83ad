import FirebaseEmu.Pubsub.Messages
import FirebaseEmu.Lib.Maps

namespace FirebaseEmu.Pubsub
open Lib Std
open Firestore (Timestamp)

structure Delivery where
  subscription : String
  state : DeliveryState
  ackId : Option String
  deadlineMs : Option Int
  attempts : Int
  deriving DecidableEq

def Delivery.available (subscription : String) : Delivery :=
  ⟨subscription, .available, none, none, 0⟩

/-- The delivery given back, whether nacked or expired. -/
def Delivery.release (delivery : Delivery) : Delivery :=
  { delivery with state := .available, ackId := none, deadlineMs := none }

def Delivery.lease (ackId : String) (deadline : Int) (delivery : Delivery) : Delivery :=
  { delivery with
    state := .inFlight
    ackId := some ackId
    deadlineMs := some deadline
    attempts := delivery.attempts + 1 }

/-- In flight with a deadline the clock has reached. -/
def Delivery.expired (now : Int) (delivery : Delivery) : Bool :=
  delivery.state == .inFlight && delivery.deadlineMs.any (· ≤ now)

structure MemoryState where
  topics : ExtTreeMap String Topic
  subscriptions : ExtTreeMap String Subscription
  messages : ExtTreeMap String PubsubMessage
  messageTopics : ExtTreeMap String String
  messageSizes : ExtTreeMap String Int
  messageExpiry : ExtTreeMap String Int
  deliveries : ExtTreeMap DeliveryKey Delivery

/-- The topic of a subscription whose topic was deleted. -/
def deletedTopic : String := "_deleted-topic_"

/-- The loop of a claim over its candidates, in their order. It stops at `maxCount`
messages and passes over those that do not fit the bytes left, unless nothing fits.
`uuids` are the next identifiers drawn. -/
def claimLoop {κ σ ε : Type} (size : κ → Int) (tooLarge : κ → ε)
    (message : κ → Except ε PubsubMessage) (lease : κ → String → σ → σ) (maxCount : Nat)
    (maxBytes : Int) (hasFitting : Bool) (uuids : Nat → String) :
    List κ → List BrokerMessage → Int → σ → Except ε (List BrokerMessage) × σ
  | [], result, _, state => (.ok result, state)
  | key :: keys, result, used, state =>
    if maxCount ≤ result.length then (.ok result, state)
    else if maxDeliveryMessageBytes < size key then (.error (tooLarge key), state)
    else if maxBytes < saturatingAdd used (size key) ∧ (result ≠ [] ∨ hasFitting = true) then
      claimLoop size tooLarge message lease maxCount maxBytes hasFitting uuids keys result used state
    else
      match message key with
      | .error e => (.error e, state)
      | .ok found =>
        let ackId := uuids result.length
        claimLoop size tooLarge message lease maxCount maxBytes hasFitting uuids keys
          (result ++ [⟨ackId, found, size key⟩]) (used + size key) (lease key ackId state)

section
variable {κ σ ε : Type} {size : κ → Int} {tooLarge : κ → ε} {message : κ → Except ε PubsubMessage}
variable {lease : κ → String → σ → σ} {maxCount : Nat} {maxBytes : Int} {hasFitting : Bool}
variable {uuids : Nat → String}

/-- What a claim hands out: some of the candidates in their order, each leased under the
next identifier, from the `n`th on. -/
inductive Handed (size : κ → Int) (message : κ → Except ε PubsubMessage)
    (lease : κ → String → σ → σ) (uuids : Nat → String) :
    Nat → List κ → List BrokerMessage → σ → σ → Prop where
  | stop (n : Nat) (keys : List κ) (state : σ) :
    Handed size message lease uuids n keys [] state state
  | skip {n : Nat} {key : κ} {keys : List κ} {given : List BrokerMessage} {state state' : σ}
    (tail : Handed size message lease uuids n keys given state state') :
    Handed size message lease uuids n (key :: keys) given state state'
  | take {n : Nat} {key : κ} {keys : List κ} {given : List BrokerMessage} {state state' : σ}
    {found : PubsubMessage} (hm : message key = .ok found)
    (tail : Handed size message lease uuids (n + 1) keys given (lease key (uuids n) state) state') :
    Handed size message lease uuids n (key :: keys) (⟨uuids n, found, size key⟩ :: given) state
      state'

/-- One round of a claim that is not refused: it stops, passes over the candidate or takes it. -/
theorem claimLoop_cons {key : κ} {keys : List κ} {result handed : List BrokerMessage} {used : Int}
    {state state' : σ}
    (h : claimLoop size tooLarge message lease maxCount maxBytes hasFitting uuids (key :: keys) result
      used state = (.ok handed, state')) :
    (maxCount ≤ result.length ∧ handed = result ∧ state' = state) ∨
    (maxBytes < saturatingAdd used (size key) ∧ (result ≠ [] ∨ hasFitting = true) ∧
      claimLoop size tooLarge message lease maxCount maxBytes hasFitting uuids keys result used
        state = (.ok handed, state')) ∨
    ∃ found, result.length < maxCount ∧
      (saturatingAdd used (size key) ≤ maxBytes ∨ result = [] ∧ hasFitting = false) ∧
      message key = .ok found ∧
      claimLoop size tooLarge message lease maxCount maxBytes hasFitting uuids keys
        (result ++ [⟨uuids result.length, found, size key⟩]) (used + size key)
        (lease key (uuids result.length) state) = (.ok handed, state') := by
  unfold claimLoop at h
  split at h
  · rename_i hcount
    obtain ⟨hr, rfl⟩ := Prod.mk.inj h
    exact .inl ⟨hcount, (Except.ok.inj hr).symm, rfl⟩
  · rename_i hcount
    split at h
    · cases (Prod.mk.inj h).1
    · split at h
      · rename_i hskip
        exact .inr (.inl ⟨hskip.1, hskip.2, h⟩)
      · rename_i hfits
        split at h
        · cases (Prod.mk.inj h).1
        · rename_i found hm
          refine .inr (.inr ⟨found, Nat.not_le.mp hcount, ?_, hm, h⟩)
          rw [not_and_or, not_or, not_not, Bool.not_eq_true, Int.not_lt] at hfits
          exact hfits

theorem claimLoop_ok {keys : List κ} {result handed : List BrokerMessage} {used : Int}
    {state state' : σ}
    (h : claimLoop size tooLarge message lease maxCount maxBytes hasFitting uuids keys result used
      state = (.ok handed, state')) :
    ∃ given, handed = result ++ given ∧ given.length ≤ maxCount - result.length ∧
      Handed size message lease uuids result.length keys given state state' := by
  induction keys generalizing result used state with
  | nil =>
    obtain ⟨hr, rfl⟩ := Prod.mk.inj h
    obtain rfl := Except.ok.inj hr
    exact ⟨[], by simp, by simp, .stop _ _ _⟩
  | cons key keys ih =>
    rcases claimLoop_cons h with ⟨-, rfl, rfl⟩ | ⟨-, -, h⟩ | ⟨found, hcount, -, hm, h⟩
    · exact ⟨[], by simp, by simp, .stop _ _ _⟩
    · obtain ⟨given, hg, hl, hh⟩ := ih h
      exact ⟨given, hg, hl, hh.skip⟩
    · obtain ⟨given, hg, hl, hh⟩ := ih h
      rw [List.length_append, List.length_singleton] at hl hh
      refine ⟨_ :: given, ?_, ?_, .take hm hh⟩
      · rw [hg, List.append_assoc, List.singleton_append]
      · rw [List.length_cons]
        omega

/-- A claim is refused only over a candidate that is too large or has no message. -/
theorem claimLoop_isOk {keys : List κ} {result : List BrokerMessage} {used : Int} {state : σ}
    (hsize : ∀ key ∈ keys, size key ≤ maxDeliveryMessageBytes)
    (hm : ∀ key ∈ keys, ∃ found, message key = .ok found) :
    ∃ handed state', claimLoop size tooLarge message lease maxCount maxBytes hasFitting uuids keys
      result used state = (.ok handed, state') := by
  induction keys generalizing result used state with
  | nil => exact ⟨_, _, rfl⟩
  | cons key keys ih =>
    rw [List.forall_mem_cons] at hsize hm
    obtain ⟨found, hfound⟩ := hm.1
    unfold claimLoop
    rw [if_neg (Int.not_lt.mpr hsize.1), hfound]
    split
    · exact ⟨_, _, rfl⟩
    · split
      · exact ih hsize.2 hm.2
      · exact ih hsize.2 hm.2

end

namespace MemoryState

def empty : MemoryState := ⟨∅, ∅, ∅, ∅, ∅, ∅, ∅⟩

def createTopic (state : MemoryState) (topic : Topic) : Except Status MemoryState :=
  if state.topics.contains topic.name then .error (alreadyExists "topic already exists")
  else .ok { state with topics := state.topics.insert topic.name topic }

/-- The subscriptions of a deleted topic stay, detached. -/
def deleteTopic (state : MemoryState) (name : String) : Except Status MemoryState :=
  if !state.topics.contains name then .error (notFound "topic not found")
  else .ok { state with
    topics := state.topics.erase name
    subscriptions := state.subscriptions.map fun _ subscription =>
      if subscription.topic == name then { subscription with topic := deletedTopic }
      else subscription }

def createSubscription (state : MemoryState) (subscription : Subscription) :
    Except Status MemoryState :=
  if !state.topics.contains subscription.topic then .error (notFound "topic not found")
  else if state.subscriptions.contains subscription.name then
    .error (alreadyExists "subscription already exists")
  else .ok { state with
    subscriptions := state.subscriptions.insert subscription.name subscription }

/-- The messages with a delivery left are kept. -/
def memoryGc (state : MemoryState) : MemoryState :=
  let live := state.deliveries.keys.map DeliveryKey.message
  { state with
    messages := state.messages.filter fun id _ => live.contains id
    messageTopics := state.messageTopics.filter fun id _ => live.contains id
    messageSizes := state.messageSizes.filter fun id _ => live.contains id
    messageExpiry := state.messageExpiry.filter fun id _ => live.contains id }

def deleteSubscription (state : MemoryState) (name : String) : Except Status MemoryState :=
  if !state.subscriptions.contains name then .error (notFound "subscription not found")
  else .ok (memoryGc { state with
    subscriptions := state.subscriptions.erase name
    deliveries := state.deliveries.filter fun key _ => key.subscription != name })

/-- One round of the cleanup loop. -/
def dropMessage (state : MemoryState) (id : String) : MemoryState :=
  { state with
    messages := state.messages.erase id
    messageTopics := state.messageTopics.erase id
    messageSizes := state.messageSizes.erase id
    messageExpiry := state.messageExpiry.erase id
    deliveries := state.deliveries.filter fun key _ => key.message != id }

def cleanupMemory (state : MemoryState) (now : Int) : MemoryState :=
  let expired := (state.messageExpiry.toList.filter (·.2 ≤ now)).map Prod.fst
  expired.foldl dropMessage state

/-- The size a stored message counts with. -/
def sizeOf (state : MemoryState) (id : String) : Int := state.messageSizes[id]?.getD 0

def memoryUsage (state : MemoryState) : Int × Int :=
  (state.deliveries.size, (state.deliveries.keys.map fun key => state.sizeOf key.message).sum)

/-- The names of the subscriptions attached to a topic. -/
def attachedTo (state : MemoryState) (topic : String) : List String :=
  (state.subscriptions.toList.filter (·.2.topic == topic)).map (·.2.name)

/-- One message of a publish, with a delivery for each subscription. -/
def insertMessage (topic : String) (expiry : Int) (subscriptions : List String)
    (state : MemoryState) (message : PubsubMessage) : MemoryState :=
  { state with
    messageTopics := state.messageTopics.insert message.messageId topic
    messageSizes := state.messageSizes.insert message.messageId message.encodedLen
    messageExpiry := state.messageExpiry.insert message.messageId expiry
    messages := state.messages.insert message.messageId message
    deliveries := subscriptions.foldl (fun deliveries subscription =>
      deliveries.insert ⟨subscription, message.messageId⟩ (.available subscription))
      state.deliveries }

/-- The part of a publish under the lock; the messages carry their identifiers. -/
def publish (state : MemoryState) (topic : String) (messages : List PubsubMessage)
    (publishedMs expiry : Int) : Except Status Unit × MemoryState :=
  let state := state.cleanupMemory publishedMs
  if !state.topics.contains topic then (.error (notFound "topic not found"), state)
  else
    let subscriptions := state.attachedTo topic
    if subscriptions.isEmpty then (.ok (), state)
    else
      let addedCount : Int := subscriptions.length * messages.length
      let addedBytes : Int :=
        (messages.map fun message => (message.encodedLen : Int)).sum * subscriptions.length
      let (count, bytes) := state.memoryUsage
      if maxPendingDeliveries < saturatingAdd count addedCount ∨
          maxPendingBytes < saturatingAdd bytes addedBytes then
        (.error (resourceExhausted "Pub/Sub backlog capacity exceeded"), state)
      else (.ok (), messages.foldl (insertMessage topic expiry subscriptions) state)

/-- The deliveries of a subscription whose leases have expired are given back. -/
def expireLeases (state : MemoryState) (subscription : String) (now : Int) : MemoryState :=
  { state with
    deliveries := state.deliveries.map fun _ delivery =>
      if delivery.subscription == subscription && delivery.expired now then delivery.release
      else delivery }

/-- The keys of a subscription's available deliveries, in the order of their messages. -/
def availableKeys (state : MemoryState) (subscription : String) : List DeliveryKey :=
  (state.deliveries.toList.filter fun entry =>
    entry.1.subscription == subscription && entry.2.state == .available).map Prod.fst

def leaseDelivery (deadline : Int) (key : DeliveryKey) (ackId : String) (state : MemoryState) :
    MemoryState :=
  { state with deliveries := state.deliveries.modify key (Delivery.lease ackId deadline) }

/-- The message of a delivery. -/
def messageOf (state : MemoryState) (key : DeliveryKey) : Except Status PubsubMessage :=
  match state.messages[key.message]? with
  | some message => .ok message
  | none => .error (internal "orphan Pub/Sub delivery")

/-- The selection of a claim. -/
def handOut (state : MemoryState) (subscription : String) (maxCount : Nat)
    (maxBytes deadline : Int) (uuids : Nat → String) :
    Except Status (List BrokerMessage) × MemoryState :=
  let keys := state.availableKeys subscription
  claimLoop (fun key => state.sizeOf key.message)
    (fun key => internal s!"Pub/Sub message {key.message} exceeds delivery response budget")
    state.messageOf (leaseDelivery deadline) maxCount maxBytes
    (keys.any fun key => decide (state.sizeOf key.message ≤ maxBytes)) uuids keys [] 0 state

/-- The part of a claim under the lock. -/
def claim (state : MemoryState) (subscription : String) (maxCount : Nat) (maxBytes : Int)
    (deadline now : Int) (uuids : Nat → String) :
    Except Status (List BrokerMessage) × MemoryState :=
  ((state.cleanupMemory now).expireLeases subscription now).handOut subscription maxCount maxBytes
    deadline uuids

/-- The delivery is of the subscription and under one of the leases. -/
def names (subscription : String) (ackIds : List String) (delivery : Delivery) : Bool :=
  delivery.subscription == subscription && delivery.ackId.any ackIds.contains

def acknowledge (state : MemoryState) (subscription : String) (ackIds : List String) :
    MemoryState :=
  memoryGc { state with
    deliveries := state.deliveries.filter fun _ delivery => !names subscription ackIds delivery }

def modifyAck (state : MemoryState) (subscription : String) (ackIds : List String) (seconds : Int)
    (deadline : Int) : MemoryState :=
  { state with
    deliveries := state.deliveries.map fun _ delivery =>
      if names subscription ackIds delivery then
        if seconds = 0 then delivery.release else { delivery with deadlineMs := some deadline }
      else delivery }

end MemoryState
end FirebaseEmu.Pubsub
