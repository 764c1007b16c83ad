import FirebaseEmu.Pubsub.Budget

namespace FirebaseEmu.Pubsub
open Lib Std
open Firestore (Timestamp)

def maxTransportBytes : Nat := 11 * 1024 * 1024

structure ReceivedMessage where
  ackId : String
  message : PubsubMessage
  deliveryAttempt : Int
  deriving DecidableEq

def ReceivedMessage.encodedLen (received : ReceivedMessage) : Nat :=
  stringLen received.ackId + fieldLen received.message.encodedLen +
    intLen received.deliveryAttempt

/-- The messages of a response, which no attempt is told of. -/
def receivedMessages (given : List BrokerMessage) : List ReceivedMessage :=
  given.map fun value => ⟨value.ackId, value.message, 0⟩

/-- The size of a message whose only field is a repeated one. -/
def repeatedLen (received : List ReceivedMessage) : Nat :=
  (received.map fun value => fieldLen value.encodedLen).sum

structure PullResponse where
  receivedMessages : List ReceivedMessage
  deriving DecidableEq

def PullResponse.encodedLen (response : PullResponse) : Nat := repeatedLen response.receivedMessages

structure StreamingPullResponse where
  receivedMessages : List ReceivedMessage
  deriving DecidableEq

def StreamingPullResponse.encodedLen (response : StreamingPullResponse) : Nat :=
  repeatedLen response.receivedMessages

structure PullRequest where
  subscription : String
  returnImmediately : Bool
  maxMessages : Int
  deriving DecidableEq

variable {β : Type} {codec : BrokerCodec β} {uuid : Nat → String}

/-- One round of a pull: its answer, unless it waits for another round. -/
def PubSubService.pull (codec : BrokerCodec β) (service : PubSubService β) (request : PullRequest)
    (timedOut : Bool) (now : Int) (uuids : Nat → String) :
    Option (Except Status PullResponse) × PubSubService β :=
  if request.maxMessages ≤ 0 then
    (some (.error (invalidArgument "max_messages must be positive")), service)
  else
    match service.claim codec request.subscription (min request.maxMessages 1000).toNat
        maxDeliveryMessageBytes none now uuids with
    | (.error e, service) => (some (.error e), service)
    | (.ok messages, service) =>
      if !messages.isEmpty || request.returnImmediately || timedOut then
        (some (.ok ⟨receivedMessages messages⟩), service)
      else (none, service)

/-- What a streaming pull sends of a claim. -/
def streamingPullResponse (given : List BrokerMessage) : StreamingPullResponse :=
  ⟨receivedMessages given⟩

theorem varintLen_le {n k : Nat} (hk : 0 < k) (h : n < 2 ^ (7 * k)) : varintLen n ≤ k := by
  unfold varintLen
  by_cases hz : n = 0
  · subst hz
    rw [Nat.log2_zero]
    omega
  · have hlog := (Nat.log2_lt hz).mpr h
    omega

/-- A field of less than 2 ^ 28 bytes takes five more. -/
theorem fieldLen_le {n : Nat} (h : n < 2 ^ 28) : fieldLen n ≤ n + 5 := by
  have hv : varintLen n ≤ 4 := varintLen_le (by decide) h
  unfold fieldLen
  omega

theorem fieldLen_small {n : Nat} (h : n < 128) : fieldLen n ≤ n + 2 := by
  have hv : varintLen n ≤ 1 := varintLen_le (by decide) h
  unfold fieldLen
  omega

theorem intLen_le (i : Int) : intLen i ≤ 11 := by
  unfold intLen
  split
  · decide
  · have hlt : (i % 2 ^ 64).toNat < 2 ^ (7 * 10) := by omega
    have hv : varintLen (i % 2 ^ 64).toNat ≤ 10 := varintLen_le (by decide) hlt
    omega

theorem timestampLen_le (t : Timestamp) : timestampLen t ≤ 22 := by
  have hs := intLen_le t.seconds.toInt
  have hn := intLen_le t.nanos.toInt
  unfold timestampLen
  omega

/-- The identifiers of the server are this long. -/
def Wire (id : String) : Prop := id.utf8ByteSize = 36

instance (id : String) : Decidable (Wire id) := inferInstanceAs (Decidable (_ = _))

theorem Wire.stringLen {id : String} (h : Wire id) : stringLen id = 38 := by
  unfold Pubsub.stringLen
  rw [h]
  decide

/-- The identifier and the time take some sixty bytes. -/
theorem encodedLen_assign {message : PubsubMessage} {id : String} (published : Timestamp)
    (hid : message.messageId = "") (ht : message.publishTime = none) (hw : Wire id) :
    (message.assign id published).encodedLen ≤ message.encodedLen + 62 := by
  have htime := fieldLen_small (n := timestampLen published)
    (Nat.lt_of_le_of_lt (timestampLen_le published) (by decide))
  have hle := timestampLen_le published
  have hnone : stringLen "" = 0 := rfl
  unfold PubsubMessage.assign PubsubMessage.encodedLen
  dsimp only
  rw [hid, ht, hw.stringLen, hnone]
  dsimp only [Option.map_some, Option.getD_some, Option.map_none, Option.getD_none]
  omega

/-- A message that a publish takes. -/
structure Accepted (message : PubsubMessage) : Prop where
  messageId : message.messageId = ""
  publishTime : message.publishTime = none
  size : message.encodedLen ≤ maxMessageBytes

theorem checkMessages_accepted {messages : List PubsubMessage} {before after : Nat}
    (h : checkMessages messages before = .ok after) : ∀ message ∈ messages, Accepted message := by
  induction messages generalizing before with
  | nil => simp
  | cons message messages ih =>
    unfold checkMessages at h
    split at h
    · cases h
    · split at h
      · cases h
      · rename_i hassigned
        split at h
        · cases h
        · split at h
          · cases h
          · rename_i hsize
            simp only [Bool.or_eq_true, bne_iff_ne, ne_eq, not_or, not_not, Option.isSome_iff_ne_none]
              at hassigned
            rw [List.forall_mem_cons]
            exact ⟨⟨hassigned.1, hassigned.2, Nat.not_lt.mp hsize⟩, ih h⟩

theorem Accepted.deliverable {message : PubsubMessage} (h : Accepted message) {id : String}
    (hw : Wire id) (published : Timestamp) :
    (message.assign id published).encodedLen ≤ maxDeliveryMessageBytes := by
  have hlen := encodedLen_assign published h.messageId h.publishTime hw
  have hsize := h.size
  unfold maxDeliveryMessageBytes
  omega

/-- Accepted messages never exceed the budget of a delivery. -/
theorem assignMessages_isOk {messages : List PubsubMessage} {uuids : Nat → String}
    {published : Timestamp} (hm : ∀ message ∈ messages, Accepted message)
    (hw : ∀ i < messages.length, Wire (uuids i)) :
    ∃ assigned, assignMessages uuids published messages = .ok assigned := by
  induction messages generalizing uuids with
  | nil => exact ⟨[], rfl⟩
  | cons message messages ih =>
    rw [List.forall_mem_cons] at hm
    obtain ⟨assigned, ha⟩ := @ih (fun n => uuids (n + 1)) hm.2 fun i hi =>
      hw (i + 1) (Nat.succ_lt_succ hi)
    have hfits := hm.1.deliverable (hw 0 (Nat.zero_lt_succ _)) published
    refine ⟨message.assign (uuids 0) published :: assigned, ?_⟩
    rw [assignMessages, if_neg (Nat.not_lt.mpr hfits), ha]
    rfl

/-- The refusal of a message that leaves no room for its delivery. -/
def deliveryBudget : Status := resourceExhausted "message exceeds delivery response budget"

theorem parseResource_code {value kind : String} {status : Status}
    (h : parseResource value kind = .error status) : status.code = .invalidArgument := by
  unfold parseResource at h
  split at h
  · split at h
    · cases h
    · obtain rfl := Except.error.inj h
      rfl
  · obtain rfl := Except.error.inj h
    rfl

theorem checkMessages_error {messages : List PubsubMessage} {before : Nat} {status : Status}
    (h : checkMessages messages before = .error status) : status ≠ deliveryBudget := by
  induction messages generalizing before with
  | nil => cases h
  | cons message messages ih =>
    unfold checkMessages at h
    split at h
    · obtain rfl := Except.error.inj h
      decide
    · split at h
      · obtain rfl := Except.error.inj h
        decide
      · split at h
        · obtain rfl := Except.error.inj h
          decide
        · split at h
          · obtain rfl := Except.error.inj h
            decide
          · exact ih h

theorem ne_deliveryBudget {status : Status} (h : status.code ≠ .resourceExhausted) :
    status ≠ deliveryBudget := fun he => h (he ▸ rfl)

/-- The part of a publish before the store refuses no message for its delivery. -/
theorem preparePublish_error {topic : String} {messages : List PubsubMessage}
    {uuids : Nat → String} {published : Timestamp} {status : Status}
    (hw : ∀ i < messages.length, Wire (uuids i))
    (h : preparePublish topic messages uuids published = .error status) :
    status ≠ deliveryBudget := by
  unfold preparePublish at h
  cases hp : parseResource topic "topics" with
  | error e =>
    rw [hp] at h
    obtain rfl := Except.error.inj h
    exact ne_deliveryBudget (by rw [parseResource_code hp]; decide)
  | ok parsed =>
    rw [hp] at h
    simp only [bind, Except.bind] at h
    split at h
    · obtain rfl := Except.error.inj h
      decide
    · cases hc : checkMessages messages 0 with
      | error e =>
        rw [hc] at h
        obtain rfl := Except.error.inj h
        exact checkMessages_error hc
      | ok bytes =>
        rw [hc] at h
        simp only at h
        split at h
        · obtain rfl := Except.error.inj h
          decide
        · obtain ⟨assigned, ha⟩ := @assignMessages_isOk messages uuids published
            (checkMessages_accepted hc) hw
          rw [ha] at h
          cases h

namespace Tables
variable {tables : Tables β} {topic : String} {publishedMs expiry : Int}
variable {subscriptions : List String} {status : Status}

theorem insertDeliveries_error {id : String} {deliveries : ExtTreeMap DeliveryKey DeliveryRow}
    (h : insertDeliveries id subscriptions deliveries = .error status) :
    status.code = .internal := by
  induction subscriptions generalizing deliveries with
  | nil => cases h
  | cons subscription subscriptions ih =>
    unfold insertDeliveries at h
    split at h
    · obtain rfl := Except.error.inj h
      rfl
    · exact ih h

theorem insertMessages_error {messages : List PubsubMessage}
    (h : insertMessages codec topic publishedMs expiry subscriptions messages tables =
      .error status) : status.code = .internal := by
  induction messages generalizing tables with
  | nil => cases h
  | cons message messages ih =>
    unfold insertMessages at h
    split at h
    · obtain rfl := Except.error.inj h
      rfl
    · split at h
      · rename_i he
        obtain rfl := Except.error.inj h
        exact insertDeliveries_error he
      · exact ih h

theorem publish_error {messages : List PubsubMessage}
    (h : tables.publish codec topic messages publishedMs expiry = .error status) :
    status ≠ deliveryBudget := by
  unfold Tables.publish at h
  dsimp only at h
  split at h
  · obtain rfl := Except.error.inj h
    decide
  · split at h
    · cases h
    · split at h
      · obtain rfl := Except.error.inj h
        decide
      · exact ne_deliveryBudget (by rw [insertMessages_error h]; decide)

end Tables

theorem MemoryState.publish_error {state : MemoryState} {topic : String}
    {messages : List PubsubMessage} {publishedMs expiry : Int} {status : Status}
    (h : (state.publish topic messages publishedMs expiry).1 = .error status) :
    status ≠ deliveryBudget := by
  unfold MemoryState.publish at h
  dsimp only at h
  split at h
  · obtain rfl := Except.error.inj h
    decide
  · split at h
    · cases h
    · split at h
      · obtain rfl := Except.error.inj h
        decide
      · cases h

/-- The packing of a message that was handed out takes some fifty bytes. -/
theorem repeatedLen_le {given : List BrokerMessage} (hw : ∀ message ∈ given, Wire message.ackId)
    (hs : ∀ message ∈ given, message.sizeBytes = message.message.encodedLen ∧
      message.message.encodedLen ≤ maxDeliveryMessageBytes) :
    (repeatedLen (receivedMessages given) : Int) ≤ bytesOf given + 48 * given.length := by
  induction given with
  | nil => decide
  | cons message given ih =>
    rw [List.forall_mem_cons] at hw hs
    have hrest := ih hw.2 hs.2
    obtain ⟨hsize, hmax⟩ := hs.1
    have hsmall : maxDeliveryMessageBytes < 2 ^ 27 := by decide
    have hinner : fieldLen message.message.encodedLen ≤ message.message.encodedLen + 5 :=
      fieldLen_le (by omega)
    have hlen : (⟨message.ackId, message.message, 0⟩ : ReceivedMessage).encodedLen ≤
        message.message.encodedLen + 43 := by
      unfold ReceivedMessage.encodedLen
      dsimp only
      rw [hw.1.stringLen, show intLen 0 = 0 from rfl]
      omega
    have houter : fieldLen (⟨message.ackId, message.message, 0⟩ : ReceivedMessage).encodedLen ≤
        (⟨message.ackId, message.message, 0⟩ : ReceivedMessage).encodedLen + 5 :=
      fieldLen_le (by omega)
    have hcons : repeatedLen (receivedMessages (message :: given)) =
        fieldLen (⟨message.ackId, message.message, 0⟩ : ReceivedMessage).encodedLen +
          repeatedLen (receivedMessages given) := rfl
    have hbytes : bytesOf (message :: given) = message.sizeBytes + bytesOf given := by
      simp [bytesOf]
    rw [hcons, hbytes, List.length_cons]
    push_cast
    omega

namespace Picked
variable {maxCount : Nat} {maxBytes : Int} {candidates : List Int} {given : List BrokerMessage}

theorem bytes_le (h : Picked maxCount maxBytes candidates given)
    (hm : maxBytes ≤ maxDeliveryMessageBytes) : bytesOf given ≤ maxDeliveryMessageBytes := by
  rcases h.bytes with rfl | hle | ⟨message, rfl, -⟩
  · decide
  · exact hle.trans hm
  · obtain ⟨hsize, hmax⟩ := h.sizes message List.mem_cons_self
    rw [bytesOf_singleton]
    omega

/-- What a claim hands out fits in one response. -/
theorem fits (h : Picked maxCount maxBytes candidates given)
    (hm : maxBytes ≤ maxDeliveryMessageBytes) (hlen : given.length ≤ 1000)
    (hw : ∀ message ∈ given, Wire message.ackId) :
    repeatedLen (receivedMessages given) ≤ maxTransportBytes := by
  have hle := repeatedLen_le hw h.sizes
  have hbytes := h.bytes_le hm
  unfold maxDeliveryMessageBytes maxMessageBytes at hbytes
  unfold maxTransportBytes
  omega

end Picked

namespace Broker
variable {broker : Broker β} {subscription : String} {maxCount : Nat}
variable {maxBytes deadlineSeconds now : Int} {given : List BrokerMessage}

theorem publish_budget {topic : String}
    {messages : List PubsubMessage} {published : Timestamp} {publishedMs : Int}
    (hw : ∀ i < messages.length, Wire (broker.uuids uuid i)) :
    broker.reply codec uuid (.publish topic messages published publishedMs) ≠
      .refused deliveryBudget := by
  intro hr
  change Reply.ofPublished (broker.service.publishValues codec topic messages published publishedMs
    (broker.uuids uuid)).1 = _ at hr
  unfold PubSubService.publishValues at hr
  cases hp : preparePublish topic messages (broker.uuids uuid) published with
  | error e =>
    rw [hp] at hr
    exact preparePublish_error hw hp (Reply.refused.inj hr)
  | ok assigned =>
    rw [hp] at hr
    dsimp only at hr
    cases hpers : broker.service.persistence with
    | some tables =>
      rw [hpers] at hr
      dsimp only at hr
      split at hr
      · rename_i ho
        exact Tables.publish_error ho (Reply.refused.inj hr)
      · cases hr
    | none =>
      rw [hpers] at hr
      dsimp only at hr
      cases ho : (broker.service.memory.publish topic assigned publishedMs
          (saturatingAdd publishedMs (retentionSeconds * 1000))).1 with
      | error e =>
        rw [ho] at hr
        exact MemoryState.publish_error ho (Reply.refused.inj hr)
      | ok done =>
        rw [ho] at hr
        cases hr

theorem Sound.claim_fits (h : broker.Sound codec uuid) (hu : Function.Injective uuid)
    {service : PubSubService β}
    (hc : broker.service.claimLeases codec subscription maxCount maxBytes deadlineSeconds now
      (broker.uuids uuid) = (.ok given, service))
    (hm : maxBytes ≤ maxDeliveryMessageBytes) (hcount : maxCount ≤ 1000)
    (hw : ∀ message ∈ given, Wire message.ackId) :
    repeatedLen (receivedMessages given) ≤ maxTransportBytes :=
  (h.claim_picked hc).fits hm ((h.selected hu hc).count.trans hcount) hw

end Broker

namespace StreamingPull
variable {pull : StreamingPull β} {given : List BrokerMessage}

/-- A step of a stream is at most one operation of its broker. -/
theorem broker_step (event : StreamEvent) : (pull.step codec uuid event).broker = pull.broker ∨
    ∃ event', (pull.step codec uuid event).broker = pull.broker.step codec uuid event' := by
  cases event with
  | others event => exact .inr ⟨event, rfl⟩
  | tick now => exact .inl rfl
  | receive incoming =>
    left
    change (pull.receive incoming).broker = _
    unfold StreamingPull.receive
    split <;> rfl
  | lookup =>
    left
    change (pull.lookup codec).broker = _
    unfold StreamingPull.lookup
    split
    · split
      · rfl
      · split <;> rfl
    · split <;> rfl
    · rfl
  | perform now =>
    change (pull.perform codec uuid now).broker = _ ∨
      ∃ event', (pull.perform codec uuid now).broker = _
    unfold StreamingPull.perform
    split
    · exact .inr ⟨_, rfl⟩
    · exact .inr ⟨_, rfl⟩
    · exact .inl rfl
    · exact .inr ⟨_, rfl⟩
    · exact .inr ⟨_, rfl⟩
    · exact .inl rfl
  | fail status =>
    left
    change (pull.fail status).broker = _
    unfold StreamingPull.fail
    split <;> rfl
  | resume =>
    left
    change (pull.resume).broker = _
    unfold StreamingPull.resume
    split <;> rfl
  | sent delivered =>
    left
    change (pull.sent delivered).broker = _
    unfold StreamingPull.sent
    split <;> rfl
  | stop => exact .inl rfl

theorem quiet_claimed {stage : Stage} (hq : Quiet stage) (hs : stage = .claimed given) : False := by
  rw [hs] at hq
  exact hq

/-- A stream has messages to send after a claim that handed them out. -/
theorem claimed_step {event : StreamEvent}
    (h : (pull.step codec uuid event).stage = .claimed given) : pull.stage = .claimed given ∨
      ∃ now, pull.stage = .found .claim ∧ (pull.step codec uuid event).broker =
          pull.broker.step codec uuid (pull.claimEvent now) ∧
        pull.broker.reply codec uuid (pull.claimEvent now) = .claimed given := by
  cases event with
  | others event => exact .inl h
  | tick now => exact .inl h
  | stop => cases h
  | receive incoming =>
    change (pull.receive incoming).stage = _ at h
    unfold StreamingPull.receive at h
    split at h
    · refine (quiet_claimed ?_ h).elim
      cases incoming with
      | request request => exact quiet_handle false request
      | woken => trivial
      | closed => trivial
      | failed status => trivial
    · exact .inl h
  | lookup =>
    change (pull.lookup codec).stage = _ at h
    unfold StreamingPull.lookup at h
    split at h
    · split at h
      · cases h
      · split at h <;> cases h
    · split at h <;> cases h
    · exact .inl h
  | perform now =>
    change (pull.perform codec uuid now).stage = _ at h
    change _ ∨ ∃ now', _ ∧ (pull.perform codec uuid now).broker = _ ∧ _
    unfold StreamingPull.perform at h ⊢
    split at h
    · rename_i request hs
      exact (quiet_claimed (@quiet_afterReply (.acknowledged request) trivial _) h).elim
    · rename_i ackId seconds rest hs
      exact (quiet_claimed (@quiet_afterReply (.modified ackId seconds rest) trivial _) h).elim
    · cases h
    · rename_i hs
      refine .inr ⟨now, hs, rfl, ?_⟩
      change afterClaim (pull.broker.reply codec uuid (pull.claimEvent now)) = _ at h
      cases hr : pull.broker.reply codec uuid (pull.claimEvent now) with
      | claimed found =>
        rw [hr] at h
        unfold afterClaim at h
        dsimp only at h
        split at h
        · cases h
        · rw [Stage.claimed.inj h]
      | done =>
        rw [hr] at h
        cases h
      | published ids =>
        rw [hr] at h
        cases h
      | refused status =>
        rw [hr] at h
        cases h
    · cases h
    · exact .inl h
  | fail status =>
    change (pull.fail status).stage = _ at h
    unfold StreamingPull.fail at h
    split at h
    · cases h
    · cases h
    · cases h
    · cases h
    · exact .inl h
  | resume =>
    change (pull.resume).stage = _ at h
    unfold StreamingPull.resume at h
    split at h
    · exact (quiet_claimed (quiet_modifying _) h).elim
    · exact (quiet_claimed (quiet_modifying _) h).elim
    · dsimp only [setStage] at h
      split at h <;> cases h
    · cases h
    · exact .inl h
  | sent delivered =>
    change (pull.sent delivered).stage = _ at h
    unfold StreamingPull.sent at h
    split at h
    · dsimp only [setStage] at h
      split at h <;> cases h
    · cases h
    · exact .inl h

/-- What a stream is about to send goes by identifiers that were drawn, and it fits in a
response if they are as long as those of the server. -/
structure Sendable (codec : BrokerCodec β) (uuid : Nat → String) (pull : StreamingPull β) :
    Prop where
  settled : pull.broker.Settled codec uuid
  drew : ∀ given, pull.stage = .claimed given →
    ∀ message ∈ given, pull.broker.Drew uuid message.ackId
  fits : ∀ given, pull.stage = .claimed given → (∀ message ∈ given, Wire message.ackId) →
    (streamingPullResponse given).encodedLen ≤ maxTransportBytes

theorem Sendable.step (h : pull.Sendable codec uuid) (hu : Function.Injective uuid)
    (event : StreamEvent) : (pull.step codec uuid event).Sendable codec uuid := by
  constructor
  · rcases @broker_step β codec uuid pull event with hb | ⟨event', hb⟩
    · exact hb ▸ h.settled
    · exact hb ▸ h.settled.step hu event'
  · intro given hs message hm
    rcases claimed_step hs with hs | ⟨now, -, hb, hr⟩
    · have hdrew := h.drew given hs message hm
      rcases @broker_step β codec uuid pull event with hb | ⟨event', hb⟩
      · exact hb ▸ hdrew
      · exact hb ▸ hdrew.step event'
    · rw [hb]
      refine (h.settled.handedOut hu ?_).2
      rw [handedOut_claimEvent, hr]
      exact List.mem_map_of_mem hm
  · intro given hs hw
    rcases claimed_step hs with hs | ⟨now, -, -, hr⟩
    · exact h.fits given hs hw
    · obtain ⟨found, service, hc⟩ := h.settled.sound.claims hu pull.first.subscription
        (min (pull.first.maxMessages - pull.outstanding.size) 100) pull.budget
        pull.first.streamAckDeadlineSeconds now
      have hsame : Reply.claimed found = .claimed given := (Broker.reply_claim hc).symm.trans hr
      obtain rfl := Reply.claimed.inj hsame
      refine h.settled.sound.claim_fits hu hc ?_ ?_ hw
      · unfold budget
        omega
      · omega

theorem Sendable.reach (hu : Function.Injective uuid) {first : StreamingPullRequest}
    (h : Reach (StreamingPull.step codec uuid) (fun _ _ => True) (Opened codec uuid first) pull) :
    pull.Sendable codec uuid := by
  refine h.invariant (fun pull ho => ?_) fun pull event hi _ => hi.step hu event
  obtain ⟨hreach, -, -, -, hstage, -⟩ := ho
  have hquiet : Quiet pull.stage := hstage ▸ quiet_handle true first
  exact ⟨Broker.Settled.reach hu hreach, fun given hs => (quiet_claimed hquiet hs).elim,
    fun given hs => (quiet_claimed hquiet hs).elim⟩

end StreamingPull

/-- A pull answers with what its claim hands out. -/
theorem PubSubService.pull_ok {service service' : PubSubService β} {request : PullRequest}
    {timedOut : Bool} {now : Int} {uuids : Nat → String} {response : PullResponse}
    (h : service.pull codec request timedOut now uuids = (some (.ok response), service')) :
    ∃ given deadlineSeconds, response = ⟨receivedMessages given⟩ ∧
      service.claimLeases codec request.subscription (min request.maxMessages 1000).toNat
        maxDeliveryMessageBytes deadlineSeconds now uuids = (.ok given, service') := by
  unfold PubSubService.pull PubSubService.claim at h
  split at h
  · cases h
  · cases hl : service.getSubscriptionValue codec request.subscription with
    | error e =>
      rw [hl] at h
      cases h
    | ok configured =>
      rw [hl] at h
      dsimp only at h
      split at h
      · cases h
      · rename_i messages after hc
        split at h
        · obtain ⟨hr, rfl⟩ := Prod.mk.inj h
          obtain rfl := Except.ok.inj (Option.some.inj hr)
          exact ⟨messages, _, rfl, hc⟩
        · cases h

/-- Whatever is published can be delivered: with identifiers of the server's length no accepted
message exceeds the budget of a delivery, neither a publish nor a claim is refused over it, and
the responses of both kinds of pull stay below the limit of the transport. -/
theorem responses_fit (hu : Function.Injective uuid) {broker : Broker β}
    (h : Reach (Broker.step codec uuid) (fun _ _ => True) Broker.Empty broker) :
    (∀ messages bytes, checkMessages messages 0 = .ok bytes → ∀ message ∈ messages,
      ∀ id published, Wire id →
        (message.assign id published).encodedLen ≤ maxDeliveryMessageBytes) ∧
    (∀ topic (messages : List PubsubMessage) published publishedMs,
      (∀ i < messages.length, Wire (broker.uuids uuid i)) →
        broker.reply codec uuid (.publish topic messages published publishedMs) ≠
          .refused deliveryBudget) ∧
    (∀ subscription maxCount maxBytes deadlineOverride now status service,
      broker.service.claim codec subscription maxCount maxBytes deadlineOverride now
        (broker.uuids uuid) = (.error status, service) →
      broker.service.getSubscriptionValue codec subscription = .error status) ∧
    (∀ request timedOut now response service, (∀ i < 1000, Wire (broker.uuids uuid i)) →
      broker.service.pull codec request timedOut now (broker.uuids uuid) =
        (some (.ok response), service) → response.encodedLen ≤ maxTransportBytes) ∧
    (∀ first (pull : StreamingPull β) given,
      Reach (StreamingPull.step codec uuid) (fun _ _ => True)
        (StreamingPull.Opened codec uuid first) pull →
      (∀ n < pull.broker.drawn, Wire (uuid n)) → pull.stage = .claimed given →
        (streamingPullResponse given).encodedLen ≤ maxTransportBytes) := by
  have hsound := Broker.Sound.reach hu h
  refine ⟨fun messages bytes hc message hm id published hw => ?_,
    fun topic messages published publishedMs hw => Broker.publish_budget hw,
    fun subscription maxCount maxBytes deadlineOverride now status service hc => ?_,
    fun request timedOut now response service hw hp => ?_, fun first pull given hr hw hs => ?_⟩
  · exact (checkMessages_accepted hc message hm).deliverable hw published
  · unfold PubSubService.claim at hc
    cases hl : broker.service.getSubscriptionValue codec subscription with
    | error e =>
      rw [hl] at hc
      rw [Except.error.inj (Prod.mk.inj hc).1]
    | ok configured =>
      rw [hl] at hc
      obtain ⟨given, after, hok⟩ := hsound.claims hu subscription maxCount maxBytes
        (deadlineOverride.getD configured.ackDeadlineSeconds) now
      cases (Prod.mk.inj (hok.symm.trans hc)).1
  · obtain ⟨given, deadlineSeconds, rfl, hc⟩ := PubSubService.pull_ok hp
    have hselected := hsound.selected hu hc
    refine hsound.claim_fits hu hc le_rfl (by omega) fun message hm => ?_
    obtain ⟨i, hi⟩ := List.mem_iff_getElem?.mp hm
    obtain ⟨hlt, -⟩ := List.getElem?_eq_some_iff.mp hi
    have hcount := hselected.count
    rw [hselected.fresh i message hi]
    exact hw i (by omega)
  · have hsend := StreamingPull.Sendable.reach hu hr
    refine hsend.fits given hs fun message hm => ?_
    obtain ⟨n, hn, he⟩ := hsend.drew given hs message hm
    exact he ▸ hw n hn

/-- A message of a stream that is about to be sent. -/
theorem responses_fit_sample :
    (streamingPullResponse [⟨wireUuid 2, ⟨[1], [], wireUuid 0, some ⟨0, 0⟩, ""⟩, 43⟩]).encodedLen ≤
      maxTransportBytes := by
  have hstart : Reach (StreamingPull.step plainCodec wireUuid) (fun _ _ => True)
      (StreamingPull.Opened plainCodec wireUuid wirePull) wireStream := .start wireStream_opened
  exact (responses_fit wireUuid_injective wireStream_opened.1).2.2.2.2 wirePull
    ([.lookup, .perform 0, .resume, .lookup, .perform 0].foldl (StreamingPull.step plainCodec wireUuid)
      wireStream) _ (hstart.run (Reach.along_free (fun _ _ => trivial) _ _))
    (by decide +kernel) (by decide +kernel)

end FirebaseEmu.Pubsub
