import FirebaseEmu.Pubsub.Refines

namespace FirebaseEmu.Pubsub
open Lib Std
open Firestore (Timestamp)

/-- The clock reading of an operation that cleans up expired messages first. -/
def Event.sweeps : Event → Option Int
  | .publish _ _ _ publishedMs => some publishedMs
  | .claim _ _ _ _ now => some now
  | _ => none

/-- The operation deletes the subscription, claims from it or names leases of it. -/
def Event.concerns (subscription : String) : Event → Prop
  | .deleteSubscription name => name = subscription
  | .claim name _ _ _ _ => name = subscription
  | .acknowledge name _ => name = subscription
  | .modifyAck name _ _ _ => name = subscription
  | _ => False

namespace BrokerView
variable {uuids : Nat → String} {view view' : BrokerView} {event : Event} {reply : Reply}
variable {subscription id : String} {expiry : Int}

/-- An operation that takes a delivery off the board: an acknowledgement under its current
lease, the deletion of its subscription, or a cleanup once its message has expired. -/
inductive Ends (view : BrokerView) (subscription id : String) (expiry : Int) :
    Event → Reply → Prop where
  | acknowledged {ackIds : List String} {held : Held String PubsubMessage} {lease : Lease String}
    (hh : view.board subscription id = some held) (hl : held.lease = some lease)
    (hm : lease.token ∈ ackIds) : Ends view subscription id expiry (.acknowledge subscription ackIds) .done
  | unsubscribed : Ends view subscription id expiry (.deleteSubscription subscription) .done
  | expired {event : Event} {reply : Reply} {now : Int} (hs : event.sweeps = some now)
    (hle : expiry ≤ now) : Ends view subscription id expiry event reply

/-- Identifiers drawn one after the other differ. -/
theorem nodup_of_drawn {α : Type} {name : α → String} {l : List α}
    (hu : Function.Injective uuids) (h : ∀ (n : Nat) (a : α), l[n]? = some a → name a = uuids n) :
    (l.map name).Nodup := by
  have heq : l.map name = (List.range l.length).map uuids := by
    apply List.ext_getElem?
    intro n
    rw [List.getElem?_map, List.getElem?_map]
    by_cases hn : n < l.length
    · rw [List.getElem?_range hn, List.getElem?_eq_getElem hn, Option.map_some, Option.map_some,
        h n _ (List.getElem?_eq_getElem hn)]
    · rw [List.getElem?_eq_none (Nat.not_lt.mp hn),
        List.getElem?_eq_none (by rw [List.length_range]; exact Nat.not_lt.mp hn)]
      rfl
  rw [heq]
  exact List.nodup_range.map hu

theorem assigned_ids {published : Timestamp} {messages assigned : List PubsubMessage}
    (h : assignMessages uuids published messages = .ok assigned) {id : String}
    (hid : id ∈ assigned.map PubsubMessage.messageId) : ∃ n, n < messages.length ∧ id = uuids n := by
  obtain ⟨hlen, hassigned⟩ := assignMessages_ok h
  obtain ⟨stored, hm, rfl⟩ := List.mem_map.mp hid
  obtain ⟨n, hn⟩ := List.mem_iff_getElem?.mp hm
  obtain ⟨-, message, hmessage, rfl⟩ := hassigned n stored hn
  exact ⟨n, (List.getElem?_eq_some_iff.mp hmessage).1, rfl⟩

theorem Step.published {topic : String} {messages : List PubsubMessage} {published : Timestamp}
    {publishedMs : Int} {ids : List String}
    (h : Step uuids view (.publish topic messages published publishedMs) (.published ids) view') :
    ∃ assigned, assignMessages uuids published messages = .ok assigned ∧
      ids = assigned.map PubsubMessage.messageId ∧
      view' = view.publish topic assigned publishedMs := by
  cases h with
  | publish ha => exact ⟨_, ha, rfl, rfl⟩

theorem Step.claimed {maxCount : Nat} {maxBytes deadlineSeconds now : Int}
    {given : List BrokerMessage}
    (h : Step uuids view (.claim subscription maxCount maxBytes deadlineSeconds now)
      (.claimed given) view') :
    given.length ≤ maxCount ∧ view.Grantable subscription now uuids given ∧
      view' = view.claim subscription deadlineSeconds now given := by
  cases h with
  | claim hlen hg => exact ⟨hlen, hg, rfl⟩

/-- A publish posts under identifiers of its own. -/
theorem publish_other {topic : String} {messages assigned : List PubsubMessage}
    {published : Timestamp} {publishedMs : Int}
    (ha : assignMessages uuids published messages = .ok assigned) (hfresh : ∀ n, uuids n ≠ id) :
    (view.publish topic assigned publishedMs).board subscription id =
      view.board.sweep publishedMs subscription id := by
  refine Board.posts_other fun hm => ?_
  rw [List.map_map] at hm
  obtain ⟨n, -, hn⟩ := assigned_ids ha hm
  exact hfresh n hn.symm

/-- The contents of a delivery change only when an operation takes it off the board. -/
theorem Step.contents (h : Step uuids view event reply view') (hfresh : ∀ n, uuids n ≠ id)
    {message : PubsubMessage} (hc : view.board.contents subscription id = some (message, expiry)) :
    view'.board.contents subscription id = some (message, expiry) ∨
      Ends view subscription id expiry event reply := by
  have hsweep : ∀ now, event.sweeps = some now →
      (view.board.sweep now).contents subscription id = some (message, expiry) ∨
        Ends view subscription id expiry event reply := by
    intro now hs
    by_cases hlt : now < expiry
    · left
      rw [Board.contents_sweep, hc, Option.filter_some, if_pos (decide_eq_true hlt)]
    · exact .inr (.expired hs (Int.not_lt.mp hlt))
  cases h with
  | refused => exact .inl hc
  | cleaned topic messages published publishedMs status => exact hsweep publishedMs rfl
  | createTopic => exact .inl hc
  | deleteTopic => exact .inl hc
  | createSubscription => exact .inl hc
  | deleteSubscription name =>
    by_cases hs : subscription = name
    · subst hs
      exact .inr .unsubscribed
    · left
      rw [unsubscribe, Board.contents_drop, if_neg hs, hc]
  | @publish topic messages assigned published publishedMs ha =>
    unfold Board.contents
    rw [publish_other ha hfresh]
    exact hsweep publishedMs rfl
  | @claim name maxCount maxBytes deadlineSeconds now given hlen hg =>
    unfold BrokerView.claim claimable Board.free
    rw [Board.contents_grants, Board.contents_onLeases]
    exact hsweep now rfl
  | acknowledge name ackIds =>
    unfold BrokerView.acknowledge
    rw [setBoard_board, Board.contents_take]
    split
    · rename_i hu
      obtain ⟨rfl, hu⟩ := hu
      obtain ⟨held, hh, hu⟩ := (Option.any_eq_true _ _).mp hu
      obtain ⟨lease, hl, hm⟩ := (Option.any_eq_true _ _).mp hu
      exact .inr (.acknowledged hh hl (of_decide_eq_true hm))
    · exact .inl hc
  | modifyAck name ackIds seconds now =>
    left
    unfold BrokerView.modifyAck Board.giveBack Board.extend
    rw [setBoard_board]
    split
    · rw [Board.contents_onLeases, hc]
    · rw [Board.contents_onLeases, hc]

/-- An operation about something else leaves a delivery exactly as it was, until its message
expires. -/
theorem Step.untouched (h : Step uuids view event reply view') (hfresh : ∀ n, uuids n ≠ id)
    (hs : ¬ event.concerns subscription)
    (hnow : ∀ now, event.sweeps = some now → ∀ held,
      view.board subscription id = some held → now < held.expiry) :
    view'.board subscription id = view.board subscription id := by
  cases h with
  | refused => rfl
  | cleaned topic messages published publishedMs status =>
    exact Board.sweep_kept (hnow publishedMs rfl)
  | createTopic => rfl
  | deleteTopic => rfl
  | createSubscription => rfl
  | deleteSubscription name => exact Board.onReader_other (Ne.symm hs) _
  | publish ha =>
    rw [publish_other ha hfresh]
    exact Board.sweep_kept (hnow _ rfl)
  | claim hlen hg =>
    exact (Board.grants_other (Ne.symm hs)).trans
      ((Board.onReader_other (Ne.symm hs) _).trans (Board.sweep_kept (hnow _ rfl)))
  | acknowledge name ackIds => exact Board.onReader_other (Ne.symm hs) _
  | modifyAck name ackIds seconds now =>
    unfold BrokerView.modifyAck Board.giveBack Board.extend Board.onLeases
    rw [setBoard_board]
    split
    · exact Board.onReader_other (Ne.symm hs) _
    · exact Board.onReader_other (Ne.symm hs) _

/-- Every delivery under the identifier has these contents. -/
def Carries (view : BrokerView) (id : String) (content : PubsubMessage × Int) : Prop :=
  ∀ (subscription : String) (held : Held String PubsubMessage),
    view.board subscription id = some held → held.content = content

/-- Contents come from nowhere but a publish that posts them. -/
theorem Step.contents_unposted (h : Step uuids view event reply view')
    (hpost : ∀ topic messages assigned published publishedMs,
      event = .publish topic messages published publishedMs →
      assignMessages uuids published messages = .ok assigned →
      (view.publish topic assigned publishedMs).board subscription id =
        view.board.sweep publishedMs subscription id)
    {content : PubsubMessage × Int} (hc : view'.board.contents subscription id = some content) :
    view.board.contents subscription id = some content := by
  have hsweep : ∀ now, (view.board.sweep now).contents subscription id = some content →
      view.board.contents subscription id = some content := by
    intro now hs
    rw [Board.contents_sweep, Option.filter_eq_some_iff] at hs
    exact hs.1
  cases h with
  | refused => exact hc
  | cleaned topic messages published publishedMs status => exact hsweep publishedMs hc
  | createTopic => exact hc
  | deleteTopic => exact hc
  | createSubscription => exact hc
  | deleteSubscription name =>
    rw [unsubscribe, Board.contents_drop] at hc
    split at hc
    · cases hc
    · exact hc
  | @publish topic messages assigned published publishedMs ha =>
    unfold Board.contents at hc
    rw [hpost topic messages assigned published publishedMs rfl ha] at hc
    exact hsweep publishedMs hc
  | @claim name maxCount maxBytes deadlineSeconds now given hlen hg =>
    unfold BrokerView.claim claimable Board.free at hc
    rw [Board.contents_grants, Board.contents_onLeases] at hc
    exact hsweep now hc
  | acknowledge name ackIds =>
    unfold BrokerView.acknowledge at hc
    rw [setBoard_board, Board.contents_take] at hc
    split at hc
    · cases hc
    · exact hc
  | modifyAck name ackIds seconds now =>
    unfold BrokerView.modifyAck Board.giveBack Board.extend at hc
    rw [setBoard_board] at hc
    split at hc
    · rwa [Board.contents_onLeases] at hc
    · rwa [Board.contents_onLeases] at hc

/-- No operation gives a name that is taken other contents. -/
theorem Step.contents_eq (h : Step uuids view event reply view') (hfresh : ∀ n, uuids n ≠ id)
    {content : PubsubMessage × Int} (hc : view'.board.contents subscription id = some content) :
    view.board.contents subscription id = some content := by
  apply h.contents_unposted _ hc
  intro topic messages assigned published publishedMs _ ha
  exact publish_other ha hfresh

/-- A subscription with nothing on the board has nothing after an operation either, unless it is
a publish to its topic. -/
theorem Step.quiet (h : Step uuids view event reply view')
    (hheard : ∀ topic messages published publishedMs,
      event = .publish topic messages published publishedMs →
      view.attached topic subscription = false)
    (hnone : view.board subscription id = none) : view'.board subscription id = none := by
  cases hb : view'.board subscription id with
  | none => rfl
  | some held =>
    have hc : view'.board.contents subscription id = some held.content := by
      rw [Board.contents, hb, Option.map_some]
    have hpost := h.contents_unposted (fun topic messages assigned published publishedMs he _ =>
      Board.posts_unheard (hheard topic messages published publishedMs he)) hc
    rw [Board.contents, hnone] at hpost
    cases hpost

theorem Carries.step {content : PubsubMessage × Int} (hcarries : view.Carries id content)
    (h : Step uuids view event reply view') (hfresh : ∀ n, uuids n ≠ id) :
    view'.Carries id content := by
  intro subscription held hb
  have hc : view'.board.contents subscription id = some held.content := by
    rw [Board.contents, hb, Option.map_some]
  obtain ⟨old, ho, he⟩ := Option.map_eq_some_iff.mp (h.contents_eq hfresh hc)
  rw [← hcarries subscription old ho, he]

/-- What a claim hands out stood on the board, under no lease that lasts. -/
theorem Grantable.on_board {subscription : String} {now : Int} {given : List BrokerMessage}
    (hg : view.Grantable subscription now uuids given) {found : BrokerMessage}
    (hf : found ∈ given) : ∃ held,
      view.board subscription found.message.messageId = some held ∧
        held.payload = found.message ∧ Lease.free now held.lease = none := by
  obtain ⟨held, hb, hl, hpayload⟩ := hg.free found hf
  unfold claimable Board.free at hb
  obtain ⟨old, ho, rfl⟩ := Board.onLeases_some.mp hb
  rw [if_pos rfl] at hpayload hl
  exact ⟨old, (Board.sweep_some.mp ho).1, hpayload, hl⟩

/-- A claim hands messages out as they stand on the board. -/
theorem Carries.claimed {content : PubsubMessage × Int} (hcarries : view.Carries id content)
    {subscription : String} {now : Int} {given : List BrokerMessage}
    (hg : view.Grantable subscription now uuids given) {found : BrokerMessage} (hf : found ∈ given)
    (hid : found.message.messageId = id) : found.message = content.1 := by
  obtain ⟨held, hb, hpayload, -⟩ := hg.on_board hf
  rw [hid] at hb
  rw [← hpayload, ← hcarries subscription held hb]
  rfl

section
variable {topic : String} {published : Timestamp} {messages assigned : List PubsubMessage}
variable {publishedMs : Int} {i : Nat} {stored : PubsubMessage}

/-- What a publish posts under each of its identifiers. -/
theorem publish_posted (hu : Function.Injective uuids)
    (ha : assignMessages uuids published messages = .ok assigned) (hi : assigned[i]? = some stored)
    (hw : view.attached topic subscription = true) :
    (view.publish topic assigned publishedMs).board subscription stored.messageId =
      some ⟨stored, saturatingAdd publishedMs (retentionSeconds * 1000), 0, none⟩ := by
  obtain ⟨-, hassigned⟩ := assignMessages_ok ha
  have hids : ((assigned.map fun message => (message.messageId, message)).map Prod.fst).Nodup := by
    rw [List.map_map]
    refine nodup_of_drawn hu fun n found hn => ?_
    obtain ⟨-, message, -, rfl⟩ := hassigned n found hn
    rfl
  have hmem : (stored.messageId, stored) ∈ assigned.map fun message => (message.messageId, message) :=
    List.mem_map.mpr ⟨stored, List.mem_of_getElem? hi, rfl⟩
  exact Board.posts_posted hids hmem hw

/-- Everything under a new identifier is the message posted under it. -/
theorem publish_carries (hu : Function.Injective uuids)
    (ha : assignMessages uuids published messages = .ok assigned) (hi : assigned[i]? = some stored)
    (hnew : ∀ subscription, view.board subscription stored.messageId = none) :
    (view.publish topic assigned publishedMs).Carries stored.messageId
      (stored, saturatingAdd publishedMs (retentionSeconds * 1000)) := by
  intro subscription held hb
  cases hw : view.attached topic subscription with
  | true =>
    rw [publish_posted hu ha hi hw] at hb
    obtain rfl := Option.some.inj hb
    rfl
  | false =>
    have hswept : view.board.sweep publishedMs subscription stored.messageId = some held :=
      (Board.posts_unheard hw).symm.trans hb
    rw [Board.sweep_some, hnew subscription] at hswept
    cases hswept.1

end

end BrokerView

variable {β : Type} {codec : BrokerCodec β} {uuid : Nat → String}

namespace Broker
variable {broker : Broker β} {subscription id : String} {message : PubsubMessage} {expiry : Int}

/-- The delivery waits, available or in flight, with its message as it was published. -/
def Pending (codec : BrokerCodec β) (broker : Broker β) (subscription id : String)
    (message : PubsubMessage) (expiry : Int) : Prop :=
  ∃ held, (broker.service.view codec).board subscription id = some held ∧
    held.payload = message ∧ held.expiry = expiry

/-- One of the operations took the delivery off the board. -/
def Freed (codec : BrokerCodec β) (uuid : Nat → String) (broker : Broker β) (events : List Event)
    (subscription id : String) (expiry : Int) : Prop :=
  ∃ before event after, events = before ++ event :: after ∧
    BrokerView.Ends ((broker.run codec uuid before).service.view codec) subscription id expiry event
      ((broker.run codec uuid before).reply codec uuid event)

theorem pending_iff : broker.Pending codec subscription id message expiry ↔
    (broker.service.view codec).board.contents subscription id = some (message, expiry) := by
  unfold Pending Board.contents Held.content
  rw [Option.map_eq_some_iff]
  simp only [Prod.mk.injEq]

/-- The identifier is among those drawn. -/
def Drew (uuid : Nat → String) (broker : Broker β) (id : String) : Prop :=
  ∃ n < broker.drawn, uuid n = id

theorem Drew.fresh (h : broker.Drew uuid id) (hu : Function.Injective uuid) (n : Nat) :
    broker.uuids uuid n ≠ id := by
  obtain ⟨k, hk, rfl⟩ := h
  intro he
  have := hu he
  omega

theorem Drew.step (h : broker.Drew uuid id) (event : Event) :
    (broker.step codec uuid event).Drew uuid id := by
  obtain ⟨k, hk, he⟩ := h
  exact ⟨k, Nat.lt_of_lt_of_le hk (Nat.le_add_right _ _), he⟩

/-- A delivery waits until one of the operations takes it off the board. -/
theorem Sound.pending_run (h : broker.Sound codec uuid) (hu : Function.Injective uuid)
    (hid : broker.Drew uuid id) (hp : broker.Pending codec subscription id message expiry)
    (events : List Event) :
    (broker.run codec uuid events).Pending codec subscription id message expiry ∨
      broker.Freed codec uuid events subscription id expiry := by
  induction events generalizing broker with
  | nil => exact .inl hp
  | cons event events ih =>
    have hstep := (h.serve hu event).2
    rcases hstep.contents (hid.fresh hu) (pending_iff.mp hp) with hc | hends
    · have hp' : (broker.step codec uuid event).Pending codec subscription id message expiry :=
        pending_iff.mpr hc
      rcases ih (h.step hu event) (hid.step event) hp' with hrun | hfreed
      · exact .inl hrun
      · obtain ⟨before, event', after, rfl, hends⟩ := hfreed
        exact .inr ⟨event :: before, event', after, rfl, hends⟩
    · exact .inr ⟨[], event, events, rfl, hends⟩

theorem Sound.carries_run (h : broker.Sound codec uuid) (hu : Function.Injective uuid)
    (hid : broker.Drew uuid id) {content : PubsubMessage × Int}
    (hc : (broker.service.view codec).Carries id content) (events : List Event) :
    ((broker.run codec uuid events).service.view codec).Carries id content ∧
      (broker.run codec uuid events).Drew uuid id := by
  induction events generalizing broker with
  | nil => exact ⟨hc, hid⟩
  | cons event events ih =>
    exact ih (h.step hu event) (hid.step event) (hc.step (h.serve hu event).2 (hid.fresh hu))

theorem uuids_injective (hu : Function.Injective uuid) (broker : Broker β) :
    Function.Injective (broker.uuids uuid) := by
  intro m n he
  have := hu he
  omega

/-- What a publish leaves behind under each of its identifiers. -/
theorem Sound.published (h : broker.Sound codec uuid) (hu : Function.Injective uuid)
    {topic : String} {messages : List PubsubMessage} {published : Timestamp} {publishedMs : Int}
    {ids : List String} (hp : broker.reply codec uuid
      (.publish topic messages published publishedMs) = .published ids) {i : Nat}
    (hi : ids[i]? = some id) {sent : Broker β}
    (hsent : sent = broker.step codec uuid (.publish topic messages published publishedMs)) :
    ∃ message, messages[i]? = some message ∧ sent.Drew uuid id ∧
      (sent.service.view codec).Carries id
        (message.assign id published, saturatingAdd publishedMs (retentionSeconds * 1000)) ∧
      ∀ subscription, (broker.service.view codec).topicOf subscription = some topic →
        sent.Pending codec subscription id (message.assign id published)
          (saturatingAdd publishedMs (retentionSeconds * 1000)) := by
  have hpub := (h.serve hu (.publish topic messages published publishedMs)).2
  unfold reply at hp
  rw [hp] at hpub
  obtain ⟨assigned, ha, rfl, hview⟩ := hpub.published
  have hview' : sent.service.view codec =
      (broker.service.view codec).publish topic assigned publishedMs := by
    rw [hsent]
    exact hview
  obtain ⟨hlen, hassigned⟩ := assignMessages_ok ha
  rw [List.getElem?_map, Option.map_eq_some_iff] at hi
  obtain ⟨stored, hi, rfl⟩ := hi
  obtain ⟨-, message, hmessage, hstored⟩ := hassigned i stored hi
  have hid : stored.messageId = uuid (broker.drawn + i) := by
    rw [hstored]
    rfl
  have hassign : message.assign stored.messageId published = stored := by
    rw [hid]
    exact hstored.symm
  have hnew : ∀ subscription,
      (broker.service.view codec).board subscription stored.messageId = none := by
    intro subscription
    cases hb : (broker.service.view codec).board subscription stored.messageId with
    | none => rfl
    | some held =>
      obtain ⟨n, hn, he⟩ := h.board_drawn hb
      have := hu (he.trans hid)
      omega
  refine ⟨message, hmessage, ?_⟩
  rw [hassign]
  refine ⟨⟨broker.drawn + i, ?_, hid.symm⟩, ?_, fun subscription hw => ?_⟩
  · rw [hsent]
    exact Nat.add_lt_add_left (List.getElem?_eq_some_iff.mp hmessage).1 _
  · rw [hview']
    exact BrokerView.publish_carries (uuids_injective hu broker) ha hi hnew
  · rw [pending_iff, hview', Board.contents,
      BrokerView.publish_posted (uuids_injective hu broker) ha hi (beq_iff_eq.mpr hw)]
    rfl

end Broker

/-- A message published is delivered to every subscription attached at that moment and waits
there until it is acknowledged under its current lease, its subscription is deleted or it
expires; nothing about another subscription touches it, and it is always delivered as it was
published. -/
theorem fanout_without_loss (hu : Function.Injective uuid) {broker : Broker β}
    (h : Reach (Broker.step codec uuid) (fun _ _ => True) Broker.Empty broker) {topic : String}
    {messages : List PubsubMessage} {published : Timestamp} {publishedMs : Int}
    {ids : List String}
    (hp : broker.reply codec uuid (.publish topic messages published publishedMs) =
      .published ids) {i : Nat} {id : String} (hi : ids[i]? = some id) :
    ∃ message, messages[i]? = some message ∧ ∀ events : List Event,
      let sent := broker.step codec uuid (.publish topic messages published publishedMs)
      let later := sent.run codec uuid events
      let expiry := saturatingAdd publishedMs (retentionSeconds * 1000)
      (∀ subscription, (broker.service.view codec).topicOf subscription = some topic →
        later.Pending codec subscription id (message.assign id published) expiry ∨
          sent.Freed codec uuid events subscription id expiry) ∧
      (∀ (subscription : String) (event : Event), ¬ event.concerns subscription →
        (∀ now, event.sweeps = some now → now < expiry) →
        ((later.step codec uuid event).service.view codec).board subscription id =
          (later.service.view codec).board subscription id) ∧
      ∀ (subscription : String) (maxCount : Nat) (maxBytes deadlineSeconds now : Int)
        (given : List BrokerMessage) (found : BrokerMessage),
        later.reply codec uuid (.claim subscription maxCount maxBytes deadlineSeconds now) =
          .claimed given → found ∈ given → found.message.messageId = id →
        found.message = message.assign id published := by
  have hs := Broker.Sound.reach hu h
  obtain ⟨message, hmessage, hdrew, hcarries, hpending⟩ := hs.published hu hp hi rfl
  refine ⟨message, hmessage, fun events => ?_⟩
  have hsent := hs.step hu (.publish topic messages published publishedMs)
  obtain ⟨hcarries', hdrew'⟩ := hsent.carries_run hu hdrew hcarries events
  have hlater := hsent.run hu events
  refine ⟨fun subscription hw => hsent.pending_run hu hdrew (hpending subscription hw) events,
    fun subscription event hc hnow => ?_, ?_⟩
  · refine (hlater.serve hu event).2.untouched (hdrew'.fresh hu) hc fun now hs held hb => ?_
    have hexpiry : held.expiry = _ := congrArg Prod.snd (hcarries' subscription held hb)
    rw [hexpiry]
    exact hnow now hs
  · intro subscription maxCount maxBytes deadlineSeconds now given found hr hf hfid
    have hclaim := (hlater.serve hu (.claim subscription maxCount maxBytes deadlineSeconds now)).2
    unfold Broker.reply at hr
    rw [hr] at hclaim
    exact hcarries'.claimed hclaim.claimed.2.1 hf hfid

/-- One of two subscriptions acknowledges its copy and goes; the other's waits. -/
theorem fanout_without_loss_sample :
    let broker := sampleRun (.onTables .empty) [sampleCreateTopic,
      sampleCreateSubscription "sub-one", sampleCreateSubscription "sub-two"]
    let sent := broker.step plainCodec sampleUuid (samplePublish [1] 0)
    let events := [sampleClaim "sub-one" 5 1,
      .acknowledge (sampleSubscription "sub-one") [sampleUuid 1],
      .deleteSubscription (sampleSubscription "sub-one")]
    (sent.run plainCodec sampleUuid events).Pending plainCodec (sampleSubscription "sub-two")
        (sampleUuid 0) ⟨[1], [], sampleUuid 0, some ⟨0, 0⟩, ""⟩ 86400000 ∨
      sent.Freed plainCodec sampleUuid events (sampleSubscription "sub-two") (sampleUuid 0)
        86400000 := by
  intro broker sent events
  have hreach : Reach (Broker.step plainCodec sampleUuid) (fun _ _ => True) Broker.Empty broker :=
    (sampleRun_reach _ _).mono fun _ hs => .inr hs
  have hp : broker.reply plainCodec sampleUuid (samplePublish [1] 0) =
      .published [sampleUuid 0] := by decide +kernel
  obtain ⟨message, hm, hlater⟩ :=
    fanout_without_loss (i := 0) sampleUuid_injective hreach hp rfl
  obtain rfl := Option.some.inj hm
  exact (hlater events).1 (sampleSubscription "sub-two") (by decide +kernel)

end FirebaseEmu.Pubsub
