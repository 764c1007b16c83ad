import FirebaseEmu.Pubsub.Streaming
import FirebaseEmu.Pubsub.Lookup
import FirebaseEmu.Pubsub.Leases
import FirebaseEmu.Pubsub.Sample

namespace FirebaseEmu.Pubsub
open Lib Std

namespace BrokerView
variable {uuids : Nat → String} {view view' : BrokerView} {event : Event} {reply : Reply}
variable {subscription id : String} {lease : Lease String}

/-- The leases on the board. -/
def leases (view : BrokerView) : Ledger String String String :=
  fun subscription id => (view.board subscription id).bind Held.lease

theorem leases_some : view.leases subscription id = some lease ↔
    ∃ held, view.board subscription id = some held ∧ held.lease = some lease :=
  Option.bind_eq_some_iff

theorem Step.leases_eq (h : Step uuids view event reply view')
    (hfresh : ∀ n subscription, view.leases subscription (uuids n) = none)
    (hl : view'.leases subscription id = some lease) :
    noteLeases true view.leases event reply subscription id = some lease := by
  have hagrees : view.board.Agrees view.leases := by
    intro s n held hb
    rw [leases, hb, Option.bind_some]
  obtain ⟨held, hb, hlease⟩ := leases_some.mp hl
  rw [← h.agrees hagrees hfresh subscription id held hb, hlease]

/-- A lease on the board was there, or was there and is extended, or is handed out. -/
theorem Step.noted (h : Step uuids view event reply view')
    (hfresh : ∀ n subscription, view.leases subscription (uuids n) = none)
    (hl : view'.leases subscription id = some lease) :
    Noted view.leases event reply subscription id lease :=
  noteLeases_noted (h.leases_eq hfresh hl)

/-- A request that names leases is done or refused. -/
theorem Step.named {ackIds : List String} (h : Step uuids view event reply view')
    (hn : event.names = some (subscription, ackIds)) :
    reply = .done ∨ ∃ status, reply = .refused status := by
  cases h with
  | refused status => exact .inr ⟨_, rfl⟩
  | acknowledge => exact .inl rfl
  | modifyAck => exact .inl rfl
  | cleaned => cases hn
  | createTopic => cases hn
  | deleteTopic => cases hn
  | createSubscription => cases hn
  | deleteSubscription => cases hn
  | publish => cases hn
  | claim => cases hn

theorem Step.acknowledged {ackIds : List String}
    (h : Step uuids view (.acknowledge subscription ackIds) .done view')
    (hfresh : ∀ n subscription, view.leases subscription (uuids n) = none)
    (hl : view'.leases subscription id = some lease) : lease.token ∉ ackIds := by
  have hclosed := h.leases_eq hfresh hl
  exact (Lease.close_some.mp ((if_pos rfl).symm.trans hclosed)).2

theorem Step.nacked {ackIds : List String} {now : Int}
    (h : Step uuids view (.modifyAck subscription ackIds 0 now) .done view')
    (hfresh : ∀ n subscription, view.leases subscription (uuids n) = none)
    (hl : view'.leases subscription id = some lease) : lease.token ∉ ackIds := by
  have hclosed := h.leases_eq hfresh hl
  exact (Lease.close_some.mp ((if_pos rfl).symm.trans hclosed)).2

end BrokerView

variable {β : Type} {codec : BrokerCodec β} {uuid : Nat → String}

namespace Broker
variable {broker : Broker β} {subscription id : String} {lease : Lease String}

/-- The lease that a delivery is under. -/
def leases (codec : BrokerCodec β) (broker : Broker β) : Ledger String String String :=
  (broker.service.view codec).leases

/-- What holds of every broker that is reached. -/
structure Settled (codec : BrokerCodec β) (uuid : Nat → String) (broker : Broker β) : Prop where
  sound : broker.Sound codec uuid
  readable : broker.service.Readable codec
  attached : (broker.service.view codec).Attached
  drew : ∀ (subscription id : String) (lease : Lease String),
    broker.leases codec subscription id = some lease → broker.Drew uuid lease.token

theorem Settled.fresh (h : broker.Settled codec uuid) (hu : Function.Injective uuid) (n : Nat)
    (subscription : String) : broker.leases codec subscription (broker.uuids uuid n) = none := by
  cases hl : broker.leases codec subscription (broker.uuids uuid n) with
  | none => rfl
  | some lease =>
    obtain ⟨held, hb, -⟩ := BrokerView.leases_some.mp hl
    have hdrew : broker.Drew uuid (broker.uuids uuid n) := h.sound.board_drawn hb
    exact absurd rfl (hdrew.fresh hu n)

theorem Settled.noted (h : broker.Settled codec uuid) (hu : Function.Injective uuid)
    {event : Event} (hl : (broker.step codec uuid event).leases codec subscription id = some lease) :
    Noted (broker.leases codec) event (broker.reply codec uuid event) subscription id lease :=
  (h.sound.serve hu event).2.noted (h.fresh hu) hl

/-- A subscription that is gone has no leases. -/
theorem Settled.gone (h : broker.Settled codec uuid)
    (hn : (broker.service.view codec).topicOf subscription = none) :
    broker.leases codec subscription id = none := by
  cases hl : broker.leases codec subscription id with
  | none => rfl
  | some lease =>
    obtain ⟨held, hb, -⟩ := BrokerView.leases_some.mp hl
    exact absurd hn (h.attached subscription id held hb)

/-- A lease that is handed out goes by an identifier drawn for it. -/
theorem Settled.handedOut (h : broker.Settled codec uuid) (hu : Function.Injective uuid)
    {event : Event} {ackId : String}
    (hm : ackId ∈ Pubsub.handedOut (event, broker.reply codec uuid event)) :
    ¬ broker.Drew uuid ackId ∧ (broker.step codec uuid event).Drew uuid ackId := by
  obtain ⟨n, hn, hlt, rfl⟩ := (h.sound.handedOut_step hu event).2 ackId hm
  refine ⟨fun hdrew => ?_, n, hlt, rfl⟩
  obtain ⟨k, hk, he⟩ := hdrew
  have := hu he
  omega

theorem Settled.step (h : broker.Settled codec uuid) (hu : Function.Injective uuid)
    (event : Event) : (broker.step codec uuid event).Settled codec uuid := by
  refine ⟨h.sound.step hu event, readable_step h.readable event,
    h.attached.step (h.sound.serve hu event).2, fun subscription id lease hl => ?_⟩
  cases h.noted hu hl with
  | kept hl => exact (h.drew _ _ lease hl).step event
  | extended _ _ hb ht => exact ht ▸ (h.drew _ _ _ hb).step event
  | issued hi =>
    have hm := hi.mem_handedOut
    rw [List.flatMap_singleton] at hm
    exact (h.handedOut hu hm).2

theorem Settled.reach (hu : Function.Injective uuid)
    (h : Reach (Broker.step codec uuid) (fun _ _ => True) Broker.Empty broker) :
    broker.Settled codec uuid := by
  refine h.invariant (fun broker he => ?_) fun broker event hs _ => hs.step hu event
  refine ⟨he.sound, he.readable, fun subscription id held hb => ?_, fun subscription id lease hl => ?_⟩
  · rw [he.board] at hb
    cases hb
  · rw [leases, BrokerView.leases, he.board] at hl
    cases hl

/-- The check of leases finds those that have not run out. -/
theorem Sound.mem_activeAckIds (h : broker.Sound codec uuid) {ackIds : List String} {now : Int}
    (hl : broker.leases codec subscription id = some lease) (hm : lease.token ∈ ackIds)
    (hd : now < lease.deadline) :
    lease.token ∈ broker.service.activeAckIds subscription ackIds now := by
  obtain ⟨held, hb, hlease⟩ := BrokerView.leases_some.mp hl
  unfold PubSubService.activeAckIds
  cases hp : broker.service.persistence with
  | some tables =>
    have hsound := PubSubService.Sound.tables h hp
    rw [PubSubService.view_tables hp] at hb
    obtain ⟨found, row, -, hr, rfl⟩ := joined_some.mp hb
    rcases (hsound.leased _ row hr).cases with ⟨-, ha, -⟩ | ⟨token, time, hs, ha, ht⟩
    · simp [DeliveryRow.held, leaseOf, ha] at hlease
    · simp only [DeliveryRow.held, leaseOf, ha, ht, Option.bind_some, Option.map_some,
        Option.some.injEq] at hlease
      subst hlease
      refine List.mem_filter.mpr ⟨List.mem_filterMap.mpr ⟨(⟨subscription, id⟩, row), ?_, ha⟩,
        List.contains_iff_mem.mpr hm⟩
      refine List.mem_filter.mpr ⟨ExtTreeMap.mem_toList_iff_getElem?_eq_some.mpr hr, ?_⟩
      simpa [hs, ht] using hd
  | none =>
    have hlinked := (PubSubService.Sound.memory h hp).linked
    rw [PubSubService.view_memory hp] at hb
    obtain ⟨found, delivery, -, hr, rfl⟩ := joined_some.mp hb
    have hname : delivery.subscription = subscription := hlinked.delivery _ delivery hr
    rcases (hlinked.leased _ delivery hr).columns.cases with ⟨-, ha, -⟩ | ⟨token, time, hs, ha, ht⟩
    · simp [Delivery.held, leaseOf, ha] at hlease
    · simp only [Delivery.held, leaseOf, ha, ht, Option.bind_some, Option.map_some,
        Option.some.injEq] at hlease
      subst hlease
      refine List.mem_filter.mpr ⟨List.mem_filterMap.mpr ⟨(⟨subscription, id⟩, delivery), ?_, ha⟩,
        List.contains_iff_mem.mpr hm⟩
      refine List.mem_filter.mpr ⟨ExtTreeMap.mem_toList_iff_getElem?_eq_some.mpr hr, ?_⟩
      simpa [hs, ht, hname] using hd

end Broker

namespace StreamingPull
variable {pull : StreamingPull β} {subscription id : String} {lease : Lease String}

/-- The delivery is in flight under a lease that the stream was handed. -/
def Holds (codec : BrokerCodec β) (pull : StreamingPull β) (subscription id : String)
    (lease : Lease String) : Prop :=
  pull.broker.leases codec subscription id = some lease ∧ lease.token ∈ pull.issued

/-- The task counts the lease as outstanding, or is about to put it in its map. A lease that
the check under way found run out is about to be dropped, and a task that has ended counts
none. -/
def Counts (pull : StreamingPull β) (ackId : String) : Prop :=
  match pull.stage with
  | .checked active => ackId ∈ pull.outstanding ∧ ackId ∈ active
  | .claimed given => ackId ∈ pull.outstanding ∨ ackId ∈ given.map BrokerMessage.ackId
  | .ended => False
  | _ => ackId ∈ pull.outstanding

/-- The operation extends no lease of the stream that the stream has dropped, or not beyond
the present. -/
def Spares (codec : BrokerCodec β) (pull : StreamingPull β) (event : Event) : Prop :=
  ∀ (ackIds : List String) (seconds now : Int) (id : String) (lease : Lease String),
    event = .modifyAck pull.first.subscription ackIds seconds now → seconds ≠ 0 →
    pull.Holds codec pull.first.subscription id lease → lease.token ∈ ackIds →
    ¬ pull.Counts lease.token → saturatingAdd now (seconds * 1000) ≤ pull.clock

/-- None of the stream's leases lasts. -/
def Lapsed (codec : BrokerCodec β) (pull : StreamingPull β) : Prop :=
  ∀ (subscription id : String) (lease : Lease String), pull.Holds codec subscription id lease →
    lease.deadline ≤ pull.clock

/-- The steps under which flow control counts every lease: no request revives a lease that
has run out and that the stream has dropped; the clock does not go back before the deadline
of such a lease; a check of leases does not read the clock ahead of a deadline that is still
to come; and neither the release fails nor the process stops while a lease lasts. -/
def Allowed (codec : BrokerCodec β) (pull : StreamingPull β) : StreamEvent → Prop
  | .others event => pull.Spares codec event
  | .tick now => ∀ (subscription id : String) (lease : Lease String),
    pull.Holds codec subscription id lease → ¬ pull.Counts lease.token → lease.deadline ≤ now
  | .perform now =>
    match pull.stage with
    | .found (.modify ackId seconds _) =>
      pull.Spares codec (.modifyAck pull.first.subscription [ackId] seconds now)
    | .found .activeAckIds => ∀ (subscription id : String) (lease : Lease String),
      pull.Holds codec subscription id lease → lease.deadline ≤ now → lease.deadline ≤ pull.clock
    | _ => True
  | .fail _ =>
    pull.stage = .calling .release ∨ pull.stage = .found .release → pull.Lapsed codec
  | .stop => pull.Lapsed codec
  | _ => True

/-- When the step ends the task, every lease of the stream that is still marked in flight,
run out or not, is one that the step releases. -/
def Tidy (codec : BrokerCodec β) (uuid : Nat → String) (pull : StreamingPull β)
    (event : StreamEvent) : Prop :=
  pull.stage ≠ .ended → (pull.step codec uuid event).stage = .ended →
    ∀ (subscription id : String) (lease : Lease String), pull.Holds codec subscription id lease →
      lease.token ∈ pull.outstanding ∧ event ≠ .stop ∧ ∀ status, event ≠ .fail status

/-- The stream starts, with its first request still to be handled. -/
def Opened (codec : BrokerCodec β) (uuid : Nat → String) (first : StreamingPullRequest)
    (pull : StreamingPull β) : Prop :=
  Reach (Broker.step codec uuid) (fun _ _ => True) Broker.Empty pull.broker ∧
    pull.broker.service.streamingPull codec first = .ok () ∧ pull.first = first ∧
    pull.outstanding = ∅ ∧ pull.stage = .handle true first ∧ pull.issued = []

/-- The broker is one that is reached, and the stream's leases are of its subscription. -/
structure Served (codec : BrokerCodec β) (uuid : Nat → String) (pull : StreamingPull β) :
    Prop where
  settled : pull.broker.Settled codec uuid
  named : ∃ parsed, parseResource pull.first.subscription "subscriptions" = .ok parsed
  drew : ∀ ackId ∈ pull.issued, pull.broker.Drew uuid ackId
  home : ∀ (subscription id : String) (lease : Lease String),
    pull.Holds codec subscription id lease → subscription = pull.first.subscription

/-- What the task relies on when it goes on from where it stands. -/
def Ready (codec : BrokerCodec β) (pull : StreamingPull β) : Prop :=
  match pull.stage with
  | .acknowledged request => pull.outstanding.size ≤ pull.first.maxMessages ∧
    ∀ (subscription id : String) (lease : Lease String), pull.Holds codec subscription id lease →
      lease.token ∉ request.ackIds
  | .modified ackId seconds _ => pull.outstanding.size ≤ pull.first.maxMessages ∧
    (seconds = 0 → ∀ (subscription id : String) (lease : Lease String),
      pull.Holds codec subscription id lease → lease.token ≠ ackId)
  | .calling .claim => pull.outstanding.size < pull.first.maxMessages
  | .found .claim => pull.outstanding.size < pull.first.maxMessages
  | .claimed given => pull.outstanding.size + given.length ≤ pull.first.maxMessages
  | _ => pull.outstanding.size ≤ pull.first.maxMessages

/-- The invariant of a stream: it counts its leases that last, and they are not too many. -/
structure Accounted (codec : BrokerCodec β) (uuid : Nat → String) (pull : StreamingPull β) :
    Prop where
  served : pull.Served codec uuid
  counted : ∀ (subscription id : String) (lease : Lease String),
    pull.Holds codec subscription id lease → pull.clock < lease.deadline →
      pull.Counts lease.token
  ready : pull.Ready codec

section
variable (event : Event)

/-- An operation that hands the stream nothing leaves it with leases it has. -/
theorem Served.holds (h : pull.Served codec uuid) (hu : Function.Injective uuid)
    {pull' : StreamingPull β} (hh : pull'.Holds codec subscription id lease)
    (hb : pull'.broker = pull.broker.step codec uuid event) (hi : pull'.issued = pull.issued) :
    pull.Holds codec subscription id lease ∨
      ∃ ackIds seconds now before, event = .modifyAck subscription ackIds seconds now ∧
        seconds ≠ 0 ∧ pull.Holds codec subscription id before ∧ before.token = lease.token ∧
        lease.token ∈ ackIds ∧ lease.deadline = saturatingAdd now (seconds * 1000) := by
  obtain ⟨hl, hm⟩ := hh
  rw [hb] at hl
  rw [hi] at hm
  cases h.settled.noted hu hl with
  | kept hl => exact .inl ⟨hl, hm⟩
  | extended he hs hbefore ht hack hd =>
    exact .inr ⟨_, _, _, _, he, hs, ⟨hbefore, ht ▸ hm⟩, ht, hack, hd⟩
  | issued hissued =>
    have hout := hissued.mem_handedOut
    rw [List.flatMap_singleton] at hout
    exact absurd (h.drew _ hm) (h.settled.handedOut hu hout).1

theorem Served.token (h : pull.Served codec uuid) (hu : Function.Injective uuid)
    {pull' : StreamingPull β} (hh : pull'.Holds codec subscription id lease)
    (hb : pull'.broker = pull.broker.step codec uuid event) (hi : pull'.issued = pull.issued) :
    ∃ before, pull.Holds codec subscription id before ∧ before.token = lease.token := by
  rcases h.holds event hu hh hb hi with hh | ⟨_, _, _, before, _, _, hh, ht, _, _⟩
  · exact ⟨lease, hh, rfl⟩
  · exact ⟨before, hh, ht⟩

theorem Served.operate (h : pull.Served codec uuid) (hu : Function.Injective uuid)
    {pull' : StreamingPull β} (hb : pull'.broker = pull.broker.step codec uuid event)
    (hf : pull'.first = pull.first) (hi : pull'.issued = pull.issued) :
    pull'.Served codec uuid where
  settled := hb ▸ h.settled.step hu event
  named := hf ▸ h.named
  drew ackId hm := by
    rw [hi] at hm
    rw [hb]
    exact (h.drew ackId hm).step event
  home subscription id lease hh := by
    obtain ⟨before, hbefore, -⟩ := h.token event hu hh hb hi
    rw [hf]
    exact h.home subscription id before hbefore

/-- An operation that spares the dropped leases brings none of them back. -/
theorem Accounted.operate (h : pull.Accounted codec uuid) (hu : Function.Injective uuid)
    (hs : pull.Spares codec event) {pull' : StreamingPull β}
    (hh : pull'.Holds codec subscription id lease)
    (hb : pull'.broker = pull.broker.step codec uuid event) (hc : pull'.clock = pull.clock)
    (hi : pull'.issued = pull.issued) (hd : pull'.clock < lease.deadline) :
    pull.Counts lease.token := by
  rw [hc] at hd
  rcases h.served.holds event hu hh hb hi with
    hh | ⟨ackIds, seconds, now, before, he, hz, hh, ht, hm, hdead⟩
  · exact h.counted subscription id lease hh hd
  · by_contra hn
    obtain rfl := h.served.home _ _ _ hh
    have hle := hs ackIds seconds now id before he hz hh (ht ▸ hm) (ht ▸ hn)
    omega

theorem Ready.operate (h : pull.Ready codec) {pull' : StreamingPull β}
    (hstage : pull'.stage = pull.stage) (hf : pull'.first = pull.first)
    (ho : pull'.outstanding = pull.outstanding)
    (ht : ∀ subscription id lease, pull'.Holds codec subscription id lease →
      ∃ before, pull.Holds codec subscription id before ∧ before.token = lease.token) :
    pull'.Ready codec := by
  unfold Ready at h ⊢
  rw [hstage, hf, ho]
  split
  · rename_i request hs
    rw [hs] at h
    refine ⟨h.1, fun s i lease hh => ?_⟩
    obtain ⟨before, hbefore, he⟩ := ht s i lease hh
    exact he ▸ h.2 s i before hbefore
  · rename_i ackId seconds rest hs
    rw [hs] at h
    refine ⟨h.1, fun hz s i lease hh => ?_⟩
    obtain ⟨before, hbefore, he⟩ := ht s i lease hh
    exact he ▸ h.2 hz s i before hbefore
  all_goals simpa [*] using h

end

/-- A point at which the map is all that matters. -/
def Plain : Stage → Prop
  | .ended => False
  | .acknowledged _ => False
  | .modified .. => False
  | .checked _ => False
  | .claimed _ => False
  | .calling .claim => False
  | .found .claim => False
  | _ => True

theorem counts_plain (hp : Plain pull.stage) (ackId : String) :
    pull.Counts ackId ↔ ackId ∈ pull.outstanding := by
  unfold Counts
  split
  · simp_all [Plain]
  · simp_all [Plain]
  · simp_all [Plain]
  · rfl

theorem ready_plain (hp : Plain pull.stage)
    (hs : pull.outstanding.size ≤ pull.first.maxMessages) : pull.Ready codec := by
  unfold Ready
  split <;> first | exact hs | simp_all [Plain]

theorem Ready.size_le (h : pull.Ready codec) :
    pull.outstanding.size ≤ pull.first.maxMessages := by
  unfold Ready at h
  split at h
  · exact h.1
  · exact h.1
  all_goals omega

theorem plain_modifying (todo : List (String × Int)) : Plain (.modifying todo) := by
  cases todo <;> trivial

theorem plain_handle (firstRequest : Bool) (request : StreamingPullRequest) :
    Plain (.handle firstRequest request) := by
  unfold Stage.handle
  split
  · trivial
  · split
    · trivial
    · split
      · exact plain_modifying _
      · trivial

theorem Served.congr (h : pull.Served codec uuid) {pull' : StreamingPull β}
    (hb : pull'.broker = pull.broker) (hf : pull'.first = pull.first)
    (hi : pull'.issued = pull.issued) : pull'.Served codec uuid := by
  constructor
  · exact hb ▸ h.settled
  · exact hf ▸ h.named
  · intro ackId hm
    rw [hb]
    exact h.drew ackId (hi ▸ hm)
  · intro s i lease hh
    rw [hf]
    refine h.home s i lease ⟨?_, hi ▸ hh.2⟩
    rw [← hb]
    exact hh.1

/-- The task goes on to a point at which its map holds every lease that lasts. -/
theorem Accounted.settle (h : pull.Accounted codec uuid) {pull' : StreamingPull β}
    (hb : pull'.broker = pull.broker) (hf : pull'.first = pull.first)
    (hi : pull'.issued = pull.issued) (hc : pull'.clock = pull.clock) (hp : Plain pull'.stage)
    (hs : pull'.outstanding.size ≤ pull.first.maxMessages)
    (ho : ∀ s i lease, pull.Holds codec s i lease → pull.clock < lease.deadline →
      lease.token ∈ pull'.outstanding) : pull'.Accounted codec uuid := by
  refine ⟨h.served.congr hb hf hi, fun s i lease hh hd => ?_, ready_plain hp (hf ▸ hs)⟩
  rw [counts_plain hp]
  refine ho s i lease ⟨?_, hi ▸ hh.2⟩ (hc ▸ hd)
  rw [← hb]
  exact hh.1

theorem Accounted.setStage (h : pull.Accounted codec uuid) (hp : Plain pull.stage)
    {stage : Stage} (hp' : Plain stage) : (pull.setStage stage).Accounted codec uuid :=
  h.settle rfl rfl rfl rfl hp' h.ready.size_le fun s i lease hh hd =>
    (counts_plain hp _).mp (h.counted s i lease hh hd)

/-- The task may end where none of its leases lasts. -/
theorem Accounted.finish (h : pull.Accounted codec uuid) (hl : pull.Lapsed codec) :
    pull.finish.Accounted codec uuid := by
  refine ⟨h.served.congr rfl rfl rfl, fun s i lease hh hd => ?_, Nat.zero_le _⟩
  have hle := hl s i lease hh
  have hlt : pull.clock < lease.deadline := hd
  omega

theorem Accounted.tick (h : pull.Accounted codec uuid) {now : Int}
    (ha : pull.Allowed codec (.tick now)) :
    ({ pull with clock := now } : StreamingPull β).Accounted codec uuid := by
  refine ⟨h.served.congr rfl rfl rfl, fun s i lease hh hd => ?_, ?_⟩
  · by_contra hn
    have hle := ha s i lease hh hn
    have hlt : now < lease.deadline := hd
    omega
  · exact h.ready.operate rfl rfl rfl fun s i lease hh => ⟨lease, hh, rfl⟩

theorem Accounted.others (h : pull.Accounted codec uuid) (hu : Function.Injective uuid)
    {event : Event} (ha : pull.Allowed codec (.others event)) :
    ({ pull with broker := pull.broker.step codec uuid event } : StreamingPull β).Accounted
      codec uuid := by
  refine ⟨h.served.operate event hu rfl rfl rfl, fun s i lease hh hd => ?_, ?_⟩
  · have hcounts : pull.Counts lease.token := h.operate event hu ha hh rfl rfl rfl hd
    exact hcounts
  · exact h.ready.operate rfl rfl rfl fun s i lease hh => h.served.token event hu hh rfl rfl

theorem Accounted.receive (h : pull.Accounted codec uuid) (incoming : Incoming) :
    (pull.receive incoming).Accounted codec uuid := by
  unfold StreamingPull.receive
  split
  · rename_i hs
    have hp : Plain pull.stage := by
      rw [hs]
      trivial
    refine h.setStage hp ?_
    cases incoming with
    | request request => exact plain_handle false request
    | woken => trivial
    | closed => trivial
    | failed status => trivial
  · exact h

/-- Where nothing is outstanding, none of the leases lasts. -/
theorem Accounted.lapsed_of_empty (h : pull.Accounted codec uuid) (hp : Plain pull.stage)
    (he : pull.outstanding.isEmpty = true) : pull.Lapsed codec := by
  intro s i lease hh
  by_contra hlt
  have hm := (counts_plain hp _).mp (h.counted s i lease hh (Int.not_le.mp hlt))
  rw [ExtTreeMap.isEmpty_iff.mp he] at hm
  exact ExtTreeMap.not_mem_empty hm

/-- A subscription that is not found has no leases left. -/
theorem Served.gone (h : pull.Served codec uuid) {status : Status}
    (hs : pull.broker.service.getSubscriptionValue codec pull.first.subscription = .error status)
    (hh : pull.Holds codec subscription id lease) : False := by
  obtain ⟨parsed, hp⟩ := h.named
  obtain rfl := h.home _ _ _ hh
  have hn : pull.broker.leases codec pull.first.subscription id = none :=
    h.settled.gone (h.settled.readable.lookup hp hs)
  rw [hh.1] at hn
  cases hn

theorem Accounted.lookup (h : pull.Accounted codec uuid) :
    (pull.lookup codec).Accounted codec uuid := by
  unfold StreamingPull.lookup
  split
  · rename_i hs
    have hp : Plain pull.stage := by
      rw [hs]
      trivial
    split
    · rename_i he
      exact h.finish (h.lapsed_of_empty hp he)
    · split
      · exact h.setStage hp trivial
      · rename_i hg
        exact h.finish fun s i lease hh => (h.served.gone hg hh).elim
  · rename_i call hnot hs
    cases call with
    | claim =>
      have hcounts : ∀ ackId, pull.Counts ackId ↔ ackId ∈ pull.outstanding := by
        intro ackId
        simp [Counts, hs]
      have hsize : pull.outstanding.size < pull.first.maxMessages := by
        have hr := h.ready
        simpa [Ready, hs] using hr
      split
      · exact ⟨h.served.congr rfl rfl rfl, fun s i lease hh hd =>
          (hcounts _).mp (h.counted s i lease hh hd), hsize⟩
      · exact h.settle rfl rfl rfl rfl trivial h.ready.size_le fun s i lease hh hd =>
          (hcounts _).mp (h.counted s i lease hh hd)
    | release => exact absurd rfl hnot
    | acknowledge request =>
      have hp : Plain pull.stage := by
        rw [hs]
        trivial
      split
      · exact h.setStage hp trivial
      · exact h.setStage hp trivial
    | modify ackId seconds rest =>
      have hp : Plain pull.stage := by
        rw [hs]
        trivial
      split
      · exact h.setStage hp trivial
      · exact h.setStage hp trivial
    | activeAckIds =>
      have hp : Plain pull.stage := by
        rw [hs]
        trivial
      split
      · exact h.setStage hp trivial
      · exact h.setStage hp trivial
  · exact h

theorem Accounted.sent (h : pull.Accounted codec uuid) (delivered : Bool) :
    (pull.sent delivered).Accounted codec uuid := by
  unfold StreamingPull.sent
  split
  · rename_i hs
    have hp : Plain pull.stage := by
      rw [hs]
      trivial
    refine h.setStage hp ?_
    split <;> trivial
  · rename_i status hs
    have hp : Plain pull.stage := by
      rw [hs]
      trivial
    exact h.setStage hp trivial
  · exact h

/-- What the map holds at every point but those after a check or a claim. -/
theorem Accounted.outstanding_of (h : pull.Accounted codec uuid)
    (hc : ∀ active, pull.stage ≠ .checked active) (hg : ∀ given, pull.stage ≠ .claimed given)
    (hh : pull.Holds codec subscription id lease) (hd : pull.clock < lease.deadline) :
    lease.token ∈ pull.outstanding := by
  have hcounts := h.counted subscription id lease hh hd
  unfold Counts at hcounts
  split at hcounts
  · rename_i active hs
    exact absurd hs (hc active)
  · rename_i given hs
    exact absurd hs (hg given)
  · exact hcounts.elim
  · exact hcounts

theorem Accounted.fail (h : pull.Accounted codec uuid) {status : Status}
    (ha : pull.Allowed codec (.fail status)) : (pull.fail status).Accounted codec uuid := by
  unfold StreamingPull.fail
  split
  · rename_i hs
    exact h.finish (ha (.inl hs))
  · rename_i hs
    exact h.finish (ha (.inr hs))
  · rename_i call hnot hs
    refine h.settle rfl rfl rfl rfl trivial h.ready.size_le fun s i lease hh hd => ?_
    exact h.outstanding_of (by simp [hs]) (by simp [hs]) hh hd
  · rename_i call hnot hs
    refine h.settle rfl rfl rfl rfl trivial h.ready.size_le fun s i lease hh hd => ?_
    exact h.outstanding_of (by simp [hs]) (by simp [hs]) hh hd
  · exact h

theorem mem_foldl_erase {outstanding : ExtTreeMap String Int} (ackIds : List String)
    {ackId : String} : ackId ∈ ackIds.foldl (fun outstanding ack => outstanding.erase ack)
      outstanding ↔ ackId ∈ outstanding ∧ ackId ∉ ackIds := by
  induction ackIds generalizing outstanding with
  | nil => simp
  | cons first ackIds ih =>
    rw [List.foldl_cons, ih, ExtTreeMap.mem_erase, List.mem_cons, not_or]
    simp only [ne_eq, LawfulEqOrd.compare_eq_iff_eq, eq_comm (a := first)]
    tauto

theorem size_foldl_erase_le {outstanding : ExtTreeMap String Int} (ackIds : List String) :
    (ackIds.foldl (fun outstanding ack => outstanding.erase ack) outstanding).size ≤
      outstanding.size := by
  induction ackIds generalizing outstanding with
  | nil => exact Nat.le_refl _
  | cons first ackIds ih => exact Nat.le_trans ih ExtTreeMap.size_erase_le

theorem mem_foldl_insert {outstanding : ExtTreeMap String Int} (given : List BrokerMessage)
    {ackId : String} (h : ackId ∈ outstanding ∨ ackId ∈ given.map BrokerMessage.ackId) :
    ackId ∈ given.foldl (fun outstanding message =>
      outstanding.insert message.ackId message.sizeBytes) outstanding := by
  induction given generalizing outstanding with
  | nil => simpa using h
  | cons message given ih =>
    refine ih ?_
    rw [List.map_cons, List.mem_cons] at h
    rw [ExtTreeMap.mem_insert, LawfulEqOrd.compare_eq_iff_eq]
    rcases h with h | rfl | h
    · exact .inl (.inr h)
    · exact .inl (.inl rfl)
    · exact .inr h

theorem size_foldl_insert_le {outstanding : ExtTreeMap String Int}
    (given : List BrokerMessage) : (given.foldl (fun outstanding message =>
      outstanding.insert message.ackId message.sizeBytes) outstanding).size ≤
        outstanding.size + given.length := by
  induction given generalizing outstanding with
  | nil => exact Nat.le_refl _
  | cons message given ih =>
    have hone := ExtTreeMap.size_insert_le (t := outstanding) (k := message.ackId)
      (v := message.sizeBytes)
    have hrest := @ih (outstanding.insert message.ackId message.sizeBytes)
    rw [List.foldl_cons, List.length_cons]
    omega

theorem Accounted.resume (h : pull.Accounted codec uuid) :
    (pull.resume).Accounted codec uuid := by
  have hready := h.ready
  unfold StreamingPull.resume
  split
  · rename_i request hs
    rw [Ready, hs] at hready
    refine h.settle rfl rfl rfl rfl (plain_modifying _)
      (Nat.le_trans (size_foldl_erase_le _) hready.1) fun s i lease hh hd => ?_
    exact (mem_foldl_erase _).mpr
      ⟨h.outstanding_of (by simp [hs]) (by simp [hs]) hh hd, hready.2 s i lease hh⟩
  · rename_i ackId seconds rest hs
    rw [Ready, hs] at hready
    by_cases hz : seconds = 0
    · simp only [if_pos hz]
      refine h.settle rfl rfl rfl rfl (plain_modifying _)
        (Nat.le_trans ExtTreeMap.size_erase_le hready.1) fun s i lease hh hd => ?_
      rw [ExtTreeMap.mem_erase, ne_eq, LawfulEqOrd.compare_eq_iff_eq]
      exact ⟨Ne.symm (hready.2 hz s i lease hh),
        h.outstanding_of (by simp [hs]) (by simp [hs]) hh hd⟩
    · simp only [if_neg hz]
      exact h.settle rfl rfl rfl rfl (plain_modifying _) hready.1 fun s i lease hh hd =>
        h.outstanding_of (by simp [hs]) (by simp [hs]) hh hd
  · rename_i active hs
    rw [Ready, hs] at hready
    have hcounts : ∀ s i lease, pull.Holds codec s i lease → pull.clock < lease.deadline →
        lease.token ∈ pull.outstanding.filter fun ackId _ => active.contains ackId := by
      intro s i lease hh hd
      have hc := h.counted s i lease hh hd
      rw [Counts, hs] at hc
      obtain ⟨size, hsize⟩ := mem_iff_exists.mp hc.1
      exact mem_filter.mpr ⟨size, hsize, List.contains_iff_mem.mpr hc.2⟩
    have hsize := Nat.le_trans (ExtTreeMap.size_filter_le_size
      (t := pull.outstanding) (f := fun ackId _ => active.contains ackId)) hready
    dsimp only
    split
    · rename_i hroom
      refine ⟨h.served.congr rfl rfl rfl, hcounts, ?_⟩
      unfold hasRoom at hroom
      simp only [Bool.and_eq_true, decide_eq_true_eq] at hroom
      exact hroom.1
    · exact h.settle rfl rfl rfl rfl trivial hsize hcounts
  · rename_i given hs
    rw [Ready, hs] at hready
    refine h.settle rfl rfl rfl rfl trivial
      (Nat.le_trans (size_foldl_insert_le given) hready) fun s i lease hh hd => ?_
    have hc := h.counted s i lease hh hd
    rw [Counts, hs] at hc
    exact mem_foldl_insert given hc
  · exact h

/-- A call of the task that names leases, with what it goes on with. -/
theorem Accounted.serve (h : pull.Accounted codec uuid) (event : Event)
    (hu : Function.Injective uuid) (hs : pull.Spares codec event) (hp : Plain pull.stage)
    {ackIds : List String} (hn : event.names = some (pull.first.subscription, ackIds))
    {stage : Stage} (hc : ∀ active, stage ≠ .checked active)
    (hg : ∀ given, stage ≠ .claimed given) (he : stage ≠ .ended)
    (hr : pull.broker.reply codec uuid event = .done → ∀ pull' : StreamingPull β,
      pull'.broker = pull.broker.step codec uuid event → pull'.first = pull.first →
      pull'.outstanding = pull.outstanding → pull'.stage = stage → pull'.Served codec uuid →
      pull'.Ready codec) :
    (pull.serve codec uuid event (Stage.afterReply stage)).Accounted codec uuid := by
  have hserved : (pull.serve codec uuid event (Stage.afterReply stage)).Served codec uuid :=
    h.served.operate event hu rfl rfl rfl
  have hcounted : ∀ s i lease,
      (pull.serve codec uuid event (Stage.afterReply stage)).Holds codec s i lease →
      pull.clock < lease.deadline → lease.token ∈ pull.outstanding := by
    intro s i lease hh hd
    exact (counts_plain hp _).mp (h.operate event hu hs hh rfl rfl rfl hd)
  rcases (h.served.settled.sound.serve hu event).2.named hn with hdone | ⟨status, hrefused⟩
  · have hstage : (pull.serve codec uuid event (Stage.afterReply stage)).stage = stage :=
      congrArg (Stage.afterReply stage) hdone
    refine ⟨hserved, fun s i lease hh hd => ?_, hr hdone _ rfl rfl rfl hstage hserved⟩
    have hm := hcounted s i lease hh hd
    unfold Counts
    rw [hstage]
    split
    · exact absurd rfl (hc _)
    · exact absurd rfl (hg _)
    · exact absurd rfl he
    · exact hm
  · have hstage : (pull.serve codec uuid event (Stage.afterReply stage)).stage =
        .rejecting status := congrArg (Stage.afterReply stage) hrefused
    have hplain : Plain (pull.serve codec uuid event (Stage.afterReply stage)).stage := by
      rw [hstage]
      trivial
    exact ⟨hserved, fun s i lease hh hd => (counts_plain hplain _).mpr (hcounted s i lease hh hd),
      ready_plain hplain h.ready.size_le⟩

theorem Accounted.acknowledge (h : pull.Accounted codec uuid) (hu : Function.Injective uuid)
    {request : StreamingPullRequest} (hs : pull.stage = .found (.acknowledge request)) :
    (pull.serve codec uuid (.acknowledge pull.first.subscription request.ackIds)
      (Stage.afterReply (.acknowledged request))).Accounted codec uuid := by
  have hp : Plain pull.stage := by
    rw [hs]
    trivial
  refine h.serve _ hu (fun _ _ _ _ _ he => by cases he) hp rfl (fun _ he => by cases he)
    (fun _ he => by cases he) (fun he => by cases he) fun hdone pull' hb hf ho hstage hserved => ?_
  have hstep := (h.served.settled.sound.serve hu
    (.acknowledge pull.first.subscription request.ackIds)).2
  unfold Broker.reply at hdone
  rw [hdone] at hstep
  rw [Ready, hstage, hf, ho]
  refine ⟨h.ready.size_le, fun s i lease hh => ?_⟩
  obtain rfl := hserved.home s i lease hh
  have hl := hh.1
  rw [hb, hf] at hl
  exact hstep.acknowledged (h.served.settled.fresh hu) hl

theorem Accounted.modify (h : pull.Accounted codec uuid) (hu : Function.Injective uuid)
    {ackId : String} {seconds now : Int} {rest : List (String × Int)}
    (hs : pull.stage = .found (.modify ackId seconds rest))
    (ha : pull.Spares codec (.modifyAck pull.first.subscription [ackId] seconds now)) :
    (pull.serve codec uuid (.modifyAck pull.first.subscription [ackId] seconds now)
      (Stage.afterReply (.modified ackId seconds rest))).Accounted codec uuid := by
  have hp : Plain pull.stage := by
    rw [hs]
    trivial
  refine h.serve _ hu ha hp rfl (fun _ he => by cases he)
    (fun _ he => by cases he) (fun he => by cases he) fun hdone pull' hb hf ho hstage hserved => ?_
  have hstep := (h.served.settled.sound.serve hu
    (.modifyAck pull.first.subscription [ackId] seconds now)).2
  unfold Broker.reply at hdone
  rw [hdone] at hstep
  rw [Ready, hstage, hf, ho]
  refine ⟨h.ready.size_le, fun hz s i lease hh he => ?_⟩
  obtain rfl := hserved.home s i lease hh
  have hl := hh.1
  rw [hb, hf] at hl
  subst hz
  exact hstep.nacked (h.served.settled.fresh hu) hl (List.mem_singleton.mpr he)

theorem Accounted.check (h : pull.Accounted codec uuid) {now : Int}
    (hs : pull.stage = .found .activeAckIds)
    (ha : ∀ s i lease, pull.Holds codec s i lease → lease.deadline ≤ now →
      lease.deadline ≤ pull.clock) :
    (pull.setStage (.checked (pull.broker.service.activeAckIds pull.first.subscription
      pull.outstanding.keys now))).Accounted codec uuid := by
  refine ⟨h.served.congr rfl rfl rfl, fun s i lease hh hd => ?_, h.ready.size_le⟩
  have hm : lease.token ∈ pull.outstanding :=
    h.outstanding_of (by simp [hs]) (by simp [hs]) hh hd
  refine ⟨hm, ?_⟩
  obtain rfl := h.served.home s i lease hh
  refine h.served.settled.sound.mem_activeAckIds hh.1 (ExtTreeMap.mem_keys.mpr hm) ?_
  by_contra hlt
  have hle := ha _ i lease hh (Int.not_lt.mp hlt)
  have hd' : pull.clock < lease.deadline := hd
  omega

theorem handedOut_claimEvent (now : Int) (reply : Reply) :
    Pubsub.handedOut (pull.claimEvent now, reply) = reply.ackIds := by
  cases reply <;> rfl

/-- What a claim of the task hands out is for its subscription, and new. -/
theorem Accounted.claim_holds (h : pull.Accounted codec uuid) (hu : Function.Injective uuid)
    {now : Int} {pull' : StreamingPull β}
    (hh : pull'.Holds codec subscription id lease)
    (hb : pull'.broker = pull.broker.step codec uuid (pull.claimEvent now))
    (hi : pull'.issued =
      pull.issued ++ (pull.broker.reply codec uuid (pull.claimEvent now)).ackIds) :
    pull.Holds codec subscription id lease ∨ subscription = pull.first.subscription ∧
      lease.token ∈ (pull.broker.reply codec uuid (pull.claimEvent now)).ackIds := by
  obtain ⟨hl, hm⟩ := hh
  rw [hb] at hl
  rw [hi] at hm
  cases h.served.settled.noted hu hl with
  | kept hl =>
    rcases List.mem_append.mp hm with hm | hm
    · exact .inl ⟨hl, hm⟩
    · rw [← handedOut_claimEvent now] at hm
      exact absurd (h.served.settled.drew _ _ lease hl) (h.served.settled.handedOut hu hm).1
  | extended he => cases he
  | issued hissued =>
    have hout := hissued.mem_handedOut
    rw [List.flatMap_singleton, handedOut_claimEvent] at hout
    obtain ⟨maxCount, maxBytes, deadlineSeconds, now', given, hmem, -⟩ := hissued
    have he := (Prod.mk.inj (List.mem_singleton.mp hmem)).1
    exact .inr ⟨(Event.claim.inj he).1, hout⟩

theorem Accounted.claim (h : pull.Accounted codec uuid) (hu : Function.Injective uuid)
    {now : Int} (hs : pull.stage = .found .claim) :
    ({ pull.serve codec uuid (pull.claimEvent now) afterClaim with
      issued := pull.issued ++ (pull.broker.reply codec uuid (pull.claimEvent now)).ackIds } :
        StreamingPull β).Accounted codec uuid := by
  have hroom : pull.outstanding.size < pull.first.maxMessages := by
    have hready := h.ready
    rwa [Ready, hs] at hready
  have hcounted : ∀ s i lease, pull.Holds codec s i lease → pull.clock < lease.deadline →
      lease.token ∈ pull.outstanding := fun s i lease hh hd =>
    h.outstanding_of (by simp [hs]) (by simp [hs]) hh hd
  have hstep := (h.served.settled.sound.serve hu (pull.claimEvent now)).2
  refine ⟨⟨h.served.settled.step hu _, h.served.named, fun ackId hm => ?_, fun s i lease hh => ?_⟩,
    fun s i lease hh hd => ?_, ?_⟩
  · rcases List.mem_append.mp hm with hm | hm
    · exact (h.served.drew ackId hm).step _
    · rw [← handedOut_claimEvent now] at hm
      exact (h.served.settled.handedOut hu hm).2
  · rcases h.claim_holds hu hh rfl rfl with hh | ⟨hsub, -⟩
    · exact h.served.home s i lease hh
    · exact hsub
  · have hcase := h.claim_holds hu hh rfl rfl
    unfold Counts StreamingPull.serve
    dsimp only
    cases hr : pull.broker.reply codec uuid (pull.claimEvent now) with
    | claimed given =>
      rw [hr] at hcase
      rcases hcase with hh | ⟨-, hm⟩
      · have hm := hcounted s i lease hh hd
        cases given with
        | nil => exact hm
        | cons => exact .inl hm
      · cases given with
        | nil => cases hm
        | cons => exact .inr hm
    | done =>
      rw [hr] at hcase
      exact hcounted s i lease (hcase.resolve_right fun hc => by cases hc.2) hd
    | published ids =>
      rw [hr] at hcase
      exact hcounted s i lease (hcase.resolve_right fun hc => by cases hc.2) hd
    | refused status =>
      rw [hr] at hcase
      exact hcounted s i lease (hcase.resolve_right fun hc => by cases hc.2) hd
  · unfold Ready StreamingPull.serve
    dsimp only
    cases hr : pull.broker.reply codec uuid (pull.claimEvent now) with
    | claimed given =>
      unfold Broker.reply at hr
      rw [hr] at hstep
      have hlen : given.length ≤ min (pull.first.maxMessages - pull.outstanding.size) 100 :=
        hstep.claimed.1
      cases given with
      | nil => exact hroom.le
      | cons first given =>
        have hle : pull.outstanding.size + (first :: given).length ≤ pull.first.maxMessages := by
          omega
        exact hle
    | done => exact hroom.le
    | published ids => exact hroom.le
    | refused status => exact hroom.le

/-- A release is refused only when it names no lease. -/
theorem reply_release (codec : BrokerCodec β) (uuid : Nat → String) (broker : Broker β)
    (name : String) (ackIds : List String) (now : Int) :
    broker.reply codec uuid (.modifyAck name ackIds 0 now) = .done ∨ ackIds = [] := by
  cases ackIds with
  | nil => exact .inr rfl
  | cons ackId ackIds =>
    left
    unfold Broker.reply Broker.serve
    dsimp only
    unfold PubSubService.modifyLeases
    simp only [List.isEmpty_cons, Bool.false_eq_true, if_false, Int.le_refl, true_and,
      Int.reduceLE, not_true_eq_false]
    unfold PubSubService.update
    cases broker.service.persistence <;> rfl

/-- The release ends every lease in the map. -/
theorem Accounted.released (h : pull.Accounted codec uuid) (hu : Function.Injective uuid)
    {now : Int} {pull' : StreamingPull β} (hh : pull'.Holds codec subscription id lease)
    (hb : pull'.broker = pull.broker.step codec uuid
      (.modifyAck pull.first.subscription pull.outstanding.keys 0 now))
    (hi : pull'.issued = pull.issued) :
    pull.Holds codec subscription id lease ∧ lease.token ∉ pull.outstanding := by
  have hold : pull.Holds codec subscription id lease := by
    rcases h.served.holds _ hu hh hb hi with hold | ⟨_, _, _, _, he, hz, -⟩
    · exact hold
    · obtain ⟨-, -, hs, -⟩ := Event.modifyAck.inj he
      exact absurd hs.symm hz
  refine ⟨hold, fun hm => ?_⟩
  obtain rfl := h.served.home _ _ _ hold
  rw [← ExtTreeMap.mem_keys] at hm
  rcases reply_release codec uuid pull.broker pull.first.subscription pull.outstanding.keys
    now with hdone | hnil
  · have hstep := (h.served.settled.sound.serve hu
      (.modifyAck pull.first.subscription pull.outstanding.keys 0 now)).2
    unfold Broker.reply at hdone
    rw [hdone] at hstep
    have hl := hh.1
    rw [hb] at hl
    exact hstep.nacked (h.served.settled.fresh hu) hl hm
  · rw [hnil] at hm
    cases hm

theorem Accounted.release (h : pull.Accounted codec uuid) (hu : Function.Injective uuid)
    {now : Int} (hs : pull.stage = .found .release) :
    (pull.serve codec uuid (.modifyAck pull.first.subscription pull.outstanding.keys 0 now)
      fun _ => .ended).finish.Accounted codec uuid := by
  refine ⟨h.served.operate _ hu rfl rfl rfl, fun s i lease hh hd => ?_, Nat.zero_le _⟩
  obtain ⟨hold, hnot⟩ := h.released hu hh rfl rfl
  exact absurd (h.outstanding_of (by simp [hs]) (by simp [hs]) hold hd) hnot

theorem Accounted.perform (h : pull.Accounted codec uuid) (hu : Function.Injective uuid)
    {now : Int} (ha : pull.Allowed codec (.perform now)) :
    (pull.perform codec uuid now).Accounted codec uuid := by
  unfold Allowed at ha
  unfold StreamingPull.perform
  split
  · rename_i request hs
    exact h.acknowledge hu hs
  · rename_i ackId seconds rest hs
    rw [hs] at ha
    exact h.modify hu hs ha
  · rename_i hs
    rw [hs] at ha
    exact h.check hs ha
  · rename_i hs
    exact h.claim hu hs
  · rename_i hs
    exact h.release hu hs
  · exact h

theorem Accounted.step (h : pull.Accounted codec uuid) (hu : Function.Injective uuid)
    {event : StreamEvent} (ha : pull.Allowed codec event) :
    (pull.step codec uuid event).Accounted codec uuid := by
  cases event with
  | others event => exact h.others hu ha
  | tick now => exact h.tick ha
  | receive incoming => exact h.receive incoming
  | lookup => exact h.lookup
  | perform now => exact h.perform hu ha
  | fail status => exact h.fail ha
  | resume => exact h.resume
  | sent delivered => exact h.sent delivered
  | stop => exact h.finish ha

theorem Opened.accounted (hu : Function.Injective uuid) {first : StreamingPullRequest}
    (h : pull.Opened codec uuid first) : pull.Accounted codec uuid := by
  obtain ⟨hreach, hopen, hfirst, houtstanding, hstage, hissued⟩ := h
  have hnone : ∀ s i lease, ¬ pull.Holds codec s i lease := by
    intro s i lease hh
    have hm := hh.2
    rw [hissued] at hm
    cases hm
  have hplain : Plain pull.stage := hstage ▸ plain_handle true first
  refine ⟨⟨.reach hu hreach, ?_, fun ackId hm => ?_, fun s i lease hh => ?_⟩,
    fun s i lease hh _ => ?_, ready_plain hplain ?_⟩
  · unfold PubSubService.streamingPull at hopen
    split at hopen
    · cases hopen
    · split at hopen
      · cases hopen
      · rename_i hg
        rw [hfirst]
        exact PubSubService.named_of_lookup hg
  · rw [hissued] at hm
    cases hm
  · exact absurd hh (hnone s i lease)
  · exact absurd hh (hnone s i lease)
  · rw [houtstanding]
    exact Nat.zero_le _

/-- How a task comes to its end. -/
inductive Ends (codec : BrokerCodec β) (pull : StreamingPull β) : StreamEvent → Prop where
  | emptied (hs : pull.stage = .calling .release) (he : pull.outstanding.isEmpty = true) :
    Ends codec pull .lookup
  | gone {status : Status} (hg : pull.broker.service.getSubscriptionValue codec
      pull.first.subscription = .error status) : Ends codec pull .lookup
  | released (now : Int) (hs : pull.stage = .found .release) : Ends codec pull (.perform now)
  | failed (status : Status) : Ends codec pull (.fail status)
  | stopped : Ends codec pull .stop

theorem ends_of_step {event : StreamEvent} (hs : pull.stage ≠ .ended)
    (he : (pull.step codec uuid event).stage = .ended) : Ends codec pull event := by
  cases event with
  | others event => exact absurd he hs
  | tick now => exact absurd he hs
  | receive incoming =>
    have hreceive : (pull.receive incoming).stage = .ended := he
    unfold StreamingPull.receive at hreceive
    split at hreceive
    · have hplain : ∀ request, Stage.handle false request ≠ .ended := by
        intro request
        unfold Stage.handle Stage.afterAcks Stage.modifying
        grind
      cases incoming with
      | request request => exact absurd hreceive (hplain request)
      | woken => cases hreceive
      | closed => cases hreceive
      | failed status => cases hreceive
    · exact absurd hreceive hs
  | lookup =>
    have hlookup : (pull.lookup codec).stage = .ended := he
    unfold StreamingPull.lookup at hlookup
    split at hlookup
    · rename_i hstage
      split at hlookup
      · rename_i hempty
        exact .emptied hstage hempty
      · split at hlookup
        · cases hlookup
        · rename_i hg
          exact .gone hg
    · split at hlookup
      · cases hlookup
      · cases hlookup
    · exact absurd hlookup hs
  | perform now =>
    have hperform : (pull.perform codec uuid now).stage = .ended := he
    unfold StreamingPull.perform at hperform
    split at hperform
    · unfold StreamingPull.serve Stage.afterReply at hperform
      grind
    · unfold StreamingPull.serve Stage.afterReply at hperform
      grind
    · cases hperform
    · unfold StreamingPull.serve afterClaim at hperform
      grind
    · rename_i hstage
      exact .released now hstage
    · exact absurd hperform hs
  | fail status => exact .failed status
  | resume =>
    have hresume : (pull.resume).stage = .ended := he
    unfold StreamingPull.resume Stage.afterAcks Stage.modifying StreamingPull.setStage at hresume
    grind
  | sent delivered =>
    have hsent : (pull.sent delivered).stage = .ended := he
    unfold StreamingPull.sent StreamingPull.setStage at hsent
    grind
  | stop => exact .stopped

/-- Once the task has ended, the stream has no lease in flight. -/
def Cleared (codec : BrokerCodec β) (pull : StreamingPull β) : Prop :=
  pull.stage = .ended → ∀ s i lease, ¬ pull.Holds codec s i lease

theorem Accounted.cleared (h : pull.Accounted codec uuid) (hu : Function.Injective uuid)
    {event : StreamEvent} (ht : pull.Tidy codec uuid event) (hc : pull.Cleared codec) :
    (pull.step codec uuid event).Cleared codec := by
  intro he s i lease hh
  by_cases hs : pull.stage = .ended
  · -- A task that has ended does nothing, and nothing hands it leases.
    cases event with
    | others event =>
      obtain ⟨before, hold, -⟩ := h.served.token event hu hh rfl rfl
      exact hc hs s i before hold
    | tick now => exact hc hs s i lease hh
    | stop => exact hc hs s i lease hh
    | receive incoming =>
      have hsame : pull.receive incoming = pull := by simp [StreamingPull.receive, hs]
      exact hc hs s i lease (hsame ▸ hh)
    | lookup =>
      have hsame : pull.lookup codec = pull := by simp [StreamingPull.lookup, hs]
      exact hc hs s i lease (hsame ▸ hh)
    | perform now =>
      have hsame : pull.perform codec uuid now = pull := by simp [StreamingPull.perform, hs]
      exact hc hs s i lease (hsame ▸ hh)
    | fail status =>
      have hsame : pull.fail status = pull := by simp [StreamingPull.fail, hs]
      exact hc hs s i lease (hsame ▸ hh)
    | resume =>
      have hsame : pull.resume = pull := by simp [StreamingPull.resume, hs]
      exact hc hs s i lease (hsame ▸ hh)
    | sent delivered =>
      have hsame : pull.sent delivered = pull := by simp [StreamingPull.sent, hs]
      exact hc hs s i lease (hsame ▸ hh)
  · have htidy := ht hs he
    have hkept : ∀ s i lease, ¬ ((∃ status, event = .fail status) ∧
        pull.Holds codec s i lease) := by
      rintro s i lease ⟨⟨status, rfl⟩, hold⟩
      exact (htidy s i lease hold).2.2 status rfl
    cases ends_of_step hs he with
    | emptied hstage hempty =>
      have hsame : pull.lookup codec = pull.finish := by
        simp [StreamingPull.lookup, hstage, hempty]
      have hold : (pull.lookup codec).Holds codec s i lease := hh
      rw [hsame] at hold
      have hm := (htidy s i lease hold).1
      rw [ExtTreeMap.isEmpty_iff.mp hempty] at hm
      exact ExtTreeMap.not_mem_empty hm
    | gone hg =>
      have hold : pull.Holds codec s i lease := by
        have hbroker : (pull.lookup codec).broker = pull.broker ∧
            (pull.lookup codec).issued = pull.issued := by
          unfold StreamingPull.lookup
          split
          · split
            · exact ⟨rfl, rfl⟩
            · split <;> exact ⟨rfl, rfl⟩
          · split <;> exact ⟨rfl, rfl⟩
          · exact ⟨rfl, rfl⟩
        have hh' : (pull.lookup codec).Holds codec s i lease := hh
        unfold Holds at hh' ⊢
        rwa [hbroker.1, hbroker.2] at hh'
      exact h.served.gone hg hold
    | released now hstage =>
      have hsame : pull.perform codec uuid now = (pull.serve codec uuid
          (.modifyAck pull.first.subscription pull.outstanding.keys 0 now)
          fun _ => .ended).finish := by simp [StreamingPull.perform, hstage]
      have hh' : (pull.perform codec uuid now).Holds codec s i lease := hh
      rw [hsame] at hh'
      obtain ⟨hold, hnot⟩ := h.released hu hh' rfl rfl
      exact hnot (htidy s i lease hold).1
    | failed status =>
      have hsame : (pull.fail status).broker = pull.broker ∧
          (pull.fail status).issued = pull.issued := by
        unfold StreamingPull.fail
        split <;> exact ⟨rfl, rfl⟩
      have hh' : (pull.fail status).Holds codec s i lease := hh
      unfold Holds at hh'
      rw [hsame.1, hsame.2] at hh'
      exact hkept s i lease ⟨⟨status, rfl⟩, hh'⟩
    | stopped =>
      have hold : pull.Holds codec s i lease := hh
      exact (htidy s i lease hold).2.1 rfl

/-- What the map holds with the messages of a claim that is still to be recorded. -/
theorem Accounted.recorded (h : pull.Accounted codec uuid)
    (hh : pull.Holds codec subscription id lease) (hd : pull.clock < lease.deadline) :
    lease.token ∈ pull.outstanding ∨ ∃ given, pull.stage = .claimed given ∧
      lease.token ∈ given.map BrokerMessage.ackId := by
  have hcounts := h.counted subscription id lease hh hd
  unfold Counts at hcounts
  split at hcounts
  · exact .inl hcounts.1
  · rename_i given hs
    exact hcounts.imp_right fun hm => ⟨given, hs, hm⟩
  · exact hcounts.elim
  · exact .inl hcounts

/-- Leases that last are not more than the stream may have outstanding. -/
theorem Accounted.length_le (h : pull.Accounted codec uuid) {ackIds : List String}
    (hn : ackIds.Nodup) (hl : ∀ ackId ∈ ackIds, ∃ s i lease, pull.Holds codec s i lease ∧
      lease.token = ackId ∧ pull.clock < lease.deadline) :
    ackIds.length ≤ pull.first.maxMessages := by
  have hready := h.ready
  have hroom : ∃ rest : List String, (∀ ackId ∈ ackIds, ackId ∈ pull.outstanding.keys ++ rest) ∧
      pull.outstanding.size + rest.length ≤ pull.first.maxMessages := by
    by_cases hg : ∃ given, pull.stage = .claimed given
    · obtain ⟨given, hs⟩ := hg
      rw [Ready, hs] at hready
      refine ⟨given.map BrokerMessage.ackId, fun ackId hm => ?_, by rwa [List.length_map]⟩
      obtain ⟨s, i, lease, hh, rfl, hd⟩ := hl ackId hm
      rcases h.recorded hh hd with hm | ⟨given', hs', hm⟩
      · exact List.mem_append_left _ (ExtTreeMap.mem_keys.mpr hm)
      · obtain rfl := Stage.claimed.inj (hs.symm.trans hs')
        exact List.mem_append_right _ hm
    · refine ⟨[], fun ackId hm => ?_, h.ready.size_le⟩
      obtain ⟨s, i, lease, hh, rfl, hd⟩ := hl ackId hm
      rcases h.recorded hh hd with hm | ⟨given, hs, -⟩
      · exact List.mem_append_left _ (ExtTreeMap.mem_keys.mpr hm)
      · exact absurd ⟨given, hs⟩ hg
  obtain ⟨rest, hsub, hle⟩ := hroom
  have hlen := (hn.subperm hsub).length_le
  rw [List.length_append, ExtTreeMap.length_keys] at hlen
  omega

theorem Accounted.reach (hu : Function.Injective uuid) {first : StreamingPullRequest}
    {allowed : StreamingPull β → StreamEvent → Prop}
    (ha : ∀ pull event, allowed pull event → pull.Allowed codec event)
    (h : Reach (StreamingPull.step codec uuid) allowed (Opened codec uuid first) pull) :
    pull.Accounted codec uuid :=
  h.invariant (fun _ ho => ho.accounted hu) fun _ event hi hallowed =>
    hi.step hu (ha _ event hallowed)

/-- A step of the task itself that the database does not fail, and that is no change of a
deadline. -/
def calm (pull : StreamingPull β) : StreamEvent → Bool
  | .receive _ => true
  | .lookup => true
  | .resume => true
  | .sent _ => true
  | .perform _ =>
    pull.issued.isEmpty || pull.stage == .found .claim || pull.stage == .found .release
  | _ => false

theorem allowed_of_calm {event : StreamEvent} (h : pull.calm event = true) :
    pull.Allowed codec event := by
  cases event with
  | others event => cases h
  | tick now => cases h
  | fail status => cases h
  | stop => cases h
  | receive incoming => trivial
  | lookup => trivial
  | resume => trivial
  | sent delivered => trivial
  | perform now =>
    simp only [calm, Bool.or_eq_true, List.isEmpty_iff, beq_iff_eq] at h
    simp only [Allowed]
    rcases h with (hi | hs) | hs
    · have hnone : ∀ s i lease, ¬ pull.Holds codec s i lease := by
        intro s i lease hh
        have hm := hh.2
        rw [hi] at hm
        cases hm
      split
      · exact fun _ _ _ i lease _ _ hh => absurd hh (hnone _ i lease)
      · exact fun s i lease hh => absurd hh (hnone s i lease)
      · trivial
    · simp [hs]
    · simp [hs]

/-- Calm steps of a task that goes on. -/
def running (codec : BrokerCodec β) (uuid : Nat → String) :
    StreamingPull β → List StreamEvent → Bool
  | _, [] => true
  | pull, event :: events =>
    pull.calm event && (pull.step codec uuid event).stage != .ended &&
      running codec uuid (pull.step codec uuid event) events

theorem along_of_running {events : List StreamEvent}
    (h : running codec uuid pull events = true) :
    Reach.Along (StreamingPull.step codec uuid)
      (fun pull event => pull.Allowed codec event ∧ pull.Tidy codec uuid event) pull events := by
  induction events generalizing pull with
  | nil => trivial
  | cons event events ih =>
    simp only [running, Bool.and_eq_true, bne_iff_ne] at h
    exact ⟨⟨allowed_of_calm h.1.1, fun _ he => absurd he h.1.2⟩, ih h.2⟩

theorem first_step (event : StreamEvent) : (pull.step codec uuid event).first = pull.first := by
  cases event with
  | others event => rfl
  | tick now => rfl
  | receive incoming =>
    change (pull.receive incoming).first = _
    unfold StreamingPull.receive
    split <;> rfl
  | lookup =>
    change (pull.lookup codec).first = _
    unfold StreamingPull.lookup
    split
    · split
      · rfl
      · split <;> rfl
    · split <;> rfl
    · rfl
  | perform now =>
    change (pull.perform codec uuid now).first = _
    unfold StreamingPull.perform
    split <;> rfl
  | fail status =>
    change (pull.fail status).first = _
    unfold StreamingPull.fail
    split <;> rfl
  | resume =>
    change (pull.resume).first = _
    unfold StreamingPull.resume
    split <;> rfl
  | sent delivered =>
    change (pull.sent delivered).first = _
    unfold StreamingPull.sent
    split <;> rfl
  | stop => rfl

end StreamingPull

/-- Where no step revives a lease that the stream has dropped, flow control counts every lease
that lasts, and the end of the stream leaves none of them; it leaves none in flight where its
release finds them all in the map. -/
theorem flow_control (hu : Function.Injective uuid) {first : StreamingPullRequest}
    {pull : StreamingPull β} :
    (Reach (StreamingPull.step codec uuid) (fun pull event => pull.Allowed codec event)
        (StreamingPull.Opened codec uuid first) pull →
      (∀ subscription id lease, pull.Holds codec subscription id lease →
        pull.clock < lease.deadline → lease.token ∈ pull.outstanding ∨
          ∃ given, pull.stage = .claimed given ∧ lease.token ∈ given.map BrokerMessage.ackId) ∧
      (∀ ackIds : List String, ackIds.Nodup → (∀ ackId ∈ ackIds, ∃ subscription id lease,
        pull.Holds codec subscription id lease ∧ lease.token = ackId ∧
          pull.clock < lease.deadline) → ackIds.length ≤ first.maxMessages) ∧
      (pull.stage = .ended → ∀ subscription id lease, pull.Holds codec subscription id lease →
        lease.deadline ≤ pull.clock)) ∧
    (Reach (StreamingPull.step codec uuid)
        (fun pull event => pull.Allowed codec event ∧ pull.Tidy codec uuid event)
        (StreamingPull.Opened codec uuid first) pull → pull.stage = .ended →
      ∀ subscription id lease, ¬ pull.Holds codec subscription id lease) := by
  refine ⟨fun hr => ?_, fun hr => ?_⟩
  · have h := StreamingPull.Accounted.reach hu (fun _ _ ha => ha) hr
    have hfirst : pull.first = first :=
      hr.invariant (I := fun pull => pull.first = first) (fun _ ho => ho.2.2.1) fun _ event hf _ =>
        (StreamingPull.first_step event).trans hf
    refine ⟨fun subscription id lease hh hd => h.recorded hh hd, fun ackIds hn hl => ?_,
      fun hs subscription id lease hh => ?_⟩
    · exact hfirst ▸ h.length_le hn hl
    · by_contra hlt
      have hcounts := h.counted subscription id lease hh (Int.not_le.mp hlt)
      rw [StreamingPull.Counts, hs] at hcounts
      exact hcounts
  · have h : pull.Accounted codec uuid ∧ pull.Cleared codec := by
      refine hr.invariant (I := fun pull => pull.Accounted codec uuid ∧ pull.Cleared codec)
        (fun s ho => ⟨ho.accounted hu, fun hs i j lease hh => ?_⟩)
        fun s event hi ha => ⟨hi.1.step hu ha.1, hi.1.cleared hu ha.2 hi.2⟩
      have hm := hh.2
      rw [ho.2.2.2.2.2] at hm
      cases hm
    exact h.2

/-- A stream for one message at a time, with leases of ten seconds. -/
def samplePull : StreamingPullRequest :=
  ⟨sampleSubscription "sub-one", [], [], [], 10, 1, 0⟩

def sampleStream : StreamingPull Blob where
  broker := sampleRun .inMemory
    [sampleCreateTopic, sampleCreateSubscription "sub-one", samplePublish [1, 2] 0]
  clock := 0
  first := samplePull
  outstanding := ∅
  stage := .handle true samplePull
  issued := []

def sampleStreamRun (events : List StreamEvent) : StreamingPull Blob :=
  events.foldl (StreamingPull.step plainCodec sampleUuid) sampleStream

theorem sampleStream_opened : sampleStream.Opened plainCodec sampleUuid samplePull := by
  refine ⟨(sampleRun_reach _ _).mono fun _ hs => .inl hs, ?_, rfl, rfl, rfl, rfl⟩
  decide +kernel

/-- The first check and claim of a stream, and the message sent. -/
def sampleFirstClaim : List StreamEvent :=
  [.lookup, .perform 0, .resume, .lookup, .perform 0, .resume, .sent true]

/-- A stream that is handed a message and closed leaves no lease in flight. -/
theorem flow_control_sample : ¬ ∃ subscription id lease,
    (sampleStreamRun (sampleFirstClaim ++ [.receive .closed, .lookup, .perform 5])).Holds
      plainCodec subscription id lease := by
  have hstart : Reach (StreamingPull.step plainCodec sampleUuid)
      (fun pull event => pull.Allowed plainCodec event ∧ pull.Tidy plainCodec sampleUuid event)
      (StreamingPull.Opened plainCodec sampleUuid samplePull) sampleStream :=
    .start sampleStream_opened
  have hrunning : StreamingPull.running plainCodec sampleUuid sampleStream
      (sampleFirstClaim ++ [.receive .closed, .lookup]) = true := by decide +kernel
  have hbefore : Reach (StreamingPull.step plainCodec sampleUuid)
      (fun pull event => pull.Allowed plainCodec event ∧ pull.Tidy plainCodec sampleUuid event)
      (StreamingPull.Opened plainCodec sampleUuid samplePull)
      (sampleStreamRun (sampleFirstClaim ++ [.receive .closed, .lookup])) :=
    hstart.run (StreamingPull.along_of_running hrunning)
  have hlast : (sampleStreamRun (sampleFirstClaim ++ [.receive .closed, .lookup])).issued =
        [sampleUuid 2] ∧
      sampleUuid 2 ∈
        (sampleStreamRun (sampleFirstClaim ++ [.receive .closed, .lookup])).outstanding ∧
      (sampleStreamRun (sampleFirstClaim ++ [.receive .closed, .lookup])).stage =
        .found .release ∧
      (sampleStreamRun
        (sampleFirstClaim ++ [.receive .closed, .lookup, .perform 5])).stage = .ended := by
    decide +kernel
  have hcalm : (sampleStreamRun (sampleFirstClaim ++ [.receive .closed, .lookup])).calm
      (.perform 5) = true := by
    simp [StreamingPull.calm, hlast.2.2.1]
  rintro ⟨subscription, id, lease, hholds⟩
  refine (flow_control sampleUuid_injective).2
    (hbefore.step (.perform 5) ⟨StreamingPull.allowed_of_calm hcalm, ?_⟩) hlast.2.2.2
    subscription id lease hholds
  intro _ _ s i lease hh
  have hm := hh.2
  rw [hlast.1, List.mem_singleton] at hm
  exact ⟨hm ▸ hlast.2.1, StreamEvent.noConfusion, fun _ => StreamEvent.noConfusion⟩

/-- The only lease of the stream runs out and is dropped by a check; before the claim that
follows, its holder extends it by a minute. -/
theorem revived_lease_not_counted :
    let pull := sampleStreamRun (sampleFirstClaim ++ [.tick 10000, .receive .woken, .lookup,
      .perform 10000,
      .others (.modifyAck (sampleSubscription "sub-one") [sampleUuid 2] 60 10000), .resume,
      .lookup, .perform 10000, .resume])
    Reach (StreamingPull.step plainCodec sampleUuid) (fun _ _ => True)
      (StreamingPull.Opened plainCodec sampleUuid samplePull) pull ∧
    samplePull.maxMessages = 1 ∧ pull.clock = 10000 ∧ pull.stage = .sending ∧
    pull.outstanding.keys = [sampleUuid 3] ∧ pull.issued = [sampleUuid 2, sampleUuid 3] ∧
    pull.broker.leases plainCodec (sampleSubscription "sub-one") (sampleUuid 0) =
      some ⟨sampleUuid 2, 70000⟩ ∧
    pull.broker.leases plainCodec (sampleSubscription "sub-one") (sampleUuid 1) =
      some ⟨sampleUuid 3, 20000⟩ := by
  intro pull
  refine ⟨?_, by decide, ?_⟩
  · have hstart : Reach (StreamingPull.step plainCodec sampleUuid) (fun _ _ => True)
        (StreamingPull.Opened plainCodec sampleUuid samplePull) sampleStream :=
      .start sampleStream_opened
    exact hstart.run (Reach.along_free (fun _ _ => trivial) _ _)
  · decide +kernel

end FirebaseEmu.Pubsub
