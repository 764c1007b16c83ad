import FirebaseEmu.Pubsub.FlowControl

namespace FirebaseEmu.Pubsub
open Lib Std

theorem saturatingAdd_eq {a b : Int} (ha : 0 ≤ a) (hb : 0 ≤ b) (h : a + b < 2 ^ 63) :
    saturatingAdd a b = a + b := by
  unfold saturatingAdd
  omega

/-- The bytes of what a claim hands out. -/
def bytesOf (given : List BrokerMessage) : Int := (given.map BrokerMessage.sizeBytes).sum

@[simp] theorem bytesOf_append (given given' : List BrokerMessage) :
    bytesOf (given ++ given') = bytesOf given + bytesOf given' := by
  simp [bytesOf]

@[simp] theorem bytesOf_singleton (message : BrokerMessage) :
    bytesOf [message] = message.sizeBytes := by
  simp [bytesOf]

/-- The messages, if there are any, keep to the bytes, or there is one that is too large for
them, and no candidate fits. -/
def Within (maxBytes : Int) (candidates : List Int) (given : List BrokerMessage) : Prop :=
  given = [] ∨ bytesOf given ≤ maxBytes ∨
    ∃ message, given = [message] ∧ maxBytes < message.sizeBytes ∧ ∀ size ∈ candidates, maxBytes < size

/-- What a claim makes of its candidates. -/
structure Picked (maxCount : Nat) (maxBytes : Int) (candidates : List Int)
    (given : List BrokerMessage) : Prop where
  bytes : Within maxBytes candidates given
  nothing : candidates = [] → given = []
  something : 1 ≤ maxCount → candidates ≠ [] → given ≠ []
  among : ∀ message ∈ given, message.sizeBytes ∈ candidates
  sizes : ∀ message ∈ given, message.sizeBytes = message.message.encodedLen ∧
    message.message.encodedLen ≤ maxDeliveryMessageBytes

section
variable {κ σ ε : Type} {size : κ → Int} {tooLarge : κ → ε} {message : κ → Except ε PubsubMessage}
variable {lease : κ → String → σ → σ} {maxCount : Nat} {maxBytes : Int} {hasFitting : Bool}
variable {uuids : Nat → String} {state state' : σ}

/-- `Within` with what the loop knows of the candidates. -/
def Kept (maxBytes : Int) (hasFitting : Bool) (given : List BrokerMessage) : Prop :=
  given = [] ∨ bytesOf given ≤ maxBytes ∨
    hasFitting = false ∧ ∃ message, given = [message] ∧ maxBytes < message.sizeBytes

theorem claimLoop_kept {keys : List κ} {result handed : List BrokerMessage} {used : Int}
    (h : claimLoop size tooLarge message lease maxCount maxBytes hasFitting uuids keys result used
      state = (.ok handed, state'))
    (hn : ∀ key ∈ keys, 0 ≤ size key) (hused : bytesOf result = used) (hpos : 0 ≤ used)
    (hsum : used + (keys.map size).sum < 2 ^ 63) (hr : Kept maxBytes hasFitting result) :
    Kept maxBytes hasFitting handed := by
  induction keys generalizing result used state with
  | nil =>
    obtain ⟨he, -⟩ := Prod.mk.inj h
    obtain rfl := Except.ok.inj he
    exact hr
  | cons key keys ih =>
    rw [List.forall_mem_cons] at hn
    rw [List.map_cons, List.sum_cons] at hsum
    have hrest : 0 ≤ (keys.map size).sum := List.sum_nonneg (by simpa using hn.2)
    rcases claimLoop_cons h with ⟨-, rfl, -⟩ | ⟨-, -, h⟩ | ⟨found, -, hfits, -, h⟩
    · exact hr
    · exact ih h hn.2 hused hpos (by omega) hr
    · rw [saturatingAdd_eq hpos hn.1 (by omega)] at hfits
      refine ih h hn.2 ?_ (by omega) (by omega) ?_
      · rw [bytesOf_append, hused, bytesOf_singleton]
      · by_cases hle : used + size key ≤ maxBytes
        · refine .inr (.inl ?_)
          rwa [bytesOf_append, hused, bytesOf_singleton]
        · obtain ⟨rfl, hf⟩ := hfits.resolve_left hle
          obtain rfl : used = 0 := hused.symm
          refine .inr (.inr ⟨hf, _, rfl, ?_⟩)
          dsimp only
          omega

/-- Something is handed out when the first candidate may exceed the bytes, or some candidate
fits. -/
theorem claimLoop_nonempty {keys : List κ} {handed : List BrokerMessage}
    (h : claimLoop size tooLarge message lease maxCount maxBytes hasFitting uuids keys [] 0
      state = (.ok handed, state'))
    (hc : 1 ≤ maxCount) (hn : ∀ key ∈ keys, 0 ≤ size key)
    (hs : keys ≠ [] ∧ hasFitting = false ∨ ∃ key ∈ keys, size key ≤ maxBytes) : handed ≠ [] := by
  induction keys generalizing state with
  | nil => simp at hs
  | cons key keys ih =>
    rw [List.forall_mem_cons] at hn
    rcases claimLoop_cons h with ⟨hcount, -, -⟩ | ⟨hlarge, hskip, h⟩ | ⟨found, -, -, -, h⟩
    · exact absurd (hc.trans hcount) (by simp)
    · refine ih h hn.2 (.inr ?_)
      have hmore : hasFitting = true := hskip.resolve_left (absurd rfl)
      obtain ⟨hnone, hf⟩ | ⟨fitting, hm, hle⟩ := hs
      · rw [hmore] at hf
        cases hf
      · rcases List.mem_cons.mp hm with rfl | hm
        · unfold saturatingAdd at hlarge
          omega
        · exact ⟨fitting, hm, hle⟩
    · obtain ⟨given, rfl, -⟩ := claimLoop_ok h
      simp

theorem claimLoop_picked {keys : List κ} {given : List BrokerMessage}
    (h : claimLoop size tooLarge message lease maxCount maxBytes
      (keys.any fun key => decide (size key ≤ maxBytes)) uuids keys [] 0 state = (.ok given, state'))
    (hn : ∀ key ∈ keys, 0 ≤ size key) (hsum : (keys.map size).sum < 2 ^ 63)
    (hm : ∀ key ∈ keys, ∀ found, message key = .ok found →
      size key = found.encodedLen ∧ found.encodedLen ≤ maxDeliveryMessageBytes) :
    Picked maxCount maxBytes (keys.map size) given where
  bytes := by
    rcases claimLoop_kept h hn rfl le_rfl (by omega) (.inl rfl) with he | hle | ⟨hf, message, hg, hlt⟩
    · exact .inl he
    · exact .inr (.inl hle)
    · refine .inr (.inr ⟨message, hg, hlt, fun s hs => ?_⟩)
      obtain ⟨key, hk, rfl⟩ := List.mem_map.mp hs
      rw [List.any_eq_false] at hf
      simpa using hf key hk
  nothing hkeys := by
    obtain rfl := List.map_eq_nil_iff.mp hkeys
    exact (Except.ok.inj (Prod.mk.inj h).1).symm
  something hc hkeys := by
    refine claimLoop_nonempty h hc hn ?_
    cases hf : keys.any fun key => decide (size key ≤ maxBytes) with
    | false => exact .inl ⟨fun he => hkeys (List.map_eq_nil_iff.mpr he), rfl⟩
    | true => exact .inr (by simpa using hf)
  among found hf := by
    obtain ⟨_, rfl, -, hh⟩ := claimLoop_ok h
    obtain ⟨key, hk, -, hsize⟩ := hh.exists_key hf
    exact List.mem_map.mpr ⟨key, hk, hsize.symm⟩
  sizes found hf := by
    obtain ⟨_, rfl, -, hh⟩ := claimLoop_ok h
    obtain ⟨key, hk, hmessage, hsize⟩ := hh.exists_key hf
    rw [hsize]
    exact hm key hk found.message hmessage

end

namespace MemoryState
variable {uuid : Nat → String} {drawn : Nat} {state state' : MemoryState} {subscription id : String}
variable {maxCount : Nat} {maxBytes deadline now : Int} {uuids : Nat → String}
variable {given : List BrokerMessage}

/-- The state in which a claim looks for its messages. -/
def claimable (state : MemoryState) (subscription : String) (now : Int) : MemoryState :=
  (state.cleanupMemory now).expireLeases subscription now

/-- The sizes of the messages that a claim considers. -/
def considered (state : MemoryState) (subscription : String) (now : Int) : List Int :=
  ((state.claimable subscription now).availableKeys subscription).map fun key =>
    (state.claimable subscription now).sizeOf key.message

theorem Sound.claimable (h : state.Sound uuid drawn) (subscription : String) (now : Int) :
    (state.claimable subscription now).Sound uuid drawn :=
  (h.cleanupMemory now).expireLeases subscription now

theorem Sound.view_claimable (h : state.Sound uuid drawn) (subscription : String) (now : Int) :
    (state.claimable subscription now).view =
      state.view.setBoard (state.view.claimable subscription now) := by
  rw [MemoryState.claimable, (h.cleanupMemory now).linked.view_expireLeases, view_cleanupMemory]
  rfl

/-- The deliveries to one subscription take no more bytes than all of them. -/
theorem Sound.sum_sizes (h : state.Sound uuid drawn) (subscription : String) :
    ((state.availableKeys subscription).map fun key => state.sizeOf key.message).sum < 2 ^ 63 := by
  have hsub : state.availableKeys subscription ⊆ state.deliveries.keys := by
    intro key hk
    obtain ⟨d, hd, -⟩ := mem_availableKeys.mp hk
    exact ExtTreeMap.mem_keys.mpr (mem_of_getElem? hd)
  have hle := sum_map_le_of_subset (f := fun key : DeliveryKey => state.sizeOf key.message)
    (fun key _ => h.linked.sizeOf_nonneg key.message)
    (List.Nodup.of_map _ (availableKeys_nodup state subscription)) hsub
  have hb := h.bounded.bytes
  unfold memoryUsage maxPendingBytes at hb
  dsimp only at hb hle
  omega

theorem Sound.claim_picked (h : state.Sound uuid drawn)
    (hc : state.claim subscription maxCount maxBytes deadline now uuids = (.ok given, state')) :
    Picked maxCount maxBytes (state.considered subscription now) given := by
  have hclean := h.claimable subscription now
  refine claimLoop_picked hc (fun key _ => hclean.linked.sizeOf_nonneg key.message)
    (hclean.sum_sizes subscription) fun key _ found hf => ?_
  change (state.claimable subscription now).messageOf key = .ok found at hf
  unfold messageOf at hf
  cases hs : (state.claimable subscription now).messages[key.message]? with
  | none =>
    rw [hs] at hf
    cases hf
  | some stored =>
    rw [hs] at hf
    obtain rfl := Except.ok.inj hf
    refine ⟨?_, (hclean.linked.ids key.message stored hs).2⟩
    rw [sizeOf, hclean.linked.sizes, hs, Option.map_some, Option.getD_some]

theorem Sound.considered_ne_nil (h : state.Sound uuid drawn) {held : Held String PubsubMessage}
    (hb : state.view.board subscription id = some held) (hr : held.ready now = true) :
    state.considered subscription now ≠ [] := by
  obtain ⟨hfound, -⟩ := Board.free_sweep_some.mpr ⟨held, hb, hr, rfl⟩
  have hclean := h.claimable subscription now
  have hview := congrArg BrokerView.board (h.view_claimable subscription now)
  rw [BrokerView.setBoard_board] at hview
  rw [← BrokerView.claimable, ← hview] at hfound
  obtain ⟨found, d, -, hd, he⟩ := joined_some.mp hfound
  have hnone : d.held = none := (congrArg Held.lease he).symm
  have hk : (⟨subscription, id⟩ : DeliveryKey) ∈
      (state.claimable subscription now).availableKeys subscription :=
    mem_availableKeys.mpr ⟨d, hd, rfl, (hclean.linked.leased _ d hd).columns.lease_none.mp hnone⟩
  exact List.ne_nil_of_mem (List.mem_map_of_mem hk)

end MemoryState

variable {β : Type} {codec : BrokerCodec β} {uuid : Nat → String}

namespace Tables
variable {drawn : Nat} {tables tables' : Tables β} {subscription id : String}
variable {maxCount : Nat} {maxBytes deadline now : Int} {uuids : Nat → String}
variable {given : List BrokerMessage}

/-- The tables in which a claim looks for its messages. -/
def claimable (tables : Tables β) (subscription : String) (now : Int) : Tables β :=
  (tables.cleanupSql now).expireLeases subscription now

/-- The sizes of the messages that a claim considers. -/
def considered (tables : Tables β) (subscription : String) (maxCount : Nat) (now : Int) :
    List Int :=
  ((tables.claimable subscription now).candidates subscription
    (max 16 (min 1000 (maxCount * 4)))).map fun candidate => candidate.2.sizeBytes

theorem Sound.claimable (h : tables.Sound codec uuid drawn) (subscription : String) (now : Int) :
    (tables.claimable subscription now).Sound codec uuid drawn :=
  ((h.cleanupSql now).1.expireLeases subscription now).1

theorem Sound.view_claimable (h : tables.Sound codec uuid drawn) (subscription : String)
    (now : Int) : (tables.claimable subscription now).view codec =
      (tables.view codec).setBoard ((tables.view codec).claimable subscription now) := by
  obtain ⟨hswept, hview⟩ := h.cleanupSql now
  rw [Tables.claimable, (hswept.expireLeases subscription now).2, hview]
  rfl

/-- The message of a candidate. -/
theorem Sound.candidate (h : tables.Sound codec uuid drawn) {limit : Nat} {key : DeliveryKey}
    {row : MessageRow β} (hm : (key, row) ∈ tables.candidates subscription limit) :
    ∃ message, codec.message.decode row.message = .ok message ∧
      row.sizeBytes = message.encodedLen ∧ message.encodedLen ≤ maxDeliveryMessageBytes := by
  obtain ⟨-, hr, -⟩ := mem_candidates hm
  obtain ⟨message, hdec, -, hsize, hlen, -⟩ := h.stored_eq hr
  exact ⟨message, hdec, hsize, hlen⟩

/-- The window of a claim is small. -/
theorem Sound.sum_sizes (h : tables.Sound codec uuid drawn) (subscription : String)
    (maxCount : Nat) : ((tables.candidates subscription (max 16 (min 1000 (maxCount * 4)))).map
      fun candidate => candidate.2.sizeBytes).sum < 2 ^ 63 := by
  have hlen : (tables.candidates subscription (max 16 (min 1000 (maxCount * 4)))).length ≤ 1000 := by
    unfold candidates
    rw [List.length_take]
    omega
  have hle := List.sum_le_card_nsmul ((tables.candidates subscription
    (max 16 (min 1000 (maxCount * 4)))).map fun candidate => candidate.2.sizeBytes)
    (maxDeliveryMessageBytes : Int) fun size hs => by
      obtain ⟨⟨key, row⟩, hm, rfl⟩ := List.mem_map.mp hs
      obtain ⟨message, -, hsize, hle⟩ := h.candidate hm
      exact hsize.trans_le (Int.ofNat_le.mpr hle)
  rw [List.length_map, nsmul_eq_mul] at hle
  unfold maxDeliveryMessageBytes maxMessageBytes at hle
  omega

theorem Sound.claim_picked (h : tables.Sound codec uuid drawn)
    (hc : tables.claim codec subscription maxCount maxBytes deadline now uuids =
      (.ok given, tables')) :
    Picked maxCount maxBytes (tables.considered subscription maxCount now) given := by
  have hclean := h.claimable subscription now
  have hloop : (tables.claimable subscription now).handOut codec subscription maxCount maxBytes
      deadline uuids = (.ok given, tables') := by
    unfold Tables.claim at hc
    split at hc
    · cases (Prod.mk.inj hc).1
    · rename_i ho
      rw [← hc]
      exact ho
  refine claimLoop_picked hloop ?_ (hclean.sum_sizes subscription maxCount) ?_
  · intro ⟨key, row⟩ hm
    obtain ⟨message, -, hsize, -⟩ := hclean.candidate hm
    dsimp only
    omega
  · intro ⟨key, row⟩ hm found hf
    obtain ⟨stored, hdec, hrow, hlen⟩ := hclean.candidate hm
    rw [hdec] at hf
    obtain rfl : stored = found := Except.ok.inj hf
    exact ⟨hrow, hlen⟩

theorem Sound.considered_ne_nil (h : tables.Sound codec uuid drawn)
    {held : Held String PubsubMessage}
    (hb : (tables.view codec).board subscription id = some held) (hr : held.ready now = true)
    (maxCount : Nat) : tables.considered subscription maxCount now ≠ [] := by
  obtain ⟨hfound, -⟩ := Board.free_sweep_some.mpr ⟨held, hb, hr, rfl⟩
  have hclean := h.claimable subscription now
  have hview := congrArg BrokerView.board (h.view_claimable subscription now)
  rw [BrokerView.setBoard_board] at hview
  rw [← BrokerView.claimable, ← hview] at hfound
  obtain ⟨found, d, hf, hd, he⟩ := joined_some.mp hfound
  have hnone : d.held = none := (congrArg Held.lease he).symm
  obtain ⟨row, hrow, -⟩ := Option.bind_eq_some_iff.mp hf
  have havailable := (Columns.lease_none (hclean.leased _ d hd)).mp hnone
  unfold considered candidates
  intro hnil
  rw [List.map_eq_nil_iff, List.take_eq_nil_iff] at hnil
  rcases hnil with hzero | hnil
  · omega
  · have hjoin := List.perm_nil.mp (hnil ▸ (List.perm_insertionSort _ _).symm)
    refine absurd hjoin (List.ne_nil_of_mem (a := ((⟨subscription, id⟩ : DeliveryKey), row))
      (List.mem_filterMap.mpr ⟨(⟨subscription, id⟩, d), List.mem_filter.mpr ⟨?_, ?_⟩, ?_⟩))
    · exact ExtTreeMap.mem_toList_iff_getElem?_eq_some.mpr hd
    · simp [havailable]
    · simp [hrow]

end Tables

namespace PubSubService

/-- The sizes of the messages that a claim considers. -/
def considered (service : PubSubService β) (subscription : String) (maxCount : Nat) (now : Int) :
    List Int :=
  match service.persistence with
  | some tables => tables.considered subscription maxCount now
  | none => service.memory.considered subscription now

/-- A claim that nothing comes between. -/
def claim (codec : BrokerCodec β) (service : PubSubService β) (subscription : String)
    (maxCount : Nat) (maxBytes : Int) (deadlineOverride : Option Int) (now : Int)
    (uuids : Nat → String) : Except Status (List BrokerMessage) × PubSubService β :=
  match service.getSubscriptionValue codec subscription with
  | .error e => (.error e, service)
  | .ok configured =>
    service.claimLeases codec subscription maxCount maxBytes
      (deadlineOverride.getD configured.ackDeadlineSeconds) now uuids

theorem checkSubscription_named {subscription checked : Subscription}
    (h : checkSubscription subscription = .ok checked) :
    ∃ parsed, parseResource subscription.name "subscriptions" = .ok parsed := by
  have hname := (Broker.checkSubscription_ok h).1
  obtain ⟨normal, -, h⟩ := exceptBind_eq_ok.mp h
  obtain ⟨parsed, hp, h⟩ := exceptBind_eq_ok.mp h
  obtain ⟨parsed', -, h⟩ := exceptBind_eq_ok.mp h
  dsimp only at h
  split at h
  · cases h
  · obtain rfl := Except.ok.inj h
    exact ⟨parsed, hname ▸ hp⟩

end PubSubService

namespace BrokerView
variable {uuids : Nat → String} {view view' : BrokerView} {event : Event} {reply : Reply}

/-- No operation adds a subscription but its creation. -/
theorem Step.topicOf (h : Step uuids view event reply view') {name : String}
    (hn : view'.topicOf name ≠ none) : view.topicOf name ≠ none ∨
      ∃ subscription, event = .createSubscription subscription ∧ reply = .done ∧
        name = subscription.name := by
  cases h with
  | createSubscription subscription hfree =>
    dsimp only [subscribe] at hn
    split at hn
    · rename_i he
      exact .inr ⟨subscription, rfl, rfl, he⟩
    · exact .inl hn
  | deleteSubscription other =>
    dsimp only [unsubscribe] at hn
    split at hn
    · exact absurd rfl hn
    · exact .inl hn
  | deleteTopic topic => exact .inl fun he => hn (Option.map_eq_none_iff.mpr he)
  | refused => exact .inl hn
  | cleaned => exact .inl hn
  | createTopic => exact .inl hn
  | publish => exact .inl hn
  | claim => exact .inl hn
  | acknowledge => exact .inl hn
  | modifyAck =>
    unfold BrokerView.modifyAck at hn
    rw [setBoard_topicOf] at hn
    exact .inl hn

end BrokerView

namespace Broker
variable {broker : Broker β} {subscription id : String} {maxCount : Nat}
variable {maxBytes deadlineSeconds now : Int} {given : List BrokerMessage}

/-- The names of subscriptions are such names. -/
def Named (codec : BrokerCodec β) (broker : Broker β) : Prop :=
  ∀ name, (broker.service.view codec).topicOf name ≠ none →
    ∃ parsed, parseResource name "subscriptions" = .ok parsed

theorem Named.step (hn : broker.Named codec) (h : broker.Sound codec uuid)
    (hu : Function.Injective uuid) (event : Event) : (broker.step codec uuid event).Named codec := by
  intro name ht
  rcases (h.serve hu event).2.topicOf ht with ht | ⟨subscription, rfl, hr, rfl⟩
  · exact hn name ht
  · unfold serve PubSubService.createSubscriptionValue at hr
    dsimp only at hr
    split at hr
    · cases hr
    · rename_i hcheck
      exact PubSubService.checkSubscription_named hcheck

theorem Named.reach (hu : Function.Injective uuid)
    (h : Reach (Broker.step codec uuid) (fun _ _ => True) Broker.Empty broker) :
    broker.Named codec := by
  have hboth : broker.Sound codec uuid ∧ broker.Named codec := by
    refine h.invariant (I := fun broker => broker.Sound codec uuid ∧ broker.Named codec)
      (fun broker he => ⟨he.sound, fun name ht => ?_⟩) fun broker event hi _ =>
        ⟨hi.1.step hu event, hi.2.step hi.1 hu event⟩
    refine absurd ?_ ht
    unfold PubSubService.view
    rcases he with he | he
    · rw [he]
      simp [PubSubService.inMemory, MemoryState.view, MemoryState.empty]
    · rw [he]
      simp [PubSubService.onTables, Tables.view, Tables.empty]
  exact hboth.2

/-- A claim is never refused after its lookup. -/
theorem Sound.claims (h : broker.Sound codec uuid) (hu : Function.Injective uuid)
    (subscription : String) (maxCount : Nat) (maxBytes deadlineSeconds now : Int) : ∃ given service,
      broker.service.claimLeases codec subscription maxCount maxBytes deadlineSeconds now
        (broker.uuids uuid) = (.ok given, service) := by
  unfold PubSubService.claimLeases
  cases hp : broker.service.persistence with
  | some tables =>
    obtain ⟨given, tables', hc, -⟩ := (PubSubService.Sound.tables h hp).claim subscription maxCount
      maxBytes deadlineSeconds now (broker.uuids uuid)
    unfold BrokerView.deadlineOf at hc
    exact ⟨given, broker.service.setTables tables', by simp only [hc]⟩
  | none =>
    obtain ⟨given, state', hc, -⟩ := (PubSubService.Sound.memory h hp).claim hu subscription maxCount
      maxBytes (saturatingAdd now (max 10 (min 600 deadlineSeconds) * 1000)) now
    exact ⟨given, broker.service.setMemory state', by
      unfold Broker.uuids
      simp only [hc]⟩

theorem Sound.claim_picked (h : broker.Sound codec uuid) {service : PubSubService β}
    (hc : broker.service.claimLeases codec subscription maxCount maxBytes deadlineSeconds now
      (broker.uuids uuid) = (.ok given, service)) :
    Picked maxCount maxBytes (broker.service.considered subscription maxCount now) given := by
  unfold PubSubService.claimLeases at hc
  unfold PubSubService.considered
  cases hp : broker.service.persistence with
  | some tables =>
    rw [hp] at hc
    obtain ⟨ho, -⟩ := Prod.mk.inj hc
    exact (PubSubService.Sound.tables h hp).claim_picked (Prod.ext ho rfl)
  | none =>
    rw [hp] at hc
    obtain ⟨ho, -⟩ := Prod.mk.inj hc
    exact (PubSubService.Sound.memory h hp).claim_picked (Prod.ext ho rfl)

/-- A delivery that is ready is considered. -/
theorem Sound.considered_ne_nil (h : broker.Sound codec uuid) {held : Held String PubsubMessage}
    (hb : (broker.service.view codec).board subscription id = some held)
    (hr : held.ready now = true) (maxCount : Nat) :
    broker.service.considered subscription maxCount now ≠ [] := by
  unfold PubSubService.considered
  cases hp : broker.service.persistence with
  | some tables =>
    rw [PubSubService.view_tables hp] at hb
    exact (PubSubService.Sound.tables h hp).considered_ne_nil hb hr maxCount
  | none =>
    rw [PubSubService.view_memory hp] at hb
    exact (PubSubService.Sound.memory h hp).considered_ne_nil hb hr

theorem reply_claim {service : PubSubService β}
    (hc : broker.service.claimLeases codec subscription maxCount maxBytes deadlineSeconds now
      (broker.uuids uuid) = (.ok given, service)) :
    broker.reply codec uuid (.claim subscription maxCount maxBytes deadlineSeconds now) =
      .claimed given := by
  change Reply.ofClaimed (broker.service.claimLeases codec subscription maxCount maxBytes
    deadlineSeconds now (broker.uuids uuid)).1 = _
  rw [hc]
  rfl

/-- What a claim may answer: some of the deliveries that are ready, each once and under an
identifier of its own. -/
structure Selected (codec : BrokerCodec β) (uuid : Nat → String) (broker : Broker β)
    (subscription : String) (maxCount : Nat) (maxBytes now : Int) (given : List BrokerMessage) :
    Prop where
  count : given.length ≤ maxCount
  ready : ∀ message ∈ given, ∃ held,
    (broker.service.view codec).board subscription message.message.messageId = some held ∧
      held.ready now = true ∧ held.payload = message.message ∧
      message.sizeBytes = message.message.encodedLen
  once : (given.map fun message => message.message.messageId).Nodup
  fresh : ∀ (i : Nat) (message : BrokerMessage), given[i]? = some message →
    message.ackId = broker.uuids uuid i
  bytes : Within maxBytes (broker.service.considered subscription maxCount now) given

theorem Sound.selected (h : broker.Sound codec uuid) (hu : Function.Injective uuid)
    {service : PubSubService β}
    (hc : broker.service.claimLeases codec subscription maxCount maxBytes deadlineSeconds now
      (broker.uuids uuid) = (.ok given, service)) :
    broker.Selected codec uuid subscription maxCount maxBytes now given := by
  have hpicked := h.claim_picked hc
  have hstep := (h.serve hu (.claim subscription maxCount maxBytes deadlineSeconds now)).2
  have hreply := reply_claim hc
  unfold Broker.reply at hreply
  rw [hreply] at hstep
  generalize ((broker.serve codec uuid
    (.claim subscription maxCount maxBytes deadlineSeconds now)).2.view codec) = after at hstep
  cases hstep with
  | claim hlen hg =>
    refine ⟨hlen, fun message hm => ?_, hg.once, hg.fresh, hpicked.bytes⟩
    obtain ⟨held, hheld, hlease, hpayload⟩ := hg.free message hm
    obtain ⟨old, hb, hr, rfl⟩ := Board.free_sweep_some.mp ⟨hheld, hlease⟩
    exact ⟨old, hb, hr, hpayload, (hpicked.sizes message hm).1⟩

end Broker

/-- In every run, on either backend, a claim keeps to its bounds, and it hands something out
when a delivery is ready. -/
theorem claim_bounded (hu : Function.Injective uuid) {broker : Broker β}
    (h : Reach (Broker.step codec uuid) (fun _ _ => True) Broker.Empty broker)
    (subscription : String) (maxCount : Nat) (maxBytes : Int) (deadlineOverride : Option Int)
    (now : Int) :
    (∀ given service, broker.service.claim codec subscription maxCount maxBytes deadlineOverride now
        (broker.uuids uuid) = (.ok given, service) →
      broker.Selected codec uuid subscription maxCount maxBytes now given) ∧
    (1 ≤ maxCount → (∃ id held, (broker.service.view codec).board subscription id = some held ∧
        held.ready now = true) →
      ∃ given service, broker.service.claim codec subscription maxCount maxBytes deadlineOverride now
        (broker.uuids uuid) = (.ok given, service) ∧ given ≠ []) := by
  have hsettled := Broker.Settled.reach hu h
  have hsound := hsettled.sound
  unfold PubSubService.claim
  constructor
  · intro given service hc
    cases hl : broker.service.getSubscriptionValue codec subscription with
    | error e =>
      rw [hl] at hc
      cases (Prod.mk.inj hc).1
    | ok configured =>
      rw [hl] at hc
      exact hsound.selected hu hc
  · rintro hcount ⟨id, held, hb, hr⟩
    cases hl : broker.service.getSubscriptionValue codec subscription with
    | error e =>
      have hthere := hsettled.attached subscription id held hb
      obtain ⟨parsed, hp⟩ := Broker.Named.reach hu h subscription hthere
      exact absurd (hsettled.readable.lookup hp hl) hthere
    | ok configured =>
      obtain ⟨given, service, hc⟩ := hsound.claims hu subscription maxCount maxBytes
        (deadlineOverride.getD configured.ackDeadlineSeconds) now
      refine ⟨given, service, hc, ?_⟩
      exact (hsound.claim_picked hc).something hcount (hsound.considered_ne_nil hb hr maxCount)

/-- Two messages wait in the tables; neither fits the byte left, and one is handed out. -/
theorem claim_bounded_sample : ∃ given service,
    (sampleRun (.onTables .empty) [sampleCreateTopic, sampleCreateSubscription "sub-one",
      samplePublish [1, 2] 0]).service.claim plainCodec (sampleSubscription "sub-one") 2 1 none 5
        (fun n => sampleUuid (2 + n)) = (.ok given, service) ∧ given ≠ [] := by
  have hreach : Reach (Broker.step plainCodec sampleUuid) (fun _ _ => True) Broker.Empty
      (sampleRun (.onTables .empty) [sampleCreateTopic, sampleCreateSubscription "sub-one",
        samplePublish [1, 2] 0]) := (sampleRun_reach _ _).mono fun _ hs => .inr hs
  refine (claim_bounded sampleUuid_injective hreach (sampleSubscription "sub-one") 2 1 none 5).2
    (by decide) ⟨sampleUuid 0, ⟨⟨[1], [], sampleUuid 0, some ⟨0, 0⟩, ""⟩, 86400000, 0, none⟩, ?_, ?_⟩
  · decide +kernel
  · decide

end FirebaseEmu.Pubsub
