import FirebaseEmu.Pubsub.Fanout

namespace FirebaseEmu.Pubsub
open Lib Std

variable {β : Type} {codec : BrokerCodec β} {uuid : Nat → String}

namespace PubSubService
variable {service : PubSubService β} {drawn : Nat} {subscriptions : List String}

/-- The rows of subscriptions, each counted by itself. -/
def countRows (tables : Tables β) (subscriptions : List String) : Nat :=
  (subscriptions.map fun name =>
    (tables.deliveries.filter fun key _ => key.subscription == name).size).sum

def countDeliveries (memory : MemoryState) (subscriptions : List String) : Nat :=
  (memory.deliveries.filter fun _ delivery => subscriptions.contains delivery.subscription).size

/-- The deliveries of some subscriptions that are not acknowledged. `failure` is what comes of the
read of the tables when it fails. -/
def pendingCount (service : PubSubService β) (subscriptions : List String)
    (failure : Option String) : Except String Nat :=
  if subscriptions.isEmpty then .ok 0
  else
    match service.persistence with
    | some tables =>
      match failure with
      | some error => .error error
      | none => .ok (countRows tables subscriptions)
    | none => .ok (countDeliveries service.memory subscriptions)

/-- No delivery of the subscriptions waits. -/
def Quiet (codec : BrokerCodec β) (service : PubSubService β) (subscriptions : List String) :
    Prop :=
  ∀ subscription ∈ subscriptions, ∀ id, (service.view codec).board subscription id = none

/-- The board of a subscription is empty when it has no deliveries, their messages being stored. -/
theorem joined_none {δ : Type} {attempts : δ → Int} {lease : δ → Option (Lease String)}
    {message : String → Option (PubsubMessage × Int)} {deliveries : ExtTreeMap DeliveryKey δ}
    (hstored : ∀ key : DeliveryKey, key ∈ deliveries → ∃ found, message key.message = some found)
    (subscription : String) :
    (∀ id, joined attempts lease message deliveries subscription id = none) ↔
      ∀ key : DeliveryKey, key ∈ deliveries → key.subscription ≠ subscription := by
  constructor
  · rintro hnone key hk rfl
    obtain ⟨found, hf⟩ := hstored key hk
    obtain ⟨delivery, hd⟩ := mem_iff_exists.mp hk
    have hsome : joined attempts lease message deliveries key.subscription key.message =
        some ⟨found.1, found.2, attempts delivery, lease delivery⟩ :=
      joined_some.mpr ⟨found, delivery, hf, hd, rfl⟩
    rw [hnone key.message] at hsome
    cases hsome
  · intro hother id
    rw [Option.eq_none_iff_forall_ne_some]
    intro held hsome
    obtain ⟨found, delivery, -, hd, -⟩ := joined_some.mp hsome
    exact hother _ (mem_of_getElem? hd) rfl

theorem countRows_eq_zero {tables : Tables β} (h : tables.Sound codec uuid drawn) :
    countRows tables subscriptions = 0 ↔
      ∀ subscription ∈ subscriptions, ∀ id, (tables.view codec).board subscription id = none := by
  have hstored : ∀ key : DeliveryKey, key ∈ tables.deliveries →
      ∃ found, tables.stored codec key.message = some found := by
    intro key hk
    obtain ⟨row, hr⟩ := mem_iff_exists.mp (h.stored key hk)
    obtain ⟨message, -, -, -, -, hfound⟩ := h.stored_eq hr
    exact ⟨_, hfound⟩
  unfold countRows
  rw [List.sum_eq_zero_iff, List.forall_mem_map]
  apply forall_congr'
  intro subscription
  apply imp_congr_right
  intro _
  rw [size_filter_eq_zero]
  unfold Tables.view
  dsimp only
  rw [joined_none hstored]
  constructor
  · intro hnone key hk
    obtain ⟨row, hr⟩ := mem_iff_exists.mp hk
    simpa using hnone key row hr
  · intro hother key row hr
    simpa using hother key (mem_of_getElem? hr)

theorem countDeliveries_eq_zero {memory : MemoryState} (h : memory.Sound uuid drawn) :
    countDeliveries memory subscriptions = 0 ↔
      ∀ subscription ∈ subscriptions, ∀ id, memory.view.board subscription id = none := by
  have hstored : ∀ key : DeliveryKey, key ∈ memory.deliveries →
      ∃ found, memory.stored key.message = some found := by
    intro key hk
    obtain ⟨message, hm⟩ := mem_iff_exists.mp (h.linked.stored key hk)
    obtain ⟨expiry, hfound⟩ := h.linked.stored_eq hm
    exact ⟨_, hfound⟩
  unfold countDeliveries MemoryState.view
  dsimp only
  simp only [joined_none hstored]
  rw [size_filter_eq_zero]
  constructor
  · intro hnone subscription hs key hk
    obtain ⟨delivery, hd⟩ := mem_iff_exists.mp hk
    rintro rfl
    have hother := hnone key delivery hd
    rw [h.linked.delivery key delivery hd] at hother
    simp [hs] at hother
  · intro hother key delivery hd
    rw [h.linked.delivery key delivery hd, ← Bool.not_eq_true, List.contains_iff_mem]
    intro hs
    exact hother _ hs key (mem_of_getElem? hd) rfl

/-- What is counted is nothing exactly when nothing waits. -/
theorem pendingCount_zero (h : service.Sound codec uuid drawn) :
    service.pendingCount subscriptions none = .ok 0 ↔ service.Quiet codec subscriptions := by
  unfold pendingCount Quiet
  split
  · rename_i hempty
    rw [List.isEmpty_iff.mp hempty]
    simp
  · cases hp : service.persistence with
    | some tables =>
      rw [view_tables hp]
      simpa using countRows_eq_zero (h.tables hp)
    | none =>
      rw [view_memory hp]
      simpa using countDeliveries_eq_zero (h.memory hp)

end PubSubService

namespace Broker
variable {broker : Broker β} {subscriptions : List String}

/-- Nothing waits for subscriptions after an operation unless it is a publish to one of their
topics. -/
theorem Sound.quiet_step (h : broker.Sound codec uuid) (hu : Function.Injective uuid)
    {event : Event} (hheard : ∀ topic messages published publishedMs,
      event = .publish topic messages published publishedMs → ∀ subscription ∈ subscriptions,
        (broker.service.view codec).attached topic subscription = false)
    (hquiet : broker.service.Quiet codec subscriptions) :
    (broker.step codec uuid event).service.Quiet codec subscriptions := by
  intro subscription hs id
  exact (h.serve hu event).2.quiet (fun topic messages published publishedMs he =>
    hheard topic messages published publishedMs he subscription hs) (hquiet subscription hs id)

end Broker
end FirebaseEmu.Pubsub
