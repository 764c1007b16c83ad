import FirebaseEmu.Pubsub.Fanout
import FirebaseEmu.Lib.Ledger
import Mathlib.Data.List.Pairwise

namespace FirebaseEmu.Pubsub
open Lib Std

/-- What a puller can tell of the leases: the last one of each pair, as it was extended since,
unless it was acknowledged or nacked. With `clears` a claim also ends those of its subscription
that it finds run out. -/
def noteLeases (clears : Bool) (ledger : Ledger String String String) :
    Event → Reply → Ledger String String String
  | .claim subscription _ _ deadlineSeconds now, .claimed given =>
    (if clears then ledger.onReader subscription (Lease.free now) else ledger).issues subscription
      (BrokerView.deadlineOf deadlineSeconds now)
      (given.map fun found => (found.message.messageId, found.ackId))
  | .acknowledge subscription ackIds, .done => ledger.onReader subscription (Lease.close ackIds)
  | .modifyAck subscription ackIds seconds now, .done =>
    ledger.onReader subscription
      (if seconds = 0 then Lease.close ackIds
      else Lease.extend ackIds (saturatingAdd now (seconds * 1000)))
  | _, _ => ledger

def notes (clears : Bool) (history : List (Event × Reply)) (ledger : Ledger String String String) :
    Ledger String String String :=
  history.foldl (fun ledger entry => noteLeases clears ledger entry.1 entry.2) ledger

/-- The last leases by the letter: only acknowledgements and nacks end one. -/
def lastLeases (history : List (Event × Reply)) : Ledger String String String :=
  notes false history .empty

/-- The last leases that no claim has found run out. -/
def standingLeases (history : List (Event × Reply)) : Ledger String String String :=
  notes true history .empty

/-- The identifiers of the leases that an operation hands out. -/
def handedOut : Event × Reply → List String
  | (.claim .., .claimed given) => given.map BrokerMessage.ackId
  | _ => []

/-- A claim handed the pair out under the lease. -/
def Issued (history : List (Event × Reply)) (subscription id ackId : String) : Prop :=
  ∃ (maxCount : Nat) (maxBytes deadlineSeconds now : Int) (given : List BrokerMessage),
    (Event.claim subscription maxCount maxBytes deadlineSeconds now, Reply.claimed given) ∈ history ∧
      ∃ found ∈ given, found.message.messageId = id ∧ found.ackId = ackId

/-- The identifier is of no lease of the subscription, or of one acknowledged or nacked since,
or of one whose pair was handed out again since. -/
inductive Stale (history : List (Event × Reply)) (subscription ackId : String) : Prop where
  | unknown (h : ∀ id, ¬ Issued history subscription id ackId)
  | acknowledged {past since : List (Event × Reply)} {id : String} {ackIds : List String}
    (hh : history = past ++ (.acknowledge subscription ackIds, .done) :: since)
    (hi : Issued past subscription id ackId) (hm : ackId ∈ ackIds)
  | nacked {past since : List (Event × Reply)} {id : String} {ackIds : List String} {now : Int}
    (hh : history = past ++ (.modifyAck subscription ackIds 0 now, .done) :: since)
    (hi : Issued past subscription id ackId) (hm : ackId ∈ ackIds)
  | reclaimed {past since : List (Event × Reply)} {id : String} {maxCount : Nat}
    {maxBytes deadlineSeconds now : Int} {given : List BrokerMessage} {found : BrokerMessage}
    (hh : history = past ++
      (.claim subscription maxCount maxBytes deadlineSeconds now, .claimed given) :: since)
    (hi : Issued past subscription id ackId) (hf : found ∈ given)
    (hid : found.message.messageId = id)

section
variable {clears : Bool} {ledger : Ledger String String String} {event : Event} {reply : Reply}
variable {subscription id : String} {lease : Lease String}

/-- How an operation may come by a lease: it was there, or it is one that the operation
extends, or the operation hands it out. -/
inductive Noted (ledger : Ledger String String String) (event : Event) (reply : Reply)
    (subscription id : String) (lease : Lease String) : Prop where
  | kept (h : ledger subscription id = some lease)
  | extended {ackIds : List String} {seconds now : Int} {before : Lease String}
    (he : event = .modifyAck subscription ackIds seconds now) (hs : seconds ≠ 0)
    (hb : ledger subscription id = some before) (ht : before.token = lease.token)
    (hm : lease.token ∈ ackIds) (hd : lease.deadline = saturatingAdd now (seconds * 1000))
  | issued (h : Issued [(event, reply)] subscription id lease.token)

theorem onReader_cases {f : Option (Lease String) → Option (Lease String)} {reader : String}
    (h : ledger.onReader reader f subscription id = some lease) :
    (subscription = reader ∧ f (ledger subscription id) = some lease) ∨
      ledger subscription id = some lease := by
  unfold Ledger.onReader at h
  split at h
  · rename_i hr
    exact .inl ⟨hr, h⟩
  · exact .inr h

theorem noteLeases_noted (h : noteLeases clears ledger event reply subscription id = some lease) :
    Noted ledger event reply subscription id lease := by
  cases event with
  | claim name maxCount maxBytes deadlineSeconds now =>
    cases reply with
    | claimed given =>
      rcases Ledger.issues_some h with ⟨rfl, hg⟩ | ⟨hl, -⟩
      · obtain ⟨found, hf, he⟩ := List.mem_map.mp hg
        obtain ⟨hid, hack⟩ := Prod.mk.inj he
        exact .issued ⟨_, _, _, _, _, List.mem_singleton_self _, found, hf, hid, hack⟩
      · cases clears with
        | true =>
          rcases onReader_cases hl with ⟨-, hfree⟩ | hl
          · exact .kept (Lease.free_some.mp hfree).1
          · exact .kept hl
        | false => exact .kept hl
    | done => exact .kept h
    | published ids => exact .kept h
    | refused status => exact .kept h
  | acknowledge name ackIds =>
    cases reply with
    | done =>
      rcases onReader_cases h with ⟨-, hclose⟩ | hl
      · exact .kept (Lease.close_some.mp hclose).1
      · exact .kept hl
    | claimed given => exact .kept h
    | published ids => exact .kept h
    | refused status => exact .kept h
  | modifyAck name ackIds seconds now =>
    cases reply with
    | done =>
      rcases onReader_cases h with ⟨rfl, hchange⟩ | hl
      · split at hchange
        · exact .kept (Lease.close_some.mp hchange).1
        · rename_i hs
          rcases Lease.extend_cases hchange with hl | ⟨before, hb, ht, hm, hd⟩
          · exact .kept hl
          · exact .extended rfl hs hb ht hm hd
      · exact .kept hl
    | claimed given => exact .kept h
    | published ids => exact .kept h
    | refused status => exact .kept h
  | createTopic => exact .kept h
  | deleteTopic => exact .kept h
  | createSubscription => exact .kept h
  | deleteSubscription => exact .kept h
  | publish => exact .kept h

/-- A lease is one that was there, perhaps with another deadline, or one just handed out. -/
theorem noteLeases_some (h : noteLeases clears ledger event reply subscription id = some lease) :
    (∃ before, ledger subscription id = some before ∧ before.token = lease.token) ∨
      Issued [(event, reply)] subscription id lease.token := by
  cases noteLeases_noted h with
  | kept h => exact .inl ⟨lease, h, rfl⟩
  | extended _ _ hb ht => exact .inl ⟨_, hb, ht⟩
  | issued h => exact .inr h

theorem Issued.append_left {past : List (Event × Reply)} (since : List (Event × Reply))
    {ackId : String} (h : Issued past subscription id ackId) :
    Issued (past ++ since) subscription id ackId := by
  obtain ⟨maxCount, maxBytes, deadlineSeconds, now, given, hm, hf⟩ := h
  exact ⟨maxCount, maxBytes, deadlineSeconds, now, given, List.mem_append_left _ hm, hf⟩

theorem Issued.append_right (past : List (Event × Reply)) {since : List (Event × Reply)}
    {ackId : String} (h : Issued since subscription id ackId) :
    Issued (past ++ since) subscription id ackId := by
  obtain ⟨maxCount, maxBytes, deadlineSeconds, now, given, hm, hf⟩ := h
  exact ⟨maxCount, maxBytes, deadlineSeconds, now, given, List.mem_append_right _ hm, hf⟩

theorem Issued.mem_handedOut {history : List (Event × Reply)} {ackId : String}
    (h : Issued history subscription id ackId) : ackId ∈ history.flatMap handedOut := by
  obtain ⟨maxCount, maxBytes, deadlineSeconds, now, given, hm, found, hf, -, rfl⟩ := h
  exact List.mem_flatMap.mpr ⟨_, hm, List.mem_map_of_mem hf⟩

/-- A lease after some operations is one from before them, or one of them handed it out. -/
theorem notes_some {history : List (Event × Reply)}
    (h : notes clears history ledger subscription id = some lease) :
    (∃ before, ledger subscription id = some before ∧ before.token = lease.token) ∨
      Issued history subscription id lease.token := by
  induction history generalizing ledger with
  | nil => exact .inl ⟨lease, h, rfl⟩
  | cons entry history ih =>
    rcases ih h with ⟨before, hb, ht⟩ | hi
    · rcases noteLeases_some hb with hold | hi
      · exact .inl (ht ▸ hold)
      · rw [ht] at hi
        exact .inr (hi.append_left history)
    · exact .inr (hi.append_right [entry])

theorem standing_issued {history : List (Event × Reply)}
    (h : standingLeases history subscription id = some lease) :
    Issued history subscription id lease.token := by
  rcases notes_some h with ⟨before, hb, -⟩ | hi
  · cases hb
  · exact hi

/-- Where no identifier is handed out twice, a lease is of one pair. -/
theorem Issued.unique {history : List (Event × Reply)} {subscription' id' ackId : String}
    (hn : (history.flatMap handedOut).Nodup) (h : Issued history subscription id ackId)
    (h' : Issued history subscription' id' ackId) : subscription = subscription' ∧ id = id' := by
  obtain ⟨maxCount, maxBytes, deadlineSeconds, now, given, hm, found, hf, rfl, hack⟩ := h
  obtain ⟨maxCount', maxBytes', deadlineSeconds', now', given', hm', found', hf', rfl, hack'⟩ := h'
  obtain ⟨heach, hpair⟩ := List.nodup_flatMap.mp hn
  have hmem : ackId ∈ handedOut (.claim subscription maxCount maxBytes deadlineSeconds now,
      .claimed given) := List.mem_map.mpr ⟨found, hf, hack⟩
  have hmem' : ackId ∈ handedOut (.claim subscription' maxCount' maxBytes' deadlineSeconds' now',
      .claimed given') := List.mem_map.mpr ⟨found', hf', hack'⟩
  by_cases he : (Event.claim subscription maxCount maxBytes deadlineSeconds now,
      Reply.claimed given) =
    (Event.claim subscription' maxCount' maxBytes' deadlineSeconds' now', Reply.claimed given')
  · obtain ⟨hevent, hreply⟩ := Prod.mk.inj he
    obtain ⟨rfl, -⟩ := Event.claim.inj hevent
    obtain rfl := Reply.claimed.inj hreply
    obtain rfl := List.inj_on_of_nodup_map (heach _ hm) hf hf' (hack.trans hack'.symm)
    exact ⟨rfl, rfl⟩
  · have hsymm : Std.Symm (Function.onFun List.Disjoint handedOut) := ⟨fun _ _ hd => hd.symm⟩
    exact absurd hmem' (hpair.forall hm hm' he hmem)

/-- A stale identifier is of no lease that lasts. -/
theorem Stale.not_standing {history : List (Event × Reply)} {ackId : String}
    (hn : (history.flatMap handedOut).Nodup) (h : Stale history subscription ackId)
    (hs : standingLeases history subscription id = some lease) : lease.token ≠ ackId := by
  rintro rfl
  -- After the end of the lease, only another claim could have handed its identifier out.
  have hended : ∀ {past since : List (Event × Reply)} {entry : Event × Reply} {id' : String},
      history = past ++ entry :: since → Issued past subscription id' lease.token →
      (∀ before, noteLeases true (standingLeases past) entry.1 entry.2 subscription id =
        some before → before.token ≠ lease.token) → False := by
    intro past since entry id' hh hi hnot
    rw [hh, List.flatMap_append, List.flatMap_cons, List.nodup_append] at hn
    rw [hh, standingLeases, notes, List.foldl_append, List.foldl_cons] at hs
    rcases notes_some hs with ⟨before, hb, ht⟩ | hsince
    · exact hnot before hb ht
    · exact hn.2.2 _ hi.mem_handedOut _ (List.mem_append_right _ hsince.mem_handedOut) rfl
  cases h with
  | unknown hu => exact hu id (standing_issued hs)
  | acknowledged hh hi hm =>
    refine hended hh hi fun before hb ht => ?_
    have hclosed := (Lease.close_some.mp ((if_pos rfl).symm.trans hb)).2
    exact hclosed (ht ▸ hm)
  | nacked hh hi hm =>
    refine hended hh hi fun before hb ht => ?_
    have hclosed := (Lease.close_some.mp ((if_pos rfl).symm.trans hb)).2
    exact hclosed (ht ▸ hm)
  | @reclaimed past since id' maxCount maxBytes deadlineSeconds now given found hh hi hf hid =>
    refine hended hh hi fun before hb ht => ?_
    rcases Ledger.issues_some hb with ⟨-, hg⟩ | ⟨hl, hnot⟩
    · obtain ⟨other, ho, he⟩ := List.mem_map.mp hg
      have hagain : lease.token ∈ handedOut
          (.claim subscription maxCount maxBytes deadlineSeconds now, .claimed given) :=
        List.mem_map.mpr ⟨other, ho, (Prod.mk.inj he).2.trans ht⟩
      rw [hh, List.flatMap_append, List.flatMap_cons, List.nodup_append] at hn
      exact hn.2.2 _ hi.mem_handedOut _ (List.mem_append_left _ hagain) rfl
    · have hbefore := (Lease.free_some.mp ((if_pos rfl).symm.trans hl)).1
      have hpair := standing_issued hbefore
      rw [ht] at hpair
      obtain ⟨-, hsame⟩ := Issued.unique hn (hh ▸ hpair.append_left _) (hh ▸ hi.append_left _)
      refine hnot rfl ?_
      rw [List.map_map, hsame, ← hid]
      exact List.mem_map.mpr ⟨found, hf, rfl⟩

end

variable {β : Type} {codec : BrokerCodec β} {uuid : Nat → String}

namespace Broker
variable {broker : Broker β} {ledger : Ledger String String String}

/-- The operations of a run with what they answered. -/
def history (codec : BrokerCodec β) (uuid : Nat → String) (broker : Broker β) :
    List Event → List (Event × Reply)
  | [] => []
  | event :: events =>
    (event, broker.reply codec uuid event) :: history codec uuid (broker.step codec uuid event) events

end Broker

/-- The ledger keeps up with the board. -/
theorem BrokerView.Step.agrees {uuids : Nat → String} {view view' : BrokerView} {event : Event}
    {reply : Reply} {ledger : Ledger String String String}
    (h : BrokerView.Step uuids view event reply view') (ha : view.board.Agrees ledger)
    (hfresh : ∀ n subscription, ledger subscription (uuids n) = none) :
    view'.board.Agrees (noteLeases true ledger event reply) := by
  cases h with
  | refused =>
    have hsame : ∀ status, noteLeases true ledger event (.refused status) = ledger := by
      intro status
      cases event <;> rfl
    rw [hsame]
    exact ha
  | cleaned topic messages published publishedMs status => exact ha.sweep publishedMs
  | createTopic => exact ha
  | deleteTopic => exact ha
  | createSubscription => exact ha
  | deleteSubscription => exact ha.drop
  | @publish topic messages assigned published publishedMs hassign =>
    refine (ha.sweep publishedMs).posts fun item hi r => ?_
    obtain ⟨message, hm, rfl⟩ := List.mem_map.mp hi
    obtain ⟨n, -, hn⟩ := assigned_ids hassign (List.mem_map_of_mem hm)
    rw [hn]
    exact hfresh n r
  | claim hlen hg => exact ((ha.sweep _).onLeases _).grants _ _
  | acknowledge subscription ackIds => exact ha.take ackIds
  | modifyAck subscription ackIds seconds now =>
    unfold BrokerView.modifyAck
    rw [setBoard_board]
    by_cases hz : seconds = 0
    · have hclose : noteLeases true ledger (.modifyAck subscription ackIds seconds now) .done =
          ledger.onReader subscription (Lease.close ackIds) := by simp only [noteLeases, if_pos hz]
      rw [if_pos hz, hclose]
      exact ha.onLeases _
    · have hextend : noteLeases true ledger (.modifyAck subscription ackIds seconds now) .done =
          ledger.onReader subscription
            (Lease.extend ackIds (saturatingAdd now (seconds * 1000))) := by
        simp only [noteLeases, if_neg hz]
      rw [if_neg hz, hextend]
      exact ha.onLeases _

namespace Broker
variable {broker : Broker β} {ledger : Ledger String String String}

/-- The leases on the board are those of the ledger, and only pairs that were on the board
have leases. -/
structure Tracked (codec : BrokerCodec β) (uuid : Nat → String) (broker : Broker β)
    (ledger : Ledger String String String) : Prop where
  agrees : (broker.service.view codec).board.Agrees ledger
  drew : ∀ (subscription id : String) (lease : Lease String),
    ledger subscription id = some lease → broker.Drew uuid id

theorem Sound.tracked_step (h : broker.Sound codec uuid) (hu : Function.Injective uuid)
    (ht : broker.Tracked codec uuid ledger) (event : Event) :
    (broker.step codec uuid event).Tracked codec uuid
      (noteLeases true ledger event (broker.reply codec uuid event)) := by
  have hstep := (h.serve hu event).2
  constructor
  · refine hstep.agrees ht.agrees fun n subscription => ?_
    cases hl : ledger subscription (broker.uuids uuid n) with
    | none => rfl
    | some lease => exact absurd rfl ((ht.drew _ _ lease hl).fresh hu n)
  · intro subscription id lease hl
    rcases noteLeases_some hl with ⟨before, hb, -⟩ | hissued
    · exact (ht.drew subscription id before hb).step event
    · obtain ⟨maxCount, maxBytes, deadlineSeconds, now, given, hm, found, hf, rfl, -⟩ := hissued
      obtain ⟨rfl, hr⟩ := Prod.mk.inj (List.mem_singleton.mp hm)
      unfold reply at hr
      rw [← hr] at hstep
      obtain ⟨held, hb, -⟩ := hstep.claimed.2.1.on_board hf
      exact Drew.step (h.board_drawn hb) _

theorem Sound.tracked_run (h : broker.Sound codec uuid) (hu : Function.Injective uuid)
    (ht : broker.Tracked codec uuid ledger) (events : List Event) :
    (broker.run codec uuid events).Tracked codec uuid
      (notes true (broker.history codec uuid events) ledger) := by
  induction events generalizing broker ledger with
  | nil => exact ht
  | cons event events ih => exact ih (h.step hu event) (h.tracked_step hu ht event)

/-- One operation hands leases out under the next identifiers. -/
theorem Sound.handedOut_step (h : broker.Sound codec uuid) (hu : Function.Injective uuid)
    (event : Event) : (Pubsub.handedOut (event, broker.reply codec uuid event)).Nodup ∧
      ∀ ackId ∈ Pubsub.handedOut (event, broker.reply codec uuid event),
        ∃ n, broker.drawn ≤ n ∧ n < broker.drawn + event.draws ∧ uuid n = ackId := by
  have hstep := (h.serve hu event).2
  unfold reply
  generalize (broker.serve codec uuid event).2.view codec = view' at hstep
  generalize (broker.serve codec uuid event).1 = reply at hstep ⊢
  have hnone : Pubsub.handedOut (event, reply) = [] →
      (Pubsub.handedOut (event, reply)).Nodup ∧ ∀ ackId ∈ Pubsub.handedOut (event, reply),
        ∃ n, broker.drawn ≤ n ∧ n < broker.drawn + event.draws ∧ uuid n = ackId := by
    intro he
    rw [he]
    exact ⟨List.nodup_nil, fun _ hm => absurd hm List.not_mem_nil⟩
  cases hstep with
  | claim hlen hg =>
    refine ⟨BrokerView.nodup_of_drawn (uuids_injective hu broker) hg.fresh, fun ackId hm => ?_⟩
    obtain ⟨found, hf, rfl⟩ := List.mem_map.mp hm
    obtain ⟨n, hn⟩ := List.mem_iff_getElem?.mp hf
    have hlt := (List.getElem?_eq_some_iff.mp hn).1
    refine ⟨broker.drawn + n, Nat.le_add_right _ _, ?_, (hg.fresh n found hn).symm⟩
    simp only [Event.draws]
    omega
  | refused => exact hnone (by cases event <;> rfl)
  | cleaned => exact hnone rfl
  | createTopic => exact hnone rfl
  | deleteTopic => exact hnone rfl
  | createSubscription => exact hnone rfl
  | deleteSubscription => exact hnone rfl
  | publish => exact hnone rfl
  | acknowledge => exact hnone rfl
  | modifyAck => exact hnone rfl

/-- The identifiers of leases are drawn one after the other. -/
theorem Sound.handedOut (h : broker.Sound codec uuid) (hu : Function.Injective uuid)
    (events : List Event) :
    ((broker.history codec uuid events).flatMap handedOut).Nodup ∧
      ∀ ackId ∈ (broker.history codec uuid events).flatMap handedOut,
        ∃ n, broker.drawn ≤ n ∧ uuid n = ackId := by
  induction events generalizing broker with
  | nil => exact ⟨List.nodup_nil, fun _ hm => absurd hm List.not_mem_nil⟩
  | cons event events ih =>
    obtain ⟨hrest, hlater⟩ := ih (h.step hu event)
    have hnow := h.handedOut_step hu event
    constructor
    · refine List.nodup_append.mpr ⟨hnow.1, hrest, fun ackId hm ackId' hm' he => ?_⟩
      obtain ⟨n, -, hn, rfl⟩ := hnow.2 ackId hm
      obtain ⟨n', hn', rfl⟩ := hlater ackId' hm'
      have hsame := hu he
      have hdrawn : broker.drawn + event.draws ≤ n' := hn'
      omega
    · intro ackId hm
      rcases List.mem_append.mp hm with hm | hm
      · obtain ⟨n, hn, -, he⟩ := hnow.2 ackId hm
        exact ⟨n, hn, he⟩
      · obtain ⟨n, hn, he⟩ := hlater ackId hm
        have hdrawn : broker.drawn + event.draws ≤ n := hn
        exact ⟨n, by omega, he⟩

end Broker

/-- The leases that a request names, with its subscription. -/
def Event.names : Event → Option (String × List String)
  | .acknowledge subscription ackIds => some (subscription, ackIds)
  | .modifyAck subscription ackIds _ _ => some (subscription, ackIds)
  | _ => none

/-- A request leaves alone what is under no lease it names. -/
theorem BrokerView.Step.unnamed {uuids : Nat → String} {view view' : BrokerView} {event : Event}
    {reply : Reply} {subscription s id : String} {ackIds : List String}
    (h : BrokerView.Step uuids view event reply view')
    (hn : event.names = some (subscription, ackIds))
    (hl : ∀ held lease, view.board s id = some held → held.lease = some lease →
      s = subscription → lease.token ∉ ackIds) :
    view'.board s id = view.board s id := by
  cases h with
  | refused => rfl
  | acknowledge name named =>
    obtain ⟨rfl, rfl⟩ := Prod.mk.inj (Option.some.inj hn)
    exact Board.take_kept fun held hb hs =>
      Held.under_unnamed fun lease hlease => hl held lease hb hlease hs
  | modifyAck name named seconds now =>
    obtain ⟨rfl, rfl⟩ := Prod.mk.inj (Option.some.inj hn)
    unfold BrokerView.modifyAck
    rw [setBoard_board]
    split
    · exact Board.onLeases_kept fun held hb hs =>
        Lease.close_unnamed fun lease hlease => hl held lease hb hlease hs
    · exact Board.onLeases_kept fun held hb hs =>
        Lease.extend_unnamed fun lease hlease => hl held lease hb hlease hs
  | cleaned => cases hn
  | createTopic => cases hn
  | deleteTopic => cases hn
  | createSubscription => cases hn
  | deleteSubscription => cases hn
  | publish => cases hn
  | claim => cases hn

/-- A claim hands out no pair whose last lease lasts, and requests that name stale leases
change nothing. -/
theorem leases_exclusive (hu : Function.Injective uuid) {broker : Broker β} (h : broker.Empty)
    (events : List Event) :
    let history := broker.history codec uuid events
    let later := broker.run codec uuid events
    (∀ (subscription : String) (maxCount : Nat) (maxBytes deadlineSeconds now : Int)
      (given : List BrokerMessage) (found : BrokerMessage) (lease : Lease String),
      later.reply codec uuid (.claim subscription maxCount maxBytes deadlineSeconds now) =
        .claimed given → found ∈ given →
      standingLeases history subscription found.message.messageId = some lease →
      lease.deadline ≤ now) ∧
    ∀ (event : Event) (subscription : String) (ackIds : List String),
      event.names = some (subscription, ackIds) →
      ((∀ ackId ∈ ackIds, Stale history subscription ackId) →
        ∀ s id, ((later.step codec uuid event).service.view codec).board s id =
          (later.service.view codec).board s id) ∧
      ∀ s id, (∀ lease, standingLeases history s id = some lease → lease.token ∈ ackIds →
          Stale history subscription lease.token) →
        ((later.step codec uuid event).service.view codec).board s id =
          (later.service.view codec).board s id := by
  have hstart : broker.Tracked codec uuid .empty :=
    ⟨fun s id held hb => (by rw [h.board] at hb; cases hb), fun _ _ _ hl => by cases hl⟩
  have hfirst : broker.Sound codec uuid := h.sound
  have hsound := hfirst.run hu events
  have htracked := hfirst.tracked_run hu hstart events
  have hnodup := (hfirst.handedOut hu events).1
  intro history later
  refine ⟨fun subscription maxCount maxBytes deadlineSeconds now given found lease hr hf hl => ?_,
    fun event subscription ackIds hn => ?_⟩
  · have hclaim :=
      (hsound.serve hu (.claim subscription maxCount maxBytes deadlineSeconds now)).2
    unfold Broker.reply at hr
    rw [hr] at hclaim
    obtain ⟨held, hb, -, hfree⟩ := hclaim.claimed.2.1.on_board hf
    rw [htracked.agrees _ _ held hb] at hfree
    by_contra hlt
    have hlasts := Lease.free_some.mpr ⟨hl, Int.not_le.mp hlt⟩
    exact absurd (hfree.symm.trans hlasts) (by simp)
  · have hkept : ∀ s id, (∀ lease, standingLeases history s id = some lease →
        lease.token ∈ ackIds → Stale history subscription lease.token) →
        ((later.step codec uuid event).service.view codec).board s id =
          (later.service.view codec).board s id := by
      intro s id hstale
      refine (hsound.serve hu event).2.unnamed hn fun held lease hb hl hs hm => ?_
      rw [htracked.agrees s id held hb] at hl
      subst hs
      exact (hstale lease hl hm).not_standing hnodup hl rfl
    exact ⟨fun hall s id => hkept s id fun lease _ hm => hall _ hm, hkept⟩

/-- A nacked lease is stale; its pair is out under another one. -/
theorem leases_exclusive_sample :
    let broker : Broker Blob := ⟨.onTables .empty, 0⟩
    let later := broker.run plainCodec sampleUuid [sampleCreateTopic,
      sampleCreateSubscription "sub-one", samplePublish [1] 0, sampleClaim "sub-one" 1 0,
      .modifyAck (sampleSubscription "sub-one") [sampleUuid 1] 0 5, sampleClaim "sub-one" 1 6]
    ∀ s id, ((later.step plainCodec sampleUuid (.acknowledge (sampleSubscription "sub-one")
        [sampleUuid 1])).service.view plainCodec).board s id =
      (later.service.view plainCodec).board s id := by
  intro broker later
  have hhistory : broker.history plainCodec sampleUuid [sampleCreateTopic,
      sampleCreateSubscription "sub-one", samplePublish [1] 0, sampleClaim "sub-one" 1 0,
      .modifyAck (sampleSubscription "sub-one") [sampleUuid 1] 0 5, sampleClaim "sub-one" 1 6] =
      [(sampleCreateTopic, .done), (sampleCreateSubscription "sub-one", .done),
        (samplePublish [1] 0, .published [sampleUuid 0]),
        (sampleClaim "sub-one" 1 0,
          .claimed [⟨sampleUuid 1, ⟨[1], [], sampleUuid 0, some ⟨0, 0⟩, ""⟩, 5⟩])] ++
      (.modifyAck (sampleSubscription "sub-one") [sampleUuid 1] 0 5, .done) ::
        [(sampleClaim "sub-one" 1 6,
          .claimed [⟨sampleUuid 2, ⟨[1], [], sampleUuid 0, some ⟨0, 0⟩, ""⟩, 5⟩])] := by
    decide +kernel
  refine ((leases_exclusive sampleUuid_injective (.inr rfl) _).2 _ _ _ rfl).1 fun ackId hm => ?_
  obtain rfl := List.mem_singleton.mp hm
  refine .nacked hhistory (?_ : Issued _ _ (sampleUuid 0) _) (List.mem_singleton_self _)
  exact ⟨_, _, _, _, _, List.mem_append_right [_, _, _] (List.mem_singleton_self _), _,
    List.mem_singleton_self _, rfl, rfl⟩

/-- With a clock that goes back: a later claim finds two leases run out and hands one pair out
again, and an earlier reading hands out the other. -/
theorem cleared_lease_handed_out_early :
    let broker : Broker Blob := ⟨.inMemory, 0⟩
    let events := [sampleCreateTopic, sampleCreateSubscription "sub-one", samplePublish [1, 2] 0,
      sampleClaim "sub-one" 2 0, sampleClaim "sub-one" 1 20000]
    ∃ given found lease, (broker.run plainCodec sampleUuid events).reply plainCodec sampleUuid
        (sampleClaim "sub-one" 1 5000) = .claimed given ∧ found ∈ given ∧
      lastLeases (broker.history plainCodec sampleUuid events) (sampleSubscription "sub-one")
        found.message.messageId = some lease ∧ 5000 < lease.deadline := by
  intro broker events
  refine ⟨[⟨sampleUuid 5, ⟨[2], [], sampleUuid 1, some ⟨0, 0⟩, ""⟩, 8⟩], _, ⟨sampleUuid 3, 10000⟩,
    ?_, List.mem_singleton_self _, ?_, by decide⟩
  · decide +kernel
  · decide +kernel

end FirebaseEmu.Pubsub
