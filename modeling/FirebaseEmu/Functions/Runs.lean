import FirebaseEmu.Functions.Delivery

namespace FirebaseEmu.Functions
open Lib Std
open Firestore (OutboxState outboxCapacity)

variable {π : Type}

namespace Delivery
variable {delivery : Delivery π} {event : OutboxEvent π} {id : Nat}

/-- How a row comes by its state: it had it, or it waits, or the loop has just written the
outcome of the dispatch of this very event. -/
inductive Changed (delivery : Delivery π) (event : OutboxEvent π) (id : Nat) :
    OutboxState → Prop where
  | kept {row : EventRow π} (hr : delivery.outbox.rows[id]? = some row) :
    Changed delivery event id row.state
  | pending : Changed delivery event id .pending
  | inFlight : Changed delivery event id .inFlight
  | delivered {row : DurableRow π} {tries now : Nat} {before : List Entry}
    (he : event = .transition now .done) (hw : delivery.worker = .acknowledging row tries)
    (hid : row.id = id)
    (hlog : delivery.log = before ++ [.claimed id row.attempts, .dispatched id none])
    (hafter : (delivery.step event).log = delivery.log ++ [.delivered id]) :
    Changed delivery event id .delivered
  | failed {row : DurableRow π} {error : String} {tries now : Nat} {outcome : Outcome}
    {before : List Entry} (he : event = .transition now outcome)
    (hw : delivery.worker = .failing row error tries) (hid : row.id = id)
    (ha : 5 ≤ row.attempts)
    (hlog : delivery.log = before ++ [.claimed id row.attempts, .dispatched id (some error)])
    (hafter : (delivery.step event).log = delivery.log ++ [.failed id]) :
    Changed delivery event id .failed

/-- A final failure is written for the event whose handlers have failed. -/
theorem Sound.changed_fail (h : delivery.Sound) {row : DurableRow π} {error : String}
    {tries now : Nat} {outcome : Outcome} {old : EventRow π}
    (hw : delivery.worker = .failing row error tries) (ha : 5 ≤ row.attempts)
    (hr : delivery.outbox.rows[row.id]? = some old)
    (hafter : (delivery.step (.transition now outcome)).log =
      delivery.log ++ delivery.failedEntry row.id) :
    Changed delivery (.transition now outcome) row.id .failed := by
  have hheld := h.held
  rw [Held, hw] at hheld
  obtain ⟨found, hfound, -, hcase⟩ := hheld
  obtain rfl := Option.some.inj (hr.symm.trans hfound)
  rcases hcase with ⟨hs, before, hlog⟩ | ⟨hs, -⟩
  · rcases failedEntry_cases hr with ⟨hs', -⟩ | ⟨-, he⟩
    · rw [hs] at hs'
      cases hs'
    · exact .failed rfl hw rfl ha hlog (he ▸ hafter)
  · exact hs ▸ .kept hr

theorem Sound.changed (h : delivery.Sound) {row' : EventRow π}
    (hr : (delivery.step event).outbox.rows[id]? = some row') :
    Changed delivery event id row'.state := by
  have hheld := h.held
  cases event with
  | insert eventsEnabled records =>
    change (delivery.insert eventsEnabled records).outbox.rows[id]? = _ at hr
    unfold Delivery.insert Outbox.insertOutbox at hr
    cases eventsEnabled with
    | false => exact .kept hr
    | true =>
      by_cases hfull : outboxCapacity < delivery.outbox.outstanding + records.length
      · simp only [hfull, if_true, Bool.not_true, Bool.false_eq_true, if_false] at hr
        exact .kept hr
      · simp only [hfull, Bool.not_true, Bool.false_eq_true, if_false] at hr
        rw [(Outbox.getElem?_insertRecords records id).1] at hr
        split at hr
        · cases hrecord : records[id - delivery.outbox.nextId]? with
          | none =>
            rw [hrecord] at hr
            exact .kept hr
          | some record =>
            rw [hrecord] at hr
            obtain rfl := Option.some.inj hr
            exact .pending
        · exact .kept hr
  | recover ok =>
    change (delivery.recover ok).outbox.rows[id]? = _ at hr
    unfold Delivery.recover at hr
    split at hr
    · cases ok with
      | false => exact .kept hr
      | true =>
        change (delivery.outbox.rows.map fun _ row => row.recover)[id]? = _ at hr
        rw [ExtTreeMap.getElem?_map, Option.map_eq_some_iff] at hr
        obtain ⟨old, ho, rfl⟩ := hr
        unfold EventRow.recover
        split
        · exact .pending
        · exact .kept ho
    · exact .kept hr
  | claim now =>
    change (delivery.claim now).outbox.rows[id]? = _ at hr
    unfold Delivery.claim Outbox.claimOutbox at hr
    split at hr
    · cases hc : delivery.outbox.candidate now with
      | none =>
        rw [hc] at hr
        exact .kept hr
      | some entry =>
        rw [hc] at hr
        change (delivery.outbox.rows.modify entry.1 _)[id]? = _ at hr
        rw [Outbox.getElem?_modify] at hr
        split at hr
        · obtain ⟨old, -, rfl⟩ := Option.map_eq_some_iff.mp hr
          exact .inFlight
        · exact .kept hr
    · exact .kept hr
  | claimFails => exact .kept hr
  | finish error =>
    change (delivery.finish error).outbox.rows[id]? = _ at hr
    unfold Delivery.finish at hr
    split at hr
    · exact .kept hr
    · exact .kept hr
  | crash => exact .kept hr
  | transition now outcome =>
    have hafter : ∀ log, (delivery.transition now outcome).log = log →
        (delivery.step (.transition now outcome)).log = log := fun _ hl => hl
    change (delivery.transition now outcome).outbox.rows[id]? = _ at hr
    unfold Delivery.transition at hr hafter
    cases hw : delivery.worker with
    | starting =>
      rw [hw] at hr
      exact .kept hr
    | polling =>
      rw [hw] at hr
      exact .kept hr
    | dispatching row =>
      rw [hw] at hr
      exact .kept hr
    | acknowledging row tries =>
      rw [hw] at hr hafter
      rw [Held, hw] at hheld
      obtain ⟨found, before, hfound, hs, -, hlog⟩ := hheld
      cases outcome with
      | done =>
        dsimp only at hr hafter
        cases ha : delivery.outbox.acknowledgeOutbox row.id now with
        | error e =>
          rw [ha] at hr
          exact .kept hr
        | ok outbox =>
          rw [ha] at hr hafter
          have houtbox : outbox = Outbox.prune .delivered
              ⟨delivery.outbox.rows.modify row.id (EventRow.deliver now), delivery.outbox.nextId,
                delivery.outbox.completed + 1⟩ := by
            unfold Outbox.acknowledgeOutbox at ha
            rw [hfound] at ha
            simp only [hs, beq_self_eq_true, if_true] at ha
            exact (Except.ok.inj ha).symm
          obtain ⟨hrows, -, hself⟩ := pruned_rows delivery.outbox row.id
            (delivery.outbox.completed + 1) (EventRow.deliver now)
            (by decide : OutboxState.delivered ≠ .pending ∧ OutboxState.delivered ≠ .inFlight)
          rw [← houtbox] at hrows hself
          by_cases hid : id = row.id
          · subst hid
            obtain ⟨old, -, rfl⟩ := hself row' hr
            exact .delivered rfl hw rfl hlog (hafter _ rfl)
          · exact .kept (hrows id row' hr hid)
      | torn => exact .kept hr
      | fails => exact .kept hr
    | failing row error tries =>
      rw [hw] at hr hafter
      cases outcome with
      | done =>
        dsimp only at hr hafter
        unfold Outbox.failOutbox at hr
        by_cases hfinal : 5 ≤ row.attempts
        · rw [if_pos hfinal] at hr hafter
          obtain ⟨hrows, -, hself⟩ := pruned_rows delivery.outbox row.id
            delivery.outbox.completed (EventRow.fail error)
            (by decide : OutboxState.failed ≠ .pending ∧ OutboxState.failed ≠ .inFlight)
          by_cases hid : id = row.id
          · subst hid
            obtain ⟨old, ho, rfl⟩ := hself row' hr
            exact h.changed_fail hw hfinal ho (hafter _ rfl)
          · exact .kept (hrows id row' hr hid)
        · rw [if_neg hfinal] at hr
          change (delivery.outbox.rows.modify row.id _)[id]? = _ at hr
          rw [Outbox.getElem?_modify] at hr
          split at hr
          · obtain ⟨old, -, rfl⟩ := Option.map_eq_some_iff.mp hr
            exact .pending
          · exact .kept hr
      | torn =>
        dsimp only at hr hafter
        by_cases hfinal : 5 ≤ row.attempts
        · rw [if_pos hfinal] at hr hafter
          change (delivery.outbox.rows.modify row.id _)[id]? = _ at hr
          rw [Outbox.getElem?_modify] at hr
          split at hr
          · rename_i hid
            subst hid
            obtain ⟨old, ho, rfl⟩ := Option.map_eq_some_iff.mp hr
            exact h.changed_fail hw hfinal ho (hafter _ rfl)
          · exact .kept hr
        · rw [if_neg hfinal] at hr
          exact .kept hr
      | fails => exact .kept hr

theorem Sound.delivered_outbox (h : delivery.Sound) {row : DurableRow π} {tries now : Nat}
    (hw : delivery.worker = .acknowledging row tries) :
    delivery.outbox.acknowledgeOutbox row.id now = .ok (Outbox.prune .delivered
      ⟨delivery.outbox.rows.modify row.id (EventRow.deliver now), delivery.outbox.nextId,
        delivery.outbox.completed + 1⟩) := by
  have hheld := h.held
  rw [Held, hw] at hheld
  obtain ⟨found, before, hfound, hs, -⟩ := hheld
  unfold Outbox.acknowledgeOutbox
  rw [hfound]
  simp only [hs, beq_self_eq_true, if_true]

/-- A row that waits is deleted only once its event is settled. -/
theorem Sound.kept (h : delivery.Sound) {row : EventRow π}
    (hr : delivery.outbox.rows[id]? = some row) (ho : row.outstanding = true) :
    (delivery.step event).outbox.rows[id]? ≠ none ∨
      (delivery.step event).log = delivery.log ++ [.delivered id] ∨
        (delivery.step event).log = delivery.log ++ [.failed id] := by
  have hmodify : ∀ (name : Nat) (f : EventRow π → EventRow π),
      (delivery.outbox.rows.modify name f)[id]? ≠ none := by
    intro name f
    rw [Outbox.getElem?_modify, hr]
    split <;> simp
  have hsame : delivery.outbox.rows[id]? ≠ none := by
    rw [hr]
    exact Option.some_ne_none row
  cases event with
  | insert eventsEnabled records =>
    left
    change (delivery.insert eventsEnabled records).outbox.rows[id]? ≠ none
    unfold Delivery.insert Outbox.insertOutbox
    cases eventsEnabled with
    | false => exact hsame
    | true =>
      by_cases hfull : outboxCapacity < delivery.outbox.outstanding + records.length
      · simpa only [hfull, if_true, Bool.not_true, Bool.false_eq_true, if_false] using hsame
      · simp only [hfull, Bool.not_true, Bool.false_eq_true, if_false]
        rw [(Outbox.getElem?_insertRecords records id).1,
          if_neg (Nat.not_le.mpr (h.known id row hr))]
        exact hsame
  | recover ok =>
    left
    change (delivery.recover ok).outbox.rows[id]? ≠ none
    unfold Delivery.recover
    split
    · cases ok with
      | false => exact hsame
      | true =>
        change (delivery.outbox.rows.map fun _ row => row.recover)[id]? ≠ none
        rw [ExtTreeMap.getElem?_map, hr]
        exact Option.some_ne_none _
    · exact hsame
  | claim now =>
    left
    change (delivery.claim now).outbox.rows[id]? ≠ none
    unfold Delivery.claim Outbox.claimOutbox
    split
    · cases hc : delivery.outbox.candidate now with
      | none => exact hsame
      | some entry => exact hmodify entry.1 _
    · exact hsame
  | claimFails => exact .inl hsame
  | finish error =>
    left
    change (delivery.finish error).outbox.rows[id]? ≠ none
    unfold Delivery.finish
    split
    · exact hsame
    · exact hsame
  | crash => exact .inl hsame
  | transition now outcome =>
    have hheld := h.held
    change (delivery.transition now outcome).outbox.rows[id]? ≠ none ∨
      (delivery.transition now outcome).log = _ ∨ (delivery.transition now outcome).log = _
    unfold Delivery.transition
    cases hw : delivery.worker with
    | starting => exact .inl hsame
    | polling => exact .inl hsame
    | dispatching held => exact .inl hsame
    | acknowledging held tries =>
      cases outcome with
      | done =>
        dsimp only
        rw [h.delivered_outbox hw]
        by_cases hid : id = held.id
        · subst hid
          exact .inr (.inl rfl)
        · left
          obtain ⟨-, hkept, -⟩ := pruned_rows delivery.outbox held.id
            (delivery.outbox.completed + 1) (EventRow.deliver now)
            (by decide : OutboxState.delivered ≠ .pending ∧ OutboxState.delivered ≠ .inFlight)
          have hrow := hkept id row hr hid ho
          change (Outbox.prune .delivered _).rows[id]? ≠ none
          rw [hrow]
          exact Option.some_ne_none row
      | torn => exact .inl hsame
      | fails => exact .inl hsame
    | failing held error tries =>
      cases outcome with
      | done =>
        dsimp only
        unfold Outbox.failOutbox
        by_cases hfinal : 5 ≤ held.attempts
        · rw [if_pos hfinal, if_pos hfinal]
          by_cases hid : id = held.id
          · subst hid
            right
            right
            rcases failedEntry_cases hr with ⟨hs, -⟩ | ⟨-, he⟩
            · simp [EventRow.outstanding, hs] at ho
            · rw [he]
          · left
            obtain ⟨-, hkept, -⟩ := pruned_rows delivery.outbox held.id
              delivery.outbox.completed (EventRow.fail error)
              (by decide : OutboxState.failed ≠ .pending ∧ OutboxState.failed ≠ .inFlight)
            have hrow := hkept id row hr hid ho
            change (Outbox.prune .failed _).rows[id]? ≠ none
            unfold Outbox.failFinally
            rw [hrow]
            exact Option.some_ne_none row
        · rw [if_neg hfinal]
          exact .inl (hmodify held.id _)
      | torn =>
        dsimp only
        by_cases hfinal : 5 ≤ held.attempts
        · rw [if_pos hfinal]
          exact .inl (hmodify held.id _)
        · rw [if_neg hfinal]
          exact .inl hsame
      | fails => exact .inl hsame

end Delivery

/-- The loop recovers, claims and writes without failures, and the process does not stop. -/
def OutboxEvent.Undisturbed : OutboxEvent π → Prop
  | .recover ok => ok = true
  | .claimFails => False
  | .transition _ outcome => outcome = .done
  | .crash => False
  | _ => True

namespace Entry

def isClaim (id : Nat) : Entry → Bool
  | .claimed started _ => started == id
  | _ => false

def isDispatch (id : Nat) : Entry → Bool
  | .dispatched started _ => started == id
  | _ => false

end Entry

namespace Delivery
variable {delivery : Delivery π} {event : OutboxEvent π} {id : Nat}

def claims (delivery : Delivery π) (id : Nat) : Nat := delivery.log.countP (Entry.isClaim id)

def dispatches (delivery : Delivery π) (id : Nat) : Nat :=
  delivery.log.countP (Entry.isDispatch id)

/-- The handlers of the event are running. -/
def running (delivery : Delivery π) (id : Nat) : Nat :=
  match delivery.worker with
  | .dispatching row => if row.id = id then 1 else 0
  | _ => 0

/-- The invariant of a run without failures: an event in flight is the one that the loop has,
and one that waits has been claimed fewer than five times. -/
structure Orderly (delivery : Delivery π) : Prop where
  sound : delivery.Sound
  attempts : ∀ id row, delivery.outbox.rows[id]? = some row → delivery.claims id = row.attempts
  unseen : ∀ id, delivery.outbox.nextId ≤ id → delivery.claims id = 0
  limit : ∀ id, delivery.claims id ≤ 5
  waiting : ∀ (id : Nat) (row : EventRow π), delivery.outbox.rows[id]? = some row →
    row.state = .pending → row.attempts < 5
  flying : ∀ (id : Nat) (row : EventRow π), delivery.outbox.rows[id]? = some row → row.state = .inFlight →
    delivery.Holds id
  handled : ∀ id, delivery.dispatches id + delivery.running id ≤ delivery.claims id

theorem start_orderly : (start : Delivery π).Orderly where
  sound := start_sound
  attempts id row hr := by simp [start, Outbox.empty] at hr
  unseen id _ := rfl
  limit id := Nat.zero_le _
  waiting id row hr := by simp [start, Outbox.empty] at hr
  flying id row hr := by simp [start, Outbox.empty] at hr
  handled id := Nat.le_refl _

theorem Orderly.insert (h : delivery.Orderly) (eventsEnabled : Bool)
    (records : List (OutboxRecord π)) : (delivery.insert eventsEnabled records).Orderly := by
  have hsound := h.sound.insert eventsEnabled records
  revert hsound
  unfold Delivery.insert Outbox.insertOutbox
  intro hsound
  cases eventsEnabled with
  | false => exact h
  | true =>
    by_cases hfull : outboxCapacity < delivery.outbox.outstanding + records.length
    · simpa only [hfull, if_true, Bool.not_true, Bool.false_eq_true, if_false] using h
    simp only [hfull, Bool.not_true, Bool.false_eq_true, if_false] at hsound ⊢
    have hrows : ∀ id row, (records.foldl Outbox.insertRecord delivery.outbox).rows[id]? =
        some row → delivery.outbox.rows[id]? = some row ∨
          delivery.outbox.nextId ≤ id ∧ row.state = .pending ∧ row.attempts = 0 := by
      intro id row hr
      rw [(Outbox.getElem?_insertRecords records id).1] at hr
      split at hr
      · rename_i hle
        cases hrecord : records[id - delivery.outbox.nextId]? with
        | none =>
          rw [hrecord] at hr
          exact .inl hr
        | some record =>
          rw [hrecord] at hr
          obtain rfl := Option.some.inj hr
          exact .inr ⟨hle, rfl, rfl⟩
      · exact .inl hr
    refine ⟨hsound, fun id row hr => ?_, fun id hle => ?_, h.limit, fun id row hr hs => ?_,
      fun id row hr hs => ?_, h.handled⟩
    · rcases hrows id row hr with hr | ⟨hle, -, ha⟩
      · exact h.attempts id row hr
      · exact (h.unseen id hle).trans ha.symm
    · have hnext : (records.foldl Outbox.insertRecord delivery.outbox).nextId = _ :=
        (Outbox.getElem?_insertRecords records id).2.1
      refine h.unseen id ?_
      change (records.foldl Outbox.insertRecord delivery.outbox).nextId ≤ id at hle
      omega
    · rcases hrows id row hr with hr | ⟨-, -, ha⟩
      · exact h.waiting id row hr hs
      · omega
    · rcases hrows id row hr with hr | ⟨-, hpending, -⟩
      · exact h.flying id row hr hs
      · rw [hs] at hpending
        cases hpending

theorem Orderly.recover (h : delivery.Orderly) : (delivery.recover true).Orderly := by
  have hsound := h.sound.recover true
  revert hsound
  unfold Delivery.recover
  intro hsound
  split
  · rename_i hw
    -- Nothing is in flight while the loop starts, so there is nothing to recover.
    have hsame : ∀ id : Nat,
        delivery.outbox.recoverOutbox.rows[id]? = delivery.outbox.rows[id]? := by
      intro id
      change (delivery.outbox.rows.map fun _ row => row.recover)[id]? = _
      rw [ExtTreeMap.getElem?_map]
      cases hr : delivery.outbox.rows[id]? with
      | none => rfl
      | some row =>
        have hnot : row.state ≠ .inFlight := by
          intro hs
          have hholds := h.flying id row hr hs
          rw [Holds, hw] at hholds
          exact hholds
        simp [EventRow.recover, hnot]
    simp only [hw, if_true] at hsound
    refine ⟨hsound, fun id row hr => ?_, h.unseen, h.limit, fun id row hr => ?_,
      fun id row hr hs => ?_, fun id => ?_⟩
    · exact h.attempts id row ((hsame id).symm.trans hr)
    · exact h.waiting id row ((hsame id).symm.trans hr)
    · have hholds := h.flying id row ((hsame id).symm.trans hr) hs
      rw [Holds, hw] at hholds
      exact hholds.elim
    · have hhandled := h.handled id
      rw [running, hw] at hhandled
      exact hhandled
  · exact h

theorem claims_append (entry : Entry) (log : List Entry) (id : Nat) :
    (log ++ [entry]).countP (Entry.isClaim id) =
      log.countP (Entry.isClaim id) + if entry.isClaim id then 1 else 0 := by
  rw [List.countP_append, List.countP_singleton]

theorem Orderly.claim (h : delivery.Orderly) (now : Nat) : (delivery.claim now).Orderly := by
  have hsound := h.sound.claim now
  revert hsound
  unfold Delivery.claim Outbox.claimOutbox
  intro hsound
  split
  · rename_i hw
    cases hc : delivery.outbox.candidate now with
    | none => exact h
    | some entry =>
      obtain ⟨name, found⟩ := entry
      obtain ⟨hfound, he, -⟩ := Outbox.candidate_some hc
      simp only [hw, hc] at hsound
      have hnone : ∀ (id : Nat) (row : EventRow π), delivery.outbox.rows[id]? = some row →
          row.state ≠ .inFlight := by
        intro id row hr hs
        have hholds := h.flying id row hr hs
        rw [Holds, hw] at hholds
        exact hholds
      have hpending : found.state = .pending := by
        have ho := eligible_outstanding he
        simp only [EventRow.outstanding, Bool.or_eq_true, beq_iff_eq] at ho
        exact ho.resolve_right (hnone name found hfound)
      have hless := h.waiting name found hfound hpending
      have hcount := h.attempts name found hfound
      have hclaims : ∀ id, (delivery.log ++ [Entry.claimed name (found.attempts + 1)]).countP
          (Entry.isClaim id) = delivery.claims id + if name = id then 1 else 0 := by
        intro id
        rw [claims_append]
        simp only [Entry.isClaim, beq_iff_eq]
        rfl
      have hrows : ∀ id row, (delivery.outbox.rows.modify name (EventRow.claim now))[id]? =
          some row → (id = name ∧ row = found.claim now) ∨
            id ≠ name ∧ delivery.outbox.rows[id]? = some row := by
        intro id row hr
        rw [Outbox.getElem?_modify] at hr
        split at hr
        · rename_i hid
          subst hid
          rw [hfound] at hr
          exact .inl ⟨rfl, (Option.some.inj hr).symm⟩
        · rename_i hid
          exact .inr ⟨Ne.symm hid, hr⟩
      refine ⟨hsound, fun id row hr => ?_, fun id hle => ?_, fun id => ?_, fun id row hr hs => ?_,
        fun id row hr hs => ?_, fun id => ?_⟩
      · refine (hclaims id).trans ?_
        rcases hrows id row hr with ⟨rfl, rfl⟩ | ⟨hne, hr⟩
        · rw [if_pos rfl, hcount]
          rfl
        · rw [if_neg (Ne.symm hne), Nat.add_zero]
          exact h.attempts id row hr
      · refine (hclaims id).trans ?_
        have hlt := h.sound.known name found hfound
        change delivery.outbox.nextId ≤ id at hle
        rw [if_neg (by omega), Nat.add_zero]
        exact h.unseen id hle
      · refine (hclaims id).trans_le ?_
        have hle := h.limit id
        split
        · rename_i hid
          subst hid
          omega
        · exact hle
      · rcases hrows id row hr with ⟨rfl, rfl⟩ | ⟨-, hr⟩
        · cases hs
        · exact h.waiting id row hr hs
      · rcases hrows id row hr with ⟨rfl, -⟩ | ⟨-, hr⟩
        · rfl
        · exact absurd hs (hnone id row hr)
      · have hhandled := h.handled id
        rw [running, hw] at hhandled
        have hdispatches : (delivery.log ++ [Entry.claimed name (found.attempts + 1)]).countP
            (Entry.isDispatch id) = delivery.dispatches id := by
          rw [List.countP_append]
          rfl
        have hstate := hclaims id
        change List.countP _ (_ ++ _) + (if name = id then 1 else 0) ≤ List.countP _ (_ ++ _)
        rw [hstate, hdispatches]
        omega
  · exact h

theorem Orderly.finish (h : delivery.Orderly) (error : Option String) :
    (delivery.finish error).Orderly := by
  have hsound := h.sound.finish error
  revert hsound
  unfold Delivery.finish
  intro hsound
  split
  · rename_i row hw
    simp only [hw] at hsound
    have hclaims : ∀ id, (delivery.log ++ [Entry.dispatched row.id error]).countP
        (Entry.isClaim id) = delivery.claims id := by
      intro id
      rw [claims_append]
      rfl
    refine ⟨hsound, fun id found hr => (hclaims id).trans (h.attempts id found hr),
      fun id hle => (hclaims id).trans (h.unseen id hle),
      fun id => (hclaims id).trans_le (h.limit id), h.waiting, fun id found hr hs => ?_,
      fun id => ?_⟩
    · have hholds := h.flying id found hr hs
      rw [Holds, hw] at hholds
      cases error with
      | none => exact hholds
      | some error => exact hholds
    · have hhandled := h.handled id
      rw [running, hw] at hhandled
      have hdispatches : (delivery.log ++ [Entry.dispatched row.id error]).countP
          (Entry.isDispatch id) = delivery.dispatches id + if row.id = id then 1 else 0 := by
        rw [List.countP_append, List.countP_singleton]
        simp only [Entry.isDispatch, beq_iff_eq]
        rfl
      have hle : (delivery.log ++ [Entry.dispatched row.id error]).countP (Entry.isDispatch id) ≤
          (delivery.log ++ [Entry.dispatched row.id error]).countP (Entry.isClaim id) := by
        rw [hdispatches, hclaims]
        exact hhandled
      cases error with
      | none => exact hle
      | some error => exact hle
  · exact h

/-- The loop lets go of its row, which is no longer in flight. -/
theorem Orderly.let_go (h : delivery.Orderly) {row : DurableRow π} {outbox : Outbox π}
    {entries : List Entry} (hholds : ∀ id, delivery.Holds id → id = row.id)
    (hrunning : ∀ id, delivery.running id = 0)
    (hsound : (⟨outbox, .polling, delivery.log ++ entries⟩ : Delivery π).Sound)
    (hnext : outbox.nextId = delivery.outbox.nextId)
    (hrows : ∀ id row', outbox.rows[id]? = some row' → id ≠ row.id →
      delivery.outbox.rows[id]? = some row')
    (hself : ∀ row', outbox.rows[row.id]? = some row' →
      ∃ old, delivery.outbox.rows[row.id]? = some old ∧ row'.attempts = old.attempts ∧
        row'.state ≠ .inFlight ∧ (row'.state = .pending → row'.attempts < 5))
    (hentries : ∀ entry ∈ entries, ∀ id, entry.isClaim id = false ∧ entry.isDispatch id = false) :
    (⟨outbox, .polling, delivery.log ++ entries⟩ : Delivery π).Orderly := by
  have hclaims : ∀ id, (delivery.log ++ entries).countP (Entry.isClaim id) =
      delivery.claims id := by
    intro id
    have hzero : entries.countP (Entry.isClaim id) = 0 :=
      List.countP_eq_zero.mpr fun entry he => by simp [(hentries entry he id).1]
    rw [List.countP_append, hzero, Nat.add_zero]
    rfl
  have hdispatches : ∀ id, (delivery.log ++ entries).countP (Entry.isDispatch id) =
      delivery.dispatches id := by
    intro id
    have hzero : entries.countP (Entry.isDispatch id) = 0 :=
      List.countP_eq_zero.mpr fun entry he => by simp [(hentries entry he id).2]
    rw [List.countP_append, hzero, Nat.add_zero]
    rfl
  refine ⟨hsound, fun id row' hr => (hclaims id).trans ?_, fun id hle => (hclaims id).trans ?_,
    fun id => (hclaims id).trans_le (h.limit id), fun id row' hr hs => ?_, fun id row' hr hs => ?_,
    fun id => ?_⟩
  · by_cases hid : id = row.id
    · subst hid
      obtain ⟨old, ho, ha, -⟩ := hself row' hr
      exact (h.attempts row.id old ho).trans ha.symm
    · exact h.attempts id row' (hrows id row' hr hid)
  · change outbox.nextId ≤ id at hle
    exact h.unseen id (hnext ▸ hle)
  · by_cases hid : id = row.id
    · subst hid
      obtain ⟨old, -, -, -, hless⟩ := hself row' hr
      exact hless hs
    · exact h.waiting id row' (hrows id row' hr hid) hs
  · by_cases hid : id = row.id
    · subst hid
      obtain ⟨old, -, -, hnot, -⟩ := hself row' hr
      exact absurd hs hnot
    · exact absurd (hholds id (h.flying id row' (hrows id row' hr hid) hs)) hid
  · have hhandled := h.handled id
    rw [hrunning id] at hhandled
    change List.countP _ (_ ++ _) + 0 ≤ List.countP _ (_ ++ _)
    rw [hclaims, hdispatches]
    exact hhandled

theorem Orderly.transition (h : delivery.Orderly) (now : Nat) :
    (delivery.transition now .done).Orderly := by
  have hsound := h.sound.transition now .done
  have hheld := h.sound.held
  revert hsound
  unfold Delivery.transition
  intro hsound
  split
  · rename_i row tries hw
    simp only [hw, h.sound.delivered_outbox hw] at hsound ⊢
    obtain ⟨hrows, -, hself⟩ := pruned_rows delivery.outbox row.id
      (delivery.outbox.completed + 1) (EventRow.deliver now)
      (by decide : OutboxState.delivered ≠ .pending ∧ OutboxState.delivered ≠ .inFlight)
    refine h.let_go (fun id hid => ?_) (fun id => ?_) hsound rfl hrows (fun row' hr => ?_)
      fun entry he id => ?_
    · rw [Holds, hw] at hid
      exact hid.symm
    · rw [running, hw]
    · obtain ⟨old, ho, rfl⟩ := hself row' hr
      exact ⟨old, ho, rfl, OutboxState.noConfusion, OutboxState.noConfusion⟩
    · rw [List.mem_singleton.mp he]
      exact ⟨rfl, rfl⟩
  · rename_i row error tries hw
    simp only [hw] at hsound ⊢
    rw [Held, hw] at hheld
    obtain ⟨found, hfound, ha, hcase⟩ := hheld
    have hholds : ∀ id, delivery.Holds id → id = row.id := by
      intro id hid
      rw [Holds, hw] at hid
      exact hid.symm
    have hrunning : ∀ id, delivery.running id = 0 := by
      intro id
      rw [running, hw]
    by_cases hfinal : 5 ≤ row.attempts
    · simp only [if_pos hfinal, Outbox.failOutbox] at hsound ⊢
      obtain ⟨hrows, -, hself⟩ := pruned_rows delivery.outbox row.id
        delivery.outbox.completed (EventRow.fail error)
        (by decide : OutboxState.failed ≠ .pending ∧ OutboxState.failed ≠ .inFlight)
      refine h.let_go hholds hrunning hsound rfl hrows (fun row' hr => ?_) fun entry he id => ?_
      · obtain ⟨old, ho, rfl⟩ := hself row' hr
        exact ⟨old, ho, rfl, OutboxState.noConfusion, OutboxState.noConfusion⟩
      · rcases failedEntry_cases hfound with ⟨-, hentry⟩ | ⟨-, hentry⟩
        · rw [hentry] at he
          cases he
        · rw [hentry, List.mem_singleton] at he
          rw [he]
          exact ⟨rfl, rfl⟩
    · simp only [if_neg hfinal, Outbox.failOutbox] at hsound ⊢
      refine h.let_go hholds hrunning hsound rfl (fun id row' hr hid => ?_) (fun row' hr => ?_)
        fun entry he => by cases he
      · change (delivery.outbox.rows.modify row.id _)[id]? = _ at hr
        rwa [Outbox.getElem?_modify, if_neg (Ne.symm hid)] at hr
      · change (delivery.outbox.rows.modify row.id _)[row.id]? = _ at hr
        rw [Outbox.getElem?_modify, if_pos rfl, hfound] at hr
        obtain rfl := Option.some.inj hr
        refine ⟨found, hfound, rfl, OutboxState.noConfusion, fun _ => ?_⟩
        change found.attempts < 5
        omega
  · exact h

theorem Orderly.step (h : delivery.Orderly) (he : event.Undisturbed) :
    (delivery.step event).Orderly := by
  cases event with
  | insert eventsEnabled records => exact h.insert eventsEnabled records
  | recover ok =>
    obtain rfl : ok = true := he
    exact h.recover
  | claim now => exact h.claim now
  | claimFails => exact he.elim
  | finish error => exact h.finish error
  | transition now outcome =>
    obtain rfl : outcome = .done := he
    exact h.transition now
  | crash => exact he.elim

theorem run_orderly {events : List (OutboxEvent π)} (h : ∀ event ∈ events, event.Undisturbed) :
    (run events).Orderly := by
  induction events using List.reverseRecOn with
  | nil => exact start_orderly
  | append_singleton events event ih =>
    rw [run_append]
    refine (ih fun other hm => h other (List.mem_append_left _ hm)).step ?_
    exact h event (List.mem_append_right _ (List.mem_singleton_self _))

end Delivery

/-- The outbox under the queue loop, after any run: rows that wait are kept, an event is
delivered or fails for good only by the write that follows its own dispatch, what is settled is
not started again, deliveries are counted once, and the rows that wait are bounded; without
failures no event is dispatched more than five times. -/
theorem outbox_state_machine (events : List (OutboxEvent π)) :
    let delivery := Delivery.run events
    (∀ (event : OutboxEvent π) (id : Nat) (row : EventRow π),
      delivery.outbox.rows[id]? = some row → row.outstanding = true →
      (delivery.step event).outbox.rows[id]? ≠ none ∨
        (delivery.step event).log = delivery.log ++ [.delivered id] ∨
          (delivery.step event).log = delivery.log ++ [.failed id]) ∧
    (∀ (event : OutboxEvent π) (id : Nat) (row : EventRow π),
      (delivery.step event).outbox.rows[id]? = some row →
      Delivery.Changed delivery event id row.state) ∧
    delivery.log.Pairwise Entry.Spares ∧
    delivery.outbox.completed = (delivery.log.filterMap Entry.deliveredId).length ∧
    (delivery.log.filterMap Entry.deliveredId).Nodup ∧
    delivery.outbox.outstanding ≤ 4096 ∧
    ((∀ event ∈ events, event.Undisturbed) → ∀ id, delivery.dispatches id ≤ 5) := by
  intro delivery
  have h := Delivery.run_sound events
  refine ⟨fun event id row hr ho => h.kept hr ho, fun event id row hr => h.changed hr, h.spares,
    h.counted, h.once, h.capacity, fun hu id => ?_⟩
  have horderly := Delivery.run_orderly hu
  have hhandled := horderly.handled id
  exact Nat.le_trans (Nat.le_trans (Nat.le_add_right _ _) hhandled) (horderly.limit id)

/-- An event that is handed out for the first time comes after all that were committed before
it. -/
theorem first_dispatch_in_order (events : List (OutboxEvent π)) (now id attempts : Nat) :
    let delivery := Delivery.run events
    (delivery.step (.claim now)).log = delivery.log ++ [.claimed id attempts] →
    (∀ attempts, .claimed id attempts ∉ delivery.log) → ∀ id', 0 < id' → id' < id →
      ∃ attempts', .claimed id' attempts' ∈ delivery.log := by
  intro delivery hlog hfirst id' hpos hlt
  have h := Delivery.run_sound events
  have hclaim : (delivery.claim now).log = delivery.log ++ [.claimed id attempts] := hlog
  unfold Delivery.claim Outbox.claimOutbox at hclaim
  have hstuck : ∀ entry : Entry, delivery.log ≠ delivery.log ++ [entry] := by
    intro entry he
    have hlen := congrArg List.length he
    simp at hlen
  split at hclaim
  · cases hc : delivery.outbox.candidate now with
    | none =>
      rw [hc] at hclaim
      exact absurd hclaim (hstuck _)
    | some entry =>
      obtain ⟨name, row⟩ := entry
      rw [hc] at hclaim
      obtain ⟨hr, -, hleast⟩ := Outbox.candidate_some hc
      have hentry := List.append_cancel_left hclaim
      obtain ⟨rfl, -⟩ := Entry.claimed.inj (List.singleton_inj.mp hentry)
      have hknown := h.known name row hr
      rcases h.waiting id' hpos (Nat.lt_trans hlt hknown) with hclaimed | ⟨row', hr', hs, ha⟩
      · exact hclaimed
      · have hnot := hleast id' hlt row' hr'
        simp [EventRow.eligible, hs, ha] at hnot
  · exact absurd hclaim (hstuck _)

/-- Two events are committed together; the second one is handed out after the first. -/
theorem first_dispatch_in_order_sample :
    let events : List (OutboxEvent Unit) := [.recover true,
      .insert true [⟨"firestore", ()⟩, ⟨"storage", ()⟩], .claim 0, .finish (some "exited"),
      .transition 0 .done]
    ∃ attempts, .claimed 1 attempts ∈ (Delivery.run events).log := by
  intro events
  have hlog : (Delivery.run events).log = [.claimed 1 1, .dispatched 1 (some "exited")] := by
    decide
  refine first_dispatch_in_order events 0 2 1 (by decide) (fun attempts hm => ?_) 1
    (by decide) (by decide)
  rw [hlog] at hm
  simp at hm

end FirebaseEmu.Functions
