import FirebaseEmu.Functions.Runs

namespace FirebaseEmu.Functions.Delivery
open Lib Std

variable {π : Type} {delivery : Delivery π}

/-- The event that the loop has in hand. -/
def held (delivery : Delivery π) : Option (DurableRow π) :=
  match delivery.worker with
  | .dispatching row => some row
  | .acknowledging row _ => some row
  | .failing row _ _ => some row
  | _ => none

/-- What is known of the content of every event of the outbox. -/
structure Carries (P : Nat → String → π → Prop) (delivery : Delivery π) : Prop where
  rows : ∀ (id : Nat) (row : EventRow π), delivery.outbox.rows[id]? = some row → P id row.source row.payload
  held : ∀ row, delivery.held = some row → P row.id row.source row.payload

theorem Carries.mono {P Q : Nat → String → π → Prop} (h : delivery.Carries P)
    (hpq : ∀ id source payload, P id source payload → Q id source payload) : delivery.Carries Q :=
  ⟨fun id row hr => hpq _ _ _ (h.rows id row hr), fun row hw => hpq _ _ _ (h.held row hw)⟩

theorem Carries.of_rows {P : Nat → String → π → Prop} (h : delivery.Carries P)
    {outbox : Outbox π} {worker : Functions.Worker π} {log : List Entry}
    (hrows : ∀ (id : Nat) (row' : EventRow π), outbox.rows[id]? = some row' →
      ∃ row, delivery.outbox.rows[id]? = some row ∧ row'.source = row.source ∧
        row'.payload = row.payload)
    (hheld : ∀ row, Delivery.held ⟨outbox, worker, log⟩ = some row →
      P row.id row.source row.payload) :
    (⟨outbox, worker, log⟩ : Delivery π).Carries P := by
  refine ⟨fun id row' hr => ?_, hheld⟩
  obtain ⟨row, hrow, hsource, hpayload⟩ := hrows id row' hr
  rw [hsource, hpayload]
  exact h.rows id row hrow

/-- A row that is changed in place keeps what the event is. -/
theorem modify_rows {outbox : Outbox π} (f : EventRow π → EventRow π)
    (hf : ∀ row, (f row).source = row.source ∧ (f row).payload = row.payload) {id id' : Nat}
    {row' : EventRow π} (hr : (outbox.rows.modify id f)[id']? = some row') :
    ∃ row, outbox.rows[id']? = some row ∧ row'.source = row.source ∧
      row'.payload = row.payload := by
  rw [Outbox.getElem?_modify] at hr
  split at hr
  · obtain ⟨row, hrow, rfl⟩ := Option.map_eq_some_iff.mp hr
    exact ⟨row, hrow, hf row⟩
  · exact ⟨row', hr, rfl, rfl⟩

theorem prune_rows {outbox : Outbox π} {state : Firestore.OutboxState} {id : Nat}
    {row : EventRow π} (hr : (outbox.prune state).rows[id]? = some row) :
    outbox.rows[id]? = some row := by
  rcases @Outbox.getElem?_prune π outbox state id with he | ⟨he, -⟩
  · rwa [he] at hr
  · rw [he] at hr
    cases hr

theorem held_again {outbox : Outbox π} {log : List Entry} {tries : Nat}
    {next : Nat → Functions.Worker π} {row : DurableRow π}
    (h : Delivery.held ⟨outbox, again tries next, log⟩ = some row) :
    Delivery.held ⟨outbox, next (tries + 1), log⟩ = some row := by
  unfold again at h
  split at h
  · exact h
  · cases h

theorem Carries.transition {P : Nat → String → π → Prop} (h : delivery.Carries P) (now : Nat)
    (outcome : Outcome) : (delivery.transition now outcome).Carries P := by
  have hheld := h.held
  have hsame : ∀ (id : Nat) (row' : EventRow π), delivery.outbox.rows[id]? = some row' →
      ∃ row, delivery.outbox.rows[id]? = some row ∧ row'.source = row.source ∧
        row'.payload = row.payload := fun _ row' hr => ⟨row', hr, rfl, rfl⟩
  have hnone : ∀ {outbox : Outbox π} {log : List Entry} (row : DurableRow π),
      Delivery.held ⟨outbox, .polling, log⟩ = some row → P row.id row.source row.payload :=
    fun _ hr => by cases hr
  unfold Delivery.transition
  split
  · rename_i row tries hw
    simp only [Delivery.held, hw] at hheld
    have hretry : ({ delivery with worker := Delivery.again tries (.acknowledging row) } :
        Delivery π).Carries P :=
      h.of_rows hsame fun row' hr => hheld row' (held_again hr)
    cases outcome with
    | done =>
      dsimp only
      split
      · rename_i outbox ha
        refine h.of_rows (fun id row' hr => ?_) hnone
        unfold Outbox.acknowledgeOutbox at ha
        split at ha
        · split at ha
          · cases ha
            exact modify_rows (EventRow.deliver now) (fun _ => ⟨rfl, rfl⟩) (prune_rows hr)
          · cases ha
        · cases ha
      · exact hretry
    | torn => exact hretry
    | fails => exact hretry
  · rename_i row error tries hw
    simp only [Delivery.held, hw] at hheld
    have hkept : ∀ (outbox : Outbox π) (log : List Entry) (row' : DurableRow π),
        Delivery.held ⟨outbox, Delivery.again tries (.failing row error), log⟩ = some row' →
          P row'.id row'.source row'.payload :=
      fun _ _ row' hr => hheld row' (held_again hr)
    cases outcome with
    | done =>
      refine h.of_rows (fun id row' hr => ?_) hnone
      unfold Outbox.failOutbox at hr
      split at hr
      · exact modify_rows (EventRow.fail error) (fun _ => ⟨rfl, rfl⟩) (prune_rows hr)
      · exact modify_rows (EventRow.retry error _) (fun _ => ⟨rfl, rfl⟩) hr
    | torn =>
      dsimp only
      split
      · exact h.of_rows (fun id row' hr => modify_rows (EventRow.fail error) (fun _ => ⟨rfl, rfl⟩) hr)
          (hkept _ _)
      · exact h.of_rows hsame (hkept _ _)
    | fails => exact h.of_rows hsame (hkept _ _)
  · exact h

/-- No step but an insertion makes new events. -/
theorem Carries.step {P : Nat → String → π → Prop} (h : delivery.Carries P)
    {event : OutboxEvent π} (he : ∀ eventsEnabled records, event ≠ .insert eventsEnabled records) :
    (delivery.step event).Carries P := by
  cases event with
  | insert eventsEnabled records => exact absurd rfl (he eventsEnabled records)
  | recover ok =>
    simp only [Delivery.step, Delivery.recover]
    split
    · refine h.of_rows (fun id row' hr => ?_) fun _ hr => by cases hr
      cases ok with
      | false => exact ⟨row', hr, rfl, rfl⟩
      | true =>
        obtain ⟨row, hrow, rfl⟩ := Option.map_eq_some_iff.mp (ExtTreeMap.getElem?_map.symm.trans hr)
        refine ⟨row, hrow, ?_⟩
        unfold EventRow.recover
        split <;> exact ⟨rfl, rfl⟩
    · exact h
  | claim now =>
    simp only [Delivery.step, Delivery.claim]
    split
    · unfold Outbox.claimOutbox
      cases hc : delivery.outbox.candidate now with
      | none => exact h
      | some entry =>
        obtain ⟨id, row⟩ := entry
        refine h.of_rows (fun id' row' hr => modify_rows (EventRow.claim now) (fun _ => ⟨rfl, rfl⟩) hr)
          fun claimed hr => ?_
        cases hr
        exact h.rows id row (Outbox.candidate_some hc).1
    · exact h
  | claimFails => exact h
  | finish error =>
    have hheld := h.held
    simp only [Delivery.step, Delivery.finish]
    split
    · rename_i row hw
      simp only [Delivery.held, hw] at hheld
      refine h.of_rows (fun id row' hr => ⟨row', hr, rfl, rfl⟩) fun row' hr => ?_
      cases error <;> exact hheld row' hr
    · exact h
  | transition now outcome => exact h.transition now outcome
  | crash => exact h.of_rows (fun id row' hr => ⟨row', hr, rfl, rfl⟩) fun _ hr => by cases hr

/-- The new rows carry their records under the next ids. -/
theorem Carries.insert {P : Nat → String → π → Prop} (h : delivery.Carries P)
    (eventsEnabled : Bool) (records : List (OutboxRecord π))
    (hnew : ∀ i record, records[i]? = some record →
      P (delivery.outbox.nextId + i) record.source record.payload) :
    (delivery.insert eventsEnabled records).Carries P := by
  unfold Delivery.insert Outbox.insertOutbox
  cases eventsEnabled with
  | false => exact h
  | true =>
    by_cases hfull : Firestore.outboxCapacity < delivery.outbox.outstanding + records.length
    · simpa [hfull] using h
    simp only [Bool.not_true, Bool.false_eq_true, if_false, hfull]
    refine ⟨fun id row hr => ?_, h.held⟩
    rw [(Outbox.getElem?_insertRecords records id).1] at hr
    split at hr
    · rename_i hle
      cases hrecord : records[id - delivery.outbox.nextId]? with
      | none =>
        rw [hrecord] at hr
        exact h.rows id row hr
      | some record =>
        rw [hrecord] at hr
        cases hr
        have hP := hnew _ record hrecord
        rwa [Nat.add_sub_cancel' hle] at hP
    · exact h.rows id row hr

/-- What a step of the loop may do beside inserting events and finishing dispatches: no ids are
given out, and an event is delivered only after the dispatch that the loop acknowledges. -/
structure Moves (delivery after : Delivery π) : Prop where
  next : after.outbox.nextId = delivery.outbox.nextId
  worker : ∀ row tries, after.worker = .acknowledging row tries →
    ∃ tries', delivery.worker = .acknowledging row tries'
  log : ∀ id, .delivered id ∈ after.log → .delivered id ∈ delivery.log ∨
    ∃ row tries, delivery.worker = .acknowledging row tries ∧ row.id = id

theorem Moves.refl (delivery : Delivery π) : delivery.Moves delivery :=
  ⟨rfl, fun _ tries hw => ⟨tries, hw⟩, fun _ hm => .inl hm⟩

theorem finish_dispatching {row : DurableRow π} (hw : delivery.worker = .dispatching row)
    (error : Option String) : delivery.finish error = { delivery with
      worker := match error with
        | none => .acknowledging row 0
        | some error => .failing row error 0
      log := delivery.log ++ [.dispatched row.id error] } := by
  cases delivery
  cases hw
  rfl

theorem moves_recover (ok : Bool) : delivery.Moves (delivery.recover ok) := by
  unfold Delivery.recover
  split
  · refine ⟨?_, fun _ _ hw => (by cases hw), fun _ hm => .inl hm⟩
    cases ok <;> rfl
  · exact .refl delivery

theorem moves_claim (now : Nat) : delivery.Moves (delivery.claim now) := by
  unfold Delivery.claim
  split
  · unfold Outbox.claimOutbox
    cases hc : delivery.outbox.candidate now with
    | none => exact .refl delivery
    | some entry =>
      refine ⟨rfl, fun _ _ hw => (by cases hw), fun id hm => ?_⟩
      rcases List.mem_append.mp hm with hm | hm
      · exact .inl hm
      · cases List.mem_singleton.mp hm
  · exact .refl delivery

theorem acknowledge_nextId {outbox outbox' : Outbox π} {id : Nat} {now : Int}
    (h : outbox.acknowledgeOutbox id now = .ok outbox') : outbox'.nextId = outbox.nextId := by
  unfold Outbox.acknowledgeOutbox at h
  split at h
  · split at h
    · cases h
      rfl
    · cases h
  · cases h

theorem fail_nextId (outbox : Outbox π) (row : DurableRow π) (error : String) (now : Int) :
    (outbox.failOutbox row error now).nextId = outbox.nextId := by
  unfold Outbox.failOutbox
  split <;> rfl

theorem worker_again {tries : Nat} {next : Nat → Functions.Worker π} {row : DurableRow π}
    {tries' : Nat} (h : again tries next = .acknowledging row tries') :
    next (tries + 1) = .acknowledging row tries' := by
  unfold again at h
  split at h
  · exact h
  · cases h

theorem not_delivered_failedEntry (id id' : Nat) :
    Entry.delivered id ∉ delivery.failedEntry id' := by
  unfold failedEntry
  split <;> simp

theorem moves_transition (now : Nat) (outcome : Outcome) :
    delivery.Moves (delivery.transition now outcome) := by
  unfold Delivery.transition
  split
  · rename_i row tries hw
    have hretry : delivery.Moves
        { delivery with worker := Delivery.again tries (.acknowledging row) } := by
      refine ⟨rfl, fun row' tries' hr => ?_, fun _ hm => .inl hm⟩
      cases worker_again hr
      exact ⟨tries, hw⟩
    cases outcome with
    | done =>
      dsimp only
      split
      · rename_i outbox ha
        refine ⟨acknowledge_nextId ha, fun _ _ hr => (by cases hr), fun id hm => ?_⟩
        rcases List.mem_append.mp hm with hm | hm
        · exact .inl hm
        · cases List.mem_singleton.mp hm
          exact .inr ⟨row, tries, hw, rfl⟩
      · exact hretry
    | torn => exact hretry
    | fails => exact hretry
  · rename_i row error tries hw
    have hworker : ∀ row' tries', Delivery.again tries (Functions.Worker.failing row error) =
        .acknowledging row' tries' → ∃ tries'', delivery.worker = .acknowledging row' tries'' :=
      fun _ _ hr => by cases worker_again hr
    have hlog : ∀ id, Entry.delivered id ∈ delivery.log ++ delivery.failedEntry row.id →
        Entry.delivered id ∈ delivery.log := by
      intro id hm
      rcases List.mem_append.mp hm with hm | hm
      · exact hm
      · exact absurd hm (not_delivered_failedEntry id row.id)
    cases outcome with
    | done =>
      refine ⟨fail_nextId _ _ _ _, fun _ _ hr => (by cases hr), fun id hm => .inl ?_⟩
      dsimp only at hm
      split at hm
      · exact hlog id hm
      · rwa [List.append_nil] at hm
    | torn =>
      dsimp only
      split
      · exact ⟨rfl, hworker, fun id hm => .inl (hlog id hm)⟩
      · exact ⟨rfl, hworker, fun _ hm => .inl hm⟩
    | fails => exact ⟨rfl, hworker, fun _ hm => .inl hm⟩
  · exact .refl delivery

/-- The log only grows. -/
theorem log_prefix (event : OutboxEvent π) : delivery.log <+: (delivery.step event).log := by
  cases event with
  | insert eventsEnabled records =>
    simp only [Delivery.step, Delivery.insert]
    split <;> exact List.prefix_rfl
  | recover ok =>
    simp only [Delivery.step, Delivery.recover]
    split <;> exact List.prefix_rfl
  | claim now =>
    simp only [Delivery.step, Delivery.claim]
    split
    · split
      · exact List.prefix_rfl
      · exact List.prefix_append _ _
    · exact List.prefix_rfl
  | claimFails => exact List.prefix_rfl
  | finish error =>
    simp only [Delivery.step, Delivery.finish]
    split
    · exact List.prefix_append _ _
    · exact List.prefix_rfl
  | transition now outcome =>
    simp only [Delivery.step, Delivery.transition]
    repeat' split
    all_goals first
      | exact List.prefix_rfl
      | exact List.prefix_append _ _
  | crash => exact List.prefix_rfl

end FirebaseEmu.Functions.Delivery
