import FirebaseEmu.Functions.Outbox

namespace FirebaseEmu.Functions
open Lib Std
open Firestore (OutboxState outboxCapacity)

/-- What the queue loop does with durable events: it recovers them, polls for one, waits for
its handlers, and writes the outcome, again after a write that failed. -/
inductive Worker (π : Type) where
  | starting
  | polling
  | dispatching (row : DurableRow π)
  | acknowledging (row : DurableRow π) (tries : Nat)
  | failing (row : DurableRow π) (error : String) (tries : Nat)

/-- What happened to the events of the outbox. -/
inductive Entry where
  | claimed (id attempts : Nat)
  | dispatched (id : Nat) (error : Option String)
  | delivered (id : Nat)
  | failed (id : Nat)
  deriving DecidableEq

/-- The outbox, the queue loop, and what happened so far. -/
structure Delivery (π : Type) where
  outbox : Outbox π
  worker : Worker π
  log : List Entry

/-- How a write ends. A final failure is written in two statements; it is torn when the second
one fails. -/
inductive Outcome where
  | done
  | torn
  | fails
  deriving DecidableEq

/-- A transaction of a writer commits events; the loop recovers, claims, hears of its handlers
or writes a transition; the process stops and starts again. -/
inductive OutboxEvent (π : Type) where
  | insert (eventsEnabled : Bool) (records : List (OutboxRecord π))
  | recover (ok : Bool)
  | claim (now : Nat)
  | claimFails
  | finish (error : Option String)
  | transition (now : Nat) (outcome : Outcome)
  | crash

def transitionRetries : Nat := 5

variable {π : Type}

namespace Delivery

def start : Delivery π := ⟨.empty, .starting, []⟩

def insert (delivery : Delivery π) (eventsEnabled : Bool) (records : List (OutboxRecord π)) :
    Delivery π :=
  match delivery.outbox.insertOutbox eventsEnabled records with
  | .ok outbox => { delivery with outbox }
  | .error _ => delivery

/-- A loop that cannot recover its events goes on without. -/
def recover (delivery : Delivery π) (ok : Bool) : Delivery π :=
  match delivery.worker with
  | .starting =>
    { delivery with
      outbox := if ok then delivery.outbox.recoverOutbox else delivery.outbox
      worker := .polling }
  | _ => delivery

def claim (delivery : Delivery π) (now : Nat) : Delivery π :=
  match delivery.worker with
  | .polling =>
    match delivery.outbox.claimOutbox now with
    | (none, _) => delivery
    | (some row, outbox) =>
      ⟨outbox, .dispatching row, delivery.log ++ [.claimed row.id row.attempts]⟩
  | _ => delivery

def finish (delivery : Delivery π) (error : Option String) : Delivery π :=
  match delivery.worker with
  | .dispatching row =>
    { delivery with
      worker := match error with
        | none => .acknowledging row 0
        | some error => .failing row error 0
      log := delivery.log ++ [.dispatched row.id error] }
  | _ => delivery

/-- The worker after a write that failed, or after the last of them. -/
def again (tries : Nat) (next : Nat → Worker π) : Worker π :=
  if tries + 1 < transitionRetries then next (tries + 1) else .polling

/-- The entry of a row that was not failed before. -/
def failedEntry (delivery : Delivery π) (id : Nat) : List Entry :=
  if (delivery.outbox.rows[id]?).any fun row => row.state != .failed then [.failed id] else []

def transition (delivery : Delivery π) (now : Nat) (outcome : Outcome) : Delivery π :=
  match delivery.worker with
  | .acknowledging row tries =>
    let retry := { delivery with worker := again tries (.acknowledging row) }
    match outcome with
    | .done =>
      match delivery.outbox.acknowledgeOutbox row.id now with
      | .ok outbox => ⟨outbox, .polling, delivery.log ++ [.delivered row.id]⟩
      | .error _ => retry
    | .torn => retry
    | .fails => retry
  | .failing row error tries =>
    let retry := again tries (.failing row error)
    match outcome with
    | .done =>
      ⟨delivery.outbox.failOutbox row error now, .polling,
        delivery.log ++ if 5 ≤ row.attempts then delivery.failedEntry row.id else []⟩
    | .torn =>
      if 5 ≤ row.attempts then
        ⟨delivery.outbox.failFinally row.id error, retry,
          delivery.log ++ delivery.failedEntry row.id⟩
      else { delivery with worker := retry }
    | .fails => { delivery with worker := retry }
  | _ => delivery

def step (delivery : Delivery π) : OutboxEvent π → Delivery π
  | .insert eventsEnabled records => delivery.insert eventsEnabled records
  | .recover ok => delivery.recover ok
  | .claim now => delivery.claim now
  | .claimFails => delivery
  | .finish error => delivery.finish error
  | .transition now outcome => delivery.transition now outcome
  | .crash => { delivery with worker := .starting }

def run (events : List (OutboxEvent π)) : Delivery π := events.foldl step start

end Delivery

namespace Entry

/-- The event is delivered or has failed for good. -/
def settles (id : Nat) : Entry → Prop
  | .delivered settled => settled = id
  | .failed settled => settled = id
  | _ => False

/-- The event is handed out or its handlers have run. -/
def starts (id : Nat) : Entry → Prop
  | .claimed started _ => started = id
  | .dispatched started _ => started = id
  | _ => False

/-- The second entry starts no event that the first one has settled. -/
def Spares (earlier later : Entry) : Prop := ∀ id, earlier.settles id → ¬ later.starts id

def deliveredId : Entry → Option Nat
  | .delivered id => some id
  | _ => none

end Entry

namespace Delivery
variable {delivery : Delivery π} {id : Nat}

/-- The worker has claimed a row and still has it. -/
def Holds (delivery : Delivery π) (id : Nat) : Prop :=
  match delivery.worker with
  | .dispatching row => row.id = id
  | .acknowledging row _ => row.id = id
  | .failing row _ _ => row.id = id
  | _ => False

/-- What the log and the table say about the row that the worker has. -/
def Held (delivery : Delivery π) : Prop :=
  match delivery.worker with
  | .dispatching row => ∃ found before, delivery.outbox.rows[row.id]? = some found ∧
    found.state = .inFlight ∧ found.attempts = row.attempts ∧
    delivery.log = before ++ [.claimed row.id row.attempts]
  | .acknowledging row _ => ∃ found before, delivery.outbox.rows[row.id]? = some found ∧
    found.state = .inFlight ∧ found.attempts = row.attempts ∧
    delivery.log = before ++ [.claimed row.id row.attempts, .dispatched row.id none]
  | .failing row error _ => ∃ found, delivery.outbox.rows[row.id]? = some found ∧
    found.attempts = row.attempts ∧
    ((found.state = .inFlight ∧ ∃ before, delivery.log = before ++
        [.claimed row.id row.attempts, .dispatched row.id (some error)]) ∨
      found.state = .failed ∧ 5 ≤ row.attempts ∧ .failed row.id ∈ delivery.log ∧
        ∃ attempts, .claimed row.id attempts ∈ delivery.log)
  | _ => True

/-- The invariant of the outbox under the queue loop. -/
structure Sound (delivery : Delivery π) : Prop where
  positive : 0 < delivery.outbox.nextId
  held : delivery.Held
  known : ∀ id row, delivery.outbox.rows[id]? = some row → id < delivery.outbox.nextId
  /-- An event that is settled never waits again. -/
  settled : ∀ entry ∈ delivery.log, ∀ id, entry.settles id → id < delivery.outbox.nextId ∧
    ∀ row, delivery.outbox.rows[id]? = some row → row.outstanding = false
  spares : delivery.log.Pairwise Entry.Spares
  counted : delivery.outbox.completed = (delivery.log.filterMap Entry.deliveredId).length
  once : (delivery.log.filterMap Entry.deliveredId).Nodup
  capacity : delivery.outbox.outstanding ≤ outboxCapacity
  /-- An event that was never handed out waits from the beginning of time. -/
  waiting : ∀ id, 0 < id → id < delivery.outbox.nextId →
    (∃ attempts, .claimed id attempts ∈ delivery.log) ∨
      ∃ row, delivery.outbox.rows[id]? = some row ∧ row.state = .pending ∧ row.availableAt = 0

theorem start_sound : (start : Delivery π).Sound where
  positive := Nat.one_pos
  held := trivial
  known id row hr := by simp [start, Outbox.empty] at hr
  settled entry he := by cases he
  spares := .nil
  counted := rfl
  once := List.nodup_nil
  capacity := Nat.zero_le _
  waiting id hpos hlt := by
    simp only [start, Outbox.empty] at hlt
    omega

/-- An entry that starts no settled event may follow. -/
theorem spares_append {log : List Entry} {entry : Entry} (h : log.Pairwise Entry.Spares)
    (he : ∀ earlier ∈ log, earlier.Spares entry) : (log ++ [entry]).Pairwise Entry.Spares := by
  rw [List.pairwise_append]
  refine ⟨h, List.pairwise_singleton _ _, fun earlier hm later hl => ?_⟩
  rw [List.mem_singleton.mp hl]
  exact he earlier hm

theorem delivered_append {log : List Entry} {entry : Entry} (h : entry.deliveredId = none) :
    (log ++ [entry]).filterMap Entry.deliveredId = log.filterMap Entry.deliveredId := by
  simp [List.filterMap_append, h]

/-- A row that waits may be started. -/
theorem Sound.spares_started (h : delivery.Sound) {row : EventRow π} {entry : Entry}
    (hr : delivery.outbox.rows[id]? = some row) (ho : row.outstanding = true)
    (hs : ∀ id', entry.starts id' → id' = id) : ∀ earlier ∈ delivery.log, earlier.Spares entry := by
  intro earlier hm id' hsettled hstarts
  rw [hs id' hstarts] at hsettled
  have hdone := (h.settled earlier hm id hsettled).2 row hr
  rw [ho] at hdone
  cases hdone

theorem Sound.insert (h : delivery.Sound) (eventsEnabled : Bool)
    (records : List (OutboxRecord π)) : (delivery.insert eventsEnabled records).Sound := by
  unfold Delivery.insert Outbox.insertOutbox
  cases eventsEnabled with
  | false => exact h
  | true =>
    by_cases hfull : outboxCapacity < delivery.outbox.outstanding + records.length
    · simpa [hfull] using h
    simp only [Bool.not_true, Bool.false_eq_true, if_false, hfull]
    have hrows : ∀ id, (records.foldl Outbox.insertRecord delivery.outbox).rows[id]? =
        if delivery.outbox.nextId ≤ id then
          (records[id - delivery.outbox.nextId]?.map EventRow.fresh).or
            delivery.outbox.rows[id]? else delivery.outbox.rows[id]? := fun id =>
      (Outbox.getElem?_insertRecords records id).1
    have hnext : (records.foldl Outbox.insertRecord delivery.outbox).nextId = _ :=
      (Outbox.getElem?_insertRecords records 0).2.1
    have hcompleted : (records.foldl Outbox.insertRecord delivery.outbox).completed = _ :=
      (Outbox.getElem?_insertRecords records 0).2.2
    have hold : ∀ id, id < delivery.outbox.nextId →
        (records.foldl Outbox.insertRecord delivery.outbox).rows[id]? =
          delivery.outbox.rows[id]? := by
      intro id hlt
      rw [hrows, if_neg (by omega)]
    have hnew : ∀ id row, (records.foldl Outbox.insertRecord delivery.outbox).rows[id]? =
        some row → delivery.outbox.rows[id]? = some row ∨
          delivery.outbox.nextId ≤ id ∧ id < delivery.outbox.nextId + records.length := by
      intro id row hr
      rw [hrows] at hr
      split at hr
      · rename_i hle
        cases hrecord : records[id - delivery.outbox.nextId]? with
        | none =>
          rw [hrecord] at hr
          exact .inl hr
        | some record =>
          have hlt := (List.getElem?_eq_some_iff.mp hrecord).1
          exact .inr ⟨hle, by omega⟩
      · exact .inl hr
    constructor
    · rw [hnext]
      have hpos := h.positive
      omega
    · have hheld := h.held
      unfold Held at hheld ⊢
      split
      · rename_i row hw
        rw [hw] at hheld
        obtain ⟨found, before, hr, hrest⟩ := hheld
        exact ⟨found, before, by rw [hold _ (h.known _ _ hr), hr], hrest⟩
      · rename_i row tries hw
        rw [hw] at hheld
        obtain ⟨found, before, hr, hrest⟩ := hheld
        exact ⟨found, before, by rw [hold _ (h.known _ _ hr), hr], hrest⟩
      · rename_i row error tries hw
        rw [hw] at hheld
        obtain ⟨found, hr, hrest⟩ := hheld
        exact ⟨found, by rw [hold _ (h.known _ _ hr), hr], hrest⟩
      · trivial
    · intro id row hr
      rw [hnext]
      rcases hnew id row hr with hr | ⟨-, hlt⟩
      · have hlt := h.known id row hr
        omega
      · exact hlt
    · intro entry he id hs
      obtain ⟨hlt, hdone⟩ := h.settled entry he id hs
      rw [hnext]
      refine ⟨by omega, fun row hr => hdone row ?_⟩
      rwa [hold id hlt] at hr
    · exact h.spares
    · rw [hcompleted]
      exact h.counted
    · exact h.once
    · have hle : (records.foldl Outbox.insertRecord delivery.outbox).outstanding ≤ _ :=
        Outbox.outstanding_insertRecords_le records
      exact Nat.le_trans hle (Nat.not_lt.mp hfull)
    · intro id hpos hlt
      rw [hnext] at hlt
      by_cases hknown : id < delivery.outbox.nextId
      · rcases h.waiting id hpos hknown with hclaimed | ⟨row, hr, hrest⟩
        · exact .inl hclaimed
        · exact .inr ⟨row, by rw [hold id hknown, hr], hrest⟩
      · have hrecord : id - delivery.outbox.nextId < records.length := by omega
        refine .inr ⟨.fresh records[id - delivery.outbox.nextId], ?_, rfl, rfl⟩
        rw [hrows, if_pos (by omega), List.getElem?_eq_getElem hrecord]
        rfl

theorem recover_outstanding (row : EventRow π) : row.recover.outstanding = row.outstanding := by
  unfold EventRow.recover
  split
  · rename_i hs
    simp [EventRow.outstanding, beq_iff_eq.mp hs]
  · rfl

theorem Sound.recover (h : delivery.Sound) (ok : Bool) : (delivery.recover ok).Sound := by
  unfold Delivery.recover
  split
  · cases ok with
    | false => exact { h with held := trivial }
    | true =>
      simp only [if_true]
      have hrows : ∀ id, delivery.outbox.recoverOutbox.rows[id]? =
          delivery.outbox.rows[id]?.map EventRow.recover := fun id => ExtTreeMap.getElem?_map
      refine ⟨h.positive, trivial, ?_, ?_, h.spares, h.counted, h.once, ?_, ?_⟩
      · intro id row hr
        rw [hrows, Option.map_eq_some_iff] at hr
        obtain ⟨old, ho, -⟩ := hr
        exact h.known id old ho
      · intro entry he id hs
        refine ⟨(h.settled entry he id hs).1, fun row hr => ?_⟩
        rw [hrows, Option.map_eq_some_iff] at hr
        obtain ⟨old, ho, rfl⟩ := hr
        rw [recover_outstanding]
        exact (h.settled entry he id hs).2 old ho
      · refine Nat.le_trans (Outbox.outstanding_le fun id row hr hw => ?_) h.capacity
        rw [hrows, Option.map_eq_some_iff] at hr
        obtain ⟨old, ho, rfl⟩ := hr
        exact ⟨old, ho, by rwa [recover_outstanding] at hw⟩
      · intro id hpos hlt
        rcases h.waiting id hpos hlt with hclaimed | ⟨row, hr, hs, ha⟩
        · exact .inl hclaimed
        · refine .inr ⟨row.recover, ?_, ?_, ?_⟩
          · rw [hrows, hr, Option.map_some]
          · simp [EventRow.recover, hs]
          · simp [EventRow.recover, hs, ha]
  · exact h

theorem eligible_outstanding {row : EventRow π} {now : Int} (h : row.eligible now = true) :
    row.outstanding = true := by
  unfold EventRow.eligible at h
  unfold EventRow.outstanding
  cases hs : row.state <;> simp_all

theorem Sound.claim (h : delivery.Sound) (now : Nat) : (delivery.claim now).Sound := by
  unfold Delivery.claim
  split
  · unfold Outbox.claimOutbox
    cases hc : delivery.outbox.candidate now with
    | none => exact h
    | some entry =>
      obtain ⟨id, row⟩ := entry
      obtain ⟨hr, he, -⟩ := Outbox.candidate_some hc
      have hrows : ∀ id', (delivery.outbox.rows.modify id (EventRow.claim now))[id']? = _ :=
        Outbox.getElem?_modify (EventRow.claim now) id
      constructor
      · exact h.positive
      · refine ⟨row.claim now, delivery.log, ?_, rfl, rfl, rfl⟩
        change (delivery.outbox.rows.modify id _)[id]? = _
        rw [hrows, if_pos rfl, hr]
        rfl
      · intro id' row' hr'
        change (delivery.outbox.rows.modify id _)[id']? = _ at hr'
        rw [hrows] at hr'
        split at hr'
        · obtain ⟨old, ho, -⟩ := Option.map_eq_some_iff.mp hr'
          exact h.known id' old ho
        · exact h.known id' row' hr'
      · intro entry hm id' hs
        rcases List.mem_append.mp hm with hm | hm
        · refine ⟨(h.settled entry hm id' hs).1, fun row' hr' => ?_⟩
          change (delivery.outbox.rows.modify id _)[id']? = _ at hr'
          rw [hrows] at hr'
          split at hr'
          · rename_i hid
            subst hid
            have hdone := (h.settled entry hm id hs).2 row hr
            rw [eligible_outstanding he] at hdone
            cases hdone
          · exact (h.settled entry hm id' hs).2 row' hr'
        · rw [List.mem_singleton.mp hm] at hs
          cases hs
      · exact spares_append h.spares
          (h.spares_started hr (eligible_outstanding he) fun id' hid => Eq.symm hid)
      · rw [delivered_append rfl]
        exact h.counted
      · rw [delivered_append rfl]
        exact h.once
      · refine Nat.le_trans (Outbox.outstanding_le fun id' row' hr' hw => ?_) h.capacity
        change (delivery.outbox.rows.modify id _)[id']? = _ at hr'
        rw [hrows] at hr'
        split at hr'
        · rename_i hid
          subst hid
          exact ⟨row, hr, eligible_outstanding he⟩
        · exact ⟨row', hr', hw⟩
      · intro id' hpos hlt
        by_cases hid : id = id'
        · subst hid
          exact .inl ⟨_, List.mem_append_right _ (List.mem_singleton_self _)⟩
        · rcases h.waiting id' hpos hlt with ⟨attempts, hclaimed⟩ | ⟨row', hr', hrest⟩
          · exact .inl ⟨attempts, List.mem_append_left _ hclaimed⟩
          · refine .inr ⟨row', ?_, hrest⟩
            change (delivery.outbox.rows.modify id _)[id']? = _
            rw [hrows, if_neg hid, hr']
  · exact h

theorem Sound.finish (h : delivery.Sound) (error : Option String) :
    (delivery.finish error).Sound := by
  have hheld := h.held
  unfold Delivery.finish
  split
  · rename_i row hw
    rw [Held, hw] at hheld
    obtain ⟨found, before, hr, hs, ha, hlog⟩ := hheld
    have ho : found.outstanding = true := by simp [EventRow.outstanding, hs]
    refine ⟨h.positive, ?_, h.known, ?_, ?_, ?_, ?_, h.capacity, ?_⟩
    · cases error with
      | none => exact ⟨found, before, hr, hs, ha, by simp [hlog]⟩
      | some error => exact ⟨found, hr, ha, .inl ⟨hs, before, by simp [hlog]⟩⟩
    · intro entry hm id hsettled
      rcases List.mem_append.mp hm with hm | hm
      · exact h.settled entry hm id hsettled
      · rw [List.mem_singleton.mp hm] at hsettled
        cases hsettled
    · exact spares_append h.spares (h.spares_started hr ho fun id' hid => Eq.symm hid)
    · rw [delivered_append rfl]
      exact h.counted
    · rw [delivered_append rfl]
      exact h.once
    · intro id hpos hlt
      rcases h.waiting id hpos hlt with ⟨attempts, hclaimed⟩ | hrow
      · exact .inl ⟨attempts, List.mem_append_left _ hclaimed⟩
      · exact .inr hrow
  · exact h

theorem Sound.crash (h : delivery.Sound) : ({ delivery with worker := .starting } : Delivery π).Sound :=
  { h with held := trivial }

/-- The worker may let go of its row. -/
theorem Sound.again (h : delivery.Sound) {tries : Nat} {next : Nat → Worker π}
    (hn : ({ delivery with worker := next (tries + 1) } : Delivery π).Held) :
    ({ delivery with worker := again tries next } : Delivery π).Sound := by
  refine { h with held := ?_ }
  unfold Delivery.again
  split
  · exact hn
  · trivial

/-- The row of the worker changes its state, other rows may be pruned, and an entry says so. -/
theorem Sound.settle (h : delivery.Sound) {row : EventRow π} {entries : List Entry}
    {outbox : Outbox π} {worker : Worker π}
    (hr : delivery.outbox.rows[id]? = some row) (hlog : ∃ attempts, .claimed id attempts ∈ delivery.log)
    (hnext : outbox.nextId = delivery.outbox.nextId)
    (hrows : ∀ id' row', outbox.rows[id']? = some row' → id' ≠ id →
      delivery.outbox.rows[id']? = some row')
    (hkept : ∀ id' row', delivery.outbox.rows[id']? = some row' → id' ≠ id →
      row'.outstanding = true → outbox.rows[id']? = some row')
    (hout : ∀ row', outbox.rows[id]? = some row' → row'.outstanding = true →
      row.outstanding = true ∧ entries = [])
    (hheld : ({ outbox, worker, log := delivery.log ++ entries } : Delivery π).Held)
    (hspares : (delivery.log ++ entries).Pairwise Entry.Spares)
    (hsettles : ∀ entry ∈ entries, ∀ id', entry.settles id' → id' = id)
    (hcounted : outbox.completed =
      ((delivery.log ++ entries).filterMap Entry.deliveredId).length)
    (honce : ((delivery.log ++ entries).filterMap Entry.deliveredId).Nodup) :
    ({ outbox, worker, log := delivery.log ++ entries } : Delivery π).Sound := by
  have hknown := h.known id row hr
  refine ⟨hnext ▸ h.positive, hheld, fun id' row' hr' => ?_, fun entry hm id' hs => ?_, hspares,
    hcounted, honce, ?_, fun id' hpos hlt => ?_⟩
  · rw [hnext]
    by_cases hid : id' = id
    · exact hid ▸ hknown
    · exact h.known id' row' (hrows id' row' hr' hid)
  · rw [hnext]
    rcases List.mem_append.mp hm with hm | hm
    · obtain ⟨hlt, hdone⟩ := h.settled entry hm id' hs
      refine ⟨hlt, fun row' hr' => ?_⟩
      by_cases hid : id' = id
      · subst hid
        by_contra hwaits
        have hwas := (hout row' hr' (Bool.eq_true_of_not_eq_false hwaits)).1
        rw [hdone row hr] at hwas
        cases hwas
      · exact hdone row' (hrows id' row' hr' hid)
    · obtain rfl := hsettles entry hm id' hs
      refine ⟨hknown, fun row' hr' => ?_⟩
      by_contra hwaits
      have hnone := (hout row' hr' (Bool.eq_true_of_not_eq_false hwaits)).2
      rw [hnone] at hm
      cases hm
  · refine Nat.le_trans (Outbox.outstanding_le fun id' row' hr' hw => ?_) h.capacity
    by_cases hid : id' = id
    · subst hid
      exact ⟨row, hr, (hout row' hr' hw).1⟩
    · exact ⟨row', hrows id' row' hr' hid, hw⟩
  · rw [hnext] at hlt
    by_cases hid : id' = id
    · subst hid
      obtain ⟨attempts, hclaimed⟩ := hlog
      exact .inl ⟨attempts, List.mem_append_left _ hclaimed⟩
    · rcases h.waiting id' hpos hlt with ⟨attempts, hclaimed⟩ | ⟨row', hr', hs, ha⟩
      · exact .inl ⟨attempts, List.mem_append_left _ hclaimed⟩
      · have ho : row'.outstanding = true := by simp [EventRow.outstanding, hs]
        exact .inr ⟨row', hkept id' row' hr' hid ho, hs, ha⟩

/-- Rows that are pruned after one row changed were not waiting. -/
theorem pruned_rows (outbox : Outbox π) (id completed : Nat) (f : EventRow π → EventRow π)
    {state : OutboxState} (hs : state ≠ .pending ∧ state ≠ .inFlight) :
    (∀ (id' : Nat) (row' : EventRow π),
      (Outbox.prune state ⟨outbox.rows.modify id f, outbox.nextId, completed⟩).rows[id']? =
        some row' → id' ≠ id → outbox.rows[id']? = some row') ∧
    (∀ (id' : Nat) (row' : EventRow π), outbox.rows[id']? = some row' → id' ≠ id →
      row'.outstanding = true →
      (Outbox.prune state ⟨outbox.rows.modify id f, outbox.nextId, completed⟩).rows[id']? =
        some row') ∧
    ∀ row', (Outbox.prune state ⟨outbox.rows.modify id f, outbox.nextId, completed⟩).rows[id]? =
      some row' → ∃ row, outbox.rows[id]? = some row ∧ row' = f row := by
  have hrows : ∀ id', (outbox.rows.modify id f)[id']? = _ := Outbox.getElem?_modify f id
  have hprune := @Outbox.getElem?_prune π ⟨outbox.rows.modify id f, outbox.nextId, completed⟩ state
  refine ⟨fun id' row' hr' hid => ?_, fun id' row' hr' hid ho => ?_, fun row' hr' => ?_⟩
  · rcases hprune id' with he | ⟨he, -⟩
    · rw [he] at hr'
      rwa [hrows, if_neg (Ne.symm hid)] at hr'
    · rw [he] at hr'
      cases hr'
  · rcases hprune id' with he | ⟨-, row'', hr'', hstate⟩
    · rw [he]
      rwa [hrows, if_neg (Ne.symm hid)]
    · rw [hrows, if_neg (Ne.symm hid)] at hr''
      obtain rfl := Option.some.inj (hr'.symm.trans hr'')
      simp only [EventRow.outstanding, hstate, Bool.or_eq_true, beq_iff_eq] at ho
      exact absurd ho (not_or.mpr hs)
  · rcases hprune id with he | ⟨he, -⟩
    · rw [he] at hr'
      rw [hrows, if_pos rfl] at hr'
      obtain ⟨row, hr, rfl⟩ := Option.map_eq_some_iff.mp hr'
      exact ⟨row, hr, rfl⟩
    · rw [he] at hr'
      cases hr'

theorem settles_append {log : List Entry} {entry : Entry} (h : log.Pairwise Entry.Spares)
    (he : ∀ id, ¬ entry.starts id) : (log ++ [entry]).Pairwise Entry.Spares :=
  spares_append h fun _ _ id _ => he id

theorem Sound.acknowledge (h : delivery.Sound) {row : DurableRow π} {tries now : Nat}
    {outbox : Outbox π} (hw : delivery.worker = .acknowledging row tries)
    (ha : delivery.outbox.acknowledgeOutbox row.id now = .ok outbox) :
    (⟨outbox, .polling, delivery.log ++ [.delivered row.id]⟩ : Delivery π).Sound := by
  have hheld := h.held
  rw [Held, hw] at hheld
  obtain ⟨found, before, hr, hs, -, hlog⟩ := hheld
  have ho : found.outstanding = true := by simp [EventRow.outstanding, hs]
  have houtbox : outbox = Outbox.prune .delivered
      ⟨delivery.outbox.rows.modify row.id (EventRow.deliver now), delivery.outbox.nextId,
        delivery.outbox.completed + 1⟩ := by
    unfold Outbox.acknowledgeOutbox at ha
    rw [hr] at ha
    simp only [hs, beq_self_eq_true, if_true] at ha
    exact (Except.ok.inj ha).symm
  subst houtbox
  obtain ⟨hrows, hkept, hself⟩ := pruned_rows delivery.outbox row.id
    (delivery.outbox.completed + 1) (EventRow.deliver now)
    (by decide : OutboxState.delivered ≠ .pending ∧ OutboxState.delivered ≠ .inFlight)
  have hnew : row.id ∉ delivery.log.filterMap Entry.deliveredId := by
    intro hm
    obtain ⟨entry, hentry, hid⟩ := List.mem_filterMap.mp hm
    have hsettles : entry.settles row.id := by
      cases entry <;> simp_all [Entry.deliveredId, Entry.settles]
    have hdone := (h.settled entry hentry row.id hsettles).2 found hr
    rw [ho] at hdone
    cases hdone
  refine h.settle hr ⟨row.attempts, ?_⟩ rfl hrows hkept (fun row' hr' hwaits => ?_) trivial
    (settles_append h.spares fun _ => id) (fun entry hm id' hsettles => ?_) ?_ ?_
  · rw [hlog]
    simp
  · obtain ⟨old, -, rfl⟩ := hself row' hr'
    cases hwaits
  · rw [List.mem_singleton.mp hm] at hsettles
    exact hsettles.symm
  · have hcounted := h.counted
    simp only [List.filterMap_append, List.length_append]
    change delivery.outbox.completed + 1 = _
    rw [hcounted]
    rfl
  · rw [List.filterMap_append, List.nodup_append]
    refine ⟨h.once, by simp [Entry.deliveredId], fun id' hm id'' hm' he => ?_⟩
    simp only [Entry.deliveredId, List.filterMap_cons, List.filterMap_nil,
      List.mem_singleton] at hm'
    rw [he, hm'] at hm
    exact hnew hm

/-- The entry of a final failure, when the row was not failed before. -/
theorem failedEntry_cases {row : EventRow π} (hr : delivery.outbox.rows[id]? = some row) :
    (row.state = .failed ∧ delivery.failedEntry id = []) ∨
      row.state ≠ .failed ∧ delivery.failedEntry id = [.failed id] := by
  unfold failedEntry
  rw [hr, Option.any_some]
  by_cases hs : row.state = .failed
  · exact .inl ⟨hs, by simp [hs]⟩
  · exact .inr ⟨hs, by simp [hs]⟩

/-- A final failure, whether or not its second statement went through. -/
theorem Sound.fail (h : delivery.Sound) {row : DurableRow π} {error : String} {tries : Nat}
    (hw : delivery.worker = .failing row error tries)
    {outbox : Outbox π} {worker : Worker π} (hnext : outbox.nextId = delivery.outbox.nextId)
    (hcompleted : outbox.completed = delivery.outbox.completed)
    (hrows : ∀ id' row', outbox.rows[id']? = some row' → id' ≠ row.id →
      delivery.outbox.rows[id']? = some row')
    (hkept : ∀ id' row', delivery.outbox.rows[id']? = some row' → id' ≠ row.id →
      row'.outstanding = true → outbox.rows[id']? = some row')
    (hself : ∀ row', outbox.rows[row.id]? = some row' →
      ∃ old, delivery.outbox.rows[row.id]? = some old ∧ row' = old.fail error)
    (hheld : ({ outbox, worker, log := delivery.log ++ delivery.failedEntry row.id } :
      Delivery π).Held) :
    ({ outbox, worker, log := delivery.log ++ delivery.failedEntry row.id } : Delivery π).Sound := by
  have hhas := h.held
  rw [Held, hw] at hhas
  obtain ⟨found, hr, -, hcase⟩ := hhas
  have hlog : ∃ attempts, .claimed row.id attempts ∈ delivery.log := by
    rcases hcase with ⟨-, before, hlog⟩ | ⟨-, -, -, hlog⟩
    · exact ⟨row.attempts, by simp [hlog]⟩
    · exact hlog
  refine h.settle hr hlog hnext hrows hkept (fun row' hr' hwaits => ?_) hheld ?_ ?_ ?_ ?_
  · obtain ⟨old, -, rfl⟩ := hself row' hr'
    cases hwaits
  · rcases failedEntry_cases hr with ⟨-, he⟩ | ⟨-, he⟩
    · rw [he, List.append_nil]
      exact h.spares
    · rw [he]
      exact settles_append h.spares fun _ => id
  · intro entry hm id' hsettles
    rcases failedEntry_cases hr with ⟨-, he⟩ | ⟨-, he⟩
    · rw [he] at hm
      cases hm
    · rw [he, List.mem_singleton] at hm
      rw [hm] at hsettles
      exact hsettles.symm
  · rw [hcompleted]
    rcases failedEntry_cases hr with ⟨-, he⟩ | ⟨-, he⟩
    · rw [he, List.append_nil]
      exact h.counted
    · rw [he, delivered_append rfl]
      exact h.counted
  · rcases failedEntry_cases hr with ⟨-, he⟩ | ⟨-, he⟩
    · rw [he, List.append_nil]
      exact h.once
    · rw [he, delivered_append rfl]
      exact h.once

theorem Sound.retry (h : delivery.Sound) {row : DurableRow π} {error : String} {tries : Nat}
    (hw : delivery.worker = .failing row error tries) (hretry : ¬ 5 ≤ row.attempts)
    (availableAt : Int) :
    (⟨{ delivery.outbox with
        rows := delivery.outbox.rows.modify row.id (EventRow.retry error availableAt) },
      .polling, delivery.log ++ []⟩ : Delivery π).Sound := by
  have hhas := h.held
  rw [Held, hw] at hhas
  obtain ⟨found, hr, -, hcase⟩ := hhas
  obtain ⟨hs, before, hlog⟩ := hcase.resolve_right fun hfailed => hretry hfailed.2.1
  have ho : found.outstanding = true := by simp [EventRow.outstanding, hs]
  have hrows : ∀ id', (delivery.outbox.rows.modify row.id
      (EventRow.retry error availableAt))[id']? = _ := Outbox.getElem?_modify _ row.id
  refine h.settle hr ⟨row.attempts, by simp [hlog]⟩ rfl (fun id' row' hr' hid => ?_)
    (fun id' row' hr' hid _ => ?_) (fun row' _ _ => ⟨ho, rfl⟩) trivial ?_
    (fun entry hm => by cases hm) ?_ ?_
  · change (delivery.outbox.rows.modify row.id _)[id']? = _ at hr'
    rwa [hrows, if_neg (Ne.symm hid)] at hr'
  · change (delivery.outbox.rows.modify row.id _)[id']? = _
    rwa [hrows, if_neg (Ne.symm hid)]
  · rw [List.append_nil]
    exact h.spares
  · rw [List.append_nil]
    exact h.counted
  · rw [List.append_nil]
    exact h.once

theorem Sound.transition (h : delivery.Sound) (now : Nat) (outcome : Outcome) :
    (delivery.transition now outcome).Sound := by
  have hheld := h.held
  unfold Delivery.transition
  split
  · rename_i row tries hw
    have hretry : ({ delivery with worker := Delivery.again tries (.acknowledging row) } :
        Delivery π).Sound := by
      refine h.again ?_
      rw [Held, hw] at hheld
      exact hheld
    cases outcome with
    | done =>
      dsimp only
      split
      · rename_i outbox ha
        exact h.acknowledge hw ha
      · exact hretry
    | torn => exact hretry
    | fails => exact hretry
  · rename_i row error tries hw
    have hretry : ({ delivery with worker := Delivery.again tries (.failing row error) } :
        Delivery π).Sound := by
      refine h.again ?_
      rw [Held, hw] at hheld
      exact hheld
    cases outcome with
    | done =>
      dsimp only
      unfold Outbox.failOutbox
      by_cases hfinal : 5 ≤ row.attempts
      · rw [if_pos hfinal, if_pos hfinal]
        obtain ⟨hrows, hkept, hself⟩ := pruned_rows delivery.outbox row.id
          delivery.outbox.completed (EventRow.fail error)
          (by decide : OutboxState.failed ≠ .pending ∧ OutboxState.failed ≠ .inFlight)
        exact h.fail hw rfl rfl hrows hkept hself trivial
      · rw [if_neg hfinal, if_neg hfinal]
        exact h.retry hw hfinal _
    | torn =>
      dsimp only
      split
      · rename_i hfinal
        have hrows : ∀ id', (delivery.outbox.rows.modify row.id (EventRow.fail error))[id']? = _ :=
          Outbox.getElem?_modify _ row.id
        refine h.fail hw rfl rfl (fun id' row' hr' hid => ?_)
          (fun id' row' hr' hid _ => ?_) (fun row' hr' => ?_) ?_
        · change (delivery.outbox.rows.modify row.id _)[id']? = _ at hr'
          rwa [hrows, if_neg (Ne.symm hid)] at hr'
        · change (delivery.outbox.rows.modify row.id _)[id']? = _
          rwa [hrows, if_neg (Ne.symm hid)]
        · change (delivery.outbox.rows.modify row.id _)[row.id]? = _ at hr'
          rw [hrows, if_pos rfl] at hr'
          obtain ⟨old, ho, rfl⟩ := Option.map_eq_some_iff.mp hr'
          exact ⟨old, ho, rfl⟩
        · rw [Held, hw] at hheld
          obtain ⟨found, hr, ha, hcase⟩ := hheld
          unfold Delivery.again
          split
          · refine ⟨found.fail error, ?_, ha, .inr ⟨rfl, hfinal, ?_, ?_⟩⟩
            · change (delivery.outbox.rows.modify row.id _)[row.id]? = _
              rw [hrows, if_pos rfl, hr]
              rfl
            · rcases failedEntry_cases hr with ⟨hs, he⟩ | ⟨-, he⟩
              · rcases hcase with ⟨hs', -⟩ | ⟨-, -, hm, -⟩
                · rw [hs] at hs'
                  cases hs'
                · exact List.mem_append_left _ hm
              · rw [he]
                exact List.mem_append_right _ (List.mem_singleton_self _)
            · rcases hcase with ⟨-, before, hlog⟩ | ⟨-, -, -, attempts, hm⟩
              · exact ⟨row.attempts, List.mem_append_left _ (by simp [hlog])⟩
              · exact ⟨attempts, List.mem_append_left _ hm⟩
          · trivial
      · exact hretry
    | fails => exact hretry
  · exact h

theorem Sound.step (h : delivery.Sound) (event : OutboxEvent π) : (delivery.step event).Sound := by
  cases event with
  | insert eventsEnabled records => exact h.insert eventsEnabled records
  | recover ok => exact h.recover ok
  | claim now => exact h.claim now
  | claimFails => exact h
  | finish error => exact h.finish error
  | transition now outcome => exact h.transition now outcome
  | crash => exact h.crash

theorem run_append (events later : List (OutboxEvent π)) :
    run (events ++ later) = later.foldl Delivery.step (run events) := List.foldl_append

theorem run_sound (events : List (OutboxEvent π)) : (run events).Sound := by
  induction events using List.reverseRecOn with
  | nil => exact start_sound
  | append_singleton events event ih =>
    rw [run_append]
    exact ih.step event

end Delivery
end FirebaseEmu.Functions
