import FirebaseEmu.Firestore.Persistence
import FirebaseEmu.Lib.Maps

namespace FirebaseEmu.Functions
open Lib Std
open Firestore (OutboxState outboxCapacity)

/-- A record for `event_outbox`; the payload stands for its JSON text. -/
structure OutboxRecord (π : Type) where
  source : String
  payload : π

/-- A row of `event_outbox`, beside its primary key. -/
structure EventRow (π : Type) where
  source : String
  payload : π
  state : OutboxState
  attempts : Nat
  availableAt : Int
  leaseUntil : Option Int
  lastError : Option String
  deliveredAt : Option Int

/-- The outbox with its id sequence, and the counter `event_completed`. -/
structure Outbox (π : Type) where
  rows : ExtTreeMap Nat (EventRow π)
  nextId : Nat
  completed : Nat

/-- An event as a claim hands it out. -/
structure DurableRow (π : Type) where
  id : Nat
  source : String
  payload : π
  attempts : Nat

def outboxLeaseSeconds : Int := 5

/-- The newest rows of a final state that are kept. -/
def retained : Nat := 1000

variable {π : Type}

namespace EventRow

def outstanding (row : EventRow π) : Bool := row.state == .pending || row.state == .inFlight

/-- The row may be claimed: it waits and its backoff is over, or its lease has run out. -/
def eligible (now : Int) (row : EventRow π) : Bool :=
  (row.state == .pending && row.availableAt ≤ now) ||
    (row.state == .inFlight && row.leaseUntil.any (· ≤ now))

def fresh (record : OutboxRecord π) : EventRow π :=
  ⟨record.source, record.payload, .pending, 0, 0, none, none, none⟩

def claim (now : Int) (row : EventRow π) : EventRow π :=
  { row with
    state := .inFlight
    attempts := row.attempts + 1
    leaseUntil := some (now + outboxLeaseSeconds) }

def deliver (now : Int) (row : EventRow π) : EventRow π :=
  { row with state := .delivered, deliveredAt := some now, leaseUntil := none, lastError := none }

def recover (row : EventRow π) : EventRow π :=
  if row.state == .inFlight then { row with state := .pending, leaseUntil := none } else row

def fail (message : String) (row : EventRow π) : EventRow π :=
  { row with state := .failed, leaseUntil := none, lastError := some message }

def retry (message : String) (availableAt : Int) (row : EventRow π) : EventRow π :=
  { row with state := .pending, leaseUntil := none, lastError := some message, availableAt }

end EventRow

namespace Outbox

def empty : Outbox π := ⟨∅, 1, 0⟩

def outstanding (outbox : Outbox π) : Nat :=
  (outbox.rows.filter fun _ row => row.outstanding).size

def insertRecord (outbox : Outbox π) (record : OutboxRecord π) : Outbox π :=
  { outbox with
    rows := outbox.rows.insert outbox.nextId (.fresh record)
    nextId := outbox.nextId + 1 }

/-- The events of a transaction; the error is the number of events that wait. -/
def insertOutbox (eventsEnabled : Bool) (outbox : Outbox π) (records : List (OutboxRecord π)) :
    Except Nat (Outbox π) :=
  if !eventsEnabled then .ok outbox
  else if outboxCapacity < outbox.outstanding + records.length then .error outbox.outstanding
  else .ok (records.foldl insertRecord outbox)

def recoverOutbox (outbox : Outbox π) : Outbox π :=
  { outbox with rows := outbox.rows.map fun _ row => row.recover }

def candidate (outbox : Outbox π) (now : Int) : Option (Nat × EventRow π) :=
  outbox.rows.toList.find? fun entry => entry.2.eligible now

def claimOutbox (outbox : Outbox π) (now : Int) : Option (DurableRow π) × Outbox π :=
  match outbox.candidate now with
  | none => (none, outbox)
  | some (id, row) =>
    (some ⟨id, row.source, row.payload, row.attempts + 1⟩,
      { outbox with rows := outbox.rows.modify id (EventRow.claim now) })

/-- The ids of the rows in a state that are kept. -/
def newest (state : OutboxState) (rows : ExtTreeMap Nat (EventRow π)) : List Nat :=
  ((rows.toList.filter fun entry => entry.2.state == state).map Prod.fst).reverse.take retained

def prune (state : OutboxState) (outbox : Outbox π) : Outbox π :=
  { outbox with
    rows := outbox.rows.filter fun id row =>
      !(row.state == state && !(newest state outbox.rows).contains id) }

def acknowledgeOutbox (outbox : Outbox π) (id : Nat) (now : Int) :
    Except String (Outbox π) :=
  match outbox.rows[id]? with
  | some row =>
    if row.state == .inFlight then
      .ok (prune .delivered { outbox with
        rows := outbox.rows.modify id (EventRow.deliver now)
        completed := outbox.completed + 1 })
    else .error s!"durable event {id} is not in flight during acknowledgement"
  | none => .error s!"durable event {id} is not in flight during acknowledgement"

/-- The update of a failure that is final. The rows are pruned after it, in a statement of its
own. -/
def failFinally (outbox : Outbox π) (id : Nat) (message : String) : Outbox π :=
  { outbox with rows := outbox.rows.modify id (EventRow.fail message) }

def failOutbox (outbox : Outbox π) (row : DurableRow π) (message : String) (now : Int) :
    Outbox π :=
  if 5 ≤ row.attempts then (outbox.failFinally row.id message).prune .failed
  else
    let delay : Int := 2 ^ min (row.attempts - 1) 4
    { outbox with rows := outbox.rows.modify row.id (EventRow.retry message (now + delay)) }

variable {outbox : Outbox π} {id : Nat} {row row' : EventRow π}

/-- The rows that wait are among those that waited before. -/
theorem outstanding_le {outbox' : Outbox π} (h : ∀ (id : Nat) (row' : EventRow π),
    outbox'.rows[id]? = some row' → row'.outstanding = true →
      ∃ row, outbox.rows[id]? = some row ∧ row.outstanding = true) :
    outbox'.outstanding ≤ outbox.outstanding := by
  unfold outstanding
  rw [← ExtTreeMap.length_keys, ← ExtTreeMap.length_keys]
  have hnodup : (outbox'.rows.filter fun _ row => row.outstanding).keys.Nodup :=
    ExtTreeMap.nodup_keys
  refine (hnodup.subperm fun id hm => ?_).length_le
  rw [ExtTreeMap.mem_keys, mem_filter] at hm ⊢
  obtain ⟨row', hr, ho⟩ := hm
  exact h id row' hr ho

theorem getElem?_insertRecord (record : OutboxRecord π) (id : Nat) :
    (outbox.insertRecord record).rows[id]? =
      if outbox.nextId = id then some (.fresh record) else outbox.rows[id]? := by
  simp [insertRecord, ExtTreeMap.getElem?_insert]

theorem outstanding_insertRecord_le (record : OutboxRecord π) :
    (outbox.insertRecord record).outstanding ≤ outbox.outstanding + 1 := by
  unfold outstanding
  rw [← ExtTreeMap.length_keys, ← ExtTreeMap.length_keys]
  have hnodup : ((outbox.insertRecord record).rows.filter
      fun _ row => row.outstanding).keys.Nodup := ExtTreeMap.nodup_keys
  have hlen : (outbox.rows.filter fun _ row => row.outstanding).keys.length + 1 =
      (outbox.nextId :: (outbox.rows.filter fun _ row => row.outstanding).keys).length := rfl
  rw [hlen]
  refine (hnodup.subperm fun id hm => ?_).length_le
  rw [ExtTreeMap.mem_keys, mem_filter] at hm
  obtain ⟨row, hr, ho⟩ := hm
  rw [getElem?_insertRecord] at hr
  split at hr
  · rename_i he
    exact List.mem_cons.mpr (.inl he.symm)
  · exact List.mem_cons_of_mem _ (ExtTreeMap.mem_keys.mpr (mem_filter.mpr ⟨row, hr, ho⟩))

theorem outstanding_insertRecords_le (records : List (OutboxRecord π)) :
    (records.foldl insertRecord outbox).outstanding ≤ outbox.outstanding + records.length := by
  induction records generalizing outbox with
  | nil => exact Nat.le_refl _
  | cons record records ih =>
    have hone := @outstanding_insertRecord_le π outbox record
    have hrest := @ih (outbox.insertRecord record)
    rw [List.foldl_cons, List.length_cons]
    omega

/-- The inserted rows follow those that are there. -/
theorem getElem?_insertRecords (records : List (OutboxRecord π)) (id : Nat) :
    ((records.foldl insertRecord outbox).rows[id]? =
        if outbox.nextId ≤ id then (records[id - outbox.nextId]?.map EventRow.fresh).or
          outbox.rows[id]? else outbox.rows[id]?) ∧
      (records.foldl insertRecord outbox).nextId = outbox.nextId + records.length ∧
      (records.foldl insertRecord outbox).completed = outbox.completed := by
  induction records generalizing outbox with
  | nil => simp
  | cons record records ih =>
    obtain ⟨hr, hn, hc⟩ := @ih (outbox.insertRecord record)
    have hnext : (outbox.insertRecord record).nextId = outbox.nextId + 1 := rfl
    rw [List.foldl_cons, hr, hn, hc, getElem?_insertRecord, hnext, List.length_cons]
    refine ⟨?_, by omega, rfl⟩
    by_cases hlt : outbox.nextId + 1 ≤ id
    · have hne : outbox.nextId ≠ id := by omega
      have hle : outbox.nextId ≤ id := by omega
      have hsub : id - outbox.nextId = (id - (outbox.nextId + 1)) + 1 := by omega
      rw [if_pos hlt, if_pos hle, if_neg hne, hsub, List.getElem?_cons_succ]
    · by_cases he : outbox.nextId = id
      · subst he
        simp
      · have hgt : ¬ outbox.nextId ≤ id := by omega
        rw [if_neg hlt, if_neg hgt, if_neg he]

/-- Records that come to an empty outbox all wait. -/
theorem outstanding_insertRecords (records : List (OutboxRecord π)) :
    (records.foldl insertRecord empty).outstanding = records.length := by
  have hkeys : ∀ id, id ∈ (records.foldl insertRecord empty).rows.filter
      (fun _ row => row.outstanding) ↔ id ∈ List.range' 1 records.length := by
    intro id
    have hlookup := (@getElem?_insertRecords π .empty records id).1
    have hnone : (empty : Outbox π).rows[id]? = none := ExtTreeMap.getElem?_empty
    rw [hnone, Option.or_none] at hlookup
    rw [mem_filter, hlookup, List.mem_range'_1]
    change (∃ row, (if 1 ≤ id then records[id - 1]?.map EventRow.fresh else none) = some row ∧
      row.outstanding = true) ↔ _
    constructor
    · rintro ⟨row, hr, -⟩
      split at hr
      · obtain ⟨record, hrecord, -⟩ := Option.map_eq_some_iff.mp hr
        obtain ⟨hlt, -⟩ := List.getElem?_eq_some_iff.mp hrecord
        omega
      · cases hr
    · rintro ⟨hpos, hle⟩
      have hlt : id - 1 < records.length := by omega
      rw [if_pos hpos, List.getElem?_eq_getElem hlt]
      exact ⟨_, rfl, rfl⟩
  rw [outstanding, ← ExtTreeMap.length_keys, (keys_perm List.nodup_range' hkeys).length_eq,
    List.length_range']

theorem exists_outstanding (record : OutboxRecord π) (n : Nat) :
    ∃ outbox : Outbox π, outbox.outstanding = n :=
  ⟨(List.replicate n record).foldl insertRecord empty, by
    rw [outstanding_insertRecords, List.length_replicate]⟩

theorem getElem?_modify (f : EventRow π → EventRow π) (id id' : Nat) :
    (outbox.rows.modify id f)[id']? =
      if id = id' then outbox.rows[id']?.map f else outbox.rows[id']? := by
  rw [ExtTreeMap.getElem?_modify]
  by_cases he : id = id'
  · subst he
    simp
  · simp [he]

/-- Only rows in the state are pruned. -/
theorem getElem?_prune (state : OutboxState) (id : Nat) :
    (outbox.prune state).rows[id]? = outbox.rows[id]? ∨
      (outbox.prune state).rows[id]? = none ∧
        ∃ row, outbox.rows[id]? = some row ∧ row.state = state := by
  unfold prune
  rw [ExtTreeMap.getElem?_filter']
  cases hr : outbox.rows[id]? with
  | none => exact .inl rfl
  | some row =>
    by_cases hs : row.state = state
    · by_cases hn : (newest state outbox.rows).contains id = true
      · simp [Option.filter_some, hs, List.contains_iff_mem.mp hn]
      · simp only [Bool.not_eq_true] at hn
        simp [Option.filter_some, hs]
        tauto
    · left
      simp [Option.filter_some, hs]

/-- The first eligible row is claimed. -/
theorem candidate_some {now : Int} (h : outbox.candidate now = some (id, row)) :
    outbox.rows[id]? = some row ∧ row.eligible now = true ∧
      ∀ id' < id, ∀ row', outbox.rows[id']? = some row' → row'.eligible now = false := by
  unfold candidate at h
  obtain ⟨he, before, after, hsplit, hbefore⟩ := List.find?_eq_some_iff_append.mp h
  have hmem : (id, row) ∈ outbox.rows.toList := by
    rw [hsplit]
    exact List.mem_append_right _ List.mem_cons_self
  refine ⟨ExtTreeMap.mem_toList_iff_getElem?_eq_some.mp hmem, he, fun id' hlt row' hr => ?_⟩
  have hordered := ExtTreeMap.ordered_keys_toList (t := outbox.rows)
  rw [hsplit, List.pairwise_append] at hordered
  have hmem' : (id', row') ∈ before ++ (id, row) :: after :=
    hsplit ▸ ExtTreeMap.mem_toList_iff_getElem?_eq_some.mpr hr
  rcases List.mem_append.mp hmem' with hb | hb
  · simpa using hbefore _ hb
  · rcases List.mem_cons.mp hb with heq | hb
    · have hid := (Prod.mk.inj heq).1
      omega
    · have hcompare := (List.pairwise_cons.mp hordered.2.1).1 _ hb
      rw [Nat.compare_eq_lt] at hcompare
      dsimp only at hcompare
      omega

end Outbox
end FirebaseEmu.Functions
