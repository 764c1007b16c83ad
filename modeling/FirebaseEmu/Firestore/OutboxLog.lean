import FirebaseEmu.Firestore.Requests
import FirebaseEmu.Firestore.Rows
import FirebaseEmu.Firestore.Triggers
import FirebaseEmu.Lib.Replay

namespace FirebaseEmu.Firestore
open Lib Std

variable {β : Type} (codec : DocumentCodec β)

/-- The event a Firestore row of the outbox stands for. -/
def decodeDurable (row : OutboxRow β) : Except String DocumentEvent := do
  let before ← row.payload.before.mapM codec.decode
  let after ← row.payload.after.mapM codec.decode
  pure ⟨before, after⟩

/-- The change of the document that an event names. -/
def DocumentEvent.change (event : DocumentEvent) : Option (Change String Document) :=
  (event.after <|> event.before).map fun document => ⟨⟨document.name, event.after⟩, event.before⟩

def rowChange (row : OutboxRow β) : Option (Change String Document) :=
  (decodeDurable codec row).toOption.bind DocumentEvent.change

/-- What the replay of the rows in turn shows: a document set to `after`, or removed. -/
def replayRows (rows : List (OutboxRow β)) : Documents :=
  replay ∅ ((rows.filterMap (rowChange codec)).map Change.toEdit)

def firestoreRows (rows : List (OutboxRow β)) : List (OutboxRow β) :=
  rows.filter (·.source == "firestore")

/-- The rows added to the outbox: those with the identifiers given out since. -/
def insertedRows (service service' : FirestoreService β) : List (OutboxRow β) :=
  match service.persistence, service'.persistence with
  | some p, some p' => p'.outbox.filter fun row => p.nextOutboxId ≤ row.id
  | _, _ => []

/-- What the rest of the emulator does to the outbox: rows are claimed, delivered, failed
and pruned, and those of other sources are inserted with the next identifiers. -/
structure Housekeeping (service service' : FirestoreService β) (p p' : Persistence β) : Prop where
  before : service.persistence = some p
  after : service'.persistence = some p'
  documents : p'.documents = p.documents
  eventsEnabled : p'.eventsEnabled = p.eventsEnabled
  nextOutboxId : p.nextOutboxId ≤ p'.nextOutboxId
  below : ∀ row ∈ p'.outbox, row.id < p'.nextOutboxId
  inserted : ∀ row ∈ p'.outbox, p.nextOutboxId ≤ row.id → row.source ≠ "firestore"

/-- Runs of the SQLite backend from an empty table, with the rows ever inserted. -/
inductive Logged : List (OutboxRow β) → FirestoreService β → Prop
  | start {service : FirestoreService β} {p : Persistence β}
    (hp : service.persistence = some p) (hempty : p.documents = ∅)
    (he : p.eventsEnabled = true) (hbelow : ∀ row ∈ p.outbox, row.id < p.nextOutboxId) :
    Logged [] service
  | request {log : List (OutboxRow β)} {service : FirestoreService β} (h : Logged log service)
    {call : Call} (hclear : ∀ database, call.request ≠ .clearDatabase database) :
    Logged (log ++ insertedRows service (handle codec service call).2) (handle codec service call).2
  | other {log : List (OutboxRow β)} {service service' : FirestoreService β} {p p' : Persistence β}
    (h : Logged log service) (hk : Housekeeping service service' p p') :
    Logged (log ++ insertedRows service service') service'

/-- The same fields, or fields that the `==` of the event loops takes for the same. -/
def SameFields (shown stored : Option Document) : Prop :=
  shown.map Document.fields = stored.map Document.fields ∨ fieldsEqual shown stored = true

theorem SameFields.refl (entry : Option Document) : SameFields entry entry := .inl rfl

theorem SameFields.trans {shown before after : Option Document} (h : SameFields shown before)
    (he : fieldsEqual before after = true) : SameFields shown after := by
  rcases h with h | h
  · exact .inr ((fieldsEqual_congr h after).trans he)
  · have hshown := fieldsEqual_iff.mp h
    exact .inr (fieldsEqual_iff.mpr ⟨hshown.1.trans (fieldsEqual_iff.mp he).1, hshown.2⟩)

section Rows

theorem mem_outboxRows {nextId : Nat} {records : List (OutboxRecord β)} {row : OutboxRow β}
    (h : row ∈ outboxRows nextId records) :
    nextId ≤ row.id ∧ row.id < nextId + records.length ∧
      ∃ record ∈ records, row.source = record.source := by
  induction records generalizing nextId with
  | nil => cases h
  | cons record records ih =>
    rcases List.mem_cons.mp h with rfl | h
    · exact ⟨Nat.le_refl _, by simp, record, List.mem_cons_self, rfl⟩
    · obtain ⟨hlo, hhi, other, ho, hs⟩ := ih h
      rw [List.length_cons]
      exact ⟨by omega, by omega, other, List.mem_cons_of_mem _ ho, hs⟩

theorem outboxRows_ordered (nextId : Nat) (records : List (OutboxRecord β)) :
    (outboxRows nextId records).Pairwise fun row later => row.id < later.id := by
  induction records generalizing nextId with
  | nil => exact .nil
  | cons record records ih =>
    refine .cons (fun later hl => ?_) (ih _)
    have := (mem_outboxRows hl).1
    exact Nat.lt_of_succ_le this

theorem decodeDurable_outboxRecord (nextId : Nat) (event : DocumentEvent) :
    decodeDurable codec ⟨nextId, (outboxRecord codec event).source,
      (outboxRecord codec event).payload, .pending, 0, 0⟩ = .ok event := by
  obtain ⟨before, after⟩ := event
  cases before <;> cases after <;>
    simp [decodeDurable, outboxRecord, codec.decode_encode, bind, Except.bind, pure, Except.pure]

theorem map_rowChange_outboxRows (nextId : Nat) (events : List DocumentEvent) :
    (outboxRows nextId (events.map (outboxRecord codec))).map (rowChange codec) =
      events.map DocumentEvent.change := by
  induction events generalizing nextId with
  | nil => rfl
  | cons event events ih =>
    rw [List.map_cons, outboxRows, List.map_cons, ih, List.map_cons, rowChange,
      decodeDurable_outboxRecord]
    rfl

theorem firestoreRows_outboxRows (nextId : Nat) (events : List DocumentEvent) :
    firestoreRows (outboxRows nextId (events.map (outboxRecord codec))) =
      outboxRows nextId (events.map (outboxRecord codec)) := by
  rw [firestoreRows, List.filter_eq_self]
  intro row hm
  obtain ⟨-, -, record, hr, hs⟩ := mem_outboxRows hm
  obtain ⟨event, -, rfl⟩ := List.mem_map.mp hr
  rw [hs]
  rfl

end Rows

variable {codec}

theorem insertedRows_eq {service service' : FirestoreService β} {p p' : Persistence β}
    (hp : service.persistence = some p) (hp' : service'.persistence = some p') :
    insertedRows service service' = p'.outbox.filter fun row => p.nextOutboxId ≤ row.id := by
  simp only [insertedRows, hp, hp']

/-- A service that kept its tables inserted nothing. -/
theorem insertedRows_self {service service' : FirestoreService β} {p : Persistence β}
    (hp : service.persistence = some p) (hp' : service'.persistence = some p)
    (hbelow : ∀ row ∈ p.outbox, row.id < p.nextOutboxId) : insertedRows service service' = [] := by
  rw [insertedRows_eq hp hp', List.filter_eq_nil_iff]
  intro row hm
  simpa using hbelow row hm

/-- What an accepted request does to the tables that hold `documents`: it leaves those of
`documents'`, and records an event for each document that counts as changed. -/
structure Advance (codec : DocumentCodec β) (p p' : Persistence β)
    (documents documents' before after : Documents) : Prop where
  rows : SameRows codec p'.documents documents'
  named : Named documents'
  changed : ∀ name ∈ changedNames before after,
    before[name]? = documents[name]? ∧ after[name]? = documents'[name]?
  kept : ∀ name ∉ changedNames before after, fieldsEqual documents[name]? documents'[name]? = true ∨
    documents'[name]? = documents[name]?
  recorded : Recorded { p with documents := p'.documents, autoId := p'.autoId } p'
    (documentOutboxRecords codec before after)

/-- The log so far shows the documents of the tables. -/
structure LogShows (codec : DocumentCodec β) (log : List (OutboxRow β)) (p : Persistence β)
    (documents : Documents) : Prop where
  rows : SameRows codec p.documents documents
  named : Named documents
  eventsEnabled : p.eventsEnabled = true
  below : ∀ row ∈ p.outbox, row.id < p.nextOutboxId
  logBelow : ∀ row ∈ firestoreRows log, row.id < p.nextOutboxId
  ordered : (firestoreRows log).Pairwise fun row later => row.id < later.id
  changes : ∃ changes : List (Change String Document),
    (firestoreRows log).map (rowChange codec) = changes.map some ∧
    Chained (fun before shown => SameFields shown before) ∅ changes ∧
    ∀ name : String, SameFields (replay ∅ (changes.map Change.toEdit))[name]? documents[name]?

theorem Advance.change_eq {p p' : Persistence β} {documents documents' before after : Documents}
    (h : Advance codec p p' documents documents' before after) (hn : Named documents)
    {name : String} (hc : name ∈ changedNames before after) :
    (DocumentEvent.mk before[name]? after[name]?).change =
      some ⟨⟨name, documents'[name]?⟩, documents[name]?⟩ := by
  obtain ⟨hb, ha⟩ := h.changed name hc
  rw [mem_changedNames, hb, ha] at hc
  rw [hb, ha]
  cases hnew : documents'[name]? with
  | some document => simp [DocumentEvent.change, h.named name document hnew]
  | none =>
    cases hold : documents[name]? with
    | some document => simp [DocumentEvent.change, hn name document hold]
    | none =>
      rw [hnew, hold] at hc
      cases hc

/-- The changes an accepted request logs. -/
def newChanges (documents documents' before after : Documents) : List (Change String Document) :=
  (changedNames before after).map fun name => ⟨⟨name, documents'[name]?⟩, documents[name]?⟩

section Advance
variable {service service' : FirestoreService β} {p p' : Persistence β}
  {documents documents' before after : Documents}

/-- The rows an accepted request inserts follow all there were. -/
theorem Advance.outbox (h : Advance codec p p' documents documents' before after)
    (he : p.eventsEnabled = true) :
    p'.outbox = p.outbox ++
        outboxRows p.nextOutboxId ((documentEvents before after).map (outboxRecord codec)) ∧
      p'.nextOutboxId = p.nextOutboxId + (documentEvents before after).length := by
  have houtbox := h.recorded.outbox
  have hnext := h.recorded.nextOutboxId
  exact ⟨by simpa [he, documentOutboxRecords] using houtbox,
    by simpa [he, documentOutboxRecords] using hnext⟩

theorem Advance.inserted (h : Advance codec p p' documents documents' before after)
    (he : p.eventsEnabled = true) (hbelow : ∀ row ∈ p.outbox, row.id < p.nextOutboxId)
    (hp : service.persistence = some p) (hp' : service'.persistence = some p') :
    insertedRows service service' =
      outboxRows p.nextOutboxId ((documentEvents before after).map (outboxRecord codec)) := by
  rw [insertedRows_eq hp hp', (h.outbox he).1, List.filter_append, List.filter_eq_nil_iff.mpr,
    List.nil_append, List.filter_eq_self]
  · intro row hm
    simpa using (mem_outboxRows hm).1
  · intro row hm
    simpa using hbelow row hm

theorem Advance.map_rowChange (h : Advance codec p p' documents documents' before after)
    (hn : Named documents) (nextId : Nat) :
    (outboxRows nextId ((documentEvents before after).map (outboxRecord codec))).map
        (rowChange codec) = (newChanges documents documents' before after).map some := by
  rw [map_rowChange_outboxRows, documentEvents_eq, newChanges, List.map_map, List.map_map]
  exact List.map_congr_left fun name hc => h.change_eq hn hc

/-- The new changes chain onto a log that shows the documents before them. -/
theorem chained_newChanges {shown : Documents}
    (hshown : ∀ name : String, SameFields shown[name]? documents[name]?) :
    Chained (fun before shown => SameFields shown before) shown
      (newChanges documents documents' before after) := by
  refine chained_of_nodup ?_ fun change hm => ?_
  · rw [newChanges, List.map_map]
    exact (List.map_id _).symm ▸ changedNames_nodup before after
  · obtain ⟨name, -, rfl⟩ := List.mem_map.mp hm
    exact hshown name

/-- Replayed on what shows the documents before them, they show the documents after. -/
theorem Advance.replay_newChanges (h : Advance codec p p' documents documents' before after)
    {shown : Documents} (hshown : ∀ name : String, SameFields shown[name]? documents[name]?)
    (name : String) :
    SameFields (replay shown ((newChanges documents documents' before after).map
      Change.toEdit))[name]? documents'[name]? := by
  refine replay_reaches (fun name => documents'[name]?) ?_ fun hskip => ?_
  · intro edit hm
    simp only [newChanges, List.map_map, List.mem_map] at hm
    obtain ⟨other, -, rfl⟩ := hm
    exact .refl _
  · have hnot : name ∉ changedNames before after := by
      intro hc
      refine hskip ⟨name, documents'[name]?⟩ ?_ rfl
      simp only [newChanges, List.map_map, List.mem_map]
      exact ⟨name, hc, rfl⟩
    rcases h.kept name hnot with he | he
    · exact (hshown name).trans he
    · rw [he]
      exact hshown name

/-- The rows an accepted request inserts carry on the log. -/
theorem LogShows.advance {log : List (OutboxRow β)} (h : LogShows codec log p documents)
    (hp : service.persistence = some p) (hp' : service'.persistence = some p')
    (ha : Advance codec p p' documents documents' before after) :
    LogShows codec (log ++ insertedRows service service') p' documents' := by
  obtain ⟨houtbox, hnext⟩ := ha.outbox h.eventsEnabled
  have hlog : firestoreRows (log ++ insertedRows service service') = firestoreRows log ++
      outboxRows p.nextOutboxId ((documentEvents before after).map (outboxRecord codec)) := by
    rw [ha.inserted h.eventsEnabled h.below hp hp', firestoreRows, List.filter_append]
    exact congrArg _ (firestoreRows_outboxRows codec _ _)
  have hrows : ∀ row ∈ outboxRows p.nextOutboxId
      ((documentEvents before after).map (outboxRecord codec)),
      p.nextOutboxId ≤ row.id ∧ row.id < p'.nextOutboxId := by
    intro row hm
    obtain ⟨hlo, hhi, -⟩ := mem_outboxRows hm
    rw [List.length_map] at hhi
    exact ⟨hlo, hnext ▸ hhi⟩
  have hgrown : ∀ {rows : List (OutboxRow β)}, (∀ row ∈ rows, row.id < p.nextOutboxId) →
      ∀ row ∈ rows ++ outboxRows p.nextOutboxId
        ((documentEvents before after).map (outboxRecord codec)), row.id < p'.nextOutboxId := by
    intro rows hbelow row hm
    rcases List.mem_append.mp hm with hm | hm
    · exact Nat.lt_of_lt_of_le (hbelow row hm) (hnext ▸ Nat.le_add_right _ _)
    · exact (hrows row hm).2
  obtain ⟨changes, hchanges, hchained, hshown⟩ := h.changes
  refine ⟨ha.rows, ha.named, ha.recorded.eventsEnabled.trans h.eventsEnabled,
    houtbox ▸ hgrown h.below, hlog ▸ hgrown h.logBelow, ?_,
    changes ++ newChanges documents documents' before after, ?_, ?_, ?_⟩
  · rw [hlog, List.pairwise_append]
    refine ⟨h.ordered, outboxRows_ordered _ _, fun row hm later hl => ?_⟩
    exact Nat.lt_of_lt_of_le (h.logBelow row hm) (hrows later hl).1
  · rw [hlog, List.map_append, hchanges, ha.map_rowChange h.named, List.map_append]
  · exact chained_append.mpr ⟨hchained, chained_newChanges hshown⟩
  · intro name
    rw [List.map_append, replay_append]
    exact ha.replay_newChanges hshown name

end Advance

/-- Housekeeping inserts no Firestore row. -/
theorem LogShows.housekeeping {log : List (OutboxRow β)} {service service' : FirestoreService β}
    {p p' : Persistence β} {documents : Documents} (h : LogShows codec log p documents)
    (hk : Housekeeping service service' p p') :
    LogShows codec (log ++ insertedRows service service') p' documents := by
  have hlog : firestoreRows (log ++ insertedRows service service') = firestoreRows log := by
    have hnone : firestoreRows (insertedRows service service') = [] := by
      rw [firestoreRows, List.filter_eq_nil_iff]
      intro row hm
      rw [insertedRows_eq hk.before hk.after] at hm
      obtain ⟨hm, hid⟩ := List.mem_filter.mp hm
      simpa using hk.inserted row hm (by simpa using hid)
    rw [firestoreRows, List.filter_append]
    exact (congrArg (_ ++ ·) hnone).trans (List.append_nil _)
  refine ⟨hk.documents ▸ h.rows, h.named, hk.eventsEnabled.trans h.eventsEnabled, hk.below, ?_, ?_, ?_⟩
  · intro row hm
    rw [hlog] at hm
    exact Nat.lt_of_lt_of_le (h.logBelow row hm) hk.nextOutboxId
  · rw [hlog]
    exact h.ordered
  · rw [hlog]
    exact h.changes

section Requests
variable {service : FirestoreService β} {p : Persistence β} {documents : Documents}

theorem Named.after {documents : Documents} (h : Named documents) (writes : List Write)
    (writeTime : Timestamp) : Named ((writeOps writeTime).after documents writes) := by
  have hb : Named (Firestore.batchWrites writeTime documents writes [] []).2 :=
    h.batchWrites writes [] []
  rwa [batchWrites_eq] at hb

theorem WroteRows.advance {p' : Persistence β} {database : String} {writes : List Write}
    {now : Timestamp} {before : Documents} (hrows : SameRows codec p.documents documents)
    (hn : Named documents) (wrote : WroteRows codec p p' database writes now before) :
    Advance codec p p' documents ((writeOps now).after documents writes) before
      ((writeOps now).after before writes) := by
  have huntouched : ∀ {documents : Documents} {name : String}, ¬ Touched writes name →
      ((writeOps now).after documents writes)[name]? = documents[name]? := by
    intro documents name ht
    exact KeyedOps.after_unnamed (fun write hw hk => ht ⟨write, hw, hk⟩) documents
  have hnone : ∀ name, ¬ Touched writes name → before[name]? = none := by
    intro name ht
    rw [wrote.loaded name, if_neg ht]
  refine ⟨hrows.wrote wrote, hn.after writes now, fun name hc => ?_, fun name hc => ?_, ?_⟩
  · have ht : Touched writes name := by
      by_contra ht
      rw [mem_changedNames, huntouched ht, hnone name ht] at hc
      cases hc
    exact ⟨hrows.loaded wrote.loaded ht, hrows.after_eq wrote.loaded now ht⟩
  · by_cases ht : Touched writes name
    · rw [mem_changedNames, hrows.loaded wrote.loaded ht, hrows.after_eq wrote.loaded now ht,
        Bool.not_eq_false] at hc
      exact .inl hc
    · exact .inr (huntouched ht)
  · obtain ⟨-, -, hen, hout, hid, hfits⟩ := wrote.recorded
    exact ⟨rfl, rfl, hen, hout, hid, hfits⟩

theorem Named.put_created {name : String} (hn : Named documents) (document : Document)
    (now : Timestamp) :
    Named (Lib.put documents name (some (createdDocument document name now))) := by
  refine hn.put name ?_
  rintro _ ⟨⟩
  rfl

/-- A create records the one document it stores. -/
theorem advance_create {p' : Persistence β} {name database : String} {document : Document}
    {now : Timestamp} (hrows : SameRows codec p.documents documents) (hn : Named documents)
    (hv : validateDocumentName name = .ok ()) (hdb : databaseFromResource name = .ok database)
    (hnew : p.documents.contains name = false)
    (hr : p'.documents = p.documents.insert name
      ⟨database, codec.encode (createdDocument document name now)⟩)
    (hrec : Recorded { p with documents := p'.documents, autoId := p'.autoId } p'
      (documentOutboxRecords codec ∅
        ((∅ : Documents).insert name (createdDocument document name now)))) :
    Advance codec p p' documents
      (put documents name (some (createdDocument document name now))) ∅
      ((∅ : Documents).insert name (createdDocument document name now)) := by
  have habsent : documents[name]? = none := by
    rw [← hrows.contains_eq, ExtTreeMap.contains_eq_isSome_getElem?] at hnew
    exact Option.not_isSome_iff_eq_none.mp (Bool.eq_false_iff.mp hnew)
  have hchanged : ∀ other, other ∈ changedNames ∅
      ((∅ : Documents).insert name (createdDocument document name now)) ↔ other = name := by
    intro other
    rw [mem_changedNames, insert_eq_put, getElem?_put]
    by_cases he : name = other
    · simp [he, fieldsEqual]
    · simp [he, Ne.symm he, fieldsEqual]
  refine ⟨fun other => ?_, hn.put_created document now, fun other hc => ?_, fun other hc => ?_, hrec⟩
  · rw [hr, insert_eq_put, getElem?_put, getElem?_put]
    split
    · rename_i he
      subst he
      exact .some ⟨hv, hdb, codec.decode_encode _⟩
    · exact hrows other
  · obtain rfl := (hchanged other).mp hc
    rw [habsent, insert_eq_put, getElem?_put, getElem?_put]
    simp
  · rw [hchanged] at hc
    exact .inr (by rw [getElem?_put, if_neg (Ne.symm hc)])

/-- A request other than a clear keeps the tables as they are, or advances them. -/
theorem handle_advance (hp : service.persistence = some p)
    (hrows : SameRows codec p.documents documents) (hn : Named documents) {call : Call}
    (hclear : ∀ database, call.request ≠ .clearDatabase database) :
    (handle codec service call).2.persistence = some p ∨
    ∃ p' documents' before after, (handle codec service call).2.persistence = some p' ∧
      Advance codec p p' documents documents' before after := by
  have hreads : ∀ call, call.request.Reads →
      (handle codec service call).2.persistence = some p := by
    intro call hr
    obtain ⟨tokens, hh⟩ := handle_reads codec service call hr
    rw [hh]
    exact hp
  obtain ⟨request, now, uuid⟩ := call
  cases request with
  | createDocument request =>
    rcases createDocument_sqlite codec hp request now with
      ⟨status, hs, -⟩ | ⟨document, name, database, p', service', hs, hc, hdb, hr, hrec, hp', -⟩
    · simp only [handle, answer, hs]
      exact .inl hp
    · simp only [handle, answer, hs]
      obtain ⟨hv, hnew, -⟩ := createCheck_ok hc
      exact .inr ⟨p', _, _, _, hp', advance_create hrows hn hv hdb hnew hr hrec⟩
  | updateDocument request =>
    cases hd : request.document with
    | none =>
      simp only [handle, answer, updateDocument_none codec service hd]
      exact .inl hp
    | some document =>
      rcases updateDocument_sqlite codec hp hd now with
        ⟨status, hs, -⟩ | ⟨stored, database, before, p', service', -, hs, -, -, wrote, hp', -⟩
      · simp only [handle, answer, hs]
        exact .inl hp
      · simp only [handle, answer, hs]
        exact .inr ⟨p', _, _, _, hp', wrote.advance hrows hn⟩
  | deleteDocument request =>
    rcases deleteDocument_sqlite codec hp request now with
      ⟨status, hs, -⟩ | ⟨database, before, p', service', -, hs, -, wrote, hp', -⟩
    · simp only [handle, answer, hs]
      exact .inl hp
    · simp only [handle, answer, hs]
      exact .inr ⟨p', _, _, _, hp', wrote.advance hrows hn⟩
  | commit request =>
    rcases commit_sqlite codec hp request now with
      ⟨status, hs, -⟩ | ⟨before, p', service', hs, -, -, wrote, hp', -⟩
    · simp only [handle, answer, hs]
      exact .inl hp
    · simp only [handle, answer, hs]
      exact .inr ⟨p', _, _, _, hp', wrote.advance hrows hn⟩
  | batchWrite request =>
    rcases batchWrite_sqlite codec hp request now with
      ⟨status, hs, -⟩ | ⟨before, p', service', hs, wrote, hp', -⟩
    · simp only [handle, answer, hs]
      exact .inl hp
    · simp only [handle, answer, hs]
      exact .inr ⟨p', _, _, _, hp', wrote.advance hrows hn⟩
  | clearDatabase database => exact absurd rfl (hclear database)
  | batchGetDocuments request => exact .inl (hreads ⟨.batchGetDocuments request, now, uuid⟩ trivial)
  | beginTransaction database => exact .inl (hreads ⟨.beginTransaction database, now, uuid⟩ trivial)
  | rollback request => exact .inl (hreads ⟨.rollback request, now, uuid⟩ trivial)
  | runQuery request => exact .inl (hreads ⟨.runQuery request, now, uuid⟩ trivial)

end Requests

/-- In every run the log shows the documents of the tables. -/
theorem Logged.shows {log : List (OutboxRow β)} {service : FirestoreService β}
    (h : Logged codec log service) :
    ∃ p documents, service.persistence = some p ∧ LogShows codec log p documents := by
  induction h with
  | @start service p hp hempty he hbelow =>
    refine ⟨p, ∅, hp, fun name => ?_, named_empty, he, hbelow,
      fun row hm => absurd hm List.not_mem_nil, .nil, [], rfl, trivial, fun name => .refl _⟩
    rw [hempty]
    simp
  | @request log service h call hclear ih =>
    obtain ⟨p, documents, hp, hshows⟩ := ih
    rcases handle_advance hp hshows.rows hshows.named hclear with
      hp' | ⟨p', documents', before, after, hp', ha⟩
    · rw [insertedRows_self hp hp' hshows.below, List.append_nil]
      exact ⟨p, documents, hp', hshows⟩
    · exact ⟨p', documents', hp', hshows.advance hp hp' ha⟩
  | @other log service service' p p' h hk ih =>
    obtain ⟨q, documents, hq, hshows⟩ := ih
    obtain rfl := Option.some.inj (hq.symm.trans hk.before)
    exact ⟨p', documents, hk.after, hshows.housekeeping hk⟩

theorem filterMap_of_map {rows : List (OutboxRow β)} {changes : List (Change String Document)}
    (h : rows.map (rowChange codec) = changes.map some) :
    rows.filterMap (rowChange codec) = changes := by
  have := congrArg (List.filterMap id) h
  simpa [List.filterMap_map] using this

/-- In every run of the SQLite backend with events recorded and no database cleared, the
Firestore rows inserted in the outbox, in the order of their identifiers, can all be read;
their replay shows for each name the fields stored under it, up to the equality of the
event loops; and each row starts from what the replay of the rows before it shows. -/
theorem outbox_log_faithful (codec : DocumentCodec β) {log : List (OutboxRow β)}
    {service : FirestoreService β} (h : Logged codec log service) :
    (firestoreRows log).Pairwise (fun row later => row.id < later.id) ∧
    (∀ row ∈ firestoreRows log, (rowChange codec row).isSome) ∧
    (∀ name : String, SameFields (replayRows codec (firestoreRows log))[name]?
      (documentNow codec service name)) ∧
    ∀ earlier row later change, firestoreRows log = earlier ++ row :: later →
      rowChange codec row = some change →
      SameFields (replayRows codec earlier)[change.key]? change.before := by
  obtain ⟨p, documents, hp, hshows⟩ := h.shows
  obtain ⟨changes, hchanges, hchained, hshown⟩ := hshows.changes
  refine ⟨hshows.ordered, fun row hm => ?_, fun name => ?_, ?_⟩
  · have hm' := List.mem_map_of_mem (f := rowChange codec) hm
    rw [hchanges] at hm'
    obtain ⟨change, -, hc⟩ := List.mem_map.mp hm'
    rw [← hc]
    rfl
  · rw [replayRows, filterMap_of_map hchanges, documentNow_sqlite codec hp, hshows.rows.stored]
    exact hshown name
  · intro earlier row later change hsplit hc
    rw [hsplit, List.map_append, List.map_cons, hc] at hchanges
    obtain ⟨before, rest, rfl, hbefore, hrest⟩ := List.map_eq_append_iff.mp hchanges.symm
    obtain ⟨other, after, rfl, hother, -⟩ := List.map_eq_cons_iff.mp hrest
    obtain rfl := Option.some.inj hother
    rw [replayRows, filterMap_of_map hbefore.symm]
    exact hchained.split

/-- A commit of one document with one double. -/
def sampleDouble (value : Binary64) : Call := sampleCommit "a" [("n", .doubleValue value)]

theorem sampleDouble_keeps (value : Binary64) (database : String) :
    (sampleDouble value).request ≠ .clearDatabase database := by
  simp [sampleDouble, sampleCommit]

theorem outbox_log_faithful_sample :
    ∃ log, Logged plainCodec log (run plainCodec (sampleSqlite []) [sampleDouble .nan]) ∧
      SameFields (replayRows plainCodec (firestoreRows log))[sampleName sampleDatabase "a"]?
        (documentNow plainCodec (run plainCodec (sampleSqlite []) [sampleDouble .nan])
          (sampleName sampleDatabase "a")) := by
  have hstart : Logged plainCodec [] (sampleSqlite []) := .start rfl rfl rfl
    (fun _ hm => absurd hm List.not_mem_nil)
  have hrun := hstart.request (sampleDouble_keeps .nan)
  exact ⟨_, hrun, (outbox_log_faithful plainCodec hrun).2.2.1 _⟩

/-- A zero written over a zero of the other sign is stored and not recorded. -/
theorem zero_sign_not_logged :
    ¬ ∀ (log : List (OutboxRow Document)) (service : FirestoreService Document),
      Logged plainCodec log service → ∀ name : String,
      (replayRows plainCodec (firestoreRows log))[name]?.map Document.fields =
        (documentNow plainCodec service name).map Document.fields := by
  intro h
  have hstart : Logged plainCodec [] (sampleSqlite []) := .start rfl rfl rfl
    (fun _ hm => absurd hm List.not_mem_nil)
  have hrun := (hstart.request (sampleDouble_keeps (.assemble false 0 0))).request
    (sampleDouble_keeps (.assemble true 0 0))
  have hfields : some [("n", Value.doubleValue (.assemble false 0 0))] =
      some [("n", Value.doubleValue (.assemble true 0 0))] :=
    h _ _ hrun (sampleName sampleDatabase "a")
  simp only [Option.some.injEq, List.cons.injEq, Prod.mk.injEq, Value.doubleValue.injEq] at hfields
  exact absurd hfields.1.2 (by decide)

end FirebaseEmu.Firestore
