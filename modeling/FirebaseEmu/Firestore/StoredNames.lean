import FirebaseEmu.Firestore.Tables

namespace FirebaseEmu.Firestore
open Lib Std

variable {β : Type} (codec : DocumentCodec β)

/-- A document stands under the name, in memory or in its table. -/
def Stored (service : FirestoreService β) (name : String) : Prop :=
  match service.persistence with
  | some p => p.documents.contains name = true
  | none => service.store.documents.contains name = true

/-- How many identifiers the backend in use has counted. -/
def idCounter (service : FirestoreService β) : Nat :=
  match service.persistence with
  | some p => p.autoId
  | none => service.store.nextId

/-- The identifier a create request ends up with. -/
def takenId (service : FirestoreService β) (requested : String) : String :=
  if requested = "" then autoDocumentId (idCounter service + 1) else requested

/-- The outbox takes one more event, where events are recorded at all. -/
def HasRoom (service : FirestoreService β) : Prop :=
  ∀ p ∈ service.persistence, p.eventsEnabled = true → p.outstanding < outboxCapacity

/-- Nothing stands in the way of a create request. -/
structure Creatable (service : FirestoreService β) (request : CreateDocumentRequest) : Prop where
  document : request.document.isSome
  parent : request.parent ≠ ""
  collectionId : request.collectionId ≠ ""
  valid : validateDocumentName (createdName request (takenId service request.documentId)) = .ok ()
  new : ¬ Stored service (createdName request (takenId service request.documentId))
  room : HasRoom service

/-- What a create request does on either backend. -/
structure Created (service service' : FirestoreService β) (request : CreateDocumentRequest)
    (document : Document) : Prop where
  name : document.name = createdName request (takenId service request.documentId)
  valid : validateDocumentName document.name = .ok ()
  new : ¬ Stored service document.name
  stored : ∀ other, Stored service' other ↔ other = document.name ∨ Stored service other
  counter : idCounter service' =
    if request.documentId = "" then idCounter service + 1 else idCounter service

section
variable {service : FirestoreService β} {p : Persistence β}

theorem stored_memory (hm : service.persistence = none) (name : String) :
    Stored service name ↔ service.store.documents.contains name = true := by
  simp only [Stored, hm]

theorem stored_sqlite (hp : service.persistence = some p) (name : String) :
    Stored service name ↔ p.documents.contains name = true := by
  simp only [Stored, hp]

theorem idCounter_memory (hm : service.persistence = none) :
    idCounter service = service.store.nextId := by
  simp only [idCounter, hm]

theorem idCounter_sqlite (hp : service.persistence = some p) : idCounter service = p.autoId := by
  simp only [idCounter, hp]

theorem takeDocumentId_memory (hm : service.persistence = none) (requested : String) :
    (service.store.takeDocumentId requested).1 = takenId service requested ∧
      (service.store.takeDocumentId requested).2.nextId =
        if requested = "" then idCounter service + 1 else idCounter service := by
  rw [takenId, idCounter_memory hm, Store.takeDocumentId]
  split <;> exact ⟨rfl, rfl⟩

theorem takeDocumentId_sqlite (hp : service.persistence = some p) (requested : String) :
    (p.takeDocumentId requested).1 = takenId service requested ∧
      (p.takeDocumentId requested).2.autoId =
        if requested = "" then idCounter service + 1 else idCounter service := by
  rw [takenId, idCounter_sqlite hp, Persistence.takeDocumentId]
  split <;> exact ⟨rfl, rfl⟩

theorem takeDocumentId_sqlite_rest (p : Persistence β) (requested : String) :
    (p.takeDocumentId requested).2.documents = p.documents ∧
      (p.takeDocumentId requested).2.outbox = p.outbox ∧
      (p.takeDocumentId requested).2.eventsEnabled = p.eventsEnabled := by
  unfold Persistence.takeDocumentId
  split <;> exact ⟨rfl, rfl, rfl⟩

/-- Storing one new document is one event. -/
theorem documentOutboxRecords_single (name : String) (document : Document) :
    (documentOutboxRecords codec ∅ ((∅ : Documents).insert name document)).length = 1 := by
  have hkeys : ((∅ : Documents).insert name document).keys.Perm [name] := by
    apply keys_perm (List.nodup_singleton name)
    intro k
    rw [ExtTreeMap.mem_insert, LawfulEqOrd.compare_eq_iff_eq]
    simp [eq_comm]
  have hnone : (∅ : Documents).keys = [] := rfl
  rw [documentOutboxRecords, List.length_map, documentEvents_eq, List.length_map, changedNames,
    hnone]
  simp [hkeys.length_eq]

/-- What one create request does to the names and the counter, and when it is refused. -/
def CreateOutcome (service : FirestoreService β) (request : CreateDocumentRequest)
    (out : Except Status Document × FirestoreService β) : Prop :=
  (∃ status, out.1 = .error status ∧ ¬ Creatable service request ∧
    (∀ name, Stored out.2 name ↔ Stored service name) ∧ idCounter service ≤ idCounter out.2) ∨
  ∃ document, out.1 = .ok document ∧ Created service out.2 request document

theorem createDocument_memory_outcome (hm : service.persistence = none)
    (request : CreateDocumentRequest) (now : Timestamp) :
    CreateOutcome service request (createDocument codec service request now) := by
  obtain ⟨hid, hnext⟩ := takeDocumentId_memory hm request.documentId
  obtain ⟨hdocs, -⟩ := service.store.takeDocumentId_store request.documentId
  have hkept : ∀ store : Store, store.documents = service.store.documents →
      (∀ name, Stored (service.setStore store) name ↔ Stored service name) ∧
        idCounter (service.setStore store) = store.nextId := by
    intro store hd
    have hm' : (service.setStore store).persistence = none := hm
    refine ⟨fun name => ?_, idCounter_memory hm'⟩
    rw [stored_memory hm, stored_memory hm']
    exact iff_of_eq (congrArg (fun documents : Documents => documents.contains name = true) hd)
  have hcount : idCounter service ≤ (service.store.takeDocumentId request.documentId).2.nextId := by
    rw [hnext]
    split <;> omega
  unfold createDocument
  cases hdoc : request.document with
  | none =>
    exact .inl ⟨_, rfl, fun h => by simpa [hdoc] using h.document, fun _ => Iff.rfl, Nat.le_refl _⟩
  | some document =>
    dsimp only
    split
    · rename_i hempty
      refine .inl ⟨_, rfl, fun h => ?_, fun _ => Iff.rfl, Nat.le_refl _⟩
      exact hempty.elim h.parent h.collectionId
    simp only [hm, hid]
    obtain ⟨hstored, hcounter⟩ := hkept _ hdocs
    split
    · rename_i status hv
      refine .inl ⟨_, rfl, fun h => ?_, hstored, hcounter ▸ hcount⟩
      rw [h.valid] at hv
      cases hv
    · rename_i hv
      split
      · rename_i hc
        rw [hdocs] at hc
        refine .inl ⟨_, rfl, fun h => h.new ((stored_memory hm _).mpr hc), hstored,
          hcounter ▸ hcount⟩
      · rename_i hc
        rw [hdocs] at hc
        refine .inr ⟨_, rfl, rfl, hv, fun h => hc ((stored_memory hm _).mp h), fun other => ?_, ?_⟩
        · refine (stored_memory (by exact hm) other).trans ?_
          rw [stored_memory hm, ExtTreeMap.contains_iff_mem, ExtTreeMap.contains_iff_mem]
          refine ExtTreeMap.mem_insert.trans ?_
          rw [LawfulEqOrd.compare_eq_iff_eq, hdocs]
          exact or_congr_left eq_comm
        · rw [← hnext]
          exact idCounter_memory hm

/-- A refusal that leaves the service as it was. -/
theorem CreateOutcome.refused {request : CreateDocumentRequest} (h : ¬ Creatable service request)
    (status : Status) : CreateOutcome service request (.error status, service) :=
  .inl ⟨status, rfl, h, fun _ => Iff.rfl, Nat.le_refl _⟩

/-- The transaction of a create request is rolled back, or leaves one row more and the
counter it took the identifier from. -/
theorem createTransactionJob_cases (hp : service.persistence = some p)
    (request : CreateDocumentRequest) (document : Document) (now : Timestamp) :
    let name := createdName request (takenId service request.documentId)
    (∃ status, runJob p (createTransactionJob codec request document now) = (.error status, p) ∧
      ¬ Creatable service request) ∨
    (∃ row p', runJob p (createTransactionJob codec request document now) =
        (.ok (createdDocument document name now), p') ∧ validateDocumentName name = .ok () ∧
      p.documents.contains name = false ∧ p'.documents = p.documents.insert name row ∧
      p'.autoId =
        if request.documentId = "" then idCounter service + 1 else idCounter service) := by
  intro name
  obtain ⟨hid, hnext⟩ := takeDocumentId_sqlite hp request.documentId
  obtain ⟨hrows, houtbox, hevents⟩ := takeDocumentId_sqlite_rest p request.documentId
  simp only [runJob, createTransactionJob, hid]
  cases hv : validateDocumentName name with
  | error status =>
    refine .inl ⟨status, rfl, fun h => ?_⟩
    rw [h.valid] at hv
    cases hv
  | ok _ =>
    obtain ⟨n⟩ := documentName_of_valid hv
    cases hc : p.documents.contains name with
    | true =>
      exact .inl ⟨alreadyExists name, by simp only [n.databaseFromResource_eq, if_true, name],
        fun h => h.new ((stored_sqlite hp _).mpr hc)⟩
    | false =>
      simp only [name, n.databaseFromResource_eq, bind, Except.bind, Bool.false_eq_true, if_false]
      rcases insertOutbox_cases
          { (p.takeDocumentId request.documentId).2 with
            documents := (p.takeDocumentId request.documentId).2.documents.insert name
              ⟨n.database, codec.encode (createdDocument document name now)⟩ }
          (documentOutboxRecords codec ∅
            ((∅ : Documents).insert name (createdDocument document name now))) with
        ⟨p', hi, hrec⟩ | ⟨he, hfull, hi⟩
      · rw [hi]
        refine .inr ⟨⟨n.database, codec.encode (createdDocument document name now)⟩, p', rfl,
          trivial, trivial, ?_, hrec.autoId.trans hnext⟩
        rw [hrec.documents, hrows]
      · rw [hi]
        refine .inl ⟨_, rfl, fun h => ?_⟩
        have hroom := h.room p hp (hevents ▸ he)
        have hone := documentOutboxRecords_single codec name (createdDocument document name now)
        have hout : p.outstanding = p.outbox.countP OutboxRow.outstanding := rfl
        simp only [Persistence.outstanding, houtbox] at hfull
        omega

theorem createDocument_sqlite_outcome (hp : service.persistence = some p)
    (request : CreateDocumentRequest) (now : Timestamp) :
    CreateOutcome service request (createDocument codec service request now) := by
  have hself := FirestoreService.setPersistence_self hp
  unfold createDocument
  cases hdoc : request.document with
  | none => exact .refused (fun h => by simpa [hdoc] using h.document) _
  | some document =>
    dsimp only
    split
    · rename_i hempty
      exact .refused (fun h => hempty.elim h.parent h.collectionId) _
    · simp only [hp]
      rcases createTransactionJob_cases codec hp request document now with
        ⟨status, hjob, hno⟩ | ⟨row, p', hjob, hv, hnew, hrows, hcounter⟩
      · rw [hjob]
        dsimp only
        rw [hself]
        exact .refused hno status
      · rw [hjob]
        refine .inr ⟨_, rfl, rfl, hv, fun h => ?_, fun other => ?_, ?_⟩
        · rw [stored_sqlite hp, createdDocument, hnew] at h
          cases h
        · refine (stored_sqlite rfl other).trans ?_
          rw [stored_sqlite hp, hrows, ExtTreeMap.contains_iff_mem, ExtTreeMap.contains_iff_mem,
            ExtTreeMap.mem_insert, LawfulEqOrd.compare_eq_iff_eq]
          exact or_congr_left eq_comm
        · rw [← hcounter]
          exact idCounter_sqlite rfl

/-- A create request on either backend. -/
theorem createDocument_outcome (service : FirestoreService β) (request : CreateDocumentRequest)
    (now : Timestamp) :
    CreateOutcome service request (createDocument codec service request now) := by
  cases hp : service.persistence with
  | none => exact createDocument_memory_outcome codec hp request now
  | some p => exact createDocument_sqlite_outcome codec hp request now

end

/-- The document a write asks to store. -/
def Write.stores (write : Write) : Option String :=
  match write.operation with
  | some (.update document) => some document.name
  | _ => none

/-- The names under which a request asks to store documents, an automatic one apart. -/
def Request.stores : Request → List String
  | .createDocument request =>
    if request.documentId = "" then [] else [createdName request request.documentId]
  | .updateDocument request => (request.document.map Document.name).toList
  | .commit request => request.writes.filterMap Write.stores
  | .batchWrite request => request.writes.filterMap Write.stores
  | _ => []

/-- What a request other than a create does to the names and the counter. -/
structure NamesKept (service service' : FirestoreService β) (names : List String) : Prop where
  stored : ∀ name, Stored service' name →
    Stored service name ∨ name ∈ names ∧ validateDocumentName name = .ok ()
  counter : idCounter service' = idCounter service

section NamesKept
variable {service service' : FirestoreService β} {p p' : Persistence β} {names : List String}

theorem NamesKept.refl (service : FirestoreService β) (names : List String) :
    NamesKept service service names := ⟨fun _ h => .inl h, rfl⟩

theorem writeDocument_stores {existing : Option Document} {write : Write} {now : Timestamp}
    {result : WriteResult} {document : Document}
    (h : writeDocument existing write now = .ok (result, some document)) {name : String}
    (hn : writeName write = .ok name) :
    write.stores = some name ∧ validateDocumentName name = .ok () := by
  obtain ⟨name', hn', hv, hd⟩ := writeDocument_ok h
  obtain rfl := Except.ok.inj (hn.symm.trans hn')
  refine ⟨?_, hv⟩
  cases ho : write.operation with
  | none => simp [writeName, ho] at hn
  | some operation =>
    cases operation with
    | update updated =>
      simp only [writeName, ho, Except.ok.injEq] at hn
      simp only [Write.stores, ho, hn]
    | delete deleted =>
      have hnone := writeDocument_delete ho h
      cases hnone
    | transform transformed => simp [writeDocument, ho, throw, throwThe, MonadExceptOf.throw] at h

/-- Writes leave no document that was not there and that none of them stores. -/
theorem after_names {documents : Documents} {writes : List Write} {now : Timestamp} {name : String}
    (h : (((writeOps now).after documents writes)[name]?).isSome) :
    (documents[name]?).isSome ∨
      name ∈ writes.filterMap Write.stores ∧ validateDocumentName name = .ok () := by
  rw [KeyedOps.after_getElem?] at h
  rcases KeyedOps.entryAfter_source h with h | ⟨write, hw, hk, before, result, document, he⟩
  · exact .inl h
  · obtain ⟨hs, hv⟩ := writeDocument_stores he hk
    exact .inr ⟨List.mem_filterMap.mpr ⟨write, hw, hs⟩, hv⟩

theorem contains_isSome {α : Type} {m : ExtTreeMap String α} {name : String} :
    m.contains name = true ↔ (m[name]?).isSome = true := by
  rw [ExtTreeMap.contains_eq_isSome_getElem?]

theorem NamesKept.of_memory {after : Documents} {tokens : ExtTreeMap Bytes String}
    {events : List DocumentEvent} (hm : service.persistence = none)
    (h : MemoryEffect service service' after tokens events)
    (hnext : service'.store.nextId = service.store.nextId)
    (hnames : ∀ name : String, (after[name]?).isSome → (service.store.documents[name]?).isSome ∨
      name ∈ names ∧ validateDocumentName name = .ok ()) : NamesKept service service' names := by
  constructor
  · intro name hs
    rw [stored_memory h.persistence, h.documents, contains_isSome] at hs
    rw [stored_memory hm, contains_isSome]
    exact hnames name hs
  · rw [idCounter_memory hm, idCounter_memory h.persistence, hnext]

theorem NamesKept.of_sqlite {codec : DocumentCodec β} {database : String} {writes : List Write}
    {now : Timestamp} {before : Documents} (hp : service.persistence = some p)
    (hp' : service'.persistence = some p')
    (h : WroteRows codec p p' database writes now before) :
    NamesKept service service' (writes.filterMap Write.stores) := by
  constructor
  · intro name hs
    rw [stored_sqlite hp', contains_isSome, h.rows] at hs
    rw [stored_sqlite hp, contains_isSome]
    split at hs
    · rw [Option.isSome_map] at hs
      refine (after_names hs).imp_left fun hb => ?_
      rw [h.loaded, if_pos ‹_›, storedDocument] at hb
      cases hr : p.documents[name]? with
      | none => simp [hr] at hb
      | some row => rfl
    · exact .inl hs
  · rw [idCounter_sqlite hp, idCounter_sqlite hp', h.recorded.autoId]

/-- No request but a create moves the counter of the memory backend. -/
theorem handle_nextId (service : FirestoreService β) (call : Call)
    (h : ∀ request, call.request ≠ .createDocument request) :
    (handle codec service call).2.store.nextId = service.store.nextId := by
  have hreads : ∀ call, call.request.Reads →
      (handle codec service call).2.store.nextId = service.store.nextId := by
    intro call hr
    obtain ⟨tokens, hh⟩ := handle_reads codec service call hr
    rw [hh]
    rfl
  obtain ⟨request, now, uuid⟩ := call
  cases request with
  | createDocument request => exact absurd rfl (h request)
  | updateDocument request =>
    simp only [handle, answer, updateDocument]
    repeat' split
    all_goals rfl
  | deleteDocument request =>
    simp only [handle, answer, deleteDocument]
    repeat' split
    all_goals rfl
  | commit request =>
    simp only [handle, answer, commit, removeTransaction]
    repeat' split
    all_goals rfl
  | batchWrite request =>
    simp only [handle, answer, batchWrite]
    repeat' split
    all_goals rfl
  | clearDatabase database =>
    simp only [handle, answer, clearDatabase]
    repeat' split
    all_goals rfl
  | batchGetDocuments request => exact hreads ⟨.batchGetDocuments request, now, uuid⟩ trivial
  | beginTransaction database => exact hreads ⟨.beginTransaction database, now, uuid⟩ trivial
  | rollback request => exact hreads ⟨.rollback request, now, uuid⟩ trivial
  | runQuery request => exact hreads ⟨.runQuery request, now, uuid⟩ trivial

theorem contains_of_filter {α : Type} {m : ExtTreeMap String α} {keep : String → α → Bool}
    {name : String} (h : (m.filter keep).contains name = true) : m.contains name = true := by
  rw [ExtTreeMap.contains_iff_mem, mem_filter] at h
  obtain ⟨value, hv, -⟩ := h
  rw [contains_isSome, hv]
  rfl

/-- On the memory backend a request leaves no name but those there were and those it stores. -/
theorem handle_kept_memory (hm : service.persistence = none) {call : Call}
    (h : ∀ request, call.request ≠ .createDocument request) (hr : ¬ call.request.Reads) :
    NamesKept service (handle codec service call).2 call.request.stores := by
  have hnext := handle_nextId codec service call h
  obtain ⟨request, now, uuid⟩ := call
  cases request with
  | createDocument request => exact absurd rfl (h request)
  | updateDocument request =>
    cases hd : request.document with
    | none =>
      simp only [handle, answer, updateDocument_none codec service hd]
      exact .refl _ _
    | some document =>
      have hstores : (Request.updateDocument request).stores =
          [updateWrite request document].filterMap Write.stores := by
        simp [Request.stores, hd, updateWrite, Write.stores]
      rw [hstores]
      rcases updateDocument_memory codec service hm hd now with
        ⟨status, hs, -⟩ | ⟨stored, service', hs, -, -, heffect⟩
      · simp only [handle, answer, hs]
        exact .refl _ _
      · simp only [handle, answer, hs] at hnext ⊢
        exact .of_memory hm heffect hnext fun name => after_names
  | deleteDocument request =>
    have hstores : (Request.deleteDocument request).stores =
        [deleteWrite request].filterMap Write.stores := rfl
    rw [hstores]
    rcases deleteDocument_memory codec service hm request now with
      ⟨status, hs, -⟩ | ⟨service', hs, -, heffect⟩
    · simp only [handle, answer, hs]
      exact .refl _ _
    · simp only [handle, answer, hs] at hnext ⊢
      exact .of_memory hm heffect hnext fun name => after_names
  | commit request =>
    rcases commit_memory codec service hm request now with
      ⟨status, hs, -⟩ | ⟨results, service', hs, -, -, heffect⟩
    · simp only [handle, answer, hs]
      exact .refl _ _
    · simp only [handle, answer, hs] at hnext ⊢
      exact .of_memory hm heffect hnext fun name => after_names
  | batchWrite request =>
    obtain ⟨service', hs, heffect⟩ := batchWrite_memory codec service hm request now
    simp only [handle, answer, hs] at hnext ⊢
    exact .of_memory hm heffect hnext fun name => after_names
  | clearDatabase database =>
    simp only [handle, answer, clearDatabase, hm]
    split
    · exact .refl _ _
    · refine ⟨fun name hs => .inl ?_, ?_⟩
      · have hs := (stored_memory (by exact hm) name).mp hs
        exact (stored_memory hm name).mpr (contains_of_filter hs)
      · rw [idCounter_memory hm]
        exact idCounter_memory hm
  | _ => exact absurd trivial hr

/-- The same on the SQLite backend. -/
theorem handle_kept_sqlite (hp : service.persistence = some p) {call : Call}
    (h : ∀ request, call.request ≠ .createDocument request) (hr : ¬ call.request.Reads) :
    NamesKept service (handle codec service call).2 call.request.stores := by
  obtain ⟨request, now, uuid⟩ := call
  cases request with
  | createDocument request => exact absurd rfl (h request)
  | updateDocument request =>
    cases hd : request.document with
    | none =>
      simp only [handle, answer, updateDocument_none codec service hd]
      exact .refl _ _
    | some document =>
      have hstores : (Request.updateDocument request).stores =
          [updateWrite request document].filterMap Write.stores := by
        simp [Request.stores, hd, updateWrite, Write.stores]
      rw [hstores]
      rcases updateDocument_sqlite codec hp hd now with
        ⟨status, hs, -⟩ | ⟨stored, database, before, p', service', -, hs, -, -, wrote, hp', -⟩
      · simp only [handle, answer, hs]
        exact .refl _ _
      · simp only [handle, answer, hs]
        exact .of_sqlite hp hp' wrote
  | deleteDocument request =>
    have hstores : (Request.deleteDocument request).stores =
        [deleteWrite request].filterMap Write.stores := rfl
    rw [hstores]
    rcases deleteDocument_sqlite codec hp request now with
      ⟨status, hs, -⟩ | ⟨database, before, p', service', -, hs, -, wrote, hp', -⟩
    · simp only [handle, answer, hs]
      exact .refl _ _
    · simp only [handle, answer, hs]
      exact .of_sqlite hp hp' wrote
  | commit request =>
    rcases commit_sqlite codec hp request now with
      ⟨status, hs, -⟩ | ⟨before, p', service', hs, -, -, wrote, hp', -⟩
    · simp only [handle, answer, hs]
      exact .refl _ _
    · simp only [handle, answer, hs]
      exact .of_sqlite hp hp' wrote
  | batchWrite request =>
    rcases batchWrite_sqlite codec hp request now with
      ⟨status, hs, -⟩ | ⟨before, p', service', hs, wrote, hp', -⟩
    · simp only [handle, answer, hs]
      exact .refl _ _
    · simp only [handle, answer, hs]
      exact .of_sqlite hp hp' wrote
  | clearDatabase database =>
    simp only [handle, answer, clearDatabase, hp]
    split
    · exact .refl _ _
    · refine ⟨fun name hs => .inl ?_, (idCounter_sqlite hp).symm⟩
      exact (stored_sqlite hp name).mpr (contains_of_filter ((stored_sqlite rfl name).mp hs))
  | _ => exact absurd trivial hr

/-- A request other than a create leaves no name but those there were and those it stores. -/
theorem handle_kept (service : FirestoreService β) {call : Call}
    (h : ∀ request, call.request ≠ .createDocument request) :
    NamesKept service (handle codec service call).2 call.request.stores := by
  by_cases hr : call.request.Reads
  · obtain ⟨tokens, hh⟩ := handle_reads codec service call hr
    rw [hh]
    exact ⟨fun _ h => .inl h, rfl⟩
  · cases hp : service.persistence with
    | none => exact handle_kept_memory codec hp h hr
    | some p => exact handle_kept_sqlite codec hp h hr

end NamesKept

end FirebaseEmu.Firestore
