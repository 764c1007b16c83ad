import FirebaseEmu.Firestore.Outcomes

namespace FirebaseEmu.Firestore
open Lib Std

/-- Some write of the list names the document. -/
def Touched (writes : List Write) (name : String) : Prop :=
  ∃ write ∈ writes, writeName write = .ok name

instance (writes : List Write) (name : String) : Decidable (Touched writes name) :=
  inferInstanceAs (Decidable (∃ write ∈ writes, writeName write = .ok name))

theorem touchedNames_ok {writes : List Write} {names : List String}
    (h : touchedNames writes = .ok names) :
    names.Nodup ∧ ∀ name, name ∈ names ↔ Touched writes name := by
  simp only [touchedNames, bind, Except.bind, pure, Except.pure] at h
  split at h
  · cases h
  rename_i listed hl
  cases h
  have hmap : writes.map writeName = listed.map .ok := by
    rwa [mapM_eq_allOk, allOk_eq_ok] at hl
  refine ⟨List.nodup_dedup _, fun name => ?_⟩
  rw [List.mem_dedup, (List.perm_insertionSort _ _).mem_iff]
  constructor
  · intro hm
    have hm' : Except.ok name ∈ writes.map writeName := by
      rw [hmap]
      exact List.mem_map_of_mem hm
    exact List.mem_map.mp hm'
  · rintro ⟨write, hw, hn⟩
    have hm : Except.ok name ∈ listed.map (Except.ok (ε := Status)) := by
      rw [← hmap, ← hn]
      exact List.mem_map_of_mem hw
    simpa using hm

/-- The writes passed the check of the database: each names a document of it. -/
theorem validateWritesDatabase_ok {database : String} {writes : List Write}
    (h : validateWritesDatabase database writes = .ok ()) :
    databaseDocumentPrefix database = .ok (database ++ "/documents/") ∧
    ∀ write ∈ writes, ∃ name, writeName write = .ok name ∧ validateDocumentName name = .ok () ∧
      databaseFromResource name = .ok database := by
  simp only [validateWritesDatabase, bind, Except.bind] at h
  split at h
  · cases h
  rename_i pre hp
  obtain ⟨rfl, -⟩ := databaseDocumentPrefix_ok hp
  refine ⟨hp, fun write hw => ?_⟩
  have hcheck := forM_eq_ok.mp h write hw
  simp only [validateWriteDatabase, bind, Except.bind, pure, Except.pure] at hcheck
  split at hcheck
  · cases hcheck
  rename_i name hn
  split at hcheck
  · cases hcheck
  rename_i hv
  split at hcheck
  · cases hcheck
  rename_i found hf
  split at hcheck
  · cases hcheck
  · rename_i hd
    simp only [bne_iff_ne, ne_eq, not_not] at hd
    exact ⟨name, hn, hv, hd ▸ hf⟩

section Tables
variable {β : Type} (codec : DocumentCodec β)

/-- The document a row of the table holds, if it can be read. -/
def storedDocument (rows : ExtTreeMap String (Row β)) (name : String) : Option Document :=
  rows[name]?.bind fun row => (codec.decode row.document).toOption

theorem decodeDocument_ok {bytes : β} {document : Document}
    (h : decodeDocument codec bytes = .ok document) : codec.decode bytes = .ok document := by
  unfold decodeDocument at h
  cases hd : codec.decode bytes with
  | error e => simp [hd, Except.mapError] at h
  | ok d => simpa [hd, Except.mapError] using h

/-- The working map holds the rows of the names, decoded. -/
theorem loadDocuments_ok {rows : ExtTreeMap String (Row β)} {names : List String}
    {documents loaded : Documents} (h : loadDocuments codec rows names documents = .ok loaded)
    (name : String) :
    loaded[name]? =
      if name ∈ names ∧ rows[name]?.isSome then storedDocument codec rows name
      else documents[name]? := by
  induction names generalizing documents with
  | nil =>
    cases h
    simp
  | cons first names ih =>
    unfold loadDocuments at h
    cases hr : rows[first]? with
    | none =>
      rw [hr] at h
      rw [ih h]
      by_cases he : name = first
      · subst he
        simp [hr]
      · simp [he]
    | some row =>
      simp only [hr, bind, Except.bind] at h
      split at h
      · cases h
      rename_i document hd
      rw [ih h]
      by_cases he : first = name
      · subst he
        simp [hr, storedDocument, decodeDocument_ok codec hd, Except.toOption]
      · simp [ExtTreeMap.getElem?_insert, he, Ne.symm he]

/-- Rows that can be read are loaded. -/
theorem loadDocuments_of_decode {rows : ExtTreeMap String (Row β)} {names : List String}
    (h : ∀ name ∈ names, ∀ row : Row β, rows[name]? = some row →
      ∃ document, codec.decode row.document = .ok document) (documents : Documents) :
    ∃ loaded, loadDocuments codec rows names documents = .ok loaded := by
  induction names generalizing documents with
  | nil => exact ⟨documents, rfl⟩
  | cons first names ih =>
    have ih := ih fun name hm => h name (List.mem_cons_of_mem _ hm)
    unfold loadDocuments
    cases hr : rows[first]? with
    | none => exact ih documents
    | some row =>
      obtain ⟨document, hd⟩ := h first List.mem_cons_self row hr
      obtain ⟨loaded, hl⟩ := ih (documents.insert first document)
      exact ⟨loaded, by simp [decodeDocument, hd, Except.mapError, bind, Except.bind, hl]⟩

/-- The write-back loop sets the rows of the names from the working map. -/
theorem storeDocuments_get (database : String) (documents : Documents) (names : List String)
    (rows : ExtTreeMap String (Row β)) (name : String) :
    (names.foldl (storeDocument codec database documents) rows)[name]? =
      if name ∈ names then
        documents[name]?.map fun document => ⟨database, codec.encode document⟩
      else rows[name]? := by
  induction names generalizing rows with
  | nil => simp
  | cons first names ih =>
    rw [List.foldl_cons, ih]
    by_cases hm : name ∈ names
    · simp [hm]
    · by_cases he : first = name
      · subst he
        unfold storeDocument
        cases hd : documents[first]? <;> simp [hm]
      · unfold storeDocument
        cases hd : documents[first]? <;>
          simp [hm, he, Ne.symm he, ExtTreeMap.getElem?_insert, ExtTreeMap.getElem?_erase]

/-- Records reach the outbox when events are recorded, and change nothing else. -/
structure Recorded (p p' : Persistence β) (records : List (OutboxRecord β)) : Prop where
  documents : p'.documents = p.documents
  autoId : p'.autoId = p.autoId
  eventsEnabled : p'.eventsEnabled = p.eventsEnabled
  outbox : p'.outbox = p.outbox ++
    if p.eventsEnabled then outboxRows p.nextOutboxId records else []
  nextOutboxId : p'.nextOutboxId = p.nextOutboxId +
    if p.eventsEnabled then records.length else 0
  fits : p.eventsEnabled = true → p.outstanding + records.length ≤ outboxCapacity

theorem insertOutbox_cases (p : Persistence β) (records : List (OutboxRecord β)) :
    (∃ p', insertOutbox p records = .ok p' ∧ Recorded p p' records) ∨
    (p.eventsEnabled = true ∧ outboxCapacity < p.outstanding + records.length ∧
      insertOutbox p records = .error (.outboxFull p.outstanding)) := by
  unfold insertOutbox
  split
  · rename_i he
    have he : p.eventsEnabled = false := by simpa using he
    exact .inl ⟨p, rfl, rfl, rfl, rfl, by simp [he], by simp [he], by simp [he]⟩
  · rename_i he
    have he : p.eventsEnabled = true := by simpa using he
    split
    · rename_i hfull
      exact .inr ⟨he, hfull, rfl⟩
    · rename_i hfits
      exact .inl ⟨_, rfl, rfl, rfl, rfl, by simp [he], by simp [he], fun _ => Nat.not_lt.mp hfits⟩

/-- The working map of a request: the documents of the rows its writes name. -/
def Loaded (rows : ExtTreeMap String (Row β)) (writes : List Write) (before : Documents) : Prop :=
  ∀ name, before[name]? = if Touched writes name then storedDocument codec rows name else none

/-- What an accepted request leaves in the tables. -/
structure WroteRows (p p' : Persistence β) (database : String) (writes : List Write)
    (writeTime : Timestamp) (before : Documents) : Prop where
  valid : validateWritesDatabase database writes = .ok ()
  loaded : Loaded codec p.documents writes before
  rows : ∀ name, p'.documents[name]? =
    if Touched writes name then
      ((writeOps writeTime).after before writes)[name]?.map fun document =>
        ⟨database, codec.encode document⟩
    else p.documents[name]?
  recorded : Recorded { p with documents := p'.documents } p'
    (documentOutboxRecords codec before ((writeOps writeTime).after before writes))

/-- Why a request leaves the tables as they were: a write outside its database, a row that
cannot be read, a refused write, or a full outbox. -/
inductive WriteRefusal (p : Persistence β) (database : String) (writes : List Write)
    (allowPartial : Bool) (writeTime : Timestamp) : Status → Prop
  | scope {status : Status} (h : validateWritesDatabase database writes = .error status) :
    WriteRefusal p database writes allowPartial writeTime status
  | unreadable {status : Status} {name : String} {row : Row β} {e : String}
    (hr : p.documents[name]? = some row) (hd : codec.decode row.document = .error e) :
    WriteRefusal p database writes allowPartial writeTime status
  | write {status : Status} {before : Documents} (ha : allowPartial = false)
    (hv : validateWritesDatabase database writes = .ok ())
    (hb : Loaded codec p.documents writes before)
    (h : allOk ((writeOps writeTime).outcomes before writes) = .error status) :
    WriteRefusal p database writes allowPartial writeTime status
  | full (he : p.eventsEnabled = true) :
    WriteRefusal p database writes allowPartial writeTime
      (persistenceStatus (.outboxFull p.outstanding))

theorem touchedNames_of_valid {database : String} {writes : List Write}
    (h : validateWritesDatabase database writes = .ok ()) :
    ∃ names, touchedNames writes = .ok names := by
  have hnames : ∃ listed, writes.mapM writeName = .ok listed := by
    have hall : (allOk (writes.map writeName)).isOk := by
      rw [allOk_isOk]
      intro outcome hm
      obtain ⟨write, hw, rfl⟩ := List.mem_map.mp hm
      obtain ⟨name, hn, -⟩ := (validateWritesDatabase_ok h).2 write hw
      rw [hn]
      rfl
    rw [mapM_eq_allOk]
    cases ha : allOk (writes.map writeName) with
    | error status => simp [ha, Except.isOk, Except.toBool] at hall
    | ok listed => exact ⟨listed, rfl⟩
  obtain ⟨listed, hl⟩ := hnames
  refine ⟨(listed.insertionSort (· ≤ ·)).dedup, ?_⟩
  simp [touchedNames, hl, bind, Except.bind, pure, Except.pure]

/-- The write loop of the transaction, in terms of the outcomes of the writes. -/
theorem applyWrites_cases (writeTime : Timestamp) (allowPartial : Bool) (before : Documents)
    (writes : List Write) :
    let outcomes := (writeOps writeTime).outcomes before writes
    (∃ status, allowPartial = false ∧ allOk outcomes = .error status ∧
      (applyWrites writeTime allowPartial before writes [] []).1 = .error status) ∨
    ((allowPartial = false → (allOk outcomes).isOk) ∧
      applyWrites writeTime allowPartial before writes [] [] =
        (.ok (outcomes.map resultOf, outcomes.map rpcStatusOf),
          (writeOps writeTime).after before writes)) := by
  intro outcomes
  cases allowPartial with
  | true =>
    refine .inr ⟨by simp, ?_⟩
    rw [applyWrites_lenient, batchWrites_eq]
    rfl
  | false =>
    have hfst := pendingWrites_fst writeTime before writes []
    rw [applyWrites_strict]
    cases ho : allOk ((writeOps writeTime).outcomes before writes) with
    | error status =>
      rw [ho] at hfst
      exact .inl ⟨status, rfl, rfl, by rw [hfst]; rfl⟩
    | ok results =>
      rw [ho] at hfst
      refine .inr ⟨fun _ => rfl, ?_⟩
      have hresults : outcomes.map resultOf = results := map_resultOf ho
      have hstatuses : outcomes.map rpcStatusOf = writes.map fun _ => RpcStatus.default := by
        have hl : results.length = writes.length := by
          simpa using (congrArg List.length (allOk_eq_ok.mp ho)).symm
        rw [show outcomes = results.map .ok from allOk_eq_ok.mp ho, List.map_map]
        simp [Function.comp_def, rpcStatusOf, List.map_const', hl]
      rw [pendingWrites_snd hfst, hfst, hresults, hstatuses]
      rfl

/-- A request on the SQLite backend is refused with the tables as they were, or answers
its writes and leaves their rows. -/
theorem persistentWrites_cases (p : Persistence β) (database : String) (writes : List Write)
    (allowPartial : Bool) (writeTime : Timestamp) :
    (∃ status, persistentWrites codec p database writes allowPartial writeTime =
        (.error status, p) ∧
      WriteRefusal codec p database writes allowPartial writeTime status) ∨
    (∃ before p', persistentWrites codec p database writes allowPartial writeTime =
        (.ok (((writeOps writeTime).outcomes before writes).map resultOf,
          ((writeOps writeTime).outcomes before writes).map rpcStatusOf,
          (writeOps writeTime).after before writes), p') ∧
      (allowPartial = false → (allOk ((writeOps writeTime).outcomes before writes)).isOk) ∧
      WroteRows codec p p' database writes writeTime before) := by
  unfold persistentWrites
  cases hv : validateWritesDatabase database writes with
  | error status => exact .inl ⟨status, rfl, .scope hv⟩
  | ok _ =>
    obtain ⟨names, hn⟩ := touchedNames_of_valid hv
    obtain ⟨-, hmem⟩ := touchedNames_ok hn
    rw [hn]
    dsimp only [runJob, writeTransaction]
    cases hl : loadDocuments codec p.documents names ∅ with
    | error e =>
      refine .inl ⟨persistenceStatus e, rfl, ?_⟩
      by_contra hno
      have hread : ∀ name ∈ names, ∀ row : Row β, p.documents[name]? = some row →
          ∃ document, codec.decode row.document = .ok document := by
        intro name _ row hr
        cases hd : codec.decode row.document with
        | ok document => exact ⟨document, rfl⟩
        | error e => exact absurd (.unreadable hr hd) hno
      obtain ⟨loaded, hl'⟩ := loadDocuments_of_decode codec hread ∅
      rw [hl] at hl'
      cases hl'
    | ok before =>
      have hloaded : Loaded codec p.documents writes before := by
        intro name
        rw [loadDocuments_ok codec hl]
        cases hr : p.documents[name]? <;> simp [storedDocument, hr, hmem]
      dsimp only [bind, Except.bind]
      rcases applyWrites_cases writeTime allowPartial before writes with
        ⟨status, ha, ho, hw⟩ | ⟨hall, hw⟩
      · refine .inl ⟨status, ?_, .write ha hv hloaded ho⟩
        generalize applyWrites writeTime allowPartial before writes [] [] = outcome at hw
        obtain ⟨result, documents⟩ := outcome
        dsimp only at hw
        rw [hw]
        rfl
      · rw [hw]
        dsimp only
        rcases insertOutbox_cases { p with documents := names.foldl (storeDocument codec database
            ((writeOps writeTime).after before writes)) p.documents }
            (documentOutboxRecords codec before ((writeOps writeTime).after before writes)) with
          ⟨p', hi, hrec⟩ | ⟨he, -, hi⟩
        · rw [hi]
          refine .inr ⟨before, p', rfl, hall, hv, hloaded, fun name => ?_, ?_⟩
          · rw [hrec.documents, storeDocuments_get]
            simp only [hmem]
          · rw [hrec.documents]
            exact hrec
        · rw [hi]
          exact .inl ⟨_, rfl, .full he⟩

section Handlers
variable {service : FirestoreService β} {p : Persistence β}

/-- A commit on the SQLite backend is refused with nothing changed, by its token or with
its writes, or it leaves the rows of its writes and spends its token. -/
theorem commit_sqlite (hp : service.persistence = some p) (request : CommitRequest)
    (commitTime : Timestamp) :
    let checked := checkTransaction service.store request.database request.transaction
    (∃ status, commit codec service request commitTime = (.error status, service) ∧
      (checked = .error status ∨ checked = .ok () ∧
        WriteRefusal codec p request.database request.writes false commitTime status)) ∨
    (∃ before p' service', commit codec service request commitTime =
        (.ok ⟨((writeOps commitTime).outcomes before request.writes).map resultOf,
          some commitTime⟩, service') ∧
      checked = .ok () ∧
      (allOk ((writeOps commitTime).outcomes before request.writes)).isOk ∧
      WroteRows codec p p' request.database request.writes commitTime before ∧
      service'.persistence = some p' ∧
      service'.store = removeTransaction service.store request.transaction) := by
  intro checked
  unfold commit
  cases hc : checkTransaction service.store request.database request.transaction with
  | error status => exact .inl ⟨status, rfl, .inl hc⟩
  | ok _ =>
    simp only [hp]
    rcases persistentWrites_cases codec p request.database request.writes false commitTime with
      ⟨status, hw, hr⟩ | ⟨before, p', hw, hall, wrote⟩
    · rw [hw]
      exact .inl ⟨status, congrArg _ (FirestoreService.setPersistence_self hp), .inr ⟨hc, hr⟩⟩
    · rw [hw]
      exact .inr ⟨before, p', _, rfl, hc, hall rfl, wrote, rfl, rfl⟩

/-- A batch write on the SQLite backend. -/
theorem batchWrite_sqlite (hp : service.persistence = some p) (request : BatchWriteRequest)
    (writeTime : Timestamp) :
    (∃ status, batchWrite codec service request writeTime = (.error status, service) ∧
      WriteRefusal codec p request.database request.writes true writeTime status) ∨
    (∃ before p' service', batchWrite codec service request writeTime =
        (.ok ⟨((writeOps writeTime).outcomes before request.writes).map resultOf,
          ((writeOps writeTime).outcomes before request.writes).map rpcStatusOf⟩, service') ∧
      WroteRows codec p p' request.database request.writes writeTime before ∧
      service'.persistence = some p' ∧ service'.store = service.store) := by
  unfold batchWrite
  simp only [hp]
  rcases persistentWrites_cases codec p request.database request.writes true writeTime with
    ⟨status, hw, hr⟩ | ⟨before, p', hw, -, wrote⟩
  · rw [hw]
    exact .inl ⟨status, congrArg _ (FirestoreService.setPersistence_self hp), hr⟩
  · rw [hw]
    exact .inr ⟨before, p', _, rfl, wrote, rfl, rfl⟩

/-- A single-write request on the SQLite backend answers with the first outcome. -/
theorem persistentWrites_strict_cases (p : Persistence β) (database : String) (write : Write)
    (now : Timestamp) :
    (∃ status, persistentWrites codec p database [write] false now = (.error status, p) ∧
      WriteRefusal codec p database [write] false now status) ∨
    (∃ before results statuses p', persistentWrites codec p database [write] false now =
        (.ok (results, statuses, (writeOps now).after before [write]), p') ∧
      (allOk ((writeOps now).outcomes before [write])).isOk ∧
      WroteRows codec p p' database [write] now before) := by
  rcases persistentWrites_cases codec p database [write] false now with
    ⟨status, hw, hr⟩ | ⟨before, p', hw, hall, wrote⟩
  · exact .inl ⟨status, hw, hr⟩
  · exact .inr ⟨before, _, _, p', hw, hall rfl, wrote⟩

/-- An update on the SQLite backend. -/
theorem updateDocument_sqlite (hp : service.persistence = some p)
    {request : UpdateDocumentRequest} {document : Document} (hd : request.document = some document)
    (now : Timestamp) :
    (∃ status, updateDocument codec service request now = (.error status, service) ∧
      (databaseFromResource document.name = .error status ∨
        ∃ database, databaseFromResource document.name = .ok database ∧
          WriteRefusal codec p database [updateWrite request document] false now status)) ∨
    (∃ stored database before p' service', databaseFromResource document.name = .ok database ∧
      updateDocument codec service request now = (.ok stored, service') ∧
      (allOk ((writeOps now).outcomes before [updateWrite request document])).isOk ∧
      ((writeOps now).after before [updateWrite request document])[document.name]? = some stored ∧
      WroteRows codec p p' database [updateWrite request document] now before ∧
      service'.persistence = some p' ∧ service'.store = service.store) := by
  simp only [updateDocument, hd, hp]
  cases hdb : databaseFromResource document.name with
  | error status => exact .inl ⟨status, rfl, .inl rfl⟩
  | ok database =>
    rcases persistentWrites_strict_cases codec p database (updateWrite request document) now with
      ⟨status, hw, hr⟩ | ⟨before, results, statuses, p', hw, hall, wrote⟩
    · simp only [hw]
      exact .inl ⟨status, by rw [FirestoreService.setPersistence_self hp],
        .inr ⟨database, rfl, hr⟩⟩
    · obtain ⟨stored, hs⟩ := update_stored hall
      simp only [hw, hs]
      exact .inr ⟨stored, database, before, p', _, rfl, rfl, hall, hs, wrote, rfl, rfl⟩

/-- A delete on the SQLite backend. -/
theorem deleteDocument_sqlite (hp : service.persistence = some p) (request : DeleteDocumentRequest)
    (now : Timestamp) :
    (∃ status, deleteDocument codec service request now = (.error status, service) ∧
      (validateDocumentName request.name = .error status ∨
        databaseFromResource request.name = .error status ∨
        ∃ database, databaseFromResource request.name = .ok database ∧
          WriteRefusal codec p database [deleteWrite request] false now status)) ∨
    (∃ database before p' service', databaseFromResource request.name = .ok database ∧
      deleteDocument codec service request now = (.ok (), service') ∧
      (allOk ((writeOps now).outcomes before [deleteWrite request])).isOk ∧
      WroteRows codec p p' database [deleteWrite request] now before ∧
      service'.persistence = some p' ∧ service'.store = service.store) := by
  unfold deleteDocument
  cases hv : validateDocumentName request.name with
  | error status => exact .inl ⟨status, rfl, .inl rfl⟩
  | ok _ =>
    simp only [hp]
    cases hdb : databaseFromResource request.name with
    | error status => exact .inl ⟨status, rfl, .inr (.inl rfl)⟩
    | ok database =>
      rcases persistentWrites_strict_cases codec p database (deleteWrite request) now with
        ⟨status, hw, hr⟩ | ⟨before, results, statuses, p', hw, hall, wrote⟩
      · simp only [hw]
        exact .inl ⟨status, by rw [FirestoreService.setPersistence_self hp],
          .inr (.inr ⟨database, rfl, hr⟩)⟩
      · simp only [hw]
        exact .inr ⟨database, before, p', _, rfl, rfl, hall, wrote, rfl, rfl⟩

/-- A create on the SQLite backend is refused by its checks or by a full outbox, with the
tables as they were, or stores a new row. -/
theorem createDocument_sqlite (hp : service.persistence = some p) (request : CreateDocumentRequest)
    (now : Timestamp) :
    let checked := createCheck request (p.takeDocumentId request.documentId).1 p.documents.contains
    (∃ status, createDocument codec service request now = (.error status, service) ∧
      (checked = .error status ∨
        ∃ outstanding, status = persistenceStatus (.outboxFull outstanding))) ∨
    (∃ document name database p' service', createDocument codec service request now =
        (.ok (createdDocument document name now), service') ∧
      checked = .ok (document, name) ∧ databaseFromResource name = .ok database ∧
      p'.documents = p.documents.insert name
        ⟨database, codec.encode (createdDocument document name now)⟩ ∧
      Recorded { p with documents := p'.documents, autoId := p'.autoId } p'
        (documentOutboxRecords codec ∅
          ((∅ : Documents).insert name (createdDocument document name now))) ∧
      service'.persistence = some p' ∧ service'.store = service.store) := by
  intro checked
  have hself := FirestoreService.setPersistence_self hp
  have hcounted : (p.takeDocumentId request.documentId).2.documents = p.documents ∧
      (p.takeDocumentId request.documentId).2.outbox = p.outbox ∧
      (p.takeDocumentId request.documentId).2.nextOutboxId = p.nextOutboxId ∧
      (p.takeDocumentId request.documentId).2.eventsEnabled = p.eventsEnabled := by
    unfold Persistence.takeDocumentId
    split <;> exact ⟨rfl, rfl, rfl, rfl⟩
  obtain ⟨hrows, houtbox, hnext, hevents⟩ := hcounted
  have hchecked : checked = createCheck request (p.takeDocumentId request.documentId).1
      p.documents.contains := rfl
  rw [hchecked]
  unfold createDocument createCheck
  cases request.document with
  | none => exact .inl ⟨_, rfl, .inl rfl⟩
  | some document =>
    dsimp only
    split
    · exact .inl ⟨_, rfl, .inl rfl⟩
    simp only [hp, runJob, createTransactionJob]
    generalize createdName request (p.takeDocumentId request.documentId).1 = name
    cases hv : validateDocumentName name with
    | error status => exact .inl ⟨status, congrArg _ hself, .inl rfl⟩
    | ok _ =>
      obtain ⟨n⟩ := documentName_of_valid hv
      simp only [n.databaseFromResource_eq]
      cases p.documents.contains name with
      | true => exact .inl ⟨_, congrArg _ hself, .inl rfl⟩
      | false =>
        simp only [bind, Except.bind, Bool.false_eq_true, if_false]
        rcases insertOutbox_cases
            { (p.takeDocumentId request.documentId).2 with
              documents := (p.takeDocumentId request.documentId).2.documents.insert name
                ⟨n.database, codec.encode (createdDocument document name now)⟩ }
            (documentOutboxRecords codec ∅
              ((∅ : Documents).insert name (createdDocument document name now))) with
          ⟨p', hi, hrec⟩ | ⟨-, -, hi⟩
        · rw [hi]
          refine .inr ⟨document, name, n.database, p', _, rfl, rfl, n.databaseFromResource_eq, ?_,
            ?_, rfl, rfl⟩
          · rw [hrec.documents, hrows]
          · obtain ⟨-, -, hen, hout, hid, hfits⟩ := hrec
            simp only [hevents, hnext, houtbox, Persistence.outstanding] at hen hout hid hfits
            exact ⟨rfl, rfl, hen, hout, hid, hfits⟩
        · rw [hi]
          exact .inl ⟨_, congrArg _ hself, .inr ⟨_, rfl⟩⟩

end Handlers

end Tables

end FirebaseEmu.Firestore
