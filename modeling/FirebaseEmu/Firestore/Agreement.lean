import FirebaseEmu.Firestore.Memory
import FirebaseEmu.Firestore.Requests
import FirebaseEmu.Firestore.Rows
import FirebaseEmu.Firestore.Sample

namespace FirebaseEmu.Firestore
open Lib Std

variable {β : Type} (codec : DocumentCodec β)

/-- An in-memory and a SQLite service that hold the same documents and transactions. -/
structure SameStores (memory sqlite : FirestoreService β) : Prop where
  inMemory : memory.persistence = none
  rows : ∃ p, sqlite.persistence = some p ∧ SameRows codec p.documents memory.store.documents
  transactions : memory.store.transactions = sqlite.store.transactions

/-- The refusal of a SQLite request whose events do not fit the outbox. -/
def OutboxFull {α : Type} (reply : Except Status α) : Prop :=
  ∃ outstanding, reply = .error (persistenceStatus (.outboxFull outstanding))

/-- The requests both backends serve alike: each write names a valid document of the
request's database. -/
def Request.Admissible : Request → Prop
  | .createDocument request => request.documentId ≠ ""
  | .updateDocument request =>
    ∀ document, request.document = some document → validateDocumentName document.name = .ok ()
  | .deleteDocument request => validateDocumentName request.name = .ok ()
  | .commit request => validateWritesDatabase request.database request.writes = .ok ()
  | .batchWrite request => validateWritesDatabase request.database request.writes = .ok ()
  | .clearDatabase _ => True
  | _ => False

variable {codec}

section Handlers
variable {memory sqlite : FirestoreService β}

theorem SameStores.checkTransaction_eq (h : SameStores codec memory sqlite) (database : String)
    (transaction : Bytes) :
    checkTransaction memory.store database transaction =
      checkTransaction sqlite.store database transaction := by
  simp only [checkTransaction, validateTransaction, h.transactions]

theorem SameStores.removeTransaction_eq (h : SameStores codec memory sqlite) (transaction : Bytes) :
    (removeTransaction memory.store transaction).transactions =
      (removeTransaction sqlite.store transaction).transactions := by
  unfold removeTransaction
  split
  · exact h.transactions
  · exact congrArg (·.erase transaction) h.transactions

theorem SameStores.commit (h : SameStores codec memory sqlite) {request : CommitRequest}
    {now : Timestamp} (hv : validateWritesDatabase request.database request.writes = .ok ())
    (hfull : ¬ OutboxFull (commit codec sqlite request now).1) :
    (commit codec memory request now).1 = (commit codec sqlite request now).1 ∧
      SameStores codec (commit codec memory request now).2 (commit codec sqlite request now).2 := by
  obtain ⟨p, hp, hrows⟩ := h.rows
  have hchecked := h.checkTransaction_eq request.database request.transaction
  rcases commit_memory codec memory h.inMemory request now with
    ⟨status, hm, hrm⟩ | ⟨results, memory', hm, hcm, ho, effect⟩ <;>
  rcases commit_sqlite codec hp request now with
    ⟨status', hs, hrs⟩ | ⟨before, p', sqlite', hs, hcs, hall, wrote, hp', hstore⟩
  · have hstatus : status = status' := by
      rw [hs] at hfull
      rcases hrm with hrm | ⟨hcm, hrm⟩ <;> rcases hrs with hrs | ⟨hcs, hrs⟩
      · exact Except.error.inj (hrm.symm.trans (hchecked.trans hrs))
      · cases hrm.symm.trans (hchecked.trans hcs)
      · cases hcm.symm.trans (hchecked.trans hrs)
      · rcases hrows.refusal hv hrs with ⟨-, ho⟩ | ⟨n, rfl⟩
        · exact Except.error.inj (hrm.symm.trans ho)
        · exact absurd ⟨n, rfl⟩ hfull
    rw [hm, hs, hstatus]
    exact ⟨rfl, h⟩
  · rcases hrm with hrm | ⟨-, hrm⟩
    · cases hrm.symm.trans (hchecked.trans hcs)
    · rw [hrows.outcomes_eq wrote.loaded, hrm] at hall
      cases hall
  · rw [hs] at hfull
    rcases hrs with hrs | ⟨-, hrs⟩
    · cases hcm.symm.trans (hchecked.trans hrs)
    · rcases hrows.refusal hv hrs with ⟨-, ho'⟩ | ⟨n, rfl⟩
      · cases ho.symm.trans ho'
      · exact absurd ⟨n, rfl⟩ hfull
  · rw [hm, hs]
    refine ⟨?_, effect.persistence, ⟨p', hp', ?_⟩, ?_⟩
    · rw [hrows.outcomes_eq wrote.loaded, map_resultOf ho]
    · rw [effect.documents]
      exact hrows.wrote wrote
    · rw [effect.transactions, hstore]
      exact h.removeTransaction_eq request.transaction

theorem SameStores.batchWrite (h : SameStores codec memory sqlite) {request : BatchWriteRequest}
    {now : Timestamp} (hv : validateWritesDatabase request.database request.writes = .ok ())
    (hfull : ¬ OutboxFull (batchWrite codec sqlite request now).1) :
    (batchWrite codec memory request now).1 = (batchWrite codec sqlite request now).1 ∧
      SameStores codec (batchWrite codec memory request now).2
        (batchWrite codec sqlite request now).2 := by
  obtain ⟨p, hp, hrows⟩ := h.rows
  obtain ⟨memory', hm, effect⟩ := batchWrite_memory codec memory h.inMemory request now
  rcases batchWrite_sqlite codec hp request now with
    ⟨status, hs, hr⟩ | ⟨before, p', sqlite', hs, wrote, hp', hstore⟩
  · rw [hs] at hfull
    rcases hrows.refusal hv hr with ⟨ha, -⟩ | ⟨n, rfl⟩
    · cases ha
    · exact absurd ⟨n, rfl⟩ hfull
  · rw [hm, hs]
    refine ⟨by rw [hrows.outcomes_eq wrote.loaded], effect.persistence, ⟨p', hp', ?_⟩, ?_⟩
    · rw [effect.documents]
      exact hrows.wrote wrote
    · rw [effect.transactions, hstore, h.transactions]

/-- A valid name passes the check of its own database. -/
theorem validate_single {write : Write} {name database : String}
    (hn : writeName write = .ok name) (hv : validateDocumentName name = .ok ())
    (hd : databaseFromResource name = .ok database) :
    validateWritesDatabase database [write] = .ok () := by
  obtain ⟨n⟩ := documentName_of_valid hv
  obtain rfl := Except.ok.inj (n.databaseFromResource_eq.symm.trans hd)
  have hp := databaseDocumentPrefix_of_split n.project_ne n.id_ne n.split_database
  have hcheck : validateWriteDatabase n.database write = .ok () := by
    simp [validateWriteDatabase, hn, hv, n.databaseFromResource_eq, bind, Except.bind, pure,
      Except.pure]
  simp [validateWritesDatabase, hp, hcheck, bind, Except.bind, pure, Except.pure]

/-- A request of one write for the database of its own document is refused by that
write or by a full outbox. -/
theorem SameRows.refusal_single {documents : Documents} {p : Persistence β}
    (h : SameRows codec p.documents documents) {write : Write} {name : String}
    (hn : writeName write = .ok name) (hv : validateDocumentName name = .ok ())
    {now : Timestamp} {status : Status}
    (hr : databaseFromResource name = .error status ∨
      ∃ database, databaseFromResource name = .ok database ∧
        WriteRefusal codec p database [write] false now status) :
    allOk ((writeOps now).outcomes documents [write]) = .error status ∨
      ∃ outstanding, status = persistenceStatus (.outboxFull outstanding) := by
  rcases hr with hr | ⟨database, hd, hr⟩
  · obtain ⟨n⟩ := documentName_of_valid hv
    cases n.databaseFromResource_eq.symm.trans hr
  · rcases h.refusal (validate_single hn hv hd) hr with ⟨-, ho⟩ | hfull
    · exact .inl ho
    · exact .inr hfull

theorem SameStores.updateDocument (h : SameStores codec memory sqlite)
    {request : UpdateDocumentRequest} {now : Timestamp}
    (hv : ∀ document, request.document = some document → validateDocumentName document.name = .ok ())
    (hfull : ¬ OutboxFull (updateDocument codec sqlite request now).1) :
    (updateDocument codec memory request now).1 = (updateDocument codec sqlite request now).1 ∧
      SameStores codec (updateDocument codec memory request now).2
        (updateDocument codec sqlite request now).2 := by
  obtain ⟨p, hp, hrows⟩ := h.rows
  cases hd : request.document with
  | none =>
    rw [updateDocument_none codec memory hd, updateDocument_none codec sqlite hd]
    exact ⟨rfl, h⟩
  | some document =>
    have hn : writeName (updateWrite request document) = .ok document.name := rfl
    rcases updateDocument_memory codec memory h.inMemory hd now with
      ⟨status, hm, ho⟩ | ⟨stored, memory', hm, ho, hstored, effect⟩ <;>
    rcases updateDocument_sqlite codec hp hd now with
      ⟨status', hs, hr⟩ | ⟨stored', database, before, p', sqlite', hdb, hs, ho', hstored', wrote,
        hp', hstore⟩
    · rw [hs] at hfull
      rcases hrows.refusal_single hn (hv document hd) hr with ho' | ⟨outstanding, rfl⟩
      · rw [hm, hs, Except.error.inj (ho.symm.trans ho')]
        exact ⟨rfl, h⟩
      · exact absurd ⟨outstanding, rfl⟩ hfull
    · rw [hrows.outcomes_eq wrote.loaded, ho] at ho'
      cases ho'
    · rw [hs] at hfull
      rcases hrows.refusal_single hn (hv document hd) hr with ho' | ⟨outstanding, rfl⟩
      · rw [ho'] at ho
        cases ho
      · exact absurd ⟨outstanding, rfl⟩ hfull
    · have ht : Touched [updateWrite request document] document.name :=
        ⟨_, List.mem_singleton_self _, hn⟩
      rw [hrows.after_eq wrote.loaded now ht] at hstored'
      rw [hm, hs, Option.some.inj (hstored.symm.trans hstored')]
      refine ⟨rfl, effect.persistence, ⟨p', hp', ?_⟩, ?_⟩
      · rw [effect.documents]
        exact hrows.wrote wrote
      · rw [effect.transactions, hstore, h.transactions]

theorem SameStores.deleteDocument (h : SameStores codec memory sqlite)
    {request : DeleteDocumentRequest} {now : Timestamp}
    (hv : validateDocumentName request.name = .ok ())
    (hfull : ¬ OutboxFull (deleteDocument codec sqlite request now).1) :
    (deleteDocument codec memory request now).1 = (deleteDocument codec sqlite request now).1 ∧
      SameStores codec (deleteDocument codec memory request now).2
        (deleteDocument codec sqlite request now).2 := by
  obtain ⟨p, hp, hrows⟩ := h.rows
  have hn : writeName (deleteWrite request) = .ok request.name := rfl
  rcases deleteDocument_memory codec memory h.inMemory request now with
    ⟨status, hm, hrm⟩ | ⟨memory', hm, ho, effect⟩ <;>
  rcases deleteDocument_sqlite codec hp request now with
    ⟨status', hs, hrs⟩ | ⟨database, before, p', sqlite', hdb, hs, ho', wrote, hp', hstore⟩
  · rw [hs] at hfull
    rcases hrm with hrm | ho
    · cases hv.symm.trans hrm
    rcases hrs with hrs | hrs
    · cases hv.symm.trans hrs
    rcases hrows.refusal_single hn hv hrs with ho' | ⟨outstanding, rfl⟩
    · rw [hm, hs, Except.error.inj (ho.symm.trans ho')]
      exact ⟨rfl, h⟩
    · exact absurd ⟨outstanding, rfl⟩ hfull
  · rcases hrm with hrm | ho
    · cases hv.symm.trans hrm
    · rw [hrows.outcomes_eq wrote.loaded, ho] at ho'
      cases ho'
  · rw [hs] at hfull
    rcases hrs with hrs | hrs
    · cases hv.symm.trans hrs
    rcases hrows.refusal_single hn hv hrs with ho' | ⟨outstanding, rfl⟩
    · rw [ho'] at ho
      cases ho
    · exact absurd ⟨outstanding, rfl⟩ hfull
  · rw [hm, hs]
    refine ⟨rfl, effect.persistence, ⟨p', hp', ?_⟩, ?_⟩
    · rw [effect.documents]
      exact hrows.wrote wrote
    · rw [effect.transactions, hstore, h.transactions]

theorem SameStores.clearDatabase (h : SameStores codec memory sqlite) (database : String) :
    (clearDatabase memory database).1 = (clearDatabase sqlite database).1 ∧
      SameStores codec (clearDatabase memory database).2 (clearDatabase sqlite database).2 := by
  obtain ⟨p, hp, hrows⟩ := h.rows
  unfold Firestore.clearDatabase
  cases hd : databaseDocumentPrefix database with
  | error status => exact ⟨rfl, h⟩
  | ok pre =>
    obtain ⟨rfl, project, id, -, -, hsplit⟩ := databaseDocumentPrefix_ok hd
    simp only [h.inMemory, hp]
    refine ⟨trivial, h.inMemory, ⟨_, rfl, fun name => ?_⟩,
      congrArg (·.filter fun _ transactionDatabase => transactionDatabase != database)
        h.transactions⟩
    show Option.Rel _ (ExtTreeMap.filter _ p.documents)[name]?
      (ExtTreeMap.filter _ memory.store.documents)[name]?
    rw [ExtTreeMap.getElem?_filter', ExtTreeMap.getElem?_filter']
    cases hr : p.documents[name]? with
    | none =>
      rw [hrows.none_left hr]
      exact .none
    | some row =>
      obtain ⟨document, hdoc, hs⟩ := hrows.some_left hr
      obtain ⟨n⟩ := documentName_of_valid hs.valid
      have hdatabase := Except.ok.inj (n.databaseFromResource_eq.symm.trans hs.database)
      have hpre := n.startsWith_iff ⟨project, id, hsplit⟩
      rw [hdatabase] at hpre
      rw [hdoc]
      by_cases he : row.databaseName = database
      · simp only [Option.filter_some, he, hpre.mpr he, bne_self_eq_false, Bool.not_true,
          Bool.false_eq_true, if_false]
        exact .none
      · have hs' : startsWith name (database ++ "/documents/") = false :=
          Bool.eq_false_iff.mpr fun hp => he (hpre.mp hp)
        simp only [Option.filter_some, hs', bne_iff_ne.mpr he, Bool.not_false, if_true]
        exact .some hs

theorem SameStores.createDocument (h : SameStores codec memory sqlite)
    {request : CreateDocumentRequest} {now : Timestamp} (hid : request.documentId ≠ "")
    (hfull : ¬ OutboxFull (createDocument codec sqlite request now).1) :
    (createDocument codec memory request now).1 = (createDocument codec sqlite request now).1 ∧
      SameStores codec (createDocument codec memory request now).2
        (createDocument codec sqlite request now).2 := by
  obtain ⟨p, hp, hrows⟩ := h.rows
  have hchecked : createCheck request (memory.store.takeDocumentId request.documentId).1
      memory.store.documents.contains =
      createCheck request (p.takeDocumentId request.documentId).1 p.documents.contains := by
    rw [funext hrows.contains_eq]
    simp only [Store.takeDocumentId, Persistence.takeDocumentId, hid, if_false]
  rcases createDocument_memory codec memory h.inMemory request now with
    ⟨status, memory', hm, hcm, effect⟩ | ⟨document, name, memory', hm, hcm, effect⟩ <;>
  rcases createDocument_sqlite codec hp request now with
    ⟨status', hs, hcs⟩ | ⟨document', name', database, p', sqlite', hs, hcs, hdb, hr, -, hp', hstore⟩
  · rw [hs] at hfull
    rcases hcs with hcs | ⟨outstanding, rfl⟩
    · rw [hm, hs, Except.error.inj (hcm.symm.trans (hchecked.trans hcs))]
      refine ⟨rfl, effect.persistence, ⟨p, hp, ?_⟩, effect.transactions.trans h.transactions⟩
      rw [effect.documents]
      exact hrows
    · exact absurd ⟨outstanding, rfl⟩ hfull
  · cases hcm.symm.trans (hchecked.trans hcs)
  · rw [hs] at hfull
    rcases hcs with hcs | ⟨outstanding, rfl⟩
    · cases hcm.symm.trans (hchecked.trans hcs)
    · exact absurd ⟨outstanding, rfl⟩ hfull
  · obtain ⟨rfl, rfl⟩ := Prod.mk.inj (Except.ok.inj (hcm.symm.trans (hchecked.trans hcs)))
    rw [hm, hs]
    refine ⟨rfl, effect.persistence, ⟨p', hp', fun other => ?_⟩, ?_⟩
    · rw [effect.documents, hr, insert_eq_put, getElem?_put, getElem?_put]
      split
      · rename_i he
        subst he
        exact .some ⟨(createCheck_ok hcs).1, hdb, codec.decode_encode _⟩
      · exact hrows other
    · rw [effect.transactions, hstore, h.transactions]

/-- One request: the same answer, and the same stores afterwards. -/
theorem SameStores.step (h : SameStores codec memory sqlite) {call : Call}
    (ha : call.request.Admissible) (hfull : ¬ OutboxFull (handle codec sqlite call).1) :
    (handle codec memory call).1 = (handle codec sqlite call).1 ∧
      SameStores codec (handle codec memory call).2 (handle codec sqlite call).2 := by
  obtain ⟨request, now, uuid⟩ := call
  have hanswer : ∀ {α : Type} {wrap : α → Response} {m s : Except Status α × FirestoreService β},
      ¬ OutboxFull (answer wrap s).1 →
      (¬ OutboxFull s.1 → m.1 = s.1 ∧ SameStores codec m.2 s.2) →
      (answer wrap m).1 = (answer wrap s).1 ∧ SameStores codec (answer wrap m).2 (answer wrap s).2 := by
    intro α wrap m s hfull hstep
    have hfull' : ¬ OutboxFull s.1 := by
      rintro ⟨outstanding, hs⟩
      exact hfull ⟨outstanding, answer_error.mpr hs⟩
    obtain ⟨hreply, hstores⟩ := hstep hfull'
    exact ⟨congrArg (·.map wrap) hreply, hstores⟩
  cases request with
  | createDocument request => exact hanswer hfull (h.createDocument ha)
  | updateDocument request => exact hanswer hfull (h.updateDocument ha)
  | deleteDocument request => exact hanswer hfull (h.deleteDocument ha)
  | commit request => exact hanswer hfull (h.commit ha)
  | batchWrite request => exact hanswer hfull (h.batchWrite ha)
  | clearDatabase database => exact hanswer hfull fun _ => h.clearDatabase database
  | _ => exact absurd ha id

theorem SameStores.document_eq (h : SameStores codec memory sqlite) (name : String) :
    document codec memory name = document codec sqlite name := by
  obtain ⟨p, hp, hrows⟩ := h.rows
  simp only [document, h.inMemory, hp]
  cases hr : p.documents[name]? with
  | none => rw [hrows.none_left hr]
  | some row =>
    obtain ⟨document, hd, hs⟩ := hrows.some_left hr
    rw [hd]
    simp [decodeDocument, hs.decode, Except.mapError, Except.map]

/-- The rows of a database, read off a table whose entries match those of a store in order. -/
theorem decode_rows {database : String}
    (hd : ∃ project id, split '/' database = ["projects", project, "databases", id])
    {entries : List (String × Row β)} {stored : List (String × Document)}
    (he : entries.map (fun entry => (entry.1, Except.ok entry.2.databaseName,
        (codec.decode entry.2.document).toOption)) =
      stored.map fun entry => (entry.1, databaseFromResource entry.1, some entry.2))
    (hv : ∀ entry ∈ stored, validateDocumentName entry.1 = .ok ()) :
    (((entries.map Prod.snd).filter (·.databaseName == database)).mapM fun row =>
        decodeDocument codec row.document) =
      .ok ((stored.filter fun entry => startsWith entry.1 (database ++ "/documents/")).map
        Prod.snd) := by
  induction stored generalizing entries with
  | nil =>
    rw [List.map_nil, List.map_eq_nil_iff] at he
    subst he
    rfl
  | cons head stored ih =>
    cases entries with
    | nil => simp at he
    | cons first entries =>
      rw [List.map_cons, List.map_cons, List.cons.injEq, Prod.mk.injEq, Prod.mk.injEq] at he
      obtain ⟨⟨hname, hdatabase, hdecode⟩, he⟩ := he
      have ih := ih he fun entry hm => hv entry (List.mem_cons_of_mem _ hm)
      obtain ⟨n⟩ := documentName_of_valid (hv head List.mem_cons_self)
      rw [n.databaseFromResource_eq] at hdatabase
      have hpre := n.startsWith_iff hd
      rw [← Except.ok.inj hdatabase] at hpre
      have hread : decodeDocument codec first.2.document = .ok head.2 := by
        cases hf : codec.decode first.2.document with
        | error e => simp [hf, Except.toOption] at hdecode
        | ok document =>
          simp only [hf, Except.toOption, Option.some.injEq] at hdecode
          simp [decodeDocument, hf, hdecode, Except.mapError]
      by_cases hdb : first.2.databaseName = database
      · rw [List.map_cons, List.filter_cons_of_pos (by simpa using hdb), List.mapM_cons, hread, ih,
          List.filter_cons_of_pos (by simpa using hpre.mpr hdb)]
        rfl
      · rw [List.map_cons, List.filter_cons_of_neg (by simpa using hdb), ih,
          List.filter_cons_of_neg (by simpa using fun hp => hdb (hpre.mp hp))]

/-- The in-memory backend lists the documents of a database by the prefix of their names. -/
theorem databaseDocuments_memory {service : FirestoreService β} (hm : service.persistence = none)
    {database pre : String} (hd : databaseDocumentPrefix database = .ok pre) :
    databaseDocuments codec service database =
      .ok ((service.store.documents.toList.filter fun entry => startsWith entry.1 pre).map
        Prod.snd) := by
  have hsorted : service.store.documents.toList.Pairwise fun a b => a.1 < b.1 :=
    service.store.documents.ordered_keys_toList.imp fun h => compare_lt_iff_lt.mp h
  simp only [databaseDocuments, hm, hd, bind, Except.bind, pure, Except.pure]
  exact congrArg (fun entries => Except.ok (entries.map Prod.snd)) (prefix_range hsorted pre)

/-- Rows with the documents of a table list those of a database alike. -/
theorem SameRows.databaseDocuments_eq {service : FirestoreService β} {p : Persistence β}
    {table : Documents} (hrows : SameRows codec p.documents table)
    (hp : service.persistence = some p) {database pre : String}
    (hd : databaseDocumentPrefix database = .ok pre) :
    databaseDocuments codec service database =
      .ok ((table.toList.filter fun entry => startsWith entry.1 pre).map Prod.snd) := by
  obtain ⟨rfl, project, id, -, -, hsplit⟩ := databaseDocumentPrefix_ok hd
  have hmaps : p.documents.map (fun _ row => (Except.ok (ε := Status) row.databaseName,
        (codec.decode row.document).toOption)) =
      table.map fun name document => (databaseFromResource name, some document) := by
    apply ExtTreeMap.ext_getElem?
    intro name
    rw [ExtTreeMap.getElem?_map, ExtTreeMap.getElem?_map]
    cases hr : p.documents[name]? with
    | none => rw [hrows.none_left hr]; rfl
    | some row =>
      obtain ⟨document, hdoc, hs⟩ := hrows.some_left hr
      rw [hdoc]
      simp [hs.database, hs.decode, Except.toOption]
  have hlists := congrArg ExtTreeMap.toList hmaps
  rw [ExtTreeMap.toList_map, ExtTreeMap.toList_map] at hlists
  have hvalid : ∀ entry ∈ table.toList, validateDocumentName entry.1 = .ok () := by
    rintro ⟨name, document⟩ hm
    have hdoc := ExtTreeMap.mem_toList_iff_getElem?_eq_some.mp hm
    cases hr : p.documents[name]? with
    | none => rw [hrows.none_left hr] at hdoc; cases hdoc
    | some row =>
      obtain ⟨_, _, hs⟩ := hrows.some_left hr
      exact hs.valid
  simp only [databaseDocuments, hp]
  rw [decode_rows ⟨project, id, hsplit⟩ hlists hvalid]
  rfl

theorem SameStores.databaseDocuments_eq (h : SameStores codec memory sqlite) {database pre : String}
    (hd : databaseDocumentPrefix database = .ok pre) :
    databaseDocuments codec memory database = databaseDocuments codec sqlite database := by
  obtain ⟨p, hp, hrows⟩ := h.rows
  rw [databaseDocuments_memory h.inMemory hd, hrows.databaseDocuments_eq hp hd]

end Handlers

/-- No call of the run is refused because the outbox is full. -/
def NeverFull (codec : DocumentCodec β) (service : FirestoreService β) (calls : List Call) : Prop :=
  ∀ served ∈ history codec service calls, ¬ OutboxFull served.2

/-- A run keeps the stores the same, and the answers are the same throughout. -/
theorem SameStores.run {memory sqlite : FirestoreService β} (h : SameStores codec memory sqlite)
    {calls : List Call} (ha : ∀ call ∈ calls, call.request.Admissible)
    (hfull : NeverFull codec sqlite calls) :
    history codec memory calls = history codec sqlite calls ∧
      SameStores codec (run codec memory calls) (run codec sqlite calls) := by
  induction calls generalizing memory sqlite with
  | nil => exact ⟨rfl, h⟩
  | cons call calls ih =>
    obtain ⟨hreply, hstep⟩ := h.step (ha call List.mem_cons_self) (hfull _ List.mem_cons_self)
    obtain ⟨hreplies, hrun⟩ := ih hstep (fun call hm => ha call (List.mem_cons_of_mem _ hm))
      fun served hm => hfull served (List.mem_cons_of_mem _ hm)
    refine ⟨?_, hrun⟩
    rw [history, history, hreply, hreplies]

theorem NeverFull.take {service : FirestoreService β} {calls : List Call}
    (h : NeverFull codec service calls) (n : Nat) : NeverFull codec service (calls.take n) := by
  intro served hm
  apply h served
  rw [← List.take_append_drop n calls, history_append]
  exact List.mem_append_left _ hm

/-- From equal stores and with the same clock, in every run whose outbox never overflows,
the in-memory and the SQLite backend answer every request alike, and after each of them
hold the same document under every name and the same documents of every database. -/
theorem backends_agree (codec : DocumentCodec β) {memory sqlite : FirestoreService β}
    (h : SameStores codec memory sqlite) {calls : List Call}
    (ha : ∀ call ∈ calls, call.request.Admissible) (hfull : NeverFull codec sqlite calls) :
    history codec memory calls = history codec sqlite calls ∧
    ∀ n,
      (∀ name, document codec (run codec memory (calls.take n)) name =
        document codec (run codec sqlite (calls.take n)) name) ∧
      ∀ database pre, databaseDocumentPrefix database = .ok pre →
        databaseDocuments codec (run codec memory (calls.take n)) database =
          databaseDocuments codec (run codec sqlite (calls.take n)) database := by
  refine ⟨(h.run ha hfull).1, fun n => ?_⟩
  have hn := (h.run (fun call hm => ha call (List.mem_of_mem_take hm)) (hfull.take n)).2
  exact ⟨hn.document_eq, fun database pre hd => hn.databaseDocuments_eq hd⟩

def sampleCreateRequest : CreateDocumentRequest :=
  ⟨sampleDatabase ++ "/documents", "items", "a", some ⟨"", [], none, none⟩⟩

def sampleCreate : Call := ⟨.createDocument sampleCreateRequest, sampleTime 1, []⟩

theorem sampleStores_same (outbox : List (OutboxRow Document)) :
    SameStores plainCodec sampleMemory (sampleSqlite outbox) :=
  ⟨rfl, ⟨_, rfl, fun _ => .none⟩, rfl⟩

/-- A create on two empty stores. -/
theorem backends_agree_sample :
    document plainCodec (run plainCodec sampleMemory [sampleCreate]) (sampleName sampleDatabase "a") =
      document plainCodec (run plainCodec (sampleSqlite []) [sampleCreate])
        (sampleName sampleDatabase "a") := by
  have hfull : NeverFull plainCodec (sampleSqlite []) [sampleCreate] := by
    intro served hm
    obtain rfl := List.mem_singleton.mp hm
    rintro ⟨outstanding, ho⟩
    cases ho
  have ha : ∀ call ∈ [sampleCreate], call.request.Admissible := by
    intro call hm
    obtain rfl := List.mem_singleton.mp hm
    exact (by decide : "a" ≠ "")
  exact ((backends_agree plainCodec (sampleStores_same []) ha hfull).2 1).1 _

/-- As many undelivered events as the outbox takes. -/
def sampleFullOutbox : List (OutboxRow Document) :=
  outboxRows 1 (List.replicate outboxCapacity ⟨"firestore", ⟨none, none⟩⟩)

/-- With a full outbox the SQLite backend refuses a create that the in-memory backend
serves. -/
theorem backends_differ_when_outbox_full :
    ¬ ∀ (memory sqlite : FirestoreService Document) (calls : List Call),
      SameStores plainCodec memory sqlite → (∀ call ∈ calls, call.request.Admissible) →
      history plainCodec memory calls = history plainCodec sqlite calls := by
  intro h
  have ha : ∀ call ∈ [sampleCreate], call.request.Admissible := by
    intro call hm
    obtain rfl := List.mem_singleton.mp hm
    exact (by decide : "a" ≠ "")
  have heq := h sampleMemory (sampleSqlite sampleFullOutbox) [sampleCreate]
    (sampleStores_same _) ha
  obtain ⟨hreply, -⟩ := List.cons.inj heq
  have hserved : (handle plainCodec (sampleSqlite sampleFullOutbox) sampleCreate).1.isOk := by
    rw [← (Prod.mk.inj hreply).2]
    rfl
  rcases createDocument_sqlite plainCodec
      (show (sampleSqlite sampleFullOutbox).persistence = some _ from rfl) sampleCreateRequest
      (sampleTime 1) with
    ⟨status, hs, -⟩ | ⟨document, name, database, p', s', -, hchecked, -, -, hrec, -⟩
  · rw [show (handle plainCodec (sampleSqlite sampleFullOutbox) sampleCreate).1 = .error status from
      answer_error.mpr (congrArg Prod.fst hs)] at hserved
    cases hserved
  · cases hchecked
    have hfits : sampleFullOutbox.countP OutboxRow.outstanding + 1 ≤ outboxCapacity := hrec.fits rfl
    rw [sampleFullOutbox, outboxRows_outstanding, List.length_replicate] at hfits
    omega

end FirebaseEmu.Firestore
