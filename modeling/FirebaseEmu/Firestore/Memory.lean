import FirebaseEmu.Firestore.Outcomes

namespace FirebaseEmu.Firestore
open Lib Std

variable {β : Type} (codec : DocumentCodec β)

/-- What an accepted in-memory request leaves of the service. -/
structure MemoryEffect (service service' : FirestoreService β) (after : Documents)
    (tokens : ExtTreeMap Bytes String) (events : List DocumentEvent) : Prop where
  persistence : service'.persistence = none
  runtime : service'.runtime = service.runtime
  documents : service'.store.documents = after
  transactions : service'.store.transactions = tokens
  enqueued : service'.enqueued = service.enqueued ++ events

theorem removeTransaction_documents (store : Store) (transaction : Bytes) :
    (removeTransaction store transaction).documents = store.documents := by
  unfold removeTransaction
  split <;> rfl

/-- An in-memory commit is refused with nothing changed, by its token or by its first
refused write, or it takes effect as a whole. -/
theorem commit_memory (service : FirestoreService β) (hm : service.persistence = none)
    (request : CommitRequest) (commitTime : Timestamp) :
    let checked := checkTransaction service.store request.database request.transaction
    let outcomes := (writeOps commitTime).outcomes service.store.documents request.writes
    let after := (writeOps commitTime).after service.store.documents request.writes
    (∃ status, commit codec service request commitTime = (.error status, service) ∧
      (checked = .error status ∨ checked = .ok () ∧ allOk outcomes = .error status)) ∨
    (∃ results service', commit codec service request commitTime =
        (.ok ⟨results, some commitTime⟩, service') ∧
      checked = .ok () ∧ allOk outcomes = .ok results ∧
      MemoryEffect service service' after
        (removeTransaction service.store request.transaction).transactions
        (documentsChanged service.runtime service.store.documents after)) := by
  intro checked outcomes after
  have hfst := pendingWrites_fst commitTime service.store.documents request.writes []
  unfold commit
  cases hc : checkTransaction service.store request.database request.transaction with
  | error status => exact .inl ⟨status, rfl, .inl hc⟩
  | ok _ =>
    simp only [hm]
    cases ho : allOk ((writeOps commitTime).outcomes service.store.documents request.writes) with
    | error status =>
      have hp : (pendingWrites commitTime service.store.documents request.writes []).1 =
          .error status := by rw [hfst, ho]; rfl
      simp only [hp]
      exact .inl ⟨status, rfl, .inr ⟨hc, rfl⟩⟩
    | ok results =>
      have hp : (pendingWrites commitTime service.store.documents request.writes []).1 =
          .ok results := by rw [hfst, ho]; rfl
      have hsnd := pendingWrites_snd hp
      simp only [hp]
      refine .inr ⟨results, _, rfl, hc, rfl, hm, rfl, ?_, ?_, ?_⟩
      · exact (removeTransaction_documents _ _).trans hsnd
      · simp only [removeTransaction]
        split <;> rfl
      · show service.enqueued ++ _ = _
        rw [hsnd]

/-- An in-memory batch write always answers. -/
theorem batchWrite_memory (service : FirestoreService β) (hm : service.persistence = none)
    (request : BatchWriteRequest) (writeTime : Timestamp) :
    let outcomes := (writeOps writeTime).outcomes service.store.documents request.writes
    let after := (writeOps writeTime).after service.store.documents request.writes
    ∃ service', batchWrite codec service request writeTime =
        (.ok ⟨outcomes.map resultOf, outcomes.map rpcStatusOf⟩, service') ∧
      MemoryEffect service service' after service.store.transactions
        (documentsChanged service.runtime service.store.documents after) := by
  intro outcomes after
  have hb := batchWrites_eq writeTime service.store.documents request.writes [] []
  unfold batchWrite
  simp only [hm]
  refine ⟨_, Prod.ext ?_ rfl, hm, rfl, congrArg Prod.snd hb, rfl, ?_⟩
  · show Except.ok (BatchWriteResponse.mk _ _) =
      .ok ⟨outcomes.map resultOf, outcomes.map rpcStatusOf⟩
    rw [hb]
    rfl
  · show service.enqueued ++ _ = _
    rw [hb]

theorem applyWrite_single (documents : Documents) (now : Timestamp) (write : Write) :
    (match (applyWrite documents write now).1 with
      | .error status => allOk ((writeOps now).outcomes documents [write]) = .error status ∧
          (applyWrite documents write now).2 = documents
      | .ok _ => (allOk ((writeOps now).outcomes documents [write])).isOk ∧
          (applyWrite documents write now).2 = (writeOps now).after documents [write]) := by
  rw [applyWrite_eq_apply]
  cases ha : ((writeOps now).apply documents write).1 with
  | error status => exact ⟨by simp [KeyedOps.outcomes, allOk, ha], KeyedOps.apply_error ha⟩
  | ok result =>
    exact ⟨by simp [KeyedOps.outcomes, allOk, ha, Except.map, Except.isOk, Except.toBool], rfl⟩

/-- An update without a document is refused. -/
theorem updateDocument_none (service : FirestoreService β) {request : UpdateDocumentRequest}
    (hd : request.document = none) (now : Timestamp) :
    updateDocument codec service request now =
      (.error (invalidArgument "document is required"), service) := by
  simp only [updateDocument, hd]

/-- An in-memory update is refused with nothing changed, or stores what its write makes
of the document. -/
theorem updateDocument_memory (service : FirestoreService β) (hm : service.persistence = none)
    {request : UpdateDocumentRequest} {document : Document} (hd : request.document = some document)
    (now : Timestamp) :
    let outcomes := (writeOps now).outcomes service.store.documents [updateWrite request document]
    let after := (writeOps now).after service.store.documents [updateWrite request document]
    (∃ status, updateDocument codec service request now = (.error status, service) ∧
      allOk outcomes = .error status) ∨
    (∃ stored service', updateDocument codec service request now = (.ok stored, service') ∧
      (allOk outcomes).isOk ∧ after[document.name]? = some stored ∧
      MemoryEffect service service' after service.store.transactions
        (documentChanged service.runtime service.store.documents[document.name]? (some stored))) := by
  have hsingle := applyWrite_single service.store.documents now (updateWrite request document)
  simp only [updateDocument, hd, hm]
  cases ha : (applyWrite service.store.documents (updateWrite request document) now).1 with
  | error status =>
    rw [ha] at hsingle
    obtain ⟨ho, hsnd⟩ := hsingle
    exact .inl ⟨status, by rw [service.store.setDocuments_self hsnd]; rfl, ho⟩
  | ok result =>
    rw [ha] at hsingle
    obtain ⟨ho, hsnd⟩ := hsingle
    obtain ⟨stored, hs⟩ := update_stored ho
    have hget : (applyWrite service.store.documents (updateWrite request document)
        now).2[document.name]? = some stored := by rw [hsnd, hs]
    simp only [Store.setDocuments, hget]
    exact .inr ⟨stored, _, rfl, ho, hs, hm, rfl, hsnd, rfl, rfl⟩

/-- An in-memory delete is refused with nothing changed, or removes the document. -/
theorem deleteDocument_memory (service : FirestoreService β) (hm : service.persistence = none)
    (request : DeleteDocumentRequest) (now : Timestamp) :
    let outcomes := (writeOps now).outcomes service.store.documents [deleteWrite request]
    (∃ status, deleteDocument codec service request now = (.error status, service) ∧
      (validateDocumentName request.name = .error status ∨ allOk outcomes = .error status)) ∨
    (∃ service', deleteDocument codec service request now = (.ok (), service') ∧
      (allOk outcomes).isOk ∧
      MemoryEffect service service'
        ((writeOps now).after service.store.documents [deleteWrite request])
        service.store.transactions
        (documentChanged service.runtime service.store.documents[request.name]? none)) := by
  intro outcomes
  unfold deleteDocument
  cases hv : validateDocumentName request.name with
  | error status => exact .inl ⟨status, rfl, .inl rfl⟩
  | ok _ =>
    have hsingle := applyWrite_single service.store.documents now (deleteWrite request)
    simp only [applyWrite, deleteWrite, hv] at hsingle
    simp only [hm]
    cases hc : checkPrecondition service.store.documents[request.name]? request.currentDocument with
    | error status =>
      rw [hc] at hsingle
      exact .inl ⟨status, rfl, .inr hsingle.1⟩
    | ok _ =>
      rw [hc] at hsingle
      exact .inr ⟨_, rfl, hsingle.1, hm, rfl, hsingle.2, rfl, rfl⟩

theorem Store.takeDocumentId_store (store : Store) (requested : String) :
    (store.takeDocumentId requested).2.documents = store.documents ∧
      (store.takeDocumentId requested).2.transactions = store.transactions := by
  unfold Store.takeDocumentId
  split <;> exact ⟨rfl, rfl⟩

/-- An in-memory create is refused with the documents as they were, or stores a new one. -/
theorem createDocument_memory (service : FirestoreService β) (hm : service.persistence = none)
    (request : CreateDocumentRequest) (now : Timestamp) :
    let checked := createCheck request (service.store.takeDocumentId request.documentId).1
      service.store.documents.contains
    (∃ status service', createDocument codec service request now = (.error status, service') ∧
      checked = .error status ∧
      MemoryEffect service service' service.store.documents service.store.transactions []) ∨
    (∃ document name service', createDocument codec service request now =
        (.ok (createdDocument document name now), service') ∧
      checked = .ok (document, name) ∧
      MemoryEffect service service'
        (put service.store.documents name (some (createdDocument document name now)))
        service.store.transactions
        (documentChanged service.runtime none (some (createdDocument document name now)))) := by
  intro checked
  have hkept : ∀ store : Store, store.documents = service.store.documents →
      store.transactions = service.store.transactions →
      MemoryEffect service (service.setStore store) service.store.documents
        service.store.transactions [] :=
    fun store hd ht => ⟨hm, rfl, hd, ht, (List.append_nil _).symm⟩
  obtain ⟨hd, ht⟩ := service.store.takeDocumentId_store request.documentId
  have hchecked : checked = createCheck request
      (service.store.takeDocumentId request.documentId).1 service.store.documents.contains := rfl
  rw [hchecked]
  unfold createDocument createCheck
  cases request.document with
  | none => exact .inl ⟨_, service, rfl, rfl, hkept service.store rfl rfl⟩
  | some document =>
    dsimp only
    split
    · exact .inl ⟨_, service, rfl, rfl, hkept service.store rfl rfl⟩
    simp only [hm]
    split
    · rename_i status hv
      exact .inl ⟨_, _, rfl, by simp only [hv], hkept _ hd ht⟩
    · rename_i hv
      have hkept := hkept _ hd ht
      simp only [hv, ← hd] at hkept ⊢
      split
      · exact .inl ⟨_, _, rfl, rfl, hkept⟩
      · exact .inr ⟨document, _, _, rfl, rfl, hm, rfl, insert_eq_put _ _ _, ht, rfl⟩

end FirebaseEmu.Firestore
