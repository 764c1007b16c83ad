import FirebaseEmu.Firestore.Durable
import FirebaseEmu.Firestore.Memory
import FirebaseEmu.Firestore.Requests

namespace FirebaseEmu.Firestore
open Lib Std

variable {β : Type} (codec : DocumentCodec β)

/-- The services hold the same documents. -/
structure SameDocuments (service service' : FirestoreService β) : Prop where
  documents : service'.store.documents = service.store.documents
  rows : service'.persistence.map Persistence.documents =
    service.persistence.map Persistence.documents

theorem SameDocuments.refl (service : FirestoreService β) : SameDocuments service service :=
  ⟨rfl, rfl⟩

section Queries
variable {service service' : FirestoreService β}

/-- Both in memory, or both on tables with the same rows. -/
theorem SameDocuments.cases (h : SameDocuments service service') :
    (service.persistence = none ∧ service'.persistence = none) ∨
    ∃ p p', service.persistence = some p ∧ service'.persistence = some p' ∧
      p'.documents = p.documents := by
  have hrows := h.rows
  cases hp : service.persistence with
  | none =>
    rw [hp] at hrows
    exact .inl ⟨rfl, Option.map_eq_none_iff.mp hrows⟩
  | some p =>
    rw [hp] at hrows
    obtain ⟨p', hp', hd⟩ := Option.map_eq_some_iff.mp hrows
    exact .inr ⟨p, p', rfl, hp', hd⟩

theorem SameDocuments.documents_eq (h : SameDocuments service service') (names : List String) :
    Firestore.documents codec service' names = Firestore.documents codec service names := by
  rcases h.cases with ⟨hp, hp'⟩ | ⟨p, p', hp, hp', hd⟩
  · simp only [Firestore.documents, hp, hp', h.documents]
  · simp only [Firestore.documents, hp, hp', hd]

theorem SameDocuments.queryDocs_eq (h : SameDocuments service service') (parent : String)
    (query : StructuredQuery) :
    queryDocs codec service' parent query = queryDocs codec service parent query := by
  rcases h.cases with ⟨hp, hp'⟩ | ⟨p, p', hp, hp', hd⟩
  · simp only [queryDocs, hp, hp', h.documents]
  · simp only [queryDocs, databaseDocuments, hp, hp', hd]

/-- The result of a target is read off the documents. -/
theorem SameDocuments.targetDocs_eq (h : SameDocuments service service') (target : Target) :
    targetDocs codec service' target = targetDocs codec service target := by
  unfold targetDocs
  split
  · exact h.documents_eq codec _
  · exact h.queryDocs_eq codec _ _
  · rfl
  · rfl

end Queries

/-- A handler keeps the documents, or changes them and sends one notification. -/
def Notifies (service service' : FirestoreService β) : Prop :=
  SameDocuments service service' ∧ service'.changes = service.changes ∨
    service'.changes = service.changes + 1

theorem Notifies.refl (service : FirestoreService β) : Notifies service service :=
  .inl ⟨.refl service, rfl⟩

theorem Notifies.kept {service : FirestoreService β} {p : Persistence β}
    (hp : service.persistence = some p) : Notifies service (service.setPersistence p) := by
  rw [FirestoreService.setPersistence_self hp]
  exact .refl service

section Handlers
variable (service : FirestoreService β) (now : Timestamp)

theorem commit_notifies (request : CommitRequest) :
    Notifies service (commit codec service request now).2 := by
  unfold commit
  split
  · exact .refl service
  split
  · rename_i p hp
    rcases persistentWrites_cases codec p request.database request.writes false now with
      ⟨status, hw, -⟩ | ⟨before, p', hw, -⟩ <;> rw [hw]
    · exact .kept hp
    · exact .inr rfl
  · dsimp only
    split
    · exact .refl service
    · exact .inr rfl

theorem batchWrite_notifies (request : BatchWriteRequest) :
    Notifies service (batchWrite codec service request now).2 := by
  unfold batchWrite
  split
  · rename_i p hp
    rcases persistentWrites_cases codec p request.database request.writes true now with
      ⟨status, hw, -⟩ | ⟨before, p', hw, -⟩ <;> rw [hw]
    · exact .kept hp
    · exact .inr rfl
  · exact .inr rfl

theorem updateDocument_notifies (request : UpdateDocumentRequest) :
    Notifies service (updateDocument codec service request now).2 := by
  unfold updateDocument
  split
  · exact .refl service
  rename_i document hd
  dsimp only
  split
  · rename_i p hp
    split
    · exact .refl service
    · rename_i database hdb
      rcases persistentWrites_strict_cases codec p database (updateWrite request document) now with
        ⟨status, hw, -⟩ | ⟨before, results, statuses, p', hw, -⟩ <;> rw [hw]
      · exact .kept hp
      · dsimp only
        split <;> exact .inr rfl
  · have hsingle := applyWrite_single service.store.documents now (updateWrite request document)
    cases ha : (applyWrite service.store.documents (updateWrite request document) now).1 with
    | error status =>
      rw [ha] at hsingle
      exact .inl ⟨⟨hsingle.2, rfl⟩, rfl⟩
    | ok result =>
      rw [ha] at hsingle
      obtain ⟨stored, hs⟩ := update_stored hsingle.1
      rw [← hsingle.2] at hs
      simp only [Store.setDocuments, hs]
      exact .inr rfl

theorem deleteDocument_notifies (request : DeleteDocumentRequest) :
    Notifies service (deleteDocument codec service request now).2 := by
  unfold deleteDocument
  split
  · exact .refl service
  split
  · rename_i p hp
    split
    · exact .refl service
    · rename_i database hdb
      rcases persistentWrites_strict_cases codec p database (deleteWrite request) now with
        ⟨status, hw, -⟩ | ⟨before, results, statuses, p', hw, -⟩ <;> rw [hw]
      · exact .kept hp
      · exact .inr rfl
  · split
    · exact .refl service
    · exact .inr rfl

theorem clearDatabase_notifies (database : String) :
    Notifies service (clearDatabase service database).2 := by
  unfold clearDatabase
  split
  · exact .refl service
  split <;> exact .inr rfl

/-- A create that stores a document sends a notification. -/
theorem createDocument_ok_changes {request : CreateDocumentRequest} {document : Document}
    (h : (createDocument codec service request now).1 = .ok document) :
    (createDocument codec service request now).2.changes = service.changes + 1 := by
  unfold createDocument at h ⊢
  split at h
  · cases h
  split at h
  · cases h
  rename_i hparent
  rw [if_neg hparent]
  split at h
  · split at h
    · cases h
    · rfl
  · dsimp only at h ⊢
    split at h
    · cases h
    · split at h
      · cases h
      · rename_i hc
        rw [if_neg hc]
        rfl

theorem createDocument_notifies (request : CreateDocumentRequest) :
    Notifies service (createDocument codec service request now).2 := by
  cases hp : service.persistence with
  | some p =>
    rcases createDocument_sqlite codec hp request now with
      ⟨status, hc, -⟩ | ⟨document, name, database, p', service', hc, -⟩
    · rw [hc]
      exact .refl service
    · exact .inr (createDocument_ok_changes codec service now (congrArg Prod.fst hc))
  | none =>
    obtain ⟨hd, -⟩ := service.store.takeDocumentId_store request.documentId
    unfold createDocument
    simp only [hp]
    split
    · exact .refl service
    split
    · exact .refl service
    split
    · exact .inl ⟨⟨hd, rfl⟩, rfl⟩
    split
    · exact .inl ⟨⟨hd, rfl⟩, rfl⟩
    · exact .inr rfl

end Handlers

/-- A request keeps the documents, or changes them and sends one notification. -/
theorem handle_notifies (service : FirestoreService β) (call : Call) :
    Notifies service (handle codec service call).2 := by
  have hreads : ∀ call, call.request.Reads → Notifies service (handle codec service call).2 := by
    intro call hr
    obtain ⟨tokens, hh⟩ := handle_reads codec service call hr
    rw [hh]
    exact .inl ⟨⟨rfl, rfl⟩, rfl⟩
  obtain ⟨request, now, uuid⟩ := call
  cases request with
  | createDocument request => exact createDocument_notifies codec service now request
  | updateDocument request => exact updateDocument_notifies codec service now request
  | deleteDocument request => exact deleteDocument_notifies codec service now request
  | commit request => exact commit_notifies codec service now request
  | batchWrite request => exact batchWrite_notifies codec service now request
  | clearDatabase database => exact clearDatabase_notifies service database
  | batchGetDocuments request => exact hreads ⟨.batchGetDocuments request, now, uuid⟩ trivial
  | beginTransaction database => exact hreads ⟨.beginTransaction database, now, uuid⟩ trivial
  | rollback request => exact hreads ⟨.rollback request, now, uuid⟩ trivial
  | runQuery request => exact hreads ⟨.runQuery request, now, uuid⟩ trivial

end FirebaseEmu.Firestore
