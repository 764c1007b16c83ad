import FirebaseEmu.Firestore.Memory
import FirebaseEmu.Firestore.Sample
import FirebaseEmu.Firestore.Tokens

namespace FirebaseEmu.Firestore
open Lib Std

variable {β : Type} (codec : DocumentCodec β)

/-- The documents and the active transactions are as they were. -/
def Kept (service service' : FirestoreService β) : Prop :=
  service'.store.documents = service.store.documents ∧
    service'.store.transactions = service.store.transactions

/-- A query that asks for a new transaction in a valid database and then fails: it has no
structured query, or the query is refused on the stored documents. -/
def OpensAndFails (service : FirestoreService β) (request : Request) : Prop :=
  match request with
  | .runQuery request => request.opens.isSome ∧
      match request.structuredQuery with
      | none => True
      | some query => ∃ status, queryDocs codec service request.parent query = .error status
  | _ => False

section Memory
variable {service : FirestoreService β} {now : Timestamp} {uuid : Bytes} {status : Status}

theorem batchGetDocuments_error (hm : service.persistence = none)
    {request : BatchGetDocumentsRequest}
    (h : (batchGetDocuments codec service request now uuid).1 = .error status) :
    (batchGetDocuments codec service request now uuid).2 = service ∧
      Call.issued ⟨.batchGetDocuments request, now, uuid⟩ = none := by
  dsimp only [batchGetDocuments, Call.issued] at h ⊢
  cases hn : request.documents.forM validateDocumentName with
  | error status => exact ⟨rfl, rfl⟩
  | ok _ =>
    rw [hn] at h
    rcases openBatchGet_cases service.store request uuid with
      ⟨database, hd, ho⟩ | ⟨hd, ho | ⟨status, ho⟩⟩
    · simp [ho, FirestoreService.setStore, hm, Except.map] at h
    · simp [ho, FirestoreService.setStore, hm, Except.map] at h
    · rw [hd, ho]
      exact ⟨rfl, rfl⟩

theorem runQuery_error {request : RunQueryRequest}
    (h : (runQuery codec service request now uuid).1 = .error status) :
    (runQuery codec service request now uuid).2.store.documents = service.store.documents ∧
      (request.opens.isSome ↔ OpensAndFails codec service (.runQuery request)) := by
  dsimp only [runQuery, OpensAndFails] at h ⊢
  rcases openRunQuery_cases service.store request uuid with
    ⟨database, hd, ho⟩ | ⟨hd, ho | ⟨status, ho⟩⟩
  · rw [ho] at h ⊢
    refine ⟨rfl, fun hs => ⟨hs, ?_⟩, fun h => h.1⟩
    rw [exceptMap_eq_error] at h
    cases hq : request.structuredQuery with
    | none => trivial
    | some query =>
      simp only [hq] at h
      exact ⟨status, h⟩
  · rw [ho]
    exact ⟨rfl, by simp [hd]⟩
  · rw [ho]
    exact ⟨rfl, by simp [hd]⟩

/-- The query that opens and fails does fail. -/
theorem runQuery_fails (service : FirestoreService β) {request : RunQueryRequest}
    (h : OpensAndFails codec service (.runQuery request)) (now : Timestamp) (uuid : Bytes) :
    ∃ status, (runQuery codec service request now uuid).1 = .error status := by
  obtain ⟨hopens, hfails⟩ := h
  dsimp only [runQuery]
  rcases openRunQuery_cases service.store request uuid with
    ⟨database, hd, ho⟩ | ⟨hd, -⟩
  · rw [ho]
    dsimp only
    cases hq : request.structuredQuery with
    | none => exact ⟨_, rfl⟩
    | some query =>
      rw [hq] at hfails
      obtain ⟨status, hs⟩ := hfails
      exact ⟨status, exceptMap_eq_error.mpr hs⟩
  · simp [hd] at hopens

end Memory

/-- A failed request leaves the documents alone, and it has drawn a token only if it is
a query that opened a transaction before it failed. -/
theorem handle_error {service : FirestoreService β} (hm : service.persistence = none) {call : Call}
    {status : Status} (h : (handle codec service call).1 = .error status) :
    (handle codec service call).2.store.documents = service.store.documents ∧
      (call.issued.isSome ↔ OpensAndFails codec service call.request) := by
  obtain ⟨request, now, uuid⟩ := call
  have hkept : ∀ service' : FirestoreService β, service' = service →
      service'.store.documents = service.store.documents ∧
        ((none : Option String).isSome ↔ False) := by
    rintro service' rfl
    simp
  cases request with
  | createDocument request =>
    have h := answer_error.mp h
    rcases createDocument_memory codec service hm request now with
      ⟨_, service', hc, -, effect⟩ | ⟨document, name, service', hc, -⟩
    · refine ⟨(congrArg (·.2.store.documents) hc).trans effect.documents, ?_⟩
      simp [Call.issued, OpensAndFails]
    · rw [hc] at h
      cases h
  | updateDocument request =>
    have h := answer_error.mp h
    cases hd : request.document with
    | none => exact hkept _ (congrArg Prod.snd (updateDocument_none codec service hd now))
    | some document =>
      rcases updateDocument_memory codec service hm hd now with
        ⟨_, hu, -⟩ | ⟨stored, service', hu, -⟩
      · exact hkept _ (congrArg Prod.snd hu)
      · rw [hu] at h
        cases h
  | deleteDocument request =>
    have h := answer_error.mp h
    rcases deleteDocument_memory codec service hm request now with
      ⟨_, hd, -⟩ | ⟨service', hd, -⟩
    · exact hkept _ (congrArg Prod.snd hd)
    · rw [hd] at h
      cases h
  | batchGetDocuments request =>
    obtain ⟨hs, hi⟩ := batchGetDocuments_error codec hm (answer_error.mp h)
    rw [hi]
    exact hkept _ hs
  | beginTransaction database =>
    have h := answer_error.mp h
    dsimp only [beginTransaction] at h
    cases hd : databaseDocumentPrefix database with
    | error _ => simp [handle, answer, beginTransaction, Call.issued, OpensAndFails, hd,
        Except.toOption]
    | ok _ =>
      rw [hd] at h
      cases h
  | commit request =>
    have h := answer_error.mp h
    rcases commit_memory codec service hm request now with
      ⟨_, hc, -⟩ | ⟨results, service', hc, -⟩
    · exact hkept _ (congrArg Prod.snd hc)
    · rw [hc] at h
      cases h
  | rollback request =>
    have h := answer_error.mp h
    dsimp only [rollback, handle, answer] at h ⊢
    split at h
    · exact hkept _ rfl
    · cases h
  | batchWrite request =>
    have h := answer_error.mp h
    obtain ⟨service', hb, -⟩ := batchWrite_memory codec service hm request now
    rw [hb] at h
    cases h
  | runQuery request => exact runQuery_error codec (answer_error.mp h)
  | clearDatabase database =>
    have h := answer_error.mp h
    dsimp only [clearDatabase, handle, answer] at h ⊢
    split at h
    · exact hkept _ rfl
    · simp only [hm] at h
      cases h

/-- In-memory requests that fail change nothing, save exactly the queries that open a
transaction and fail afterwards: those leave it open. -/
theorem failed_request_changes_nothing_iff {service : FirestoreService β}
    (hm : service.persistence = none) (call : Call)
    (hfresh : service.store.transactions[call.uuid]? = none) :
    (∀ status, (handle codec service call).1 = .error status →
      Kept service (handle codec service call).2) ↔
    ¬ OpensAndFails codec service call.request := by
  have htransactions := handle_transactions codec service call
  constructor
  · rintro hkept hopens
    obtain ⟨request, now, uuid⟩ := call
    cases request with
    | runQuery request =>
      obtain ⟨status, hs⟩ := runQuery_fails codec service hopens now uuid
      have hk := (hkept status (answer_error.mpr hs)).2
      obtain ⟨database, hi⟩ := Option.isSome_iff_exists.mp hopens.1
      rw [htransactions] at hk
      simp only [Call.issued, hi] at hk
      have := congrArg (·[uuid]?) hk
      simp [hfresh] at this
    | _ => exact hopens
  · intro hopens status h
    obtain ⟨hd, hi⟩ := handle_error codec hm h
    have hnone : call.issued = none := by
      cases hc : call.issued with
      | none => rfl
      | some database => exact absurd (hi.mp (by simp [hc])) hopens
    rw [hnone, h] at htransactions
    exact ⟨hd, htransactions⟩

/-- A rollback of a token that was never issued fails and changes nothing. -/
theorem failed_request_changes_nothing_iff_sample :
    Kept sampleMemory
      (handle plainCodec sampleMemory ⟨.rollback ⟨sampleDatabase, [7]⟩, sampleTime 1, [8]⟩).2 :=
  (failed_request_changes_nothing_iff plainCodec rfl
    ⟨.rollback ⟨sampleDatabase, [7]⟩, sampleTime 1, [8]⟩ rfl).mpr not_false
    (invalidArgument "transaction is not active") rfl

/-- A query without a structured query fails and leaves the transaction it opened. -/
theorem failed_query_leaves_transaction :
    ¬ ∀ (service : FirestoreService Document) (call : Call), service.persistence = none →
      ∀ status, (handle plainCodec service call).1 = .error status →
        Kept service (handle plainCodec service call).2 := by
  intro h
  obtain ⟨-, ht⟩ := h sampleMemory ⟨.runQuery ⟨sampleDatabase ++ "/documents", none,
    some .newTransaction⟩, sampleTime 1, [7]⟩ rfl (invalidArgument "structured_query is required") rfl
  have := congrArg (·[([7] : Bytes)]?) ht
  exact absurd this (by decide)

end FirebaseEmu.Firestore
