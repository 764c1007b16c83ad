import FirebaseEmu.Firestore.Handlers
import FirebaseEmu.Lib.Results

namespace FirebaseEmu.Firestore
open Lib Std

/-- The requests of the Firestore service, and of the emulator's `ClearData`. -/
inductive Request where
  | createDocument (request : CreateDocumentRequest)
  | updateDocument (request : UpdateDocumentRequest)
  | deleteDocument (request : DeleteDocumentRequest)
  | batchGetDocuments (request : BatchGetDocumentsRequest)
  | beginTransaction (database : String)
  | commit (request : CommitRequest)
  | rollback (request : RollbackRequest)
  | batchWrite (request : BatchWriteRequest)
  | runQuery (request : RunQueryRequest)
  | clearDatabase (database : String)

inductive Response where
  | document (document : Document)
  | empty
  | batchGetDocuments (responses : List BatchGetDocumentsResponse)
  | beginTransaction (transaction : Bytes)
  | commit (response : CommitResponse)
  | batchWrite (response : BatchWriteResponse)
  | runQuery (responses : List RunQueryResponse)

/-- A request with the clock reading and the random identifier drawn while it is served. -/
structure Call where
  request : Request
  now : Timestamp
  uuid : Bytes

/-- The database the request opens a transaction for. -/
def BatchGetDocumentsRequest.opens (request : BatchGetDocumentsRequest) : Option String :=
  match request.consistencySelector with
  | some .newTransaction =>
    (databaseDocumentPrefix request.database).toOption.map fun _ => request.database
  | _ => none

def RunQueryRequest.opens (request : RunQueryRequest) : Option String :=
  match request.consistencySelector with
  | some .newTransaction => (databaseFromResource request.parent).toOption
  | _ => none

theorem openBatchGet_cases (store : Store) (request : BatchGetDocumentsRequest) (uuid : Bytes) :
    (∃ database, request.opens = some database ∧ openBatchGet store request uuid =
      .ok (some uuid, (createTransaction store database uuid).2)) ∨
    (request.opens = none ∧ (openBatchGet store request uuid = .ok (none, store) ∨
      ∃ status, openBatchGet store request uuid = .error status)) := by
  unfold openBatchGet BatchGetDocumentsRequest.opens
  cases request.consistencySelector with
  | none => exact .inr ⟨rfl, .inl rfl⟩
  | some selector =>
    cases selector with
    | transaction transaction =>
      refine .inr ⟨rfl, ?_⟩
      dsimp only
      cases validateTransaction store request.database transaction with
      | error status => exact .inr ⟨status, rfl⟩
      | ok _ => exact .inl rfl
    | newTransaction =>
      dsimp only
      cases databaseDocumentPrefix request.database with
      | error status => exact .inr ⟨rfl, .inr ⟨status, rfl⟩⟩
      | ok pre => exact .inl ⟨request.database, rfl, rfl⟩
    | readTime => exact .inr ⟨rfl, .inl rfl⟩

theorem openRunQuery_cases (store : Store) (request : RunQueryRequest) (uuid : Bytes) :
    (∃ database, request.opens = some database ∧ openRunQuery store request uuid =
      .ok (some uuid, (createTransaction store database uuid).2)) ∨
    (request.opens = none ∧ (openRunQuery store request uuid = .ok (none, store) ∨
      ∃ status, openRunQuery store request uuid = .error status)) := by
  unfold openRunQuery RunQueryRequest.opens
  cases request.consistencySelector with
  | none => exact .inr ⟨rfl, .inl rfl⟩
  | some selector =>
    cases selector with
    | transaction transaction =>
      refine .inr ⟨rfl, ?_⟩
      dsimp only
      cases databaseFromResource request.parent with
      | error status => exact .inr ⟨status, rfl⟩
      | ok database =>
        cases hv : validateTransaction store database transaction with
        | error status => exact .inr ⟨status, by simp [hv, bind, Except.bind]⟩
        | ok _ => exact .inl (by simp [hv, bind, Except.bind, pure, Except.pure])
    | newTransaction =>
      dsimp only
      cases databaseFromResource request.parent with
      | error status => exact .inr ⟨rfl, .inr ⟨status, rfl⟩⟩
      | ok database => exact .inl ⟨database, rfl, rfl⟩
    | readTime => exact .inr ⟨rfl, .inl rfl⟩

variable {β : Type} (codec : DocumentCodec β)

def answer {α : Type} (wrap : α → Response) (outcome : Except Status α × FirestoreService β) :
    Except Status Response × FirestoreService β := (outcome.1.map wrap, outcome.2)

def handle (service : FirestoreService β) (call : Call) :
    Except Status Response × FirestoreService β :=
  match call.request with
  | .createDocument request => answer .document (createDocument codec service request call.now)
  | .updateDocument request => answer .document (updateDocument codec service request call.now)
  | .deleteDocument request =>
    answer (fun _ => .empty) (deleteDocument codec service request call.now)
  | .batchGetDocuments request =>
    answer .batchGetDocuments (batchGetDocuments codec service request call.now call.uuid)
  | .beginTransaction database =>
    answer .beginTransaction (beginTransaction service database call.uuid)
  | .commit request => answer .commit (commit codec service request call.now)
  | .rollback request => answer (fun _ => .empty) (rollback service request)
  | .batchWrite request => answer .batchWrite (batchWrite codec service request call.now)
  | .runQuery request => answer .runQuery (runQuery codec service request call.now call.uuid)
  | .clearDatabase database => answer (fun _ => .empty) (clearDatabase service database)

/-- The service after the calls, one after the other. -/
def run (service : FirestoreService β) (calls : List Call) : FirestoreService β :=
  calls.foldl (fun service call => (handle codec service call).2) service

/-- The calls with what they were answered, in turn. -/
def history (service : FirestoreService β) : List Call → List (Call × Except Status Response)
  | [] => []
  | call :: calls =>
    (call, (handle codec service call).1) :: history (handle codec service call).2 calls

@[simp] theorem run_nil (service : FirestoreService β) : run codec service [] = service := rfl

@[simp] theorem run_cons (service : FirestoreService β) (call : Call) (calls : List Call) :
    run codec service (call :: calls) = run codec (handle codec service call).2 calls := rfl

@[simp] theorem run_append (service : FirestoreService β) (calls more : List Call) :
    run codec service (calls ++ more) = run codec (run codec service calls) more := by
  simp [run]

theorem history_append (service : FirestoreService β) (calls more : List Call) :
    history codec service (calls ++ more) =
      history codec service calls ++ history codec (run codec service calls) more := by
  induction calls generalizing service with
  | nil => rfl
  | cons call calls ih => simp [history, ih]

theorem history_calls (service : FirestoreService β) (calls : List Call) :
    (history codec service calls).map Prod.fst = calls := by
  induction calls generalizing service with
  | nil => rfl
  | cons call calls ih => simp [history, ih]

/-- The requests that look at documents, or open or close transactions. -/
def Request.Reads : Request → Prop
  | .batchGetDocuments _ | .beginTransaction _ | .rollback _ | .runQuery _ => True
  | _ => False

/-- They change nothing but the active transactions. -/
theorem handle_reads (service : FirestoreService β) (call : Call) (h : call.request.Reads) :
    ∃ tokens, (handle codec service call).2 =
      service.setStore (service.store.setTransactions tokens) := by
  obtain ⟨request, now, uuid⟩ := call
  cases request with
  | batchGetDocuments request =>
    simp only [handle, answer, batchGetDocuments]
    split
    · exact ⟨service.store.transactions, rfl⟩
    · rcases openBatchGet_cases service.store request uuid with
        ⟨database, -, ho⟩ | ⟨-, ho | ⟨status, ho⟩⟩ <;> rw [ho]
      · exact ⟨_, rfl⟩
      · exact ⟨service.store.transactions, rfl⟩
      · exact ⟨service.store.transactions, rfl⟩
  | beginTransaction database =>
    simp only [handle, answer, beginTransaction]
    split
    · exact ⟨service.store.transactions, rfl⟩
    · exact ⟨_, rfl⟩
  | rollback request =>
    simp only [handle, answer, rollback]
    split
    · exact ⟨service.store.transactions, rfl⟩
    · exact ⟨_, rfl⟩
  | runQuery request =>
    simp only [handle, answer, runQuery]
    rcases openRunQuery_cases service.store request uuid with
      ⟨database, -, ho⟩ | ⟨-, ho | ⟨status, ho⟩⟩ <;> rw [ho]
    · exact ⟨_, rfl⟩
    · exact ⟨service.store.transactions, rfl⟩
    · exact ⟨service.store.transactions, rfl⟩
  | _ => exact h.elim

variable {codec}

theorem answer_error {α : Type} {wrap : α → Response}
    {outcome : Except Status α × FirestoreService β} {status : Status} :
    (answer wrap outcome).1 = .error status ↔ outcome.1 = .error status :=
  exceptMap_eq_error

theorem answer_ok {α : Type} {wrap : α → Response}
    {outcome : Except Status α × FirestoreService β} {response : Response} :
    (answer wrap outcome).1 = .ok response ↔ ∃ a, outcome.1 = .ok a ∧ wrap a = response :=
  exceptMap_eq_ok

end FirebaseEmu.Firestore
