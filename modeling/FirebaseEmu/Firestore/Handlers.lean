import FirebaseEmu.Firestore.Service

namespace FirebaseEmu.Firestore
open Lib Std

variable {β : Type} (codec : DocumentCodec β)

def autoDocumentId (n : Nat) : String :=
  let digits := Nat.toDigits 10 n
  "auto-" ++ String.ofList (List.replicate (20 - digits.length) '0' ++ digits)

def alreadyExists (name : String) : Status := ⟨.alreadyExists, "document already exists: " ++ name⟩

def createdDocument (document : Document) (name : String) (now : Timestamp) : Document :=
  { document with name := name, createTime := some now, updateTime := some now }

def createdName (request : CreateDocumentRequest) (documentId : String) : String :=
  trimEnd '/' request.parent ++ "/" ++ request.collectionId ++ "/" ++ documentId

/-- The identifier of the new document: the requested one, or the next of the counter. -/
def Persistence.takeDocumentId (p : Persistence β) (requested : String) :
    String × Persistence β :=
  if requested = "" then (autoDocumentId (p.autoId + 1), { p with autoId := p.autoId + 1 })
  else (requested, p)

def Store.takeDocumentId (store : Store) (requested : String) : String × Store :=
  if requested = "" then
    (autoDocumentId (store.nextId + 1), { store with nextId := store.nextId + 1 })
  else (requested, store)

/-- The transaction of the persistent branch of `createDocument`. -/
def createTransactionJob (request : CreateDocumentRequest) (document : Document) (now : Timestamp)
    (p : Persistence β) :
    Except PersistenceError (Except Status Document × Persistence β) :=
  let (documentId, counted) := p.takeDocumentId request.documentId
  let name := createdName request documentId
  match validateDocumentName name with
  | .error status => .ok (.error status, p)
  | .ok () =>
    match databaseFromResource name with
    | .error status => .ok (.error status, p)
    | .ok database =>
      if p.documents.contains name then .ok (.error (alreadyExists name), p)
      else do
        let document := createdDocument document name now
        let rows := counted.documents.insert name ⟨database, codec.encode document⟩
        let records := documentOutboxRecords codec ∅ ((∅ : Documents).insert name document)
        let p' ← insertOutbox { counted with documents := rows } records
        pure (.ok document, p')

def createDocument (service : FirestoreService β) (request : CreateDocumentRequest)
    (now : Timestamp) : Except Status Document × FirestoreService β :=
  match request.document with
  | none => (.error (invalidArgument "document is required"), service)
  | some document =>
    if request.parent = "" ∨ request.collectionId = "" then
      (.error (invalidArgument "parent and collection_id are required"), service)
    else match service.persistence with
    | some p =>
      match runJob p (createTransactionJob codec request document now) with
      | (.error status, p) => (.error status, service.setPersistence p)
      | (.ok document, p) => (.ok document, (service.setPersistence p).notify)
    | none =>
      let (documentId, store) := service.store.takeDocumentId request.documentId
      let name := createdName request documentId
      match validateDocumentName name with
      | .error status => (.error status, service.setStore store)
      | .ok () =>
        if store.documents.contains name then (.error (alreadyExists name), service.setStore store)
        else
          let document := createdDocument document name now
          let store := store.setDocuments (store.documents.insert document.name document)
            (store.named.insert document)
          (.ok document, ((service.setStore store).enqueue
            (documentChanged service.runtime none (some document))).notify)

/-- The single write of an update request. -/
def updateWrite (request : UpdateDocumentRequest) (document : Document) : Write :=
  ⟨some (.update document), request.updateMask, request.currentDocument, []⟩

def updateDocument (service : FirestoreService β) (request : UpdateDocumentRequest)
    (now : Timestamp) : Except Status Document × FirestoreService β :=
  match request.document with
  | none => (.error (invalidArgument "document is required"), service)
  | some document =>
    let name := document.name
    match service.persistence with
    | some p =>
      match databaseFromResource name with
      | .error status => (.error status, service)
      | .ok database =>
        match persistentWrites codec p database [updateWrite request document] false now with
        | (.error status, p) => (.error status, service.setPersistence p)
        | (.ok (_, _, documents), p) =>
          match documents[name]? with
          | some document => (.ok document, (service.setPersistence p).notify)
          | none => (.error ⟨.internal, "updated document disappeared"⟩,
              (service.setPersistence p).notify)
    | none =>
      let before := service.store.documents[name]?
      let outcome := applyWrite service.store.documents (updateWrite request document) now
      let store := service.store.setDocuments outcome.2
        (service.store.named.applyWrite (updateWrite request document) now)
      match outcome.1 with
      | .error status => (.error status, service.setStore store)
      | .ok _ =>
        match store.documents[name]? with
        | some document => (.ok document, ((service.setStore store).enqueue
            (documentChanged service.runtime before (some document))).notify)
        -- `store.documents[&name]` would panic
        | none => (.error ⟨.internal, "updated document disappeared"⟩, service.setStore store)

/-- The single write of a delete request. -/
def deleteWrite (request : DeleteDocumentRequest) : Write :=
  ⟨some (.delete request.name), none, request.currentDocument, []⟩

def deleteDocument (service : FirestoreService β) (request : DeleteDocumentRequest)
    (now : Timestamp) : Except Status Unit × FirestoreService β :=
  match validateDocumentName request.name with
  | .error status => (.error status, service)
  | .ok () =>
    match service.persistence with
    | some p =>
      match databaseFromResource request.name with
      | .error status => (.error status, service)
      | .ok database =>
        match persistentWrites codec p database [deleteWrite request] false now with
        | (.error status, p) => (.error status, service.setPersistence p)
        | (.ok _, p) => (.ok (), (service.setPersistence p).notify)
    | none =>
      match checkPrecondition service.store.documents[request.name]? request.currentDocument with
      | .error status => (.error status, service)
      | .ok () =>
        let before := service.store.documents[request.name]?
        let store := service.store.setDocuments (service.store.documents.erase request.name)
          (service.store.named.erase request.name)
        (.ok (), ((service.setStore store).enqueue
          (documentChanged service.runtime before none)).notify)

def batchGetResponses (found : Documents) (token : Option Bytes) (readTime : Timestamp)
    (names : List String) : List BatchGetDocumentsResponse :=
  let responses := names.map fun name =>
    BatchGetDocumentsResponse.mk
      (some (match found[name]? with
        | some document => .found document
        | none => .missing name)) [] (some readTime)
  let responses := if responses.isEmpty && token.isSome then
      [BatchGetDocumentsResponse.mk none [] (some readTime)]
    else responses
  match token, responses with
  | some token, first :: rest => { first with transaction := token } :: rest
  | _, responses => responses

/-- The check or the creation of the transaction a batch get asks for. -/
def openBatchGet (store : Store) (request : BatchGetDocumentsRequest) (uuid : Bytes) :
    Except Status (Option Bytes × Store) :=
  match request.consistencySelector with
  | some (.transaction transaction) => do
    validateTransaction store request.database transaction
    pure (none, store)
  | some .newTransaction => do
    let _ ← databaseDocumentPrefix request.database
    let (token, store) := createTransaction store request.database uuid
    pure (some token, store)
  | _ => .ok (none, store)

def batchGetDocuments (service : FirestoreService β) (request : BatchGetDocumentsRequest)
    (readTime : Timestamp) (uuid : Bytes) :
    Except Status (List BatchGetDocumentsResponse) × FirestoreService β :=
  match request.documents.forM validateDocumentName with
  | .error status => (.error status, service)
  | .ok () =>
    match openBatchGet service.store request uuid with
    | .error status => (.error status, service)
    | .ok (token, store) =>
      let service := service.setStore store
      let found : Except Status Documents := match service.persistence with
        | some _ => (documents codec service request.documents).map
            (List.foldl (fun found document => found.insert document.name document) ∅)
        | none => .ok store.documents
      (found.map (batchGetResponses · token readTime request.documents), service)

def beginTransaction (service : FirestoreService β) (database : String) (uuid : Bytes) :
    Except Status Bytes × FirestoreService β :=
  match databaseDocumentPrefix database with
  | .error status => (.error status, service)
  | .ok _ =>
    let (token, store) := createTransaction service.store database uuid
    (.ok token, service.setStore store)

/-- The write loop of the in-memory `commit`: the first refused write ends it. -/
def pendingWrites (commitTime : Timestamp) :
    Documents → List Write → List WriteResult → Except Status (List WriteResult) × Documents
  | pending, [], results => (.ok results, pending)
  | pending, write :: writes, results =>
    match applyWrite pending write commitTime with
    | (.ok result, pending) => pendingWrites commitTime pending writes (results ++ [result])
    | (.error status, pending) => (.error status, pending)

/-- The write loop of the in-memory `batchWrite`: a refused write is passed over. -/
def batchWrites (writeTime : Timestamp) :
    Documents → List Write → List WriteResult → List RpcStatus →
    (List WriteResult × List RpcStatus) × Documents
  | documents, [], results, statuses => ((results, statuses), documents)
  | documents, write :: writes, results, statuses =>
    match applyWrite documents write writeTime with
    | (.ok result, documents) =>
      batchWrites writeTime documents writes (results ++ [result]) (statuses ++ [.default])
    | (.error status, documents) =>
      batchWrites writeTime documents writes (results ++ [.default])
        (statuses ++ [statusProto status])

theorem Named.pendingWrites {commitTime : Timestamp} {documents : Documents} (h : Named documents)
    (writes : List Write) (results : List WriteResult) :
    Named (pendingWrites commitTime documents writes results).2 := by
  induction writes generalizing documents results with
  | nil => exact h
  | cons write writes ih =>
    have hn := h.applyWrite write commitTime
    unfold Firestore.pendingWrites
    split
    · rename_i ha
      rw [ha] at hn
      exact ih hn _
    · rename_i ha
      rw [ha] at hn
      exact hn

theorem Named.batchWrites {writeTime : Timestamp} {documents : Documents} (h : Named documents)
    (writes : List Write) (results : List WriteResult) (statuses : List RpcStatus) :
    Named (batchWrites writeTime documents writes results statuses).2 := by
  induction writes generalizing documents results statuses with
  | nil => exact h
  | cons write writes ih =>
    have hn := h.applyWrite write writeTime
    unfold Firestore.batchWrites
    split
    all_goals
      rename_i ha
      rw [ha] at hn
      exact ih hn _ _

/-- `if !request.transaction.is_empty()`: an empty token stands for no transaction. -/
def checkTransaction (store : Store) (database : String) (transaction : Bytes) :
    Except Status Unit :=
  if transaction = [] then .ok () else validateTransaction store database transaction

def removeTransaction (store : Store) (transaction : Bytes) : Store :=
  if transaction = [] then store else store.setTransactions (store.transactions.erase transaction)

def commit (service : FirestoreService β) (request : CommitRequest) (commitTime : Timestamp) :
    Except Status CommitResponse × FirestoreService β :=
  match checkTransaction service.store request.database request.transaction with
  | .error status => (.error status, service)
  | .ok () =>
    match service.persistence with
    | some p =>
      match persistentWrites codec p request.database request.writes false commitTime with
      | (.error status, p) => (.error status, service.setPersistence p)
      | (.ok (results, _, _), p) =>
        (.ok ⟨results, some commitTime⟩, ((service.setPersistence p).notify).setStore
          (removeTransaction service.store request.transaction))
    | none =>
      let outcome := pendingWrites commitTime service.store.documents request.writes []
      match outcome.1 with
      | .error status => (.error status, service)
      | .ok results =>
        let events := documentsChanged service.runtime service.store.documents outcome.2
        let store := service.store.setDocuments outcome.2
          (service.store.named.pendingWrites request.writes [])
        (.ok ⟨results, some commitTime⟩, ((service.setStore
          (removeTransaction store request.transaction)).enqueue events).notify)

def rollback (service : FirestoreService β) (request : RollbackRequest) :
    Except Status Unit × FirestoreService β :=
  match validateTransaction service.store request.database request.transaction with
  | .error status => (.error status, service)
  | .ok () => (.ok (), service.setStore
      (service.store.setTransactions (service.store.transactions.erase request.transaction)))

def batchWrite (service : FirestoreService β) (request : BatchWriteRequest)
    (writeTime : Timestamp) : Except Status BatchWriteResponse × FirestoreService β :=
  match service.persistence with
  | some p =>
    match persistentWrites codec p request.database request.writes true writeTime with
    | (.error status, p) => (.error status, service.setPersistence p)
    | (.ok (results, statuses, _), p) =>
      (.ok ⟨results, statuses⟩, (service.setPersistence p).notify)
  | none =>
    let outcome := batchWrites writeTime service.store.documents request.writes [] []
    let events := documentsChanged service.runtime service.store.documents outcome.2
    let store := service.store.setDocuments outcome.2
      (service.store.named.batchWrites request.writes [] [])
    (.ok ⟨outcome.1.1, outcome.1.2⟩, ((service.setStore store).enqueue events).notify)

def runQueryResponses (docs : List Document) (token : Option Bytes) (readTime : Timestamp) :
    List RunQueryResponse :=
  if docs.isEmpty then [⟨none, token.getD [], some readTime, true⟩]
  else docs.mapIdx fun index document =>
    ⟨some document, if index = 0 then token.getD [] else [], some readTime, false⟩

def openRunQuery (store : Store) (request : RunQueryRequest) (uuid : Bytes) :
    Except Status (Option Bytes × Store) :=
  match request.consistencySelector with
  | some (.transaction transaction) => do
    let database ← databaseFromResource request.parent
    validateTransaction store database transaction
    pure (none, store)
  | some .newTransaction => do
    let database ← databaseFromResource request.parent
    let (token, store) := createTransaction store database uuid
    pure (some token, store)
  | _ => .ok (none, store)

/-- The token is drawn before the query is looked at, and kept when that fails. -/
def runQuery (service : FirestoreService β) (request : RunQueryRequest) (readTime : Timestamp)
    (uuid : Bytes) : Except Status (List RunQueryResponse) × FirestoreService β :=
  match openRunQuery service.store request uuid with
  | .error status => (.error status, service)
  | .ok (token, store) =>
    let service := service.setStore store
    let docs : Except Status (List Document) := match request.structuredQuery with
      | none => .error (invalidArgument "structured_query is required")
      | some query => queryDocs codec service request.parent query
    (docs.map (runQueryResponses · token readTime), service)

def clearTransactions (store : Store) (database : String) : Store :=
  store.setTransactions (store.transactions.filter fun _ transactionDatabase =>
    transactionDatabase != database)

def clearDatabase (service : FirestoreService β) (database : String) :
    Except Status Unit × FirestoreService β :=
  match databaseDocumentPrefix database with
  | .error status => (.error status, service)
  | .ok pre =>
    match service.persistence with
    | some p =>
      let p := { p with documents := p.documents.filter fun _ row => row.databaseName != database }
      (.ok (), ((service.setPersistence p).setStore (clearTransactions service.store database)).notify)
    | none =>
      let store := service.store.setDocuments
        (service.store.documents.filter fun name _ => !startsWith name pre)
        (service.store.named.filter _)
      (.ok (), (service.setStore (clearTransactions store database)).notify)

end FirebaseEmu.Firestore
