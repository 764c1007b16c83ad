import FirebaseEmu.Firestore.Events

namespace FirebaseEmu.Firestore
open Lib Std

/-- The protobuf encoding of a document as a blob, with what the store relies on:
decoding undoes encoding. A blob that is no document decodes to the decoder's text. -/
structure DocumentCodec (β : Type) where
  encode : Document → β
  decode : β → Except String Document
  decode_encode : ∀ document, decode (encode document) = .ok document

inductive OutboxState where
  | pending
  | inFlight
  | delivered
  | failed
  deriving DecidableEq

structure FirestoreOutboxPayload (β : Type) where
  before : Option β
  after : Option β

/-- A record for `event_outbox`; the payload stands for its JSON text. -/
structure OutboxRecord (β : Type) where
  source : String
  payload : FirestoreOutboxPayload β

structure OutboxRow (β : Type) where
  id : Nat
  source : String
  payload : FirestoreOutboxPayload β
  state : OutboxState
  attempts : Nat
  availableAt : Int

/-- A row of `firestore_documents`, beside its primary key. -/
structure Row (β : Type) where
  databaseName : String
  document : β

/-- The tables the Firestore service works on, and whether events are recorded. -/
structure Persistence (β : Type) where
  documents : ExtTreeMap String (Row β)
  autoId : Nat
  outbox : List (OutboxRow β)
  nextOutboxId : Nat
  eventsEnabled : Bool

inductive PersistenceError where
  | conversion (error : String)
  | outboxFull (outstanding : Nat)

def PersistenceError.message : PersistenceError → String
  | .conversion error =>
    "SQLite persistence error: Conversion error from type Blob at index: 0, " ++ error
  | .outboxFull outstanding =>
    s!"durable Functions outbox is full ({outstanding} pending or in-flight events)"

def persistenceStatus (error : PersistenceError) : Status :=
  ⟨.unavailable, "durable Firestore operation failed: " ++ error.message⟩

def outboxCapacity : Nat := 4096

variable {β : Type}

def OutboxRow.outstanding (row : OutboxRow β) : Bool :=
  row.state == .pending || row.state == .inFlight

def Persistence.outstanding (p : Persistence β) : Nat := p.outbox.countP OutboxRow.outstanding

def outboxRows (nextId : Nat) : List (OutboxRecord β) → List (OutboxRow β)
  | [] => []
  | record :: records =>
    ⟨nextId, record.source, record.payload, .pending, 0, 0⟩ :: outboxRows (nextId + 1) records

theorem outboxRows_outstanding (nextId : Nat) (records : List (OutboxRecord β)) :
    (outboxRows nextId records).countP OutboxRow.outstanding = records.length := by
  induction records generalizing nextId with
  | nil => rfl
  | cons record records ih => rw [outboxRows, List.countP_cons_of_pos rfl, ih, List.length_cons]

def insertOutbox (p : Persistence β) (records : List (OutboxRecord β)) :
    Except PersistenceError (Persistence β) :=
  if !p.eventsEnabled then .ok p
  else if outboxCapacity < p.outstanding + records.length then .error (.outboxFull p.outstanding)
  else .ok { p with
    outbox := p.outbox ++ outboxRows p.nextOutboxId records
    nextOutboxId := p.nextOutboxId + records.length }

variable (codec : DocumentCodec β)

def outboxRecord (event : DocumentEvent) : OutboxRecord β :=
  ⟨"firestore", event.before.map codec.encode, event.after.map codec.encode⟩

def documentOutboxRecords (before after : Documents) : List (OutboxRecord β) :=
  (documentEvents before after).map (outboxRecord codec)

def decodeDocument (bytes : β) : Except PersistenceError Document :=
  (codec.decode bytes).mapError .conversion

/-- The rows of the named documents, decoded into a working map. -/
def loadDocuments (rows : ExtTreeMap String (Row β)) :
    List String → Documents → Except PersistenceError Documents
  | [], documents => .ok documents
  | name :: names, documents =>
    match rows[name]? with
    | none => loadDocuments rows names documents
    | some row => do
      let document ← decodeDocument codec row.document
      loadDocuments rows names (documents.insert name document)

/-- One name of the write-back loop: upsert the document or delete the row. -/
def storeDocument (database : String) (documents : Documents) (rows : ExtTreeMap String (Row β))
    (name : String) : ExtTreeMap String (Row β) :=
  match documents[name]? with
  | some document => rows.insert name ⟨database, codec.encode document⟩
  | none => rows.erase name

/-- The write loop of `persistentWrites`: a refused write ends it unless the request
allows partial success. -/
def applyWrites (writeTime : Timestamp) (allowPartial : Bool) :
    Documents → List Write → List WriteResult → List RpcStatus →
    Except Status (List WriteResult × List RpcStatus) × Documents
  | documents, [], results, statuses => (.ok (results, statuses), documents)
  | documents, write :: writes, results, statuses =>
    match applyWrite documents write writeTime with
    | (.ok result, documents) =>
      applyWrites writeTime allowPartial documents writes (results ++ [result])
        (statuses ++ [.default])
    | (.error status, documents) =>
      if allowPartial then
        applyWrites writeTime allowPartial documents writes (results ++ [.default])
          (statuses ++ [statusProto status])
      else (.error status, documents)

/-- The names the writes touch, sorted and without repetitions. -/
def touchedNames (writes : List Write) : Except Status (List String) := do
  let names ← writes.mapM writeName
  pure (names.insertionSort (· ≤ ·)).dedup

/-- The transaction of `persistentWrites`; a transaction that is not committed leaves
the tables as they were. -/
def writeTransaction (database : String) (writes : List Write) (allowPartial : Bool)
    (writeTime : Timestamp) (names : List String) (p : Persistence β) :
    Except PersistenceError (Except Status (List WriteResult × List RpcStatus × Documents) ×
      Persistence β) := do
  let before ← loadDocuments codec p.documents names ∅
  match applyWrites writeTime allowPartial before writes [] [] with
  | (.error status, _) => pure (.error status, p)
  | (.ok (results, statuses), documents) =>
    let rows := names.foldl (storeDocument codec database documents) p.documents
    let p' ← insertOutbox { p with documents := rows } (documentOutboxRecords codec before documents)
    pure (.ok (results, statuses, documents), p')

/-- The job a handler sends to the writer, with its error mapped to a status. -/
def runJob {α : Type} (p : Persistence β)
    (job : Persistence β → Except PersistenceError (Except Status α × Persistence β)) :
    Except Status α × Persistence β :=
  match job p with
  | .error error => (.error (persistenceStatus error), p)
  | .ok outcome => outcome

def persistentWrites (p : Persistence β) (database : String) (writes : List Write)
    (allowPartial : Bool) (writeTime : Timestamp) :
    Except Status (List WriteResult × List RpcStatus × Documents) × Persistence β :=
  match validateWritesDatabase database writes with
  | .error status => (.error status, p)
  | .ok () =>
    match touchedNames writes with
    -- `expect("writes were validated")`
    | .error status => (.error status, p)
    | .ok names => runJob p (writeTransaction codec database writes allowPartial writeTime names)

end FirebaseEmu.Firestore
