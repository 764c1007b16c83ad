import FirebaseEmu.Firestore.Persistence
import FirebaseEmu.Firestore.Query
import FirebaseEmu.Firestore.Store

namespace FirebaseEmu.Firestore
open Lib Std

/-- The Firestore service: its store, its optional SQLite backend, the notifications
sent on `changes`, whether a Functions runtime is set, and the direct events enqueued. -/
structure FirestoreService (β : Type) where
  store : Store
  persistence : Option (Persistence β)
  changes : Nat
  runtime : Bool
  enqueued : List DocumentEvent

variable {β : Type}

namespace FirestoreService

def setStore (service : FirestoreService β) (store : Store) : FirestoreService β :=
  { service with store := store }

def setPersistence (service : FirestoreService β) (p : Persistence β) : FirestoreService β :=
  { service with persistence := some p }

def notify (service : FirestoreService β) : FirestoreService β :=
  { service with changes := service.changes + 1 }

def enqueue (service : FirestoreService β) (events : List DocumentEvent) : FirestoreService β :=
  { service with enqueued := service.enqueued ++ events }

theorem setPersistence_self {service : FirestoreService β} {p : Persistence β}
    (h : service.persistence = some p) : service.setPersistence p = service := by
  obtain ⟨store, persistence, changes, runtime, enqueued⟩ := service
  cases h
  rfl

end FirestoreService

variable (codec : DocumentCodec β)

def document (service : FirestoreService β) (name : String) : Except Status (Option Document) :=
  match service.persistence with
  | some p =>
    match p.documents[name]? with
    | none => .ok none
    | some row => ((decodeDocument codec row.document).map some).mapError persistenceStatus
  | none => .ok service.store.documents[name]?

def documents (service : FirestoreService β) (names : List String) :
    Except Status (List Document) :=
  match service.persistence with
  | some p => ((names.filterMap (p.documents[·]?)).mapM fun row =>
      decodeDocument codec row.document).mapError persistenceStatus
  | none => .ok (names.filterMap (service.store.documents[·]?))

/-- SQLite selects by the database column, memory walks the range of the name prefix. -/
def databaseDocuments (service : FirestoreService β) (database : String) :
    Except Status (List Document) :=
  match service.persistence with
  | some p =>
    let rows := (p.documents.toList.map Prod.snd).filter (·.databaseName == database)
    (rows.mapM fun row => decodeDocument codec row.document).mapError persistenceStatus
  | none => do
    let pre ← databaseDocumentPrefix database
    let range := service.store.documents.toList.dropWhile fun (name, _) => decide (name < pre)
    pure ((range.takeWhile fun (name, _) => startsWith name pre).map Prod.snd)

def queryDocs (service : FirestoreService β) (parent : String) (query : StructuredQuery) :
    Except Status (List Document) := do
  let selector ← querySelector query
  let database ← databaseFromResource parent
  let documents ← match service.persistence with
    | some _ => databaseDocuments codec service database
    | none => pure (service.store.documents.toList.map Prod.snd)
  evaluateQuery documents parent selector query

def targetDocs (service : FirestoreService β) (target : Target) : Except Status (List Document) :=
  match target.targetType with
  | some (.documents names) => documents codec service names
  | some (.query parent (some query)) => queryDocs codec service parent query
  | some (.query _ none) => .error (invalidArgument "query required")
  | none => .error (invalidArgument "target required")

end FirebaseEmu.Firestore
