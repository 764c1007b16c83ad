import FirebaseEmu.Storage.Listing
import FirebaseEmu.Storage.Tables
import Mathlib.Data.List.Sort

namespace FirebaseEmu.Storage
open Lib Std
open Functions (Outbox)

/-- The in-memory backend. -/
structure StorageData where
  nextGeneration : Nat
  objects : ExtTreeMap ObjectKey StoredObject

/-- The persistent backend between two requests. -/
structure PersistentStore (μ π : Type) where
  tables : ObjectTables μ π
  disk : Disk

/-- What a request asks for. `reopen` stops and starts the persistent backend, and with `others`
the other parts of the emulator change its outbox; the in-memory backend has neither. -/
inductive StorageRequest (π : Type) where
  | save (key : ObjectKey) (bytes : Bytes) (metadata : UploadMetadata)
      (fallbackContentType : Option String)
  | delete (key : ObjectKey)
  | metadata (key : ObjectKey)
  | media (key : ObjectKey)
  | list (bucket : String) (query : ListQuery)
  | reopen
  | others (outbox : Outbox π)

/-- The names that the persistent backend draws for a request, and the download token. -/
structure Draws where
  blobName : String
  temporaryName : String
  token : String

/-- A request, the clock reading it gets, and what each backend draws. -/
structure StorageCall (π : Type) where
  request : StorageRequest π
  now : String
  memoryToken : String
  draws : Draws

variable {μ π : Type} (codec : StorageCodec μ) (event : String → Json → π)

namespace StorageData

def empty : StorageData := ⟨0, ∅⟩

def savedObject (data : StorageData) (key : ObjectKey) (bytes : Bytes) (metadata : UploadMetadata)
    (fallbackContentType : Option String) (now token : String) : StoredObject :=
  { newObject codec key bytes metadata fallbackContentType (data.nextGeneration + 1)
      (data.objects[key]?.map StoredObject.created) now token with
    bytes := some bytes }

def saveObject (data : StorageData) (key : ObjectKey) (bytes : Bytes) (metadata : UploadMetadata)
    (fallbackContentType : Option String) (now token : String) : Reply × StorageData :=
  let object := data.savedObject codec key bytes metadata fallbackContentType now token
  (.object (objectJson object), ⟨data.nextGeneration + 1, data.objects.insert key object⟩)

def deleteObject (data : StorageData) (key : ObjectKey) : Reply × StorageData :=
  match data.objects[key]? with
  | some _ => (.noContent, { data with objects := data.objects.erase key })
  | none => (.notFound, data)

def matching (data : StorageData) (bucket pre : String) : List StoredObject :=
  ((data.objects.toList.map Prod.snd).filter fun object =>
    object.bucket == bucket && startsWith object.name pre).mergeSort
      fun left right => decide (left.name ≤ right.name)

def handle (data : StorageData) (call : StorageCall π) : Reply × StorageData :=
  match call.request with
  | .save key bytes metadata fallbackContentType =>
    data.saveObject codec key bytes metadata fallbackContentType call.now call.memoryToken
  | .delete key => data.deleteObject key
  | .metadata key =>
    (match data.objects[key]? with
    | some object => .object (objectJson object)
    | none => .notFound, data)
  | .media key =>
    (match data.objects[key]? with
    | some object => mediaResponse object
    | none => .notFound, data)
  | .list bucket query =>
    (listResponse codec (data.matching bucket (query.pre.getD "")) query, data)
  | .reopen => (.noContent, data)
  | .others _ => (.noContent, data)

end StorageData

/-- The file part of a save: the temporary file, and its rename. -/
def Disk.storeBlob (disk : Disk) (save : Save) : Except PersistenceError Disk :=
  if disk.temporary.contains save.temporaryName then .error (.io "File exists (os error 17)")
  else .ok ⟨disk.blobs.insert save.blobName save.bytes,
    (disk.temporary.insert save.temporaryName save.bytes).erase save.temporaryName⟩

/-- `length` and `substr` of SQLite end a text at its first NUL. -/
def sqlText (text : String) : List Char := text.toList.takeWhile (· != '\x00')

/-- `substr(name,1,length(prefix))=prefix`. -/
def sqlStartsWith (name pre : String) : Bool :=
  String.ofList ((sqlText name).take (sqlText pre).length) == pre

namespace PersistentStore

def empty (eventsEnabled : Bool) : PersistentStore μ π := ⟨.empty eventsEnabled, ⟨∅, ∅⟩⟩

def saveObject (store : PersistentStore μ π) (save : Save) (now token : String) :
    Reply × PersistentStore μ π :=
  match store.disk.storeBlob save with
  | .error error => (persistenceFailure error, store)
  | .ok disk =>
    match store.tables.saveObject codec event save now token with
    | .error error =>
      (persistenceFailure error, ⟨store.tables, { disk with
        blobs := disk.blobs.erase save.blobName }⟩)
    | .ok (tables, object, old) =>
      (.object (objectJson object), ⟨tables, match old.filter (· != save.blobName) with
        | some old => disk.removeBlob old
        | none => disk⟩)

def deleteObject (store : PersistentStore μ π) (key : ObjectKey) :
    Reply × PersistentStore μ π :=
  match store.tables.deleteObject codec event key with
  | .ok (some (tables, blob)) => (.noContent, ⟨tables, store.disk.removeBlob blob⟩)
  | .ok none => (.notFound, store)
  | .error error => (persistenceFailure error, store)

/-- `persistent_media` and its response. -/
def media (store : PersistentStore μ π) (key : ObjectKey) : Reply :=
  match store.tables.persistentObject codec key with
  | .error error => persistenceFailure error
  | .ok none => .notFound
  | .ok (some object) =>
    match store.disk.inspectBlob object with
    | .error error => persistenceFailure error
    | .ok name =>
      match store.disk.readBlob codec object name with
      | .error error => persistenceFailure error
      | .ok bytes => mediaResponse { object with bytes := some bytes }

/-- The rows of a bucket whose names have the prefix, by name, each decoded. -/
def matching (store : PersistentStore μ π) (bucket pre : String) :
    Except PersistenceError (List StoredObject) :=
  ((store.tables.rows.toList.filter fun entry =>
    entry.1.bucket == bucket && sqlStartsWith entry.1.name pre).mergeSort
      fun left right => decide (left.1.name ≤ right.1.name)).mapM
        fun entry => storedObject codec entry.1 entry.2

def reopen (store : PersistentStore μ π) : Reply × PersistentStore μ π :=
  match store.disk.recoverBlobs store.tables.referenced with
  | .ok disk => (.noContent, { store with disk })
  | .error error => (persistenceFailure error, store)

def handle (store : PersistentStore μ π) (call : StorageCall π) : Reply × PersistentStore μ π :=
  match call.request with
  | .save key bytes metadata fallbackContentType =>
    store.saveObject codec event ⟨key, bytes, metadata, fallbackContentType, call.draws.blobName,
      call.draws.temporaryName⟩ call.now call.draws.token
  | .delete key => store.deleteObject codec event key
  | .metadata key =>
    (match store.tables.persistentObject codec key with
    | .ok (some object) => .object (objectJson object)
    | .ok none => .notFound
    | .error error => persistenceFailure error, store)
  | .media key => (store.media codec key, store)
  | .list bucket query =>
    (match store.matching codec bucket (query.pre.getD "") with
    | .ok matching => listResponse codec matching query
    | .error error => persistenceFailure error, store)
  | .reopen => store.reopen
  | .others outbox => (.noContent, { store with tables := { store.tables with outbox } })

end PersistentStore

end FirebaseEmu.Storage
