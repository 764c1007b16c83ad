import FirebaseEmu.Functions.Outbox
import FirebaseEmu.Storage.Objects

namespace FirebaseEmu.Storage
open Lib Std
open Functions (Outbox OutboxRecord)

/-- A row of `storage_objects`, beside its primary key. -/
structure ObjectRow (μ : Type) where
  blobName : String
  metadata : μ
  generation : Int
  created : String
  updated : String

/-- The tables Storage works on, and whether events are recorded. -/
structure ObjectTables (μ π : Type) where
  rows : ExtTreeMap ObjectKey (ObjectRow μ)
  generation : Nat
  outbox : Outbox π
  eventsEnabled : Bool

/-- What one save writes. -/
structure Save where
  key : ObjectKey
  bytes : Bytes
  metadata : UploadMetadata
  fallbackContentType : Option String
  blobName : String
  temporaryName : String

variable {μ π : Type} (codec : StorageCodec μ) (event : String → Json → π)

/-- The record of an event; `event` encodes its kind and its object. -/
def storageOutboxRecord (kind : String) (object : StoredObject) : OutboxRecord π :=
  ⟨"storage", event kind (objectJson object)⟩

def storedObject (key : ObjectKey) (row : ObjectRow μ) :
    Except PersistenceError StoredObject :=
  match codec.decode row.metadata with
  | .error error =>
    .error (.corrupt ("invalid Storage metadata for " ++ key.bucket ++ "/" ++ key.name ++ ": " ++
      error))
  | .ok metadata =>
    if row.generation ≤ 0 then
      .error (.corrupt ("negative Storage generation for " ++ key.bucket ++ "/" ++ key.name))
    else
      .ok {
        bucket := key.bucket
        name := key.name
        bytes := none
        blobName := some row.blobName
        size := metadata.size
        crc32c := metadata.crc32c
        contentType := metadata.contentType
        metadata := metadata.metadata
        cacheControl := metadata.cacheControl
        contentDisposition := metadata.contentDisposition
        contentEncoding := metadata.contentEncoding
        generation := row.generation.toNat
        created := row.created
        updated := row.updated
        downloadToken := metadata.downloadToken }

/-- The row that a save writes for its object, and leaves its creation time when there is one. -/
def objectRow (object : StoredObject) (blobName : String) (old : Option (ObjectRow μ)) :
    ObjectRow μ where
  blobName := blobName
  metadata := codec.encode object.stored
  generation := object.generation
  created := (old.map ObjectRow.created).getD object.created
  updated := object.updated

namespace ObjectTables

def empty (eventsEnabled : Bool) : ObjectTables μ π := ⟨∅, 0, .empty, eventsEnabled⟩

/-- The object of a save under the next generation. -/
def savedObject (tables : ObjectTables μ π) (save : Save) (now token : String) : StoredObject :=
  { newObject codec save.key save.bytes save.metadata save.fallbackContentType
      (tables.generation + 1) (tables.rows[save.key]?.map ObjectRow.created) now token with
    blobName := some save.blobName }

/-- The transaction of a save: the tables, the object, and the blob it replaces. -/
def saveObject (tables : ObjectTables μ π) (save : Save) (now token : String) :
    Except PersistenceError (ObjectTables μ π × StoredObject × Option String) :=
  let old := tables.rows[save.key]?
  let object := tables.savedObject codec save now token
  if tables.rows.toList.any fun entry =>
      entry.1 != save.key && entry.2.blobName == save.blobName then
    .error (.sqlite "UNIQUE constraint failed: storage_objects.blob_name")
  else
    match tables.outbox.insertOutbox tables.eventsEnabled
        [storageOutboxRecord event "finalize" object] with
    | .error outstanding => .error (.outboxFull outstanding)
    | .ok outbox =>
      .ok ({ tables with
        rows := tables.rows.insert save.key (objectRow codec object save.blobName old)
        generation := tables.generation + 1
        outbox }, object, old.map ObjectRow.blobName)

/-- The transaction of a delete: the tables and the blob that is left. -/
def deleteObject (tables : ObjectTables μ π) (key : ObjectKey) :
    Except PersistenceError (Option (ObjectTables μ π × String)) :=
  match tables.rows[key]? with
  | none => .ok none
  | some row =>
    match storedObject codec key row with
    | .error error => .error error
    | .ok object =>
      match tables.outbox.insertOutbox tables.eventsEnabled
          [storageOutboxRecord event "delete" object] with
      | .error outstanding => .error (.outboxFull outstanding)
      | .ok outbox =>
        .ok (some ({ tables with rows := tables.rows.erase key, outbox }, row.blobName))

def persistentObject (tables : ObjectTables μ π) (key : ObjectKey) :
    Except PersistenceError (Option StoredObject) :=
  match tables.rows[key]? with
  | none => .ok none
  | some row => (storedObject codec key row).map some

end ObjectTables

/-- The directories with the blobs and the temporary files. -/
structure Disk where
  blobs : ExtTreeMap String Bytes
  temporary : ExtTreeMap String Bytes

namespace Disk

/-- `blob_path_for_cleanup` and the unlink: a name that is no blob id is left alone. -/
def removeBlob (disk : Disk) (name : String) : Disk :=
  if canonicalUuid name then { disk with blobs := disk.blobs.erase name } else disk

/-- The first part of `load_blob`: the path of the blob, and a file there. -/
def inspectBlob (disk : Disk) (object : StoredObject) : Except PersistenceError String :=
  match object.blobName with
  | none => .error (.corrupt "persistent object has no blob id")
  | some name =>
    if !canonicalUuid name then .error (.corrupt ("invalid Storage blob id " ++ name))
    else if disk.blobs.contains name then .ok name
    else .error (.corrupt ("failed to inspect Storage blob " ++ name))

/-- The second part of `load_blob`: the bytes, which must be those of the metadata. -/
def readBlob (disk : Disk) (object : StoredObject) (name : String) :
    Except PersistenceError Bytes :=
  match disk.blobs[name]? with
  | none => .error (.corrupt ("failed to read Storage blob " ++ name))
  | some bytes =>
    if bytes.length != object.size || codec.crc32c bytes != object.crc32c then
      .error (.corrupt ("Storage blob " ++ name ++ " does not match committed metadata"))
    else .ok bytes

/-- `recover_blobs`: every blob that a row names must be there; other files are removed. -/
def recoverBlobs (disk : Disk) (referenced : List String) : Except PersistenceError Disk :=
  match referenced.find? fun name => !canonicalUuid name || !disk.blobs.contains name with
  | some name =>
    if canonicalUuid name then
      .error (.corrupt ("Storage metadata references missing blob " ++ name))
    else .error (.corrupt ("invalid Storage blob id " ++ name))
  | none =>
    .ok ⟨disk.blobs.filter fun name _ => referenced.contains name, ∅⟩

end Disk

def ObjectTables.referenced (tables : ObjectTables μ π) : List String :=
  tables.rows.toList.map fun entry => entry.2.blobName

end FirebaseEmu.Storage
