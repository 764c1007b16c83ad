import FirebaseEmu.Lib.Decimal
import FirebaseEmu.Lib.Machine
import FirebaseEmu.Lib.Search
import FirebaseEmu.Storage.Backend

namespace FirebaseEmu.Storage
open Lib Std

def resumableUploadTtlSecs : Nat := 60 * 60

def maxUploadBytes : Nat := 64 * 1024 * 1024

structure PendingUpload where
  bucket : String
  name : String
  metadata : UploadMetadata
  bytes : Bytes
  createdAt : Nat

namespace PendingUpload

def key (upload : PendingUpload) : ObjectKey := ⟨upload.bucket, upload.name⟩

/-- What `prune_expired_uploads` retains. -/
def live (upload : PendingUpload) (now : Nat) : Bool :=
  decide (now < min (upload.createdAt + resumableUploadTtlSecs) (2 ^ 64 - 1))

end PendingUpload

/-- What a request that starts a session gives: its query, `x-upload-content-type` and body. -/
structure StartRequest where
  bucket : String
  name : Option String
  contentType : Option String
  body : Bytes

/-- What a request on a session gives: its query, the command, offset and content type of its
headers, and its body. -/
structure PutRequest where
  bucket : String
  uploadId : Option String
  command : Option String
  offset : Option String
  contentType : Option String
  body : Bytes

/-- A session that is finalized while its object is still to be saved. -/
structure Finalized where
  upload : PendingUpload
  contentType : Option String

/-- The sessions, those that are finalized and not saved yet, and the objects. -/
structure UploadService (υ μ π : Type) where
  uploads : υ → Option PendingUpload
  finalized : υ → Option Finalized
  backend : Backend μ π

/-- A request comes and holds the lock to its end, the new session under the id drawn for it; or
a finalized session is saved. -/
inductive UploadEvent (υ : Type) where
  | start (id : υ) (request : StartRequest) (now : Nat)
  | put (request : PutRequest) (now : Nat)
  | save (id : υ) (now : String) (draws : Draws)

inductive UploadAnswer where
  | started
  | cancelled
  | status (received : Nat)
  | received (size : Nat)
  | finalized (size : Nat)
  | saved (key : ObjectKey) (reply : Reply)
  | refused (code : Nat) (message : String)
  | idle

/-- What other crates read: ids, and metadata. -/
structure UploadConfig (υ μ π : Type) where
  codec : StorageCodec μ
  event : String → Json → π
  parseUuid : String → Option υ
  readMetadata : Bytes → Except String NamedMetadata

variable {υ μ π : Type} [DecidableEq υ]

/-- A map with another value under a key. -/
def assign {α : Type} (map : υ → Option α) (id : υ) (value : Option α) : υ → Option α :=
  fun other => if other = id then value else map other

def pruneExpiredUploads (uploads : υ → Option PendingUpload) (now : Nat) :
    υ → Option PendingUpload :=
  fun id => (uploads id).filter fun upload => upload.live now

/-- The session that a request is about. -/
def PutRequest.target (parseUuid : String → Option υ) (request : PutRequest) : Option υ :=
  request.uploadId.bind parseUuid

def PutRequest.commandText (request : PutRequest) : String := request.command.getD ""

/-- Neither a cancel nor a query: the body is a chunk. -/
def PutRequest.isChunk (request : PutRequest) : Bool :=
  request.commandText != "cancel" && request.commandText != "query"

def PutRequest.offsetNumber (request : PutRequest) : Option Nat := request.offset.bind parseUsize

/-- `!command.is_empty() && !command.contains("finalize")`. -/
def PutRequest.goesOn (request : PutRequest) : Bool :=
  !request.commandText.isEmpty &&
    (find request.commandText.toList "finalize".toList).isNone

namespace UploadService
variable (config : UploadConfig υ μ π)

/-- The resumable branch of `upload_object`. -/
def start (service : UploadService υ μ π) (id : υ) (request : StartRequest) (now : Nat) :
    UploadAnswer × UploadService υ μ π :=
  match (if request.body.isEmpty then .ok ⟨⟨none, none, none, none, []⟩, none⟩
    else config.readMetadata request.body) with
  | .error error => (.refused 400 error, service)
  | .ok metadata =>
    match (request.name.or metadata.name).filter fun name => !name.isEmpty with
    | none => (.refused 400 "missing object name", service)
    | some name =>
      let upload : PendingUpload :=
        { bucket := request.bucket
          name := name
          metadata := { metadata.toUploadMetadata with
            contentType := metadata.contentType.or request.contentType }
          bytes := []
          createdAt := now }
      (.started, { service with
        uploads := assign (pruneExpiredUploads service.uploads now) id (some upload) })

/-- What `resumable_put` does with a chunk of a session. -/
def putChunk (service : UploadService υ μ π) (id : υ) (upload : PendingUpload)
    (request : PutRequest) : UploadAnswer × UploadService υ μ π :=
  if request.offsetNumber.any fun offset => offset != upload.bytes.length then
    (.refused 400 "upload offset does not match received size", service)
  else if maxUploadBytes < min (upload.bytes.length + request.body.length) usizeMax then
    (.refused 413 "object exceeds 64 MiB limit", service)
  else
    let upload := { upload with bytes := upload.bytes ++ request.body }
    if request.goesOn then
      (.received upload.bytes.length,
        { service with uploads := assign service.uploads id (some upload) })
    else
      (.finalized upload.bytes.length,
        { service with
          uploads := assign service.uploads id none
          finalized := assign service.finalized id (some ⟨upload, request.contentType⟩) })

def resumablePut (service : UploadService υ μ π) (request : PutRequest) (now : Nat) :
    UploadAnswer × UploadService υ μ π :=
  match request.target config.parseUuid with
  | none => (.refused 400 "missing upload_id", service)
  | some id =>
    let service := { service with uploads := pruneExpiredUploads service.uploads now }
    match (service.uploads id).filter fun upload => upload.bucket == request.bucket with
    | none => (.refused 404 "upload session not found", service)
    | some upload =>
      if request.commandText = "cancel" then
        (.cancelled, { service with uploads := assign service.uploads id none })
      else if request.commandText = "query" then (.status upload.bytes.length, service)
      else service.putChunk id upload request

/-- The end of `resumable_put`, behind its lock. -/
def save (service : UploadService υ μ π) (id : υ) (now : String) (draws : Draws) :
    UploadAnswer × UploadService υ μ π :=
  match service.finalized id with
  | none => (.idle, service)
  | some ⟨upload, contentType⟩ =>
    let (reply, backend) := service.backend.saveObject config.codec config.event upload.key
      upload.bytes upload.metadata contentType now draws
    (.saved upload.key reply,
      { service with finalized := assign service.finalized id none, backend })

def step (service : UploadService υ μ π) : UploadEvent υ → UploadAnswer × UploadService υ μ π
  | .start id request now => service.start config id request now
  | .put request now => service.resumablePut config request now
  | .save id now draws => service.save config id now draws

end UploadService

end FirebaseEmu.Storage
