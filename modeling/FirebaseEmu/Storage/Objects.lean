import FirebaseEmu.Lib.Json
import FirebaseEmu.Lib.Maps
import FirebaseEmu.Lib.Text

namespace FirebaseEmu.Storage
open Lib Std

abbrev Bytes := List UInt8

/-- An object stands under its bucket and its name. -/
structure ObjectKey where
  bucket : String
  name : String
  deriving DecidableEq

instance : Ord ObjectKey :=
  ⟨compareLex (compareOn ObjectKey.bucket) (compareOn ObjectKey.name)⟩

instance : TransOrd ObjectKey :=
  inferInstanceAs (TransCmp (compareLex (compareOn _) (compareOn _)))

instance : LawfulEqOrd ObjectKey where
  compare_self := ReflCmp.compare_self
  eq_of_compare {a b} h := by
    obtain ⟨hb, hn⟩ := Ordering.then_eq_eq.mp h
    obtain ⟨bucket, name⟩ := a
    obtain ⟨bucket', name'⟩ := b
    obtain rfl := LawfulEqOrd.eq_of_compare hb
    obtain rfl := LawfulEqOrd.eq_of_compare hn
    rfl

/-- What a save reads of an upload's metadata. A map of strings is kept as its entries in key
order. -/
structure UploadMetadata where
  contentType : Option String
  cacheControl : Option String
  contentDisposition : Option String
  contentEncoding : Option String
  metadata : List (String × String)

/-- `UploadMetadata` as serde reads it, the object's name included. -/
structure NamedMetadata extends UploadMetadata where
  name : Option String

structure StoredObject where
  bucket : String
  name : String
  bytes : Option Bytes
  blobName : Option String
  size : Nat
  crc32c : String
  contentType : String
  metadata : List (String × String)
  cacheControl : Option String
  contentDisposition : Option String
  contentEncoding : Option String
  generation : Nat
  created : String
  updated : String
  downloadToken : String

structure StoredMetadata where
  contentType : String
  metadata : List (String × String)
  cacheControl : Option String
  contentDisposition : Option String
  contentEncoding : Option String
  downloadToken : String
  size : Nat
  crc32c : String

/-- The encodings that are not the service's own: the JSON text of stored metadata, which
decodes to what was encoded, the base64 text of a checksum, and page tokens. -/
structure StorageCodec (μ : Type) where
  encode : StoredMetadata → μ
  decode : μ → Except String StoredMetadata
  decode_encode : ∀ metadata, decode (encode metadata) = .ok metadata
  crc32c : Bytes → String
  encodePageToken : Nat → String
  decodePageToken : String → Option Nat

inductive PersistenceError where
  | io (error : String)
  | sqlite (error : String)
  | corrupt (error : String)
  | outboxFull (outstanding : Nat)

def PersistenceError.message : PersistenceError → String
  | .io error => "persistence I/O error: " ++ error
  | .sqlite error => "SQLite persistence error: " ++ error
  | .corrupt error => "persistence database failed integrity_check: " ++ error
  | .outboxFull outstanding =>
    s!"durable Functions outbox is full ({outstanding} pending or in-flight events)"

def hexDigit (n : Nat) : Char := (Nat.digitChar n).toUpper

def percentEncode (value : String) : String :=
  String.join (value.toUTF8.toList.map fun byte =>
    let c := Char.ofNat byte.toNat
    if c.isAlphanum || c == '-' || c == '_' || c == '.' || c == '~' then c.toString
    else String.ofList ['%', hexDigit (byte.toNat / 16), hexDigit (byte.toNat % 16)])

/-- A header value takes visible characters, spaces and tabs. -/
def validHeader (value : String) : Bool :=
  value.toList.all fun c => c == '\t' || (32 ≤ c.toNat && c.toNat != 127)

/-- `Uuid::parse_str` takes the name and writes it the same way: five groups of lower-case
hexadecimal digits. -/
def canonicalUuid (name : String) : Bool :=
  (split '-' name).map String.length == [8, 4, 4, 4, 12] &&
    name.toList.all fun c => c == '-' || c.isDigit || ('a' ≤ c && c ≤ 'f')

/-- How a request is answered. -/
inductive Reply where
  | object (json : Json)
  | listing (json : Json)
  | media (bytes : Bytes) (hash contentType : String) (cacheControl contentDisposition
      contentEncoding : Option String) (etag : String)
  | noContent
  | failed (code : Nat) (message : String)

def Reply.notFound : Reply := .failed 404 "object not found"

def persistenceFailure (error : PersistenceError) : Reply :=
  .failed 500 ("Storage persistence failed: " ++ error.message)

namespace StoredObject

def key (object : StoredObject) : ObjectKey := ⟨object.bucket, object.name⟩

/-- The part of an object that `metadata_json` writes. -/
def stored (object : StoredObject) : StoredMetadata where
  contentType := object.contentType
  metadata := object.metadata
  cacheControl := object.cacheControl
  contentDisposition := object.contentDisposition
  contentEncoding := object.contentEncoding
  downloadToken := object.downloadToken
  size := object.size
  crc32c := object.crc32c

end StoredObject

/-- A field of a JSON object that may be left out. -/
def optional (key : String) : Option String → List (String × Json)
  | some value => [(key, .string value)]
  | none => []

/-- The fields of the metadata that a client gets, but for the download token. -/
def objectFields (object : StoredObject) (token : List (String × Json)) :
    List (String × Json) :=
  let link := "/storage/v1/b/" ++ percentEncode object.bucket ++ "/o/" ++ percentEncode object.name
  [("bucket", .string object.bucket)] ++
    optional "cacheControl" object.cacheControl ++
    optional "contentDisposition" object.contentDisposition ++
    optional "contentEncoding" object.contentEncoding ++
    [("contentType", .string object.contentType), ("crc32c", .string object.crc32c)] ++ token ++
    [("etag", .string ("\"" ++ toString object.generation ++ "\"")),
      ("generation", .string (toString object.generation)),
      ("id", .string (object.bucket ++ "/" ++ object.name ++ "/" ++ toString object.generation)),
      ("kind", .string "storage#object"),
      ("mediaLink", .string (link ++ "?alt=media")),
      ("metadata", .object (object.metadata.map fun entry => (entry.1, .string entry.2))),
      ("metageneration", .string "1"),
      ("name", .string object.name),
      ("selfLink", .string link),
      ("size", .string (toString object.size)),
      ("timeCreated", .string object.created),
      ("updated", .string object.updated)]

def objectJson (object : StoredObject) : Json :=
  .object (objectFields object [("downloadTokens", .string object.downloadToken)])

def mediaResponse (object : StoredObject) : Reply :=
  .media (object.bytes.getD []) ("crc32c=" ++ object.crc32c)
    (if validHeader object.contentType then object.contentType else "application/octet-stream")
    (object.cacheControl.filter validHeader) (object.contentDisposition.filter validHeader)
    (object.contentEncoding.filter validHeader) ("\"" ++ toString object.generation ++ "\"")

variable {μ : Type} (codec : StorageCodec μ)

/-- The object that a save makes: its creation time is that of the object it replaces. -/
def newObject (key : ObjectKey) (bytes : Bytes) (metadata : UploadMetadata)
    (fallbackContentType : Option String) (generation : Nat) (existingCreated : Option String)
    (now token : String) : StoredObject where
  bucket := key.bucket
  name := key.name
  bytes := none
  blobName := none
  size := bytes.length
  crc32c := codec.crc32c bytes
  contentType := (metadata.contentType.or fallbackContentType).getD "application/octet-stream"
  metadata := metadata.metadata
  cacheControl := metadata.cacheControl
  contentDisposition := metadata.contentDisposition
  contentEncoding := metadata.contentEncoding
  generation := generation
  created := existingCreated.getD now
  updated := now
  downloadToken := token

end FirebaseEmu.Storage
