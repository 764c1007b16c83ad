import FirebaseEmu.Lib.Binary64

namespace FirebaseEmu.Firestore
open Lib

structure Timestamp where
  seconds : Int64
  nanos : Int32
  deriving DecidableEq

/-- One Firestore value; `unset` is a `Value` without a value type. The map of a
`mapValue` is kept as its entries in key order, so a map has one representation. -/
inductive Value where
  | unset
  | nullValue (value : Int32)
  | booleanValue (value : Bool)
  | integerValue (value : Int64)
  | doubleValue (value : Binary64)
  | timestampValue (value : Timestamp)
  | stringValue (value : String)
  | bytesValue (value : List UInt8)
  | referenceValue (value : String)
  | geoPointValue (latitude longitude : Binary64)
  | arrayValue (values : List Value)
  | mapValue (fields : List (String × Value))

/-- The entries of a `HashMap<String, Value>`, in key order. -/
abbrev Fields := List (String × Value)

structure Document where
  name : String
  fields : Fields
  createTime : Option Timestamp
  updateTime : Option Timestamp

inductive ConditionType where
  | existence (expected : Bool)
  | updateTime (expected : Timestamp)

structure Precondition where
  conditionType : Option ConditionType

structure DocumentMask where
  fieldPaths : List String

/-- The field transforms of a `DocumentTransform`; `setToServerValue` keeps the raw
enumeration number, as the wire does. -/
inductive TransformType where
  | setToServerValue (value : Int)
  | increment (operand : Value)
  | maximum (operand : Value)
  | minimum (operand : Value)
  | appendMissingElements (elements : List Value)
  | removeAllFromArray (elements : List Value)

structure FieldTransform where
  fieldPath : String
  transformType : Option TransformType

/-- `transform` keeps only the name of the document it is for: nothing reads more. -/
inductive Operation where
  | update (document : Document)
  | delete (name : String)
  | transform (document : String)

structure Write where
  operation : Option Operation
  updateMask : Option DocumentMask
  currentDocument : Option Precondition
  updateTransforms : List FieldTransform

structure WriteResult where
  updateTime : Option Timestamp
  transformResults : List Value

def WriteResult.default : WriteResult := ⟨none, []⟩

/-- The gRPC codes the Firestore service answers with. -/
inductive Code where
  | cancelled
  | invalidArgument
  | notFound
  | alreadyExists
  | failedPrecondition
  | unimplemented
  | internal
  | unavailable
  deriving DecidableEq

def Code.toNat : Code → Nat
  | .cancelled => 1
  | .invalidArgument => 3
  | .notFound => 5
  | .alreadyExists => 6
  | .failedPrecondition => 9
  | .unimplemented => 12
  | .internal => 13
  | .unavailable => 14

structure Status where
  code : Code
  message : String
  deriving DecidableEq

/-- `google.rpc.Status` without its `details`, which are always empty. -/
structure RpcStatus where
  code : Nat
  message : String
  deriving DecidableEq

def RpcStatus.default : RpcStatus := ⟨0, ""⟩

def statusProto (status : Status) : RpcStatus := ⟨status.code.toNat, status.message⟩

theorem statusProto_code_ne (status : Status) : (statusProto status).code ≠ 0 := by
  cases hs : status.code <;> simp [statusProto, Code.toNat, hs]

abbrev Bytes := List UInt8

inductive ConsistencySelector where
  | transaction (transaction : Bytes)
  | newTransaction
  | readTime

structure CreateDocumentRequest where
  parent : String
  collectionId : String
  documentId : String
  document : Option Document

structure UpdateDocumentRequest where
  document : Option Document
  updateMask : Option DocumentMask
  currentDocument : Option Precondition

structure DeleteDocumentRequest where
  name : String
  currentDocument : Option Precondition

structure BatchGetDocumentsRequest where
  database : String
  documents : List String
  consistencySelector : Option ConsistencySelector

structure CommitRequest where
  database : String
  writes : List Write
  transaction : Bytes

structure RollbackRequest where
  database : String
  transaction : Bytes

structure BatchWriteRequest where
  database : String
  writes : List Write

inductive BatchGetResult where
  | found (document : Document)
  | missing (name : String)

structure BatchGetDocumentsResponse where
  result : Option BatchGetResult
  transaction : Bytes
  readTime : Option Timestamp

structure CommitResponse where
  writeResults : List WriteResult
  commitTime : Option Timestamp

structure BatchWriteResponse where
  writeResults : List WriteResult
  status : List RpcStatus

structure RunQueryResponse where
  document : Option Document
  transaction : Bytes
  readTime : Option Timestamp
  done : Bool

/-- A query filter; `unset` is a `Filter` without a filter type. Operators keep their
raw enumeration numbers, since unknown ones are rejected when the filter is evaluated. -/
inductive Filter where
  | unset
  | compositeFilter (op : Int) (filters : List Filter)
  | fieldFilter (field : Option String) (op : Int) (value : Option Value)
  | unaryFilter (op : Int) (field : Option String)

structure CollectionSelector where
  collectionId : String
  allDescendants : Bool

structure Order where
  field : Option String
  direction : Int

structure Cursor where
  values : List Value
  before : Bool

structure StructuredQuery where
  select : Option (List String)
  from_ : List CollectionSelector
  where_ : Option Filter
  orderBy : List Order
  limit : Option Int
  offset : Int
  startAt : Option Cursor
  endAt : Option Cursor

structure RunQueryRequest where
  parent : String
  structuredQuery : Option StructuredQuery
  consistencySelector : Option ConsistencySelector

/-- A query target with an absent `query_type` is `query parent none`. -/
inductive TargetType where
  | documents (documents : List String)
  | query (parent : String) (structuredQuery : Option StructuredQuery)

structure Target where
  targetId : Int
  targetType : Option TargetType

end FirebaseEmu.Firestore
