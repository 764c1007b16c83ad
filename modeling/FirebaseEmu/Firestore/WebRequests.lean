import FirebaseEmu.Firestore.Handlers
import FirebaseEmu.Firestore.JsonDecode

namespace FirebaseEmu.Firestore.Web
open Lib

/-- `from_str_name` of an enumeration. -/
def fromStrName (names : List (String × Int)) (message : String) (name : String) :
    Except Status Int :=
  match names.lookup name with
  | some number => .ok number
  | none => .error (invalidArgument message)

def compositeOperators : List (String × Int) := [("OPERATOR_UNSPECIFIED", 0), ("AND", 1), ("OR", 2)]

def fieldOperators : List (String × Int) :=
  [("OPERATOR_UNSPECIFIED", 0), ("LESS_THAN", 1), ("LESS_THAN_OR_EQUAL", 2), ("GREATER_THAN", 3),
    ("GREATER_THAN_OR_EQUAL", 4), ("EQUAL", 5), ("NOT_EQUAL", 6), ("ARRAY_CONTAINS", 7), ("IN", 8),
    ("ARRAY_CONTAINS_ANY", 9), ("NOT_IN", 10)]

def unaryOperators : List (String × Int) :=
  [("OPERATOR_UNSPECIFIED", 0), ("IS_NAN", 2), ("IS_NULL", 3), ("IS_NOT_NAN", 4),
    ("IS_NOT_NULL", 5)]

def directions : List (String × Int) :=
  [("DIRECTION_UNSPECIFIED", 0), ("ASCENDING", 1), ("DESCENDING", 2)]

/-- `x.map(f).transpose()?`. -/
def transpose {α : Type} (f : Json → Except Status α) : Option Json → Except Status (Option α)
  | none => .ok none
  | some v => (f v).map some

section Requests
variable (readers : TextReaders)

def documentProto (v : Json) : Except Status Document := do
  let fields ← fieldsProto readers (v.get "fields")
  return ⟨jsonString v "name", fields, none, none⟩

def transformProto (v : Json) : Except Status FieldTransform := do
  let transformType ←
    if (v.find? "setToServerValue").isSome then pure (.setToServerValue 1)
    else if let some x := v.find? "increment" then (valueProto readers x).map .increment
    else if let some x := v.find? "maximum" then (valueProto readers x).map .maximum
    else if let some x := v.find? "minimum" then (valueProto readers x).map .minimum
    else if let some x := v.find? "appendMissingElements" then
      (valuesProto readers (jsonArray x "values")).map .appendMissingElements
    else if let some x := v.find? "removeAllFromArray" then
      (valuesProto readers (jsonArray x "values")).map .removeAllFromArray
    else throw (invalidArgument "unknown transform")
  return ⟨jsonString v "fieldPath", some transformType⟩

def operationProto (v : Json) : Except Status Operation :=
  if let some document := v.find? "update" then (documentProto readers document).map .update
  else if let some name := (v.get "delete").asStr then .ok (.delete name)
  else if let some t := v.find? "transform" then
    ((jsonArray t "fieldTransforms").mapM (transformProto readers)).map fun _ =>
      .transform (jsonString t "document")
  else .error (invalidArgument "write operation required")

def preconditionProto (c : Json) : Except Status Precondition :=
  match (c.get "exists").asBool with
  | some b => .ok ⟨some (.existence b)⟩
  | none => (timestampProto readers (c.get "updateTime")).map fun t => ⟨some (.updateTime t)⟩

def writeProto (v : Json) : Except Status Write := do
  let operation ← operationProto readers v
  let currentDocument ← transpose (preconditionProto readers) (v.find? "currentDocument")
  let updateMask := (v.find? "updateMask").map fun m =>
    ⟨(jsonArray m "fieldPaths").filterMap Json.asStr⟩
  let updateTransforms ← (jsonArray v "updateTransforms").mapM (transformProto readers)
  return ⟨some operation, updateMask, currentDocument, updateTransforms⟩

mutual

def filterProto (v : Json) : Except Status Filter :=
  match _hf : v.find? "fieldFilter" with
  | some f => do
    let op ← fromStrName fieldOperators "invalid field operator" (jsonString f "op")
    let value ← valueProto readers (f.get "value")
    return .fieldFilter (some (jsonString (f.get "field") "fieldPath")) op (some value)
  | none => match _hc : v.find? "compositeFilter" with
    | some f => do
      let op ← fromStrName compositeOperators "invalid composite operator" (jsonString f "op")
      let filters ← filtersProto (jsonArray f "filters")
      return .compositeFilter op filters
    | none => match v.find? "unaryFilter" with
      | some f => do
        let op ← fromStrName unaryOperators "invalid unary operator" (jsonString f "op")
        return .unaryFilter op (some (jsonString (f.get "field") "fieldPath"))
      | none => .error (invalidArgument "unknown filter")
termination_by sizeOf v
decreasing_by
  exact Nat.lt_of_le_of_lt (sizeOf_jsonArray f "filters") (Json.sizeOf_find? _hc)

def filtersProto (vs : List Json) : Except Status (List Filter) :=
  match vs with
  | [] => .ok []
  | v :: vs => do
    let filter ← filterProto v
    let filters ← filtersProto vs
    return filter :: filters
termination_by sizeOf vs

end

def cursorProto (c : Json) : Except Status Cursor :=
  (valuesProto readers (jsonArray c "values")).map fun values =>
    ⟨values, (c.get "before").asBool.getD false⟩

def orderProto (o : Json) : Except Status Order :=
  (fromStrName directions "invalid order direction" (jsonString o "direction")).map fun direction =>
    ⟨some (jsonString (o.get "field") "fieldPath"), direction⟩

def selectorProto (s : Json) : CollectionSelector :=
  ⟨jsonString s "collectionId", (s.get "allDescendants").asBool.getD false⟩

def queryProto (v : Json) : Except Status StructuredQuery := do
  let select := (v.find? "select").map fun s =>
    (jsonArray s "fields").map (jsonString · "fieldPath")
  let from_ := (jsonArray v "from").map selectorProto
  let where_ ← transpose (filterProto readers) (v.find? "where")
  let orderBy ← (jsonArray v "orderBy").mapM orderProto
  let limit := (v.find? "limit").bind fun n => n.asI64 <|> (n.get "value").asI64
  let startAt ← transpose (cursorProto readers) (v.find? "startAt")
  let endAt ← transpose (cursorProto readers) (v.find? "endAt")
  -- `as i32`
  return ⟨select, from_, where_, orderBy, limit.map fun n => n.toInt32.toInt,
    ((v.get "offset").asI64.getD 0).toInt32.toInt, startAt, endAt⟩

end Requests

section Answers
variable (formats : TextFormats)

def i64Json (n : Int64) : Json :=
  if h : n < 0 then .number (.negInt n h) else .number (.posInt n.toUInt64)

/-- The name `error_json` has for a code. -/
def statusName : Code → String
  | .notFound => "NOT_FOUND"
  | .alreadyExists => "ALREADY_EXISTS"
  | .failedPrecondition => "FAILED_PRECONDITION"
  | .unimplemented => "UNIMPLEMENTED"
  | .invalidArgument => "INVALID_ARGUMENT"
  | _ => "INTERNAL"

def errorJson (error : Status) : Json :=
  .object [("error", .object [("code", .number (.posInt (UInt64.ofNat error.code.toNat))),
    ("message", .string error.message), ("status", .string (statusName error.code))])]

def writeResultJson (result : WriteResult) : Json :=
  .object [("transformResults", .array (valuesJson formats result.transformResults)),
    ("updateTime", timeJson formats result.updateTime)]

def commitJson (response : CommitResponse) : List (String × Json) :=
  [("commitTime", timeJson formats response.commitTime),
    ("writeResults", .array (response.writeResults.map (writeResultJson formats)))]

end Answers

end FirebaseEmu.Firestore.Web
