import FirebaseEmu.Firestore.JsonCodec
import FirebaseEmu.Firestore.Names
import FirebaseEmu.Lib.Decimal

namespace FirebaseEmu.Firestore
open Lib

/-- The libraries of the source that read the texts of timestamps and byte strings. -/
structure TextReaders where
  timestamp : String → Option Timestamp
  base64 : String → Option Bytes

/-- `array(v, key)`: the list under the key, or the empty one. -/
def jsonArray (v : Json) (key : String) : List Json := (v.get key).asArray.getD []

def integerProto (i : Json) : Except Status Int64 :=
  match i.asI64 <|> i.asStr.bind parseI64 with
  | some n => .ok n
  | none => .error (invalidArgument "invalid integer")

def doubleText (s : String) : Option Binary64 :=
  if s = "NaN" then some .nan
  else if s = "Infinity" then some (.infinity false)
  else if s = "-Infinity" then some (.infinity true)
  else none

def doubleProto (d : Json) : Except Status Binary64 :=
  match d.asF64 <|> d.asStr.bind doubleText with
  | some x => .ok x
  | none => .error (invalidArgument "invalid double")

variable (readers : TextReaders)

def timestampProto (v : Json) : Except Status Timestamp :=
  match v.asStr with
  | some s => match readers.timestamp s with
    | some t => .ok t
    | none => .error (invalidArgument "invalid timestamp")
  | none =>
    match (v.get "seconds").asI64 <|> (v.get "seconds").asStr.bind parseI64 with
    | some seconds => .ok ⟨seconds, ((v.get "nanos").asI64.getD 0).toInt32⟩
    | none => .error (invalidArgument "invalid timestamp")

def bytesProto (s : String) : Except Status Bytes :=
  match readers.base64 s with
  | some b => .ok b
  | none => .error (invalidArgument "invalid base64")

theorem sizeOf_jsonArray (v : Json) (key : String) : sizeOf (jsonArray v key) ≤ sizeOf v := by
  unfold jsonArray
  cases h : (v.get key).asArray with
  | none => cases v <;> simp +arith
  | some values =>
    exact Nat.le_trans (Nat.le_of_lt (Json.sizeOf_asArray h)) (Json.sizeOf_get key v)

mutual

/-- The first wrapper that is there decides. -/
def valueProto (v : Json) : Except Status Value :=
  if (v.find? "nullValue").isSome then .ok (.nullValue 0)
  else if let some b := (v.get "booleanValue").asBool then .ok (.booleanValue b)
  else if let some i := v.find? "integerValue" then (integerProto i).map .integerValue
  else if let some d := v.find? "doubleValue" then (doubleProto d).map .doubleValue
  else if let some t := v.find? "timestampValue" then
    (timestampProto readers t).map .timestampValue
  else if let some s := (v.get "stringValue").asStr then .ok (.stringValue s)
  else if let some s := (v.get "referenceValue").asStr then .ok (.referenceValue s)
  else if let some s := (v.get "bytesValue").asStr then (bytesProto readers s).map .bytesValue
  else if let some g := v.find? "geoPointValue" then
    .ok (.geoPointValue ((g.get "latitude").asF64.getD (.ofInt 0))
      ((g.get "longitude").asF64.getD (.ofInt 0)))
  else match _ha : v.find? "arrayValue" with
  | some a => (valuesProto (jsonArray a "values")).map .arrayValue
  | none => match _hm : v.find? "mapValue" with
    | some m => (fieldsProto (m.get "fields")).map .mapValue
    | none => .error (invalidArgument "unknown Firestore value")
termination_by sizeOf v
decreasing_by
  · exact Nat.lt_of_le_of_lt (sizeOf_jsonArray a "values") (Json.sizeOf_find? _ha)
  · exact Nat.lt_of_le_of_lt (Json.sizeOf_get "fields" m) (Json.sizeOf_find? _hm)

def valuesProto (vs : List Json) : Except Status (List Value) :=
  match vs with
  | [] => .ok []
  | v :: vs => do
    let value ← valueProto v
    let values ← valuesProto vs
    pure (value :: values)
termination_by sizeOf vs

def fieldsProto (v : Json) : Except Status Fields :=
  match _h : v.asObject with
  | some entries => entriesProto entries
  | none => .ok []
termination_by sizeOf v
decreasing_by exact Json.sizeOf_asObject _h

/-- The entries of an object are in key order and so are those of the map. -/
def entriesProto (entries : List (String × Json)) : Except Status Fields :=
  match entries with
  | [] => .ok []
  | (k, v) :: entries => do
    let value ← valueProto v
    let fields ← entriesProto entries
    pure ((k, value) :: fields)
termination_by sizeOf entries

end

/-- A value in one wrapper. -/
def wrapped (key : String) (inner : Json) : Json := .object [(key, inner)]

theorem find?_wrapped (key other : String) (inner : Json) :
    (wrapped key inner).find? other = if other = key then some inner else none := by
  rw [wrapped, Json.find?, List.lookup_cons]
  by_cases h : other = key
  · simp [h]
  · simp [h, beq_false_of_ne h]

theorem get_wrapped (key other : String) (inner : Json) :
    (wrapped key inner).get other = if other = key then inner else .null := by
  rw [Json.get_eq, find?_wrapped]
  split <;> rfl

section Wrappers
variable (inner : Json)

theorem valueProto_null :
    valueProto readers (wrapped "nullValue" inner) = .ok (.nullValue 0) := by
  rw [valueProto]
  simp [find?_wrapped]

theorem valueProto_boolean (b : Bool) :
    valueProto readers (wrapped "booleanValue" (.bool b)) = .ok (.booleanValue b) := by
  rw [valueProto]
  simp [find?_wrapped, get_wrapped, Json.asBool]

theorem valueProto_integer : valueProto readers (wrapped "integerValue" inner) =
    (integerProto inner).map .integerValue := by
  rw [valueProto]
  simp [find?_wrapped, get_wrapped, Json.asBool]

theorem valueProto_double : valueProto readers (wrapped "doubleValue" inner) =
    (doubleProto inner).map .doubleValue := by
  rw [valueProto]
  simp [find?_wrapped, get_wrapped, Json.asBool]

theorem valueProto_timestamp : valueProto readers (wrapped "timestampValue" inner) =
    (timestampProto readers inner).map .timestampValue := by
  rw [valueProto]
  simp [find?_wrapped, get_wrapped, Json.asBool]

theorem valueProto_string (s : String) :
    valueProto readers (wrapped "stringValue" (.string s)) = .ok (.stringValue s) := by
  rw [valueProto]
  simp [find?_wrapped, get_wrapped, Json.asBool, Json.asStr]

theorem valueProto_reference (s : String) :
    valueProto readers (wrapped "referenceValue" (.string s)) = .ok (.referenceValue s) := by
  rw [valueProto]
  simp [find?_wrapped, get_wrapped, Json.asBool, Json.asStr]

theorem valueProto_bytes (s : String) :
    valueProto readers (wrapped "bytesValue" (.string s)) =
      (bytesProto readers s).map .bytesValue := by
  rw [valueProto]
  simp [find?_wrapped, get_wrapped, Json.asBool, Json.asStr]

theorem valueProto_geoPoint : valueProto readers (wrapped "geoPointValue" inner) =
    .ok (.geoPointValue ((inner.get "latitude").asF64.getD (.ofInt 0))
      ((inner.get "longitude").asF64.getD (.ofInt 0))) := by
  rw [valueProto]
  simp [find?_wrapped, get_wrapped, Json.asBool, Json.asStr]

theorem valueProto_array (values : List Json) :
    valueProto readers (wrapped "arrayValue" (wrapped "values" (.array values))) =
      (valuesProto readers values).map .arrayValue := by
  have hvalues : jsonArray (wrapped "values" (.array values)) "values" = values := by
    simp [jsonArray, get_wrapped, Json.asArray]
  rw [valueProto]
  simp only [find?_wrapped, get_wrapped, Json.asBool, Json.asStr, String.reduceEq, if_false,
    Option.isSome_none, Bool.false_eq_true]
  split
  · rename_i a ha
    rw [find?_wrapped, if_pos rfl] at ha
    obtain rfl := Option.some.inj ha
    rw [hvalues]
  · rename_i ha
    rw [find?_wrapped, if_pos rfl] at ha
    cases ha

theorem valueProto_map (entries : List (String × Json)) :
    valueProto readers (wrapped "mapValue" (wrapped "fields" (.object entries))) =
      (entriesProto readers entries).map .mapValue := by
  have hfields : fieldsProto readers (.object entries) = entriesProto readers entries := by
    rw [fieldsProto]
    simp [Json.asObject]
  rw [valueProto]
  simp only [find?_wrapped, get_wrapped, Json.asBool, Json.asStr, String.reduceEq, if_false,
    Option.isSome_none, Bool.false_eq_true]
  split
  · rename_i a ha
    rw [find?_wrapped, if_neg (by decide)] at ha
    cases ha
  · split
    · rename_i m hm
      rw [find?_wrapped, if_pos rfl] at hm
      obtain rfl := Option.some.inj hm
      rw [get_wrapped, if_pos rfl, hfields]
    · rename_i hm
      rw [find?_wrapped, if_pos rfl] at hm
      cases hm

end Wrappers

end FirebaseEmu.Firestore
