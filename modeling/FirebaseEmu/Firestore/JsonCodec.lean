import FirebaseEmu.Firestore.Messages
import FirebaseEmu.Lib.Json

namespace FirebaseEmu.Firestore
open Lib

/-- The texts of timestamps and byte strings, which the libraries of the source make. -/
structure TextFormats where
  timestamp : Timestamp → String
  base64 : Bytes → String

variable (formats : TextFormats)

def timeJson (t : Option Timestamp) : Json :=
  match t with
  | some t => .string (formats.timestamp t)
  | none => .null

def doubleJson (d : Binary64) : Json :=
  if d.isNan then .string "NaN"
  else if d.eq (.infinity false) then .string "Infinity"
  else if d.eq (.infinity true) then .string "-Infinity"
  else .ofDouble d

mutual

def valueJson : Value → Json
  | .unset | .nullValue _ => .object [("nullValue", .null)]
  | .booleanValue b => .object [("booleanValue", .bool b)]
  | .integerValue i => .object [("integerValue", .string (toString i.toInt))]
  | .doubleValue d => .object [("doubleValue", doubleJson d)]
  | .timestampValue t => .object [("timestampValue", timeJson formats (some t))]
  | .stringValue s => .object [("stringValue", .string s)]
  | .referenceValue s => .object [("referenceValue", .string s)]
  | .bytesValue b => .object [("bytesValue", .string (formats.base64 b))]
  | .geoPointValue latitude longitude => .object [("geoPointValue",
      .object [("latitude", .ofDouble latitude), ("longitude", .ofDouble longitude)])]
  | .arrayValue values => .object [("arrayValue", .object [("values", .array (valuesJson values))])]
  | .mapValue fields => .object [("mapValue", .object [("fields", .object (fieldsJson fields))])]

def valuesJson : List Value → List Json
  | [] => []
  | v :: values => valueJson v :: valuesJson values

def fieldsJson : Fields → List (String × Json)
  | [] => []
  | (k, v) :: fields => (k, valueJson v) :: fieldsJson fields

end

def documentJson (d : Document) : Json :=
  .object [("createTime", timeJson formats d.createTime),
    ("fields", .object (fieldsJson formats d.fields)), ("name", .string d.name),
    ("updateTime", timeJson formats d.updateTime)]

/-- `string(v, key)`: the text under the key, or the empty one. -/
def jsonString (v : Json) (key : String) : String :=
  match v.get key with
  | .string s => s
  | _ => ""

theorem documentJson_name (d : Document) :
    jsonString (documentJson formats d) "name" = d.name := rfl

end FirebaseEmu.Firestore
