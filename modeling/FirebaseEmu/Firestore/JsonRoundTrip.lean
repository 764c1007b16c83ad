import FirebaseEmu.Firestore.JsonDecode

namespace FirebaseEmu.Firestore
open Lib

/-- The times from year 1 to year 9999. -/
def Timestamp.inYears (t : Timestamp) : Bool :=
  decide (-62135596800 ≤ t.seconds.toInt ∧ t.seconds.toInt ≤ 253402300799 ∧
    0 ≤ t.nanos.toInt ∧ t.nanos.toInt ≤ 999999999)

mutual

/-- The values that the JSON form is made for. -/
def Value.writable : Value → Bool
  | .unset => false
  | .nullValue n => n == 0
  | .timestampValue t => t.inYears
  | .geoPointValue latitude longitude => latitude.isFinite && longitude.isFinite
  | .arrayValue values => Value.writableList values
  | .mapValue fields => Value.writableFields fields
  | _ => true

def Value.writableList : List Value → Bool
  | [] => true
  | v :: values => v.writable && Value.writableList values

def Value.writableFields : Fields → Bool
  | [] => true
  | (_, v) :: fields => v.writable && Value.writableFields fields

end

mutual

/-- The value with `f64::NAN` for every NaN, and otherwise itself. -/
def Value.withNan : Value → Value
  | .doubleValue d => .doubleValue (if d.isNan then .nan else d)
  | .arrayValue values => .arrayValue (Value.withNanList values)
  | .mapValue fields => .mapValue (Value.withNanFields fields)
  | v => v

def Value.withNanList : List Value → List Value
  | [] => []
  | v :: values => v.withNan :: Value.withNanList values

def Value.withNanFields : Fields → Fields
  | [] => []
  | (k, v) :: fields => (k, v.withNan) :: Value.withNanFields fields

end

/-- The texts of timestamps and byte strings are read back as what they were made of. -/
structure TextReaders.Reads (readers : TextReaders) (formats : TextFormats) : Prop where
  timestamp : ∀ t : Timestamp, t.inYears = true →
    readers.timestamp (formats.timestamp t) = some t
  base64 : ∀ bytes, readers.base64 (formats.base64 bytes) = some bytes

theorem integerProto_text (i : Int64) : integerProto (.string (toString i.toInt)) = .ok i := by
  have hread : ((Json.string (toString i.toInt)).asI64 <|>
      (Json.string (toString i.toInt)).asStr.bind parseI64) = some i := parseI64_toString i
  rw [integerProto, hread]

/-- A double is written as a number, or as the name of what no number can say. -/
theorem doubleProto_doubleJson (d : Binary64) :
    doubleProto (doubleJson d) = .ok (if d.isNan then .nan else d) := by
  unfold doubleJson
  split
  · rfl
  · rename_i hn
    split
    · rename_i hp
      rw [Binary64.eq_infinity hp]
      rfl
    · split
      · rename_i hm
        rw [Binary64.eq_infinity hm]
        rfl
      · rename_i hp hm
        have hf := Binary64.isFinite_of_not_infinity (by simpa using hn) (by simpa using hp)
          (by simpa using hm)
        simp [doubleProto, Json.asF64_ofDouble hf]

section RoundTrip
variable {formats : TextFormats} {readers : TextReaders}

mutual

theorem valueJson_lossless (hr : readers.Reads formats) (v : Value) (h : v.writable = true) :
    valueProto readers (valueJson formats v) = .ok v.withNan := by
  match v with
  | .unset => simp [Value.writable] at h
  | .nullValue n =>
    obtain rfl : n = 0 := by simpa [Value.writable] using h
    exact valueProto_null readers _
  | .booleanValue b => exact valueProto_boolean readers b
  | .integerValue i =>
    refine (valueProto_integer readers _).trans ?_
    rw [integerProto_text]
    rfl
  | .doubleValue d =>
    refine (valueProto_double readers _).trans ?_
    rw [doubleProto_doubleJson]
    rfl
  | .timestampValue t =>
    refine (valueProto_timestamp readers _).trans ?_
    simp [timestampProto, timeJson, Json.asStr, hr.timestamp t h, Except.map, Value.withNan]
  | .stringValue s => exact valueProto_string readers s
  | .referenceValue s => exact valueProto_reference readers s
  | .bytesValue b =>
    refine (valueProto_bytes readers _).trans ?_
    simp [bytesProto, hr.base64 b, Except.map, Value.withNan]
  | .geoPointValue latitude longitude =>
    rw [Value.writable, Bool.and_eq_true] at h
    refine (valueProto_geoPoint readers _).trans ?_
    have hlat : Json.get "latitude" (.object [("latitude", .ofDouble latitude),
        ("longitude", .ofDouble longitude)]) = .ofDouble latitude := rfl
    have hlong : Json.get "longitude" (.object [("latitude", .ofDouble latitude),
        ("longitude", .ofDouble longitude)]) = .ofDouble longitude := rfl
    rw [hlat, hlong, Json.asF64_ofDouble h.1, Json.asF64_ofDouble h.2]
    rfl
  | .arrayValue values =>
    refine (valueProto_array readers _).trans ?_
    rw [valuesJson_lossless hr values h]
    rfl
  | .mapValue fields =>
    refine (valueProto_map readers _).trans ?_
    rw [fieldsJson_lossless hr fields h]
    rfl

theorem valuesJson_lossless (hr : readers.Reads formats) (values : List Value)
    (h : Value.writableList values = true) :
    valuesProto readers (valuesJson formats values) = .ok (Value.withNanList values) := by
  match values with
  | [] =>
    rw [valuesJson, valuesProto]
    rfl
  | v :: values =>
    rw [Value.writableList, Bool.and_eq_true] at h
    rw [valuesJson, valuesProto, valueJson_lossless hr v h.1, valuesJson_lossless hr values h.2]
    rfl

theorem fieldsJson_lossless (hr : readers.Reads formats) (fields : Fields)
    (h : Value.writableFields fields = true) :
    entriesProto readers (fieldsJson formats fields) = .ok (Value.withNanFields fields) := by
  match fields with
  | [] =>
    rw [fieldsJson, entriesProto]
    rfl
  | (k, v) :: fields =>
    rw [Value.writableFields, Bool.and_eq_true] at h
    rw [fieldsJson, entriesProto, valueJson_lossless hr v h.1, fieldsJson_lossless hr fields h.2]
    rfl

end

/-- A value is read back from its JSON form, every NaN as the one NaN. -/
theorem json_lossless (hr : readers.Reads formats) (v : Value) (h : v.writable = true) :
    valueProto readers (valueJson formats v) = .ok v.withNan :=
  valueJson_lossless hr v h

end RoundTrip

/-- Texts for the sample below, which has no times and no byte strings: the nanoseconds since
year 1, and a character for each byte. -/
def jsonFormats : TextFormats where
  timestamp t := toString ((t.seconds.toInt + 62135596800).toNat * 10 ^ 9 + t.nanos.toInt.toNat)
  base64 bytes := String.ofList (bytes.map fun byte => Char.ofNat byte.toNat)

def jsonReaders : TextReaders where
  timestamp s := (readDigits s.toList).map fun n =>
    ⟨.ofInt ((n / 10 ^ 9 : Nat) - 62135596800), .ofInt (n % 10 ^ 9 : Nat)⟩
  base64 s := some (s.toList.map fun c => UInt8.ofNat c.toNat)

theorem jsonReaders_reads : jsonReaders.Reads jsonFormats := by
  constructor
  · intro t ht
    simp only [Timestamp.inYears, decide_eq_true_eq] at ht
    obtain ⟨hlo, hhi, hnano, hnano'⟩ := ht
    simp only [jsonReaders, jsonFormats, Nat.toString_eq_ofList_toDigits, String.toList_ofList,
      readDigits_toDigits, Option.map_some, Option.some.injEq]
    generalize hn : (t.seconds.toInt + 62135596800).toNat * 10 ^ 9 + t.nanos.toInt.toNat = n
    have hs : ((n / 10 ^ 9 : Nat) : Int) - 62135596800 = t.seconds.toInt := by omega
    have hns : ((n % 10 ^ 9 : Nat) : Int) = t.nanos.toInt := by omega
    rw [hs, hns, Int64.ofInt_toInt, Int32.ofInt_toInt]
  · intro bytes
    have hbyte : ∀ byte : UInt8, UInt8.ofNat (Char.ofNat byte.toNat).toNat = byte := by
      intro byte
      have hlt := byte.toNat_lt
      have hvalid : byte.toNat.isValidChar := .inl (by omega)
      have hchar : (Char.ofNat byte.toNat).toNat = byte.toNat := by
        rw [Char.ofNat, dif_pos hvalid]
        exact UInt32.toNat_ofNatLT
      rw [hchar, UInt8.ofNat_toNat]
    simp [jsonReaders, jsonFormats, Function.comp_def, hbyte]

theorem json_lossless_sample : valueProto jsonReaders (valueJson jsonFormats
    (.mapValue [("list", .arrayValue [.integerValue 9223372036854775807, .nullValue 0]),
      ("nan", .doubleValue ⟨0xFFF8000000000001⟩), ("zero", .doubleValue ⟨0x8000000000000000⟩)])) =
    .ok (.mapValue [("list", .arrayValue [.integerValue 9223372036854775807, .nullValue 0]),
      ("nan", .doubleValue .nan), ("zero", .doubleValue ⟨0x8000000000000000⟩)]) :=
  json_lossless jsonReaders_reads _ (by decide)

end FirebaseEmu.Firestore
