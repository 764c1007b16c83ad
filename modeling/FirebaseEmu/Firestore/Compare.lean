import FirebaseEmu.Firestore.Values

namespace FirebaseEmu.Firestore
open Lib

def valueRank : Value → Nat
  | .unset | .nullValue _ => 0
  | .booleanValue _ => 1
  | .integerValue _ | .doubleValue _ => 2
  | .timestampValue _ => 3
  | .stringValue _ => 4
  | .bytesValue _ => 5
  | .referenceValue _ => 6
  | .geoPointValue _ _ => 7
  | .arrayValue _ => 8
  | .mapValue _ => 9

def floatEqual (a b : Binary64) : Bool := a.eq b || (a.isNan && b.isNan)

/-- `double as i64` is only reached in range; `0.0 < fract` settles what truncation hid. -/
def compareIntegerDouble (integer : Int64) (double : Binary64) : Ordering :=
  if double.isNan || double.lt (.ofInt (-2 ^ 63)) then .gt
  else if (Binary64.ofInt (2 ^ 63 - 1)).le double then .lt
  else (compare integer.toInt double.truncate).then
    (((Binary64.ofInt 0).partialCmp double.fract).getD .eq)

def compareFloats (a b : Binary64) : Ordering :=
  if a.isNan then if b.isNan then .eq else .lt
  else if b.isNan then .gt
  else (a.partialCmp b).getD .eq

mutual

/-- The query order of values. Maps are kept key-sorted, so the two `BTreeMap`s of the
source are the entries as they stand. -/
def Value.compare (a b : Value) : Ordering :=
  match Ord.compare (valueRank a) (valueRank b) with
  | .eq =>
    match a, b with
    | .integerValue a, .integerValue b => Ord.compare a.toInt b.toInt
    | .integerValue a, .doubleValue b => compareIntegerDouble a b
    | .doubleValue a, .integerValue b => (compareIntegerDouble b a).swap
    | .doubleValue a, .doubleValue b => compareFloats a b
    | .booleanValue a, .booleanValue b => Ord.compare a b
    | .stringValue a, .stringValue b => Ord.compare a b
    | .referenceValue a, .referenceValue b => Ord.compare a b
    | .bytesValue a, .bytesValue b => Ord.compare a b
    | .timestampValue a, .timestampValue b =>
      (Ord.compare a.seconds.toInt b.seconds.toInt).then
        (Ord.compare a.nanos.toInt b.nanos.toInt)
    | .geoPointValue a a', .geoPointValue b b' => (compareFloats a b).then (compareFloats a' b')
    | .arrayValue a, .arrayValue b => Value.compareList a b
    | .mapValue a, .mapValue b => Value.compareFields a b
    | _, _ => .eq
  | rank => rank

/-- The first unequal pair decides, and after it the lengths. -/
def Value.compareList : List Value → List Value → Ordering
  | [], [] => .eq
  | [], _ :: _ => .lt
  | _ :: _, [] => .gt
  | a :: as, b :: bs => (Value.compare a b).then (Value.compareList as bs)

def Value.compareFields : Fields → Fields → Ordering
  | [], [] => .eq
  | [], _ :: _ => .lt
  | _ :: _, [] => .gt
  | (k, a) :: as, (l, b) :: bs =>
    (Ord.compare k l).then ((Value.compare a b).then (Value.compareFields as bs))

end

mutual

def transformValueEqual : Value → Value → Bool
  | .nullValue _, .nullValue _ => true
  | .booleanValue a, .booleanValue b => a == b
  | .integerValue a, .integerValue b => a == b
  | .integerValue a, .doubleValue b => compareIntegerDouble a b == .eq
  | .doubleValue a, .integerValue b => compareIntegerDouble b a == .eq
  | .doubleValue a, .doubleValue b => floatEqual a b
  | .timestampValue a, .timestampValue b => a == b
  | .stringValue a, .stringValue b => a == b
  | .bytesValue a, .bytesValue b => a == b
  | .referenceValue a, .referenceValue b => a == b
  | .geoPointValue a a', .geoPointValue b b' => floatEqual a b && floatEqual a' b'
  | .arrayValue a, .arrayValue b => transformListEqual a b
  | .mapValue a, .mapValue b => a.length == b.length && transformFieldsEqual a b
  | .unset, .unset => true
  | _, _ => false

def transformListEqual : List Value → List Value → Bool
  | [], [] => true
  | a :: as, b :: bs => transformValueEqual a b && transformListEqual as bs
  | _, _ => false

/-- Every entry has an equal value under its key in the other map. -/
def transformFieldsEqual : Fields → Fields → Bool
  | [], _ => true
  | (key, value) :: rest, fields =>
    (match fields.lookup key with
      | some other => transformValueEqual value other
      | none => false) && transformFieldsEqual rest fields

end

example : Value.compare (.integerValue 1) (.doubleValue (.ofInt 1)) = .eq := by decide +kernel

end FirebaseEmu.Firestore
