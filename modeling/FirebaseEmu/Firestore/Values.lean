import FirebaseEmu.Firestore.Messages
import Mathlib.Tactic.Tauto

namespace FirebaseEmu.Firestore
open Lib

mutual

/-- The derived `PartialEq`: doubles compare numerically, so NaN is unequal to itself. -/
def Value.eq : Value → Value → Bool
  | .unset, .unset => true
  | .nullValue a, .nullValue b => a == b
  | .booleanValue a, .booleanValue b => a == b
  | .integerValue a, .integerValue b => a == b
  | .doubleValue a, .doubleValue b => a.eq b
  | .timestampValue a, .timestampValue b => a == b
  | .stringValue a, .stringValue b => a == b
  | .bytesValue a, .bytesValue b => a == b
  | .referenceValue a, .referenceValue b => a == b
  | .geoPointValue a a', .geoPointValue b b' => a.eq b && a'.eq b'
  | .arrayValue a, .arrayValue b => Value.eqList a b
  | .mapValue a, .mapValue b => Value.eqFields a b
  | _, _ => false

def Value.eqList : List Value → List Value → Bool
  | [], [] => true
  | a :: as, b :: bs => Value.eq a b && Value.eqList as bs
  | _, _ => false

def Value.eqFields : Fields → Fields → Bool
  | [], [] => true
  | (k, a) :: as, (l, b) :: bs => k == l && Value.eq a b && Value.eqFields as bs
  | _, _ => false

end

mutual

/-- Some double inside the value is NaN. -/
def Value.hasNan : Value → Bool
  | .doubleValue a => a.isNan
  | .geoPointValue a b => a.isNan || b.isNan
  | .arrayValue values => Value.hasNanList values
  | .mapValue fields => Value.hasNanFields fields
  | _ => false

def Value.hasNanList : List Value → Bool
  | [] => false
  | a :: as => Value.hasNan a || Value.hasNanList as

def Value.hasNanFields : Fields → Bool
  | [] => false
  | (_, a) :: as => Value.hasNan a || Value.hasNanFields as

end

mutual

/-- The value with every double replaced by the one datum of its class. -/
def Value.canonical : Value → Value
  | .doubleValue a => .doubleValue a.canonical
  | .geoPointValue a b => .geoPointValue a.canonical b.canonical
  | .arrayValue values => .arrayValue (Value.canonicalList values)
  | .mapValue fields => .mapValue (Value.canonicalFields fields)
  | v => v

def Value.canonicalList : List Value → List Value
  | [] => []
  | a :: as => Value.canonical a :: Value.canonicalList as

def Value.canonicalFields : Fields → Fields
  | [] => []
  | (k, a) :: as => (k, Value.canonical a) :: Value.canonicalFields as

end

mutual

/-- Derived equality is having one canonical form without a NaN in it. -/
theorem Value.eq_iff (a b : Value) :
    a.eq b = true ↔ a.canonical = b.canonical ∧ a.hasNan = false := by
  cases a <;> cases b
  case arrayValue.arrayValue as bs =>
    simpa [Value.eq, Value.canonical, Value.hasNan] using Value.eqList_iff as bs
  case mapValue.mapValue as bs =>
    simpa [Value.eq, Value.canonical, Value.hasNan] using Value.eqFields_iff as bs
  case geoPointValue.geoPointValue =>
    simp [Value.eq, Value.canonical, Value.hasNan, Binary64.eq_iff_canonical]
    tauto
  all_goals simp [Value.eq, Value.canonical, Value.hasNan, Binary64.eq_iff_canonical]

theorem Value.eqList_iff (as bs : List Value) : Value.eqList as bs = true ↔
    Value.canonicalList as = Value.canonicalList bs ∧ Value.hasNanList as = false := by
  cases as <;> cases bs
  case cons.cons a as b bs =>
    simp [Value.eqList, Value.canonicalList, Value.hasNanList, Value.eq_iff a b,
      Value.eqList_iff as bs]
    tauto
  all_goals simp [Value.eqList, Value.canonicalList, Value.hasNanList]

theorem Value.eqFields_iff (as bs : Fields) : Value.eqFields as bs = true ↔
    Value.canonicalFields as = Value.canonicalFields bs ∧ Value.hasNanFields as = false := by
  cases as <;> cases bs
  case cons.cons a as b bs =>
    obtain ⟨k, a⟩ := a
    obtain ⟨l, b⟩ := b
    simp [Value.eqFields, Value.canonicalFields, Value.hasNanFields, Value.eq_iff a b,
      Value.eqFields_iff as bs]
    tauto
  all_goals simp [Value.eqFields, Value.canonicalFields, Value.hasNanFields]

end

/-- The derived `PartialEq` of documents. -/
def Document.eq (a b : Document) : Bool :=
  a.name == b.name && Value.eqFields a.fields b.fields && a.createTime == b.createTime &&
    a.updateTime == b.updateTime

def Document.hasNan (document : Document) : Bool := Value.hasNanFields document.fields

theorem Document.eq_iff (a b : Document) : a.eq b = true ↔
    a.name = b.name ∧ (Value.canonicalFields a.fields = Value.canonicalFields b.fields ∧
      a.hasNan = false) ∧ a.createTime = b.createTime ∧ a.updateTime = b.updateTime := by
  simp [Document.eq, Document.hasNan, Value.eqFields_iff, and_assoc]

/-- A document is equal to itself unless it holds a NaN. -/
theorem Document.eq_self_iff (document : Document) :
    document.eq document = true ↔ document.hasNan = false := by
  simp [Document.eq_iff]

theorem Document.eq_trans {a b c : Document} (hab : a.eq b = true) (hbc : b.eq c = true) :
    a.eq c = true := by
  rw [Document.eq_iff] at *
  obtain ⟨hname, ⟨hfields, hnan⟩, hcreate, hupdate⟩ := hab
  obtain ⟨hname', ⟨hfields', -⟩, hcreate', hupdate'⟩ := hbc
  exact ⟨hname.trans hname', ⟨hfields.trans hfields', hnan⟩, hcreate.trans hcreate',
    hupdate.trans hupdate'⟩

end FirebaseEmu.Firestore
