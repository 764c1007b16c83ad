import FirebaseEmu.Lib.Binary64

namespace FirebaseEmu.Lib

/-- A JSON number: a natural number, a negative integer, or a finite double. -/
inductive JsonNumber where
  | posInt (value : UInt64)
  | negInt (value : Int64) (negative : value < 0)
  | float (value : Binary64) (finite : value.isFinite = true)

/-- A JSON value. An object is kept as its entries in key order. -/
inductive Json where
  | null
  | bool (value : Bool)
  | number (value : JsonNumber)
  | string (value : String)
  | array (values : List Json)
  | object (entries : List (String × Json))

theorem Binary64.canonical_isFinite {x : Binary64} (h : x.isFinite = true) :
    x.canonical.isFinite = true := by
  unfold canonical
  split
  · rename_i hn
    simp only [isFinite, bne_iff_ne, ne_eq] at h
    simp [isNan, h] at hn
  · split
    · decide
    · exact h

theorem Binary64.not_isNan {x : Binary64} (h : x.isFinite = true) : x.isNan = false := by
  simp only [isFinite, bne_iff_ne, ne_eq] at h
  simp [isNan, h]

namespace JsonNumber

/-- The derived `PartialEq`: numbers of one kind, doubles numerically. -/
def eq : JsonNumber → JsonNumber → Bool
  | posInt a, posInt b => a == b
  | negInt a _, negInt b _ => a == b
  | float a _, float b _ => a.eq b
  | _, _ => false

def canonical : JsonNumber → JsonNumber
  | float a h => float a.canonical (Binary64.canonical_isFinite h)
  | n => n

theorem eq_iff (a b : JsonNumber) : a.eq b = true ↔ a.canonical = b.canonical := by
  cases a <;> cases b
  case float.float a ha b hb =>
    simp [eq, canonical, Binary64.eq_iff_canonical, Binary64.not_isNan ha]
  all_goals simp [eq, canonical]

end JsonNumber

namespace Json

/-- `json!(x)` of a double: a number when it is finite. -/
def ofDouble (x : Binary64) : Json :=
  if h : x.isFinite = true then number (.float x h) else null

/-- `v[key]`. -/
def get (key : String) : Json → Json
  | object entries => (entries.lookup key).getD null
  | _ => null

/-- `v.get(key)`. -/
def find? (key : String) : Json → Option Json
  | object entries => entries.lookup key
  | _ => none

def asBool : Json → Option Bool
  | bool b => some b
  | _ => none

def asStr : Json → Option String
  | string s => some s
  | _ => none

def asI64 : Json → Option Int64
  | number (.posInt n) => if n.toNat < 2 ^ 63 then some n.toInt64 else none
  | number (.negInt n _) => some n
  | _ => none

/-- Integers are rounded to the nearest double. -/
def asF64 : Json → Option Binary64
  | number (.posInt n) => some (.ofInt n.toNat)
  | number (.negInt n _) => some (.ofInt n.toInt)
  | number (.float x _) => some x
  | _ => none

def asArray : Json → Option (List Json)
  | array values => some values
  | _ => none

def asObject : Json → Option (List (String × Json))
  | object entries => some entries
  | _ => none

theorem get_eq (key : String) (v : Json) : v.get key = (v.find? key).getD null := by
  cases v <;> rfl

theorem asF64_ofDouble {x : Binary64} (h : x.isFinite = true) : (ofDouble x).asF64 = some x := by
  simp [ofDouble, h, asF64]

theorem lookup_mem {entries : List (String × Json)} {key : String} {v : Json}
    (h : entries.lookup key = some v) : (key, v) ∈ entries := by
  induction entries with
  | nil => cases h
  | cons entry entries ih =>
    obtain ⟨k, a⟩ := entry
    rw [List.lookup_cons] at h
    split at h
    · rename_i hk
      obtain rfl := Option.some.inj h
      obtain rfl : key = k := by simpa using hk
      exact List.mem_cons_self
    · exact List.mem_cons_of_mem _ (ih h)

theorem sizeOf_find? {key : String} {v a : Json} (h : v.find? key = some a) :
    sizeOf a < sizeOf v := by
  cases v with
  | object entries =>
    have hlt := List.sizeOf_lt_of_mem (lookup_mem h)
    simp only [Prod.mk.sizeOf_spec] at hlt
    simp only [object.sizeOf_spec]
    omega
  | _ => cases h

theorem sizeOf_get (key : String) (v : Json) : sizeOf (v.get key) ≤ sizeOf v := by
  rw [get_eq]
  cases h : v.find? key with
  | none => cases v <;> simp +arith
  | some a => exact Nat.le_of_lt (sizeOf_find? h)

theorem sizeOf_asArray {v : Json} {values : List Json} (h : v.asArray = some values) :
    sizeOf values < sizeOf v := by
  cases v with
  | array values' =>
    obtain rfl := Option.some.inj h
    simp
  | _ => cases h

theorem sizeOf_asObject {v : Json} {entries : List (String × Json)}
    (h : v.asObject = some entries) : sizeOf entries < sizeOf v := by
  cases v with
  | object entries' =>
    obtain rfl := Option.some.inj h
    simp
  | _ => cases h

mutual

/-- The derived `PartialEq`. -/
def eq : Json → Json → Bool
  | null, null => true
  | bool a, bool b => a == b
  | number a, number b => a.eq b
  | string a, string b => a == b
  | array as, array bs => eqList as bs
  | object as, object bs => eqEntries as bs
  | _, _ => false

def eqList : List Json → List Json → Bool
  | [], [] => true
  | a :: as, b :: bs => eq a b && eqList as bs
  | _, _ => false

def eqEntries : List (String × Json) → List (String × Json) → Bool
  | [], [] => true
  | (k, a) :: as, (l, b) :: bs => k == l && eq a b && eqEntries as bs
  | _, _ => false

end

mutual

/-- The value with every double replaced by the one datum of its class. -/
def canonical : Json → Json
  | number a => number a.canonical
  | array as => array (canonicalList as)
  | object as => object (canonicalEntries as)
  | v => v

def canonicalList : List Json → List Json
  | [] => []
  | a :: as => canonical a :: canonicalList as

def canonicalEntries : List (String × Json) → List (String × Json)
  | [] => []
  | (k, a) :: as => (k, canonical a) :: canonicalEntries as

end

mutual

/-- Equality is having one canonical form: no number is NaN. -/
theorem eq_iff (a b : Json) : a.eq b = true ↔ a.canonical = b.canonical := by
  cases a <;> cases b
  case array.array as bs => simpa [eq, canonical] using eqList_iff as bs
  case object.object as bs => simpa [eq, canonical] using eqEntries_iff as bs
  all_goals simp [eq, canonical, JsonNumber.eq_iff]

theorem eqList_iff (as bs : List Json) :
    eqList as bs = true ↔ canonicalList as = canonicalList bs := by
  cases as <;> cases bs
  case cons.cons a as b bs => simp [eqList, canonicalList, eq_iff a b, eqList_iff as bs]
  all_goals simp [eqList, canonicalList]

theorem eqEntries_iff (as bs : List (String × Json)) :
    eqEntries as bs = true ↔ canonicalEntries as = canonicalEntries bs := by
  cases as <;> cases bs
  case cons.cons a as b bs =>
    obtain ⟨k, a⟩ := a
    obtain ⟨l, b⟩ := b
    simp [eqEntries, canonicalEntries, eq_iff a b, eqEntries_iff as bs, and_assoc]
  all_goals simp [eqEntries, canonicalEntries]

end

@[simp] theorem eq_self (a : Json) : a.eq a = true := (eq_iff a a).mpr rfl

theorem eq_trans {a b c : Json} (hab : a.eq b = true) (hbc : b.eq c = true) :
    a.eq c = true :=
  (eq_iff a c).mpr (((eq_iff a b).mp hab).trans ((eq_iff b c).mp hbc))

end Json

end FirebaseEmu.Lib
