import FirebaseEmu.Firestore.Compare
import FirebaseEmu.Lib.TreeOrder

namespace FirebaseEmu.Firestore
open Lib Std

theorem compareFloats_eq (a b : Binary64) : compareFloats a b = compare a.key b.key := by
  unfold compareFloats Binary64.key Binary64.partialCmp
  cases a.isNan <;> cases b.isNan <;> rfl

theorem int64_bounds (i : Int64) : -2 ^ 63 ≤ i.toInt ∧ i.toInt < 2 ^ 63 :=
  ⟨i.le_toInt, i.toInt_lt⟩

/-- Comparing the integer part first and the fraction after it is comparing exactly. -/
theorem compare_truncated (i u b : Int) (hb : 0 < b) :
    (compare i (u.tdiv b)).then (compare 0 (u.tmod b)) = compare (i * b) u := by
  have hu : u.tdiv b * b + u.tmod b = u := by rw [Int.mul_comm]; exact Int.mul_tdiv_add_tmod u b
  have hlo : -b < u.tmod b := Int.lt_tmod_of_pos u hb
  have hhi : u.tmod b < b := Int.tmod_lt_of_pos u hb
  generalize u.tdiv b = q at hu
  generalize u.tmod b = r at hu hlo hhi
  rcases Int.lt_trichotomy i q with hlt | rfl | hgt
  · have hmul : (i + 1) * b ≤ q * b := Int.mul_le_mul_of_nonneg_right hlt (Int.le_of_lt hb)
    rw [Int.add_mul, Int.one_mul] at hmul
    have hiu : compare (i * b) u = .lt := Int.compare_eq_lt.mpr (by omega)
    rw [Int.compare_eq_lt.mpr hlt, hiu]
    rfl
  · rw [Std.compare_self, Ordering.eq_then]
    rcases Int.lt_trichotomy 0 r with h | h | h
    · rw [Int.compare_eq_lt.mpr h, Int.compare_eq_lt.mpr (by omega)]
    · rw [Int.compare_eq_eq.mpr h, Int.compare_eq_eq.mpr (by omega)]
    · rw [Int.compare_eq_gt.mpr h, Int.compare_eq_gt.mpr (by omega)]
  · have hmul : (q + 1) * b ≤ i * b := Int.mul_le_mul_of_nonneg_right hgt (Int.le_of_lt hb)
    rw [Int.add_mul, Int.one_mul] at hmul
    have hiu : compare (i * b) u = .gt := Int.compare_eq_gt.mpr (by omega)
    rw [Int.compare_eq_gt.mpr hgt, hiu]
    rfl

/-- The mixed comparison is exact, whatever the double. -/
theorem compareIntegerDouble_eq (i : Int64) (d : Binary64) :
    compareIntegerDouble i d = compare (some (i.toInt * Binary64.one)) d.key := by
  obtain ⟨hlo, hhi⟩ := int64_bounds i
  have hmin : (Binary64.ofInt (-2 ^ 63)).isNan = false ∧
      (Binary64.ofInt (-2 ^ 63)).units = -2 ^ 63 * Binary64.one := by decide +kernel
  have hmax : (Binary64.ofInt (2 ^ 63 - 1)).isNan = false ∧
      (Binary64.ofInt (2 ^ 63 - 1)).units = 2 ^ 63 * Binary64.one := by decide +kernel
  have hzero : (Binary64.ofInt 0).isNan = false ∧ (Binary64.ofInt 0).units = 0 := by
    decide +kernel
  have hone : (0 : Int) < Binary64.one := by decide +kernel
  have hfin : (2 : Int) ^ 63 * Binary64.one < 2 ^ 52 * 2 ^ 2046 := by decide +kernel
  unfold compareIntegerDouble Binary64.key Binary64.lt Binary64.le Binary64.truncate
  cases hnan : d.isNan with
  | true => rfl
  | false =>
    simp only [hmin.1, hmin.2, hmax.1, hmax.2, Bool.false_eq_true, ↓reduceIte, Bool.not_false,
      Bool.true_and, Bool.false_or, decide_eq_true_eq]
    show _ = compare (i.toInt * (Binary64.one : Int)) d.units
    have hleft : -2 ^ 63 * (Binary64.one : Int) ≤ i.toInt * Binary64.one :=
      Int.mul_le_mul_of_nonneg_right hlo (Int.le_of_lt hone)
    have hright : i.toInt * (Binary64.one : Int) < 2 ^ 63 * Binary64.one :=
      Int.mul_lt_mul_of_pos_right hhi hone
    by_cases hlow : d.units < -2 ^ 63 * (Binary64.one : Int)
    · rw [if_pos hlow, Int.compare_eq_gt.mpr (by omega)]
    · rw [if_neg hlow]
      by_cases hhigh : 2 ^ 63 * (Binary64.one : Int) ≤ d.units
      · rw [if_pos hhigh, Int.compare_eq_lt.mpr (by omega)]
      · rw [if_neg hhigh]
        have hd : d.isFinite = true := Binary64.isFinite_of_lt (by omega)
        have hf : (Binary64.ofInt 0).partialCmp d.fract =
            some (compare 0 (d.units.tmod Binary64.one)) := by
          rw [Binary64.fract, if_pos hd, Binary64.partialCmp, hzero.1, hzero.2,
            Binary64.ofUnits_isNan, ← Binary64.compare_zero_ofUnits (d.units.tmod _)]
          rfl
        rw [hf]
        exact compare_truncated _ _ _ hone

/-- What the order reads of a value besides its parts. -/
structure Label where
  rank : Nat
  number : Option Int := none
  text : String := ""
  bytes : List UInt8 := []

def Label.compare : Label → Label → Ordering :=
  compareLex (compareOn Label.rank) (compareLex (compareOn Label.number)
    (compareLex (compareOn Label.text) (compareOn Label.bytes)))

instance : TransCmp Label.compare := by
  unfold Label.compare
  infer_instance

/-- A number beside others, as in a timestamp or a point. -/
def numberTree (number : Option Int) : KeyTree Label := .node { rank := 0, number } []

mutual

/-- The value as the tree its order walks. -/
def Value.tree : Value → KeyTree Label
  | .booleanValue a => .node { rank := 1, number := some a.toInt } []
  | .integerValue a => .node { rank := 2, number := some (a.toInt * Binary64.one) } []
  | .doubleValue a => .node { rank := 2, number := a.key } []
  | .timestampValue a =>
    .node { rank := 3 } [numberTree (some a.seconds.toInt), numberTree (some a.nanos.toInt)]
  | .stringValue a => .node { rank := 4, text := a } []
  | .bytesValue a => .node { rank := 5, bytes := a } []
  | .referenceValue a => .node { rank := 6, text := a } []
  | .geoPointValue a b => .node { rank := 7 } [numberTree a.key, numberTree b.key]
  | .arrayValue values => .node { rank := 8 } (Value.treeList values)
  | .mapValue fields => .node { rank := 9 } (Value.treeFields fields)
  | _ => .node { rank := 0 } []

def Value.treeList : List Value → List (KeyTree Label)
  | [] => []
  | a :: as => Value.tree a :: Value.treeList as

def Value.treeFields : Fields → List (KeyTree Label)
  | [] => []
  | (k, a) :: as => .node { rank := 0, text := k } [Value.tree a] :: Value.treeFields as

end

@[simp] theorem Label.compare_number (rank : Nat) (x y : Option Int) :
    Label.compare { rank, number := x } { rank, number := y } = Ord.compare x y := by
  simp [Label.compare, compareLex, compareOn]

@[simp] theorem Label.compare_text (rank : Nat) (x y : String) :
    Label.compare { rank, text := x } { rank, text := y } = Ord.compare x y := by
  simp [Label.compare, compareLex, compareOn]

@[simp] theorem Label.compare_bytes (rank : Nat) (x y : List UInt8) :
    Label.compare { rank, bytes := x } { rank, bytes := y } = Ord.compare x y := by
  simp [Label.compare, compareLex, compareOn]

theorem compare_scaled (x y : Int) :
    Ord.compare (x * Binary64.one) (y * Binary64.one) = Ord.compare x y := by
  have hone : (0 : Int) < Binary64.one := by decide +kernel
  rcases Int.lt_trichotomy x y with h | rfl | h
  · rw [Int.compare_eq_lt.mpr h, Int.compare_eq_lt.mpr (Int.mul_lt_mul_of_pos_right h hone)]
  · rw [Std.compare_self, Std.compare_self]
  · rw [Int.compare_eq_gt.mpr h, Int.compare_eq_gt.mpr (Int.mul_lt_mul_of_pos_right h hone)]

theorem compare_some (x y : Int) : Ord.compare (some x) (some y) = Ord.compare x y := rfl

mutual

theorem Value.compare_eq_tree (a b : Value) :
    a.compare b = KeyTree.compare Label.compare a.tree b.tree := by
  cases a <;> cases b
  case integerValue.integerValue a b =>
    simp only [Value.compare, Value.tree, KeyTree.compare_leaf, Label.compare_number, compare_some,
      compare_scaled]
    rfl
  case integerValue.doubleValue a b =>
    simp only [Value.compare, Value.tree, KeyTree.compare_leaf, Label.compare_number]
    exact compareIntegerDouble_eq a b
  case doubleValue.integerValue a b =>
    simp only [Value.compare, Value.tree, KeyTree.compare_leaf, Label.compare_number]
    rw [compareIntegerDouble_eq, ← OrientedOrd.eq_swap]
    rfl
  case doubleValue.doubleValue a b =>
    simp only [Value.compare, Value.tree, KeyTree.compare_leaf, Label.compare_number]
    exact compareFloats_eq a b
  case booleanValue.booleanValue a b => cases a <;> cases b <;> rfl
  case timestampValue.timestampValue a b =>
    simp [Value.compare, valueRank, Value.tree, KeyTree.compare, KeyTree.compareList, numberTree,
      compare_some]
  case geoPointValue.geoPointValue a a' b b' =>
    simp [Value.compare, valueRank, Value.tree, KeyTree.compare, KeyTree.compareList, numberTree,
      compareFloats_eq]
  case arrayValue.arrayValue as bs =>
    simp [Value.compare, valueRank, Value.tree, KeyTree.compare, Value.compareList_eq_tree as bs]
  case mapValue.mapValue as bs =>
    simp [Value.compare, valueRank, Value.tree, KeyTree.compare, Value.compareFields_eq_tree as bs]
  case stringValue.stringValue => simp [Value.compare, Value.tree, valueRank]
  case bytesValue.bytesValue => simp [Value.compare, Value.tree, valueRank]
  case referenceValue.referenceValue => simp [Value.compare, Value.tree, valueRank]
  all_goals rfl

theorem Value.compareList_eq_tree (as bs : List Value) :
    Value.compareList as bs = KeyTree.compareList Label.compare (treeList as) (treeList bs) := by
  cases as <;> cases bs
  case cons.cons a as b bs =>
    rw [Value.compareList, Value.compare_eq_tree a b, Value.compareList_eq_tree as bs]
    rfl
  all_goals rfl

theorem Value.compareFields_eq_tree (as bs : Fields) :
    Value.compareFields as bs =
      KeyTree.compareList Label.compare (treeFields as) (treeFields bs) := by
  cases as <;> cases bs
  case cons.cons a as b bs =>
    obtain ⟨k, a⟩ := a
    obtain ⟨l, b⟩ := b
    simp only [Value.compareFields, Value.treeFields, KeyTree.compareList, KeyTree.compare,
      Label.compare_text, Value.compare_eq_tree a b, Value.compareFields_eq_tree as bs,
      Ordering.then_eq, Ordering.then_assoc]
  all_goals rfl

end

instance : TransCmp Value.compare :=
  transCmp_of_key (KeyTree.compare Label.compare) Value.tree Value.compare_eq_tree

end FirebaseEmu.Firestore
