import FirebaseEmu.Firestore.Entries
import FirebaseEmu.Firestore.Query
import FirebaseEmu.Firestore.ValueOrder

namespace FirebaseEmu.Firestore
open Lib Std

mutual

/-- Every value inside, the value itself included, carries a value type. -/
def Value.Typed : Value → Prop
  | .unset => False
  | .arrayValue values => Value.typedList values
  | .mapValue fields => Value.typedFields fields
  | _ => True

def Value.typedList : List Value → Prop
  | [] => True
  | value :: values => Value.Typed value ∧ Value.typedList values

def Value.typedFields : Fields → Prop
  | [] => True
  | (_, value) :: fields => Value.Typed value ∧ Value.typedFields fields

end

theorem floatEqual_iff (a b : Binary64) : floatEqual a b = true ↔ compareFloats a b = .eq := by
  unfold floatEqual compareFloats Binary64.eq Binary64.partialCmp
  cases a.isNan <;> cases b.isNan <;> simp

theorem transformFieldsEqual_iff (as bs : Fields) : transformFieldsEqual as bs = true ↔
    ∀ a ∈ as, ∃ b, bs.lookup a.1 = some b ∧ transformValueEqual a.2 b = true := by
  induction as with
  | nil => simp [transformFieldsEqual]
  | cons a as ih =>
    obtain ⟨k, v⟩ := a
    simp only [transformFieldsEqual, Bool.and_eq_true, ih, List.forall_mem_cons]
    refine and_congr_left fun _ => ?_
    cases bs.lookup k <;> simp

/-- Two maps are equal when their entries, read along the key order, are. -/
theorem transformMapEqual_iff {as bs : Fields} (ha : KeyOrdered as) (hb : KeyOrdered bs) :
    transformValueEqual (.mapValue as) (.mapValue bs) = true ↔
      List.Forall₂ (fun a b => a.1 = b.1 ∧ transformValueEqual a.2 b.2 = true) as bs := by
  rw [transformValueEqual, Bool.and_eq_true, beq_iff_eq, transformFieldsEqual_iff]
  exact ha.forall₂_iff hb fun a b => transformValueEqual a b = true

mutual

/-- Values that the transforms take for equal compare as equal. -/
theorem compare_of_transformEqual (a b : Value) (ha : a.KeySorted) (hb : b.KeySorted)
    (h : transformValueEqual a b = true) : a.compare b = .eq := by
  cases a <;> cases b
  case arrayValue.arrayValue as bs =>
    exact compareList_of_transformEqual as bs ha hb h
  case mapValue.mapValue as bs =>
    exact compareFields_of_transformEqual as bs ha.2 hb.2
      ((transformMapEqual_iff ha.1 hb.1).mp h)
  case integerValue.doubleValue a b =>
    have heq : compareIntegerDouble a b = .eq := by simpa [transformValueEqual] using h
    exact heq
  case doubleValue.integerValue a b =>
    have heq : compareIntegerDouble b a = .eq := by simpa [transformValueEqual] using h
    exact congrArg Ordering.swap heq
  case doubleValue.doubleValue a b => exact (floatEqual_iff a b).mp h
  case geoPointValue.geoPointValue a a' b b' =>
    obtain ⟨h, h'⟩ := Bool.and_eq_true_iff.mp h
    rw [floatEqual_iff] at h h'
    simp [Value.compare, valueRank, h, h']
  all_goals simp_all [transformValueEqual, Value.compare, valueRank]

theorem compareList_of_transformEqual (as bs : List Value) (ha : Value.keySortedList as)
    (hb : Value.keySortedList bs) (h : transformListEqual as bs = true) :
    Value.compareList as bs = .eq := by
  cases as <;> cases bs
  case cons.cons a as b bs =>
    obtain ⟨h, hs⟩ := Bool.and_eq_true_iff.mp h
    rw [Value.compareList, compare_of_transformEqual a b ha.1 hb.1 h,
      compareList_of_transformEqual as bs ha.2 hb.2 hs]
    rfl
  case nil.nil => rfl
  all_goals cases h

theorem compareFields_of_transformEqual (as bs : Fields) (ha : Value.keySortedFields as)
    (hb : Value.keySortedFields bs)
    (h : List.Forall₂ (fun a b => a.1 = b.1 ∧ transformValueEqual a.2 b.2 = true) as bs) :
    Value.compareFields as bs = .eq := by
  cases as <;> cases bs
  case cons.cons a as b bs =>
    obtain ⟨k, a⟩ := a
    obtain ⟨l, b⟩ := b
    obtain ⟨⟨hk, h⟩, hs⟩ := List.forall₂_cons.mp h
    dsimp only at hk h
    rw [Value.compareFields, hk, Std.compare_self, compare_of_transformEqual a b ha.1 hb.1 h,
      compareFields_of_transformEqual as bs ha.2 hb.2 hs]
    rfl
  case nil.nil => rfl
  all_goals cases h

end

mutual

/-- Typed values that compare as equal are equal to the transforms. -/
theorem transformEqual_of_compare (a b : Value) (ha : a.KeySorted) (hb : b.KeySorted)
    (hta : a.Typed) (htb : b.Typed) (h : a.compare b = .eq) : transformValueEqual a b = true := by
  cases a <;> cases b
  case arrayValue.arrayValue as bs =>
    exact transformListEqual_of_compare as bs ha hb hta htb h
  case mapValue.mapValue as bs =>
    exact (transformMapEqual_iff ha.1 hb.1).mpr
      (transformEntries_of_compare as bs ha.2 hb.2 hta htb h)
  case integerValue.doubleValue a b =>
    have heq : compareIntegerDouble a b = .eq := h
    simp [transformValueEqual, heq]
  case doubleValue.integerValue a b =>
    have heq : (compareIntegerDouble b a).swap = .eq := h
    simpa [transformValueEqual] using heq
  case doubleValue.doubleValue a b => exact (floatEqual_iff a b).mpr h
  case geoPointValue.geoPointValue a a' b b' =>
    have heq : (compareFloats a b).then (compareFloats a' b') = .eq := h
    rw [Ordering.then_eq_eq] at heq
    rw [transformValueEqual, (floatEqual_iff a b).mpr heq.1, (floatEqual_iff a' b').mpr heq.2]
    rfl
  case integerValue.integerValue a b =>
    have heq : a.toInt = b.toInt := LawfulEqOrd.eq_of_compare h
    simp [transformValueEqual, Int64.toInt_inj.mp heq]
  case timestampValue.timestampValue a b =>
    obtain ⟨hs, hn⟩ := Ordering.then_eq_eq.mp h
    have hs : a.seconds = b.seconds := Int64.toInt_inj.mp (LawfulEqOrd.eq_of_compare hs)
    have hn : a.nanos = b.nanos := Int32.toInt_inj.mp (LawfulEqOrd.eq_of_compare hn)
    cases a
    cases b
    simp_all [transformValueEqual]
  all_goals simp_all [transformValueEqual, Value.compare, valueRank, Value.Typed]

theorem transformListEqual_of_compare (as bs : List Value) (ha : Value.keySortedList as)
    (hb : Value.keySortedList bs) (hta : Value.typedList as) (htb : Value.typedList bs)
    (h : Value.compareList as bs = .eq) : transformListEqual as bs = true := by
  cases as <;> cases bs
  case cons.cons a as b bs =>
    rw [Value.compareList, Ordering.then_eq_eq] at h
    rw [transformListEqual, transformEqual_of_compare a b ha.1 hb.1 hta.1 htb.1 h.1,
      transformListEqual_of_compare as bs ha.2 hb.2 hta.2 htb.2 h.2]
    rfl
  case nil.nil => rfl
  all_goals cases h

theorem transformEntries_of_compare (as bs : Fields) (ha : Value.keySortedFields as)
    (hb : Value.keySortedFields bs) (hta : Value.typedFields as) (htb : Value.typedFields bs)
    (h : Value.compareFields as bs = .eq) :
    List.Forall₂ (fun a b => a.1 = b.1 ∧ transformValueEqual a.2 b.2 = true) as bs := by
  cases as <;> cases bs
  case cons.cons a as b bs =>
    obtain ⟨k, a⟩ := a
    obtain ⟨l, b⟩ := b
    rw [Value.compareFields, Ordering.then_eq_eq, Ordering.then_eq_eq] at h
    obtain ⟨hk, hv, hs⟩ := h
    exact .cons ⟨LawfulEqOrd.eq_of_compare hk,
      transformEqual_of_compare a b ha.1 hb.1 hta.1 htb.1 hv⟩
      (transformEntries_of_compare as bs ha.2 hb.2 hta.2 htb.2 hs)
  case nil.nil => exact .nil
  all_goals cases h

end

mutual

theorem transformEqual_refl (a : Value) (ha : a.KeySorted) : transformValueEqual a a = true := by
  cases a
  case arrayValue as => exact transformListEqual_refl as ha
  case mapValue as =>
    exact (transformMapEqual_iff ha.1 ha.1).mpr (transformEntries_refl as ha.2)
  case doubleValue a => exact (floatEqual_iff a a).mpr (by simp [compareFloats_eq])
  case geoPointValue a a' =>
    rw [transformValueEqual, Bool.and_eq_true, floatEqual_iff, floatEqual_iff]
    simp [compareFloats_eq]
  all_goals simp [transformValueEqual]

theorem transformListEqual_refl (as : List Value) (ha : Value.keySortedList as) :
    transformListEqual as as = true := by
  cases as with
  | nil => rfl
  | cons a as =>
    rw [transformListEqual, transformEqual_refl a ha.1, transformListEqual_refl as ha.2]
    rfl

theorem transformEntries_refl (as : Fields) (ha : Value.keySortedFields as) :
    List.Forall₂ (fun a b => a.1 = b.1 ∧ transformValueEqual a.2 b.2 = true) as as := by
  cases as with
  | nil => exact .nil
  | cons a as => exact .cons ⟨rfl, transformEqual_refl a.2 ha.1⟩ (transformEntries_refl as ha.2)

end

/-- A value whose maps are in key order and whose every part carries a value type. -/
abbrev TypedValue := { value : Value // value.KeySorted ∧ value.Typed }

theorem transformEqual_iff_compare (a b : TypedValue) :
    transformValueEqual a.1 b.1 = true ↔ a.1.compare b.1 = .eq :=
  ⟨compare_of_transformEqual a.1 b.1 a.2.1 b.2.1,
    transformEqual_of_compare a.1 b.1 a.2.1 b.2.1 a.2.2 b.2.2⟩

/-- The equality of the transforms and that of the query order agree: a union and a
membership filter identify the same elements. -/
theorem equalities_agree :
    (∀ a b : Value, a.KeySorted → b.KeySorted → transformValueEqual a b = true →
      a.compare b = .eq) ∧
    (∀ a b : Value, a.KeySorted → b.KeySorted → a.Typed → b.Typed → a.compare b = .eq →
      transformValueEqual a b = true) ∧
    (∀ (values : List TypedValue) (needle : TypedValue),
      (values.map Subtype.val).any (transformValueEqual · needle.1) =
        contains (.arrayValue (values.map Subtype.val)) needle.1) ∧
    Equivalence fun a b : TypedValue => transformValueEqual a.1 b.1 = true := by
  refine ⟨compare_of_transformEqual, transformEqual_of_compare, ?_, ?_⟩
  · intro values needle
    rw [contains, Bool.eq_iff_iff]
    simp only [List.any_map, List.any_eq_true, Function.comp_apply, beq_iff_eq,
      transformEqual_iff_compare]
  · constructor
    · intro a
      exact transformEqual_refl a.1 a.2.1
    · intro a b h
      rw [transformEqual_iff_compare] at *
      exact OrientedCmp.eq_symm h
    · intro a b c hab hbc
      rw [transformEqual_iff_compare] at *
      exact TransCmp.eq_trans hab hbc

end FirebaseEmu.Firestore
