import FirebaseEmu.Firestore.Ordering
import FirebaseEmu.Lib.Numbers
import Mathlib.Algebra.Order.Ring.Cast

namespace FirebaseEmu.Firestore
open Lib Std

/-- The number a numeric value stands for. -/
def Value.number : Value → Option Number
  | .integerValue a => some (.exact (a.toInt : ℚ))
  | .doubleValue a => some a.number
  | _ => none

/-- Entries compare by key and, at one key, by value. -/
def compareEntries (a b : String × Value) : Ordering :=
  (Ord.compare a.1 b.1).then (a.2.compare b.2)

theorem compareList_eq_compareLex (as bs : List Value) :
    Value.compareList as bs = as.compareLex Value.compare bs := by
  induction as generalizing bs with
  | nil => cases bs <;> rfl
  | cons a as ih =>
    cases bs with
    | nil => rfl
    | cons b bs =>
      rw [Value.compareList, List.compareLex_cons_cons, ih]

theorem compareFields_eq_compareLex (as bs : Fields) :
    Value.compareFields as bs = as.compareLex compareEntries bs := by
  induction as generalizing bs with
  | nil => cases bs <;> rfl
  | cons a as ih =>
    cases bs with
    | nil => rfl
    | cons b bs =>
      rw [Value.compareFields, List.compareLex_cons_cons, ih, compareEntries, Ordering.then_assoc]

theorem cmp_exact (i j : Int) :
    cmp (Number.exact (i : ℚ)) (Number.exact (j : ℚ)) = Ord.compare i j := by
  have hmono : StrictMono fun n : Int => Number.exact (n : ℚ) :=
    WithBot.coe_strictMono.comp (WithBot.coe_strictMono.comp
      (WithTop.coe_strictMono.comp Int.cast_strictMono))
  rw [← cmp_eq_compare]
  exact hmono.cmp_map_eq i j

/-- The mixed comparison is that of the two numbers. -/
theorem compareIntegerDouble_eq_cmp (i : Int64) (d : Binary64) :
    compareIntegerDouble i d = cmp (Number.exact (i.toInt : ℚ)) d.number := by
  obtain ⟨hlo, hhi⟩ := int64_bounds i
  have hi := Binary64.exact_of_int hlo (Int.le_of_lt hhi)
  have htop : (2 : Int) ^ 63 * Binary64.one < Binary64.top := by decide +kernel
  have hone : (0 : Int) ≤ Binary64.one := by decide +kernel
  have h1 := Int.mul_le_mul_of_nonneg_right hlo hone
  have h2 := Int.mul_le_mul_of_nonneg_right (Int.le_of_lt hhi) hone
  rw [compareIntegerDouble_eq, hi, Binary64.key]
  cases hd : d.isNan with
  | true =>
    rw [Binary64.number, hd]
    exact (cmp_eq_gt_iff _ _).mpr (WithBot.bot_lt_coe _) |>.symm
  | false =>
    have hmem : i.toInt * Binary64.one ∈ Set.Icc (-Binary64.top) Binary64.top :=
      ⟨by omega, by omega⟩
    rw [d.number_of_units hd, WithBot.coe_strictMono.cmp_map_eq,
      Binary64.numberOfUnits_strictMono.cmp_map_eq hmem (d.units_mem hd), cmp_eq_compare]
    rfl

/-- Numbers compare by what they stand for, whichever of the two types holds them. -/
theorem compare_number {a b : Value} {x y : Number} (ha : a.number = some x)
    (hb : b.number = some y) : a.compare b = cmp x y := by
  cases a <;> cases ha <;> cases b <;> cases hb
  case integerValue.refl.integerValue.refl a b => exact (cmp_exact _ _).symm
  case integerValue.refl.doubleValue.refl a b => exact compareIntegerDouble_eq_cmp a b
  case doubleValue.refl.integerValue.refl a b =>
    rw [← cmp_swap, ← compareIntegerDouble_eq_cmp]
    rfl
  case doubleValue.refl.doubleValue.refl a b =>
    rw [Binary64.cmp_number]
    exact compareFloats_eq a b

/-- The order of values is a total preorder: numbers by their exact value with NaN first,
arrays and maps lexicographically. -/
theorem value_order :
    (∀ a : Value, a.compare a = .eq) ∧
    (∀ a b : Value, b.compare a = (a.compare b).swap) ∧
    (∀ a b c : Value, a.compare b ≠ .gt → b.compare c ≠ .gt → a.compare c ≠ .gt) ∧
    (∀ (a b : Value) (x y : Number), a.number = some x → b.number = some y →
      a.compare b = cmp x y) ∧
    (∀ as bs : List Value,
      (Value.arrayValue as).compare (.arrayValue bs) = as.compareLex Value.compare bs) ∧
    (∀ as bs : Fields,
      (Value.mapValue as).compare (.mapValue bs) = as.compareLex compareEntries bs) := by
  refine ⟨fun a => Std.ReflCmp.compare_self, fun a b => OrientedCmp.eq_swap, ?_,
    fun a b x y ha hb => compare_number ha hb, ?_, ?_⟩
  · intro a b c hab hbc
    have hac := TransCmp.isLE_trans (Ordering.isLE_iff_ne_gt.mpr hab)
      (Ordering.isLE_iff_ne_gt.mpr hbc)
    exact Ordering.isLE_iff_ne_gt.mp hac
  · intro as bs
    rw [← compareList_eq_compareLex]
    rfl
  · intro as bs
    rw [← compareFields_eq_compareLex]
    rfl

end FirebaseEmu.Firestore
