import Mathlib.Data.Int.Order.Basic
import Mathlib.Data.BitVec
import Mathlib.Tactic.Ring

namespace FirebaseEmu.Lib

/-- An IEEE 754 binary64 datum, kept as its bits. -/
structure Binary64 where
  bits : BitVec 64
  deriving DecidableEq

namespace Binary64

def negative (x : Binary64) : Bool := x.bits.msb

def exponent (x : Binary64) : Nat := x.bits.toNat / 2 ^ 52 % 2 ^ 11

def fraction (x : Binary64) : Nat := x.bits.toNat % 2 ^ 52

def isNan (x : Binary64) : Bool := x.exponent == 2047 && x.fraction != 0

def isInfinite (x : Binary64) : Bool := x.exponent == 2047 && x.fraction == 0

def isFinite (x : Binary64) : Bool := x.exponent != 2047

/-- Magnitude in units of the smallest subnormal, `2 ^ (-1074)`. The formula gives
an infinity a magnitude above every finite one, so it orders infinities too. -/
def magnitude (x : Binary64) : Nat :=
  if x.exponent = 0 then x.fraction else (2 ^ 52 + x.fraction) * 2 ^ (x.exponent - 1)

def units (x : Binary64) : Int := if x.negative then -x.magnitude else x.magnitude

def assemble (negative : Bool) (exponent fraction : Nat) : Binary64 :=
  ⟨BitVec.ofNat 64 ((if negative then 2 ^ 63 else 0) + exponent * 2 ^ 52 + fraction)⟩

def nan : Binary64 := assemble false 2047 (2 ^ 51)

def infinity (negative : Bool) : Binary64 := assemble negative 2047 0

/-- Round to nearest, ties to even. A significand that rounds up to `2 ^ 53`
carries into the exponent field. -/
def round (negative : Bool) (n : Nat) : Binary64 :=
  if n < 2 ^ 52 then assemble negative 0 n
  else
    let shift := n.log2 - 52
    let quotient := n / 2 ^ shift
    let rest := n % 2 ^ shift
    let up := 2 ^ shift < 2 * rest ∨ (2 * rest = 2 ^ shift ∧ quotient % 2 = 1)
    let significand := if up then quotient + 1 else quotient
    if 2047 ≤ shift + 1 + (significand - 2 ^ 52) / 2 ^ 52 then infinity negative
    else assemble negative (shift + 1) (significand - 2 ^ 52)

def ofUnits (n : Int) : Binary64 := round (decide (n < 0)) n.natAbs

/-- The number one, in units. -/
def one : Nat := 2 ^ 1074

def ofInt (n : Int) : Binary64 := ofUnits (n * one)

/-- An exact zero sum is negative only when both operands are. -/
def add (x y : Binary64) : Binary64 :=
  if x.isNan || y.isNan then nan
  else if x.isInfinite then
    if y.isInfinite && x.negative != y.negative then nan else x
  else if y.isInfinite then y
  else if x.units + y.units = 0 then assemble (x.negative && y.negative) 0 0
  else ofUnits (x.units + y.units)

def partialCmp (x y : Binary64) : Option Ordering :=
  if x.isNan || y.isNan then none else some (compare x.units y.units)

def eq (x y : Binary64) : Bool := !x.isNan && !y.isNan && x.units == y.units

def lt (x y : Binary64) : Bool := !x.isNan && !y.isNan && decide (x.units < y.units)

def le (x y : Binary64) : Bool := !x.isNan && !y.isNan && decide (x.units ≤ y.units)

/-- The integer part, truncated toward zero and not yet confined to a machine width. -/
def truncate (x : Binary64) : Int := x.units.tdiv one

def fract (x : Binary64) : Binary64 :=
  if x.isFinite then ofUnits (x.units.tmod one) else nan

/-- One datum for each class of data that `eq` or being NaN cannot tell apart. -/
def canonical (x : Binary64) : Binary64 :=
  if x.isNan then nan else if x.units = 0 then assemble false 0 0 else x

example : add (ofInt 1) (ofInt 2) = ofInt 3 ∧ ofInt (2 ^ 53 + 1) = ofInt (2 ^ 53) ∧
    (add (infinity false) (infinity true)).isNan = true := by decide +kernel

/-- The three fields determine the datum. -/
theorem ext_fields {x y : Binary64} (hn : x.negative = y.negative)
    (he : x.exponent = y.exponent) (hf : x.fraction = y.fraction) : x = y := by
  have hx : x.negative = decide (2 ^ 63 ≤ x.bits.toNat) := BitVec.msb_eq_decide x.bits
  have hy : y.negative = decide (2 ^ 63 ≤ y.bits.toNat) := BitVec.msb_eq_decide y.bits
  rw [hx, hy, decide_eq_decide] at hn
  have hlx := x.bits.isLt
  have hly := y.bits.isLt
  unfold exponent at he
  unfold fraction at hf
  obtain ⟨x⟩ := x
  obtain ⟨y⟩ := y
  congr 1
  apply BitVec.eq_of_toNat_eq
  dsimp only at *
  omega

theorem fraction_lt (x : Binary64) : x.fraction < 2 ^ 52 := Nat.mod_lt _ (by decide)

/-- A larger exponent field means a larger magnitude, whatever the fractions. -/
theorem magnitude_lt {x y : Binary64} (h : x.exponent < y.exponent) :
    x.magnitude < y.magnitude := by
  have hy : 2 ^ 52 * 2 ^ (y.exponent - 1) ≤ y.magnitude := by
    simp only [magnitude, Nat.ne_of_gt (Nat.lt_of_le_of_lt (Nat.zero_le _) h), ↓reduceIte]
    exact Nat.mul_le_mul_right _ (Nat.le_add_right _ _)
  have hf := x.fraction_lt
  refine Nat.lt_of_lt_of_le ?_ hy
  unfold magnitude
  split
  · exact Nat.lt_of_lt_of_le hf (Nat.le_mul_of_pos_right _ (Nat.two_pow_pos _))
  · rename_i he
    have hp : 2 ^ (y.exponent - 1) = 2 ^ (x.exponent - 1) * 2 ^ (y.exponent - x.exponent) := by
      rw [← Nat.pow_add]; congr 1; omega
    have hd : 2 ≤ 2 ^ (y.exponent - x.exponent) := by
      calc 2 = 2 ^ 1 := rfl
        _ ≤ _ := Nat.pow_le_pow_right (by decide) (by omega)
    calc (2 ^ 52 + x.fraction) * 2 ^ (x.exponent - 1)
        < (2 ^ 52 * 2) * 2 ^ (x.exponent - 1) :=
          Nat.mul_lt_mul_of_pos_right (by omega) (Nat.two_pow_pos _)
      _ ≤ (2 ^ 52 * 2 ^ (y.exponent - x.exponent)) * 2 ^ (x.exponent - 1) :=
          Nat.mul_le_mul_right _ (Nat.mul_le_mul_left _ hd)
      _ = 2 ^ 52 * 2 ^ (y.exponent - 1) := by rw [hp]; ring

theorem fields_of_magnitude {x y : Binary64} (h : x.magnitude = y.magnitude) :
    x.exponent = y.exponent ∧ x.fraction = y.fraction := by
  rcases Nat.lt_trichotomy x.exponent y.exponent with hlt | he | hgt
  · have := magnitude_lt hlt; omega
  · refine ⟨he, ?_⟩
    unfold magnitude at h
    rw [he] at h
    split at h
    · exact h
    · have := Nat.eq_of_mul_eq_mul_right (Nat.two_pow_pos _) h
      omega
  · have := magnitude_lt hgt; omega

/-- Away from zero the exact value determines the datum. -/
theorem eq_of_units {x y : Binary64} (h : x.units = y.units) (hz : x.units ≠ 0) : x = y := by
  unfold units at h hz
  have hm : x.magnitude = y.magnitude := by
    revert h
    cases x.negative <;> cases y.negative <;> simp <;> omega
  have hn : x.negative = y.negative := by
    cases hx : x.negative <;> cases hy : y.negative <;> simp only [hx, hy] at h hz ⊢ <;>
      simp at h hz <;> omega
  obtain ⟨he, hf⟩ := fields_of_magnitude hm
  exact ext_fields hn he hf

theorem eq_self (x : Binary64) : x.eq x = !x.isNan := by simp [eq]

theorem canonical_isNan (x : Binary64) : x.canonical.isNan = x.isNan := by
  unfold canonical
  split
  · rename_i h; rw [h]; decide
  · split
    · rename_i h _; rw [Bool.not_eq_true] at h; rw [h]; decide
    · rfl

theorem canonical_units {x : Binary64} (h : x.isNan = false) : x.canonical.units = x.units := by
  unfold canonical
  rw [h]
  simp only [Bool.false_eq_true, ↓reduceIte]
  split
  · rename_i hz; rw [hz]; decide
  · rfl

/-- Numeric equality is having one canonical datum that is not NaN. -/
theorem eq_iff_canonical (x y : Binary64) :
    x.eq y = true ↔ x.canonical = y.canonical ∧ x.isNan = false := by
  simp only [eq, Bool.and_eq_true, Bool.not_eq_true', beq_iff_eq]
  constructor
  · rintro ⟨⟨hx, hy⟩, hu⟩
    refine ⟨?_, hx⟩
    unfold canonical
    by_cases hz : x.units = 0
    · simp [hx, hy, hz, ← hu]
    · rw [eq_of_units hu hz]
  · rintro ⟨hc, hx⟩
    have hy : y.isNan = false := by rw [← canonical_isNan, ← hc, canonical_isNan, hx]
    exact ⟨⟨hx, hy⟩, by rw [← canonical_units hx, hc, canonical_units hy]⟩

theorem assemble_toNat {s : Bool} {e f : Nat} (h : e * 2 ^ 52 + f < 2 ^ 63) :
    (assemble s e f).bits.toNat = (if s then 2 ^ 63 else 0) + (e * 2 ^ 52 + f) := by
  unfold assemble
  rw [BitVec.toNat_ofNat, Nat.add_assoc]
  apply Nat.mod_eq_of_lt
  cases s <;> simp only [Bool.false_eq_true, ↓reduceIte] <;> omega

theorem assemble_negative {s : Bool} {e f : Nat} (h : e * 2 ^ 52 + f < 2 ^ 63) :
    (assemble s e f).negative = s := by
  unfold negative
  rw [BitVec.msb_eq_decide, assemble_toNat h]
  cases s <;> simp only [Bool.false_eq_true, ↓reduceIte, decide_eq_true_eq, decide_eq_false_iff_not] <;>
    omega

theorem assemble_exponent {s : Bool} {e f : Nat} (h : e * 2 ^ 52 + f < 2 ^ 63) :
    (assemble s e f).exponent = e + f / 2 ^ 52 := by
  unfold exponent
  rw [assemble_toNat h]
  cases s <;> simp only [Bool.false_eq_true, ↓reduceIte] <;> omega

theorem assemble_fraction {s : Bool} {e f : Nat} (h : e * 2 ^ 52 + f < 2 ^ 63) :
    (assemble s e f).fraction = f % 2 ^ 52 := by
  unfold fraction
  rw [assemble_toNat h]
  cases s <;> simp only [Bool.false_eq_true, ↓reduceIte] <;> omega

theorem magnitude_pos {x : Binary64} (h : x.exponent ≠ 0) : 0 < x.magnitude := by
  unfold magnitude
  rw [if_neg h]
  exact Nat.mul_pos (by omega) (Nat.two_pow_pos _)

/-- What equals an infinity is that infinity. -/
theorem eq_infinity {x : Binary64} {s : Bool} (h : x.eq (infinity s) = true) : x = infinity s := by
  simp only [eq, Bool.and_eq_true, beq_iff_eq] at h
  apply eq_of_units h.2
  rw [h.2]
  cases s <;> decide +kernel

theorem isFinite_of_not_infinity {x : Binary64} (hn : x.isNan = false)
    (hp : x.eq (infinity false) = false) (hm : x.eq (infinity true) = false) :
    x.isFinite = true := by
  by_contra hf
  have hexp : x.exponent = 2047 := by simpa [isFinite] using hf
  have hfrac : x.fraction = 0 := by simpa [isNan, hexp] using hn
  have hbits : 2047 * 2 ^ 52 + 0 < 2 ^ 63 := by decide
  have hx : x = infinity x.negative := by
    apply ext_fields
    · exact (assemble_negative hbits).symm
    · exact hexp.trans (assemble_exponent hbits).symm
    · exact hfrac.trans (assemble_fraction hbits).symm
  have hself : x.eq x = true := by rw [eq_self, hn]; rfl
  cases hs : x.negative with
  | false =>
    rw [hs] at hx
    rw [← hx, hself] at hp
    cases hp
  | true =>
    rw [hs] at hx
    rw [← hx, hself] at hm
    cases hm

/-- Exponent and fraction overflow to an infinity together. -/
theorem overflow_spec (s : Bool) (e f : Nat) (x : Binary64)
    (h : x = if 2047 ≤ e + 1 + f / 2 ^ 52 then infinity s else assemble s (e + 1) f) :
    x.isNan = false ∧ x.negative = s ∧ x.magnitude ≠ 0 := by
  rw [h]
  split
  · cases s <;> decide +kernel
  · rename_i hexp
    have hb : (e + 1) * 2 ^ 52 + f < 2 ^ 63 := by omega
    have he := assemble_exponent (s := s) hb
    refine ⟨?_, assemble_negative hb, Nat.ne_of_gt (magnitude_pos ?_)⟩
    · rw [isNan, he, beq_false_of_ne (by omega)]; rfl
    · omega

/-- A rounded magnitude is a number of the given sign, and zero only from zero. -/
theorem round_spec (s : Bool) (n : Nat) :
    (round s n).isNan = false ∧ (round s n).negative = s ∧
      ((round s n).magnitude = 0 ↔ n = 0) := by
  by_cases hn : n < 2 ^ 52
  · have hb : 0 * 2 ^ 52 + n < 2 ^ 63 := by omega
    have he : (assemble s 0 n).exponent = 0 := by rw [assemble_exponent hb]; omega
    rw [round, if_pos hn]
    refine ⟨?_, assemble_negative hb, ?_⟩
    · rw [isNan, he]; rfl
    · rw [magnitude, if_pos he, assemble_fraction hb]
      omega
  · obtain ⟨hnan, hneg, hm⟩ := overflow_spec s _ _ (round s n) (by rw [round, if_neg hn])
    exact ⟨hnan, hneg, iff_of_false hm (by omega)⟩

theorem ofUnits_isNan (n : Int) : (ofUnits n).isNan = false := (round_spec _ _).1

/-- Rounding keeps the sign. -/
theorem compare_zero_ofUnits (n : Int) : compare 0 (ofUnits n).units = compare 0 n := by
  obtain ⟨-, hs, hm⟩ := round_spec (decide (n < 0)) n.natAbs
  unfold units ofUnits
  rw [hs]
  generalize (round _ _).magnitude = m at hm
  rcases Int.lt_trichotomy n 0 with hn | hn | hn
  · have hpos : m ≠ 0 := by omega
    simp only [hn, decide_true, ↓reduceIte]
    rw [Int.compare_eq_gt.mpr (by omega), Int.compare_eq_gt.mpr (by omega)]
  · have hz : m = 0 := by omega
    simp [hn, hz]
  · have hpos : m ≠ 0 := by omega
    have hneg : ¬ n < 0 := by omega
    simp only [hneg, decide_false, Bool.false_eq_true, ↓reduceIte]
    rw [Int.compare_eq_lt.mpr (by omega), Int.compare_eq_lt.mpr (by omega)]

/-- What is not finite is larger than every finite magnitude. -/
theorem isFinite_of_lt {x : Binary64} (h : x.units.natAbs < 2 ^ 52 * 2 ^ 2046) :
    x.isFinite = true := by
  by_contra hx
  have he : x.exponent = 2047 := by simpa [isFinite] using hx
  have hm : 2 ^ 52 * 2 ^ 2046 ≤ x.magnitude := by
    rw [magnitude, he, if_neg (by decide)]
    exact Nat.mul_le_mul_right _ (Nat.le_add_right _ _)
  unfold units at h
  split at h <;> omega

/-- The place of a datum in the total order that puts NaN first. -/
def key (x : Binary64) : Option Int := if x.isNan then none else some x.units

end Binary64
end FirebaseEmu.Lib
