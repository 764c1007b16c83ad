import FirebaseEmu.Lib.Binary64
import Mathlib.Algebra.Order.Field.Rat
import Mathlib.Data.Int.ConditionallyCompleteOrder
import Mathlib.Order.Monotone.Basic
import Mathlib.Order.WithBot

namespace FirebaseEmu.Lib

/-- Not a number below the infinities, and the exact values between them. -/
abbrev Number := WithBot (WithBot (WithTop ℚ))

def Number.nan : Number := ⊥

def Number.infinity (negative : Bool) : Number :=
  ((if negative then ⊥ else ((⊤ : WithTop ℚ) : WithBot (WithTop ℚ)) : WithBot (WithTop ℚ)) : Number)

def Number.exact (q : ℚ) : Number := (((q : WithTop ℚ) : WithBot (WithTop ℚ)) : Number)

namespace Binary64

/-- What a datum stands for. The two zeros are one number. -/
def number (x : Binary64) : Number :=
  if x.isNan then .nan
  else if x.isInfinite then .infinity x.negative
  else .exact (x.units / one)

/-- The magnitude an infinity is given. -/
def top : Int := 2 ^ 52 * 2 ^ 2046

/-- The machine integers are in range. -/
theorem scale : 0 < one ∧ 0 < top ∧ (2 : Int) ^ 63 * one < top := by decide +kernel

theorem one_pos : (0 : ℚ) < one := by exact_mod_cast scale.1

/-- The number of so many units, where what is out of range counts as infinite. -/
def numberOfUnits (n : Int) : WithBot (WithTop ℚ) :=
  if n ≤ -top then ⊥ else if top ≤ n then ((⊤ : WithTop ℚ) : WithBot (WithTop ℚ))
  else (((n : ℚ) / one : ℚ) : WithTop ℚ)

theorem numberOfUnits_strictMono : StrictMonoOn numberOfUnits (Set.Icc (-top) top) := by
  rintro m ⟨hm, hm'⟩ n ⟨hn, hn'⟩ hlt
  unfold numberOfUnits
  have htop := scale.2.1
  have hnlo : ¬ n ≤ -top := by omega
  have hmhi : ¬ top ≤ m := by omega
  rw [if_neg hnlo, if_neg hmhi]
  by_cases hlo : m ≤ -top
  · rw [if_pos hlo]
    split
    · exact WithBot.bot_lt_coe _
    · exact WithBot.bot_lt_coe _
  · rw [if_neg hlo]
    split
    · exact WithBot.coe_lt_coe.mpr (WithTop.coe_lt_top _)
    · refine WithBot.coe_lt_coe.mpr (WithTop.coe_lt_coe.mpr ?_)
      have hq : (m : ℚ) < n := by exact_mod_cast hlt
      exact div_lt_div_of_pos_right hq one_pos

theorem infinity_parts : (((infinity false).magnitude : Nat) : Int) = top ∧
    (infinity false).exponent = 2047 ∧ (infinity false).fraction = 0 := by decide +kernel

theorem magnitude_le_top (x : Binary64) (h : x.isNan = false) :
    (x.magnitude : Int) ≤ top ∧ (x.isInfinite = false → (x.magnitude : Int) < top) ∧
      (x.isInfinite = true → (x.magnitude : Int) = top) := by
  obtain ⟨htop, hexp, hfrac⟩ := infinity_parts
  have hlt : x.exponent < 2048 := Nat.mod_lt _ (by decide)
  by_cases he : x.exponent = 2047
  · have hf : x.fraction = 0 := by simpa [isNan, he] using h
    have hm : x.magnitude = (infinity false).magnitude := by
      rw [magnitude, magnitude, he, hexp, hf, hfrac]
    have hi : x.isInfinite = true := by simp [isInfinite, he, hf]
    rw [hm, htop]
    exact ⟨le_refl _, fun hn => absurd hi (by simp [hn]), fun _ => rfl⟩
  · have hm : x.magnitude < (infinity false).magnitude := magnitude_lt (by omega)
    have hi : x.isInfinite = false := by simp [isInfinite, he]
    rw [← htop]
    exact ⟨by omega, fun _ => by omega, fun hn => absurd hn (by simp [hi])⟩

theorem units_mem (x : Binary64) (h : x.isNan = false) : x.units ∈ Set.Icc (-top) top := by
  have hle := (x.magnitude_le_top h).1
  unfold units
  split <;> constructor <;> omega

theorem number_of_units (x : Binary64) (h : x.isNan = false) :
    x.number = ((numberOfUnits x.units : WithBot (WithTop ℚ)) : Number) := by
  obtain ⟨-, hfin, hinf⟩ := x.magnitude_le_top h
  have htop := scale.2.1
  unfold number numberOfUnits units
  rw [h]
  cases hi : x.isInfinite with
  | true =>
    have hm := hinf hi
    cases hn : x.negative with
    | true => simp [Number.infinity, hm]
    | false =>
      have hlo : ¬ top ≤ -top := by omega
      simp [Number.infinity, hm, hlo]
  | false =>
    have hm := hfin hi
    have hlo : ¬ (if x.negative = true then -(x.magnitude : Int) else x.magnitude) ≤ -top := by
      split <;> omega
    have hhi : ¬ top ≤ (if x.negative = true then -(x.magnitude : Int) else x.magnitude) := by
      split <;> omega
    rw [if_neg hlo, if_neg hhi]
    rfl

/-- The order of the keys is the order of the numbers. -/
theorem cmp_number (x y : Binary64) : cmp x.number y.number = compare x.key y.key := by
  unfold key
  cases hx : x.isNan <;> cases hy : y.isNan
  case true.true =>
    rw [number, number, hx, hy]
    exact cmp_self_eq_eq _
  case true.false =>
    rw [number_of_units y hy, number, hx]
    exact (cmp_eq_lt_iff _ _).mpr (WithBot.bot_lt_coe _)
  case false.true =>
    rw [number_of_units x hx, number, hy]
    exact (cmp_eq_gt_iff _ _).mpr (WithBot.bot_lt_coe _)
  case false.false =>
    rw [number_of_units x hx, number_of_units y hy]
    rw [WithBot.coe_strictMono.cmp_map_eq,
      numberOfUnits_strictMono.cmp_map_eq (units_mem x hx) (units_mem y hy)]
    exact cmp_eq_compare _ _

/-- A machine integer, counted in units, is the number it is. -/
theorem exact_of_int {i : Int} (hlo : -2 ^ 63 ≤ i) (hhi : i ≤ 2 ^ 63) :
    Number.exact i = ((numberOfUnits (i * one) : WithBot (WithTop ℚ)) : Number) := by
  have htop := scale.2.2
  have hone : (0 : Int) ≤ one := Int.natCast_nonneg _
  have h1 := Int.mul_le_mul_of_nonneg_right hlo hone
  have h2 := Int.mul_le_mul_of_nonneg_right hhi hone
  have hq : ((i * one : Int) : ℚ) / one = i := by
    rw [Int.cast_mul, Int.cast_natCast, mul_div_cancel_right₀ _ (ne_of_gt one_pos)]
  rw [numberOfUnits, if_neg (by omega), if_neg (by omega), hq]
  rfl

end Binary64
end FirebaseEmu.Lib
