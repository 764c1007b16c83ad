import Mathlib.Data.List.Basic

namespace FirebaseEmu.Lib

/-- The years of the proleptic Gregorian calendar with a 29 February. -/
def isLeap (year : Int) : Prop := year % 4 = 0 ∧ (year % 100 ≠ 0 ∨ year % 400 = 0)

instance : DecidablePred isLeap := fun year =>
  inferInstanceAs (Decidable (year % 4 = 0 ∧ (year % 100 ≠ 0 ∨ year % 400 = 0)))

def yearLength (year : Int) : Int := if isLeap year then 366 else 365

def monthLength (year month : Int) : Int :=
  if month = 2 then if isLeap year then 29 else 28
  else if month = 4 ∨ month = 6 ∨ month = 9 ∨ month = 11 then 30
  else 31

@[ext]
structure Date where
  year : Int
  month : Int
  day : Int
deriving DecidableEq

def Date.Valid (date : Date) : Prop :=
  (1 ≤ date.month ∧ date.month ≤ 12) ∧
    1 ≤ date.day ∧ date.day ≤ monthLength date.year date.month

/-- The days before a year, counted from the first of year 1. -/
def yearStart (year : Int) : Int :=
  365 * (year - 1) + (year - 1) / 4 - (year - 1) / 100 + (year - 1) / 400

/-- The days of a year before a month of it. -/
def monthStart (year month : Int) : Int :=
  (List.range (month - 1).toNat).foldl
    (fun (days : Int) (before : Nat) => days + monthLength year (before + 1)) 0

/-- The days of a date since the first of January 1970. -/
def Date.dayNumber (date : Date) : Int :=
  yearStart date.year + monthStart date.year date.month + (date.day - 1) - yearStart 1970

theorem yearStart_succ (year : Int) : yearStart (year + 1) = yearStart year + yearLength year := by
  unfold yearStart yearLength
  by_cases h : isLeap year
  · rw [if_pos h]
    unfold isLeap at h
    omega
  · rw [if_neg h]
    unfold isLeap at h
    omega

theorem yearStart_mono {a b : Int} (h : a ≤ b) : yearStart a ≤ yearStart b := by
  unfold yearStart
  omega

theorem monthLength_pos (year month : Int) : 0 < monthLength year month := by
  unfold monthLength
  repeat' split
  all_goals omega

theorem monthStart_one (year : Int) : monthStart year 1 = 0 := rfl

theorem monthStart_succ (year : Int) {month : Int} (h : 1 ≤ month) :
    monthStart year (month + 1) = monthStart year month + monthLength year month := by
  have hn : (month + 1 - 1).toNat = (month - 1).toNat + 1 := by omega
  have hm : ((month - 1).toNat : Int) + 1 = month := by omega
  rw [monthStart, monthStart, hn, List.range_succ, List.foldl_append, List.foldl_cons,
    List.foldl_nil, hm]

theorem monthStart_mono (year : Int) {a b : Int} (ha : 1 ≤ a) (h : a ≤ b) :
    monthStart year a ≤ monthStart year b := by
  obtain ⟨n, rfl⟩ := Int.le.dest h
  induction n with
  | zero => simp
  | succ n ih =>
    have hstep := monthStart_succ year (show 1 ≤ a + (n : Int) by omega)
    have hpos := monthLength_pos year (a + n)
    have hle := ih (by omega)
    rw [show a + ((n + 1 : Nat) : Int) = a + n + 1 by omega]
    omega

/-- A table of the days before each month. -/
theorem monthStart_table (year month : Int) (h : 1 ≤ month ∧ month ≤ 13) :
    monthStart year month =
      if month ≤ 2 then 31 * (month - 1)
      else (153 * month - 457) / 5 + (yearLength year - 306) := by
  have hcases : month = 1 ∨ month = 2 ∨ month = 3 ∨ month = 4 ∨ month = 5 ∨ month = 6 ∨
      month = 7 ∨ month = 8 ∨ month = 9 ∨ month = 10 ∨ month = 11 ∨ month = 12 ∨ month = 13 := by
    omega
  by_cases hleap : isLeap year <;>
    rcases hcases with rfl | rfl | rfl | rfl | rfl | rfl | rfl | rfl | rfl | rfl | rfl | rfl | rfl <;>
    simp [monthStart, monthLength, yearLength, hleap, List.range_succ]

theorem monthStart_end (year : Int) : monthStart year 13 = yearLength year := by
  rw [monthStart_table year 13 (by omega)]
  omega

namespace Date

/-- A date is inside its year. -/
theorem Valid.inYear {date : Date} (h : date.Valid) :
    yearStart date.year ≤ date.dayNumber + yearStart 1970 ∧
      date.dayNumber + yearStart 1970 < yearStart (date.year + 1) := by
  obtain ⟨hmonth, hday⟩ := h
  have hfirst := monthStart_mono date.year (a := 1) (by omega) hmonth.1
  have hlast := monthStart_mono date.year (a := date.month + 1) (b := 13) (by omega) (by omega)
  rw [monthStart_one] at hfirst
  rw [monthStart_end, monthStart_succ date.year hmonth.1] at hlast
  rw [yearStart_succ]
  unfold dayNumber
  omega

theorem Valid.inMonth {date : Date} (h : date.Valid) :
    monthStart date.year date.month ≤ date.dayNumber + yearStart 1970 - yearStart date.year ∧
      date.dayNumber + yearStart 1970 - yearStart date.year <
        monthStart date.year (date.month + 1) := by
  obtain ⟨hmonth, hday⟩ := h
  rw [monthStart_succ date.year hmonth.1]
  unfold dayNumber
  omega

/-- No two dates have one day number. -/
theorem Valid.unique {a b : Date} (ha : a.Valid) (hb : b.Valid)
    (h : a.dayNumber = b.dayNumber) : a = b := by
  have hyear : a.year = b.year := by
    have hya := ha.inYear
    have hyb := hb.inYear
    rcases Int.lt_trichotomy a.year b.year with hlt | heq | hgt
    · have hle := yearStart_mono (a := a.year + 1) (b := b.year) (by omega)
      omega
    · exact heq
    · have hle := yearStart_mono (a := b.year + 1) (b := a.year) (by omega)
      omega
  have hmonth : a.month = b.month := by
    have hma := ha.inMonth
    have hmb := hb.inMonth
    rw [← hyear, ← h] at hmb
    rcases Int.lt_trichotomy a.month b.month with hlt | heq | hgt
    · have hle := monthStart_mono a.year (a := a.month + 1) (b := b.month)
        (by have := ha.1; omega) (by omega)
      omega
    · exact heq
    · have hle := monthStart_mono a.year (a := b.month + 1) (b := a.month)
        (by have := hb.1; omega) (by omega)
      omega
  apply Date.ext hyear hmonth
  unfold dayNumber at h
  rw [hyear, hmonth] at h
  omega

end Date

/-- A date and a time of that day. -/
structure Moment where
  date : Date
  hour : Int
  minute : Int
  second : Int
deriving DecidableEq

namespace Moment

structure Valid (moment : Moment) : Prop where
  date : moment.date.Valid
  hour : 0 ≤ moment.hour ∧ moment.hour ≤ 23
  minute : 0 ≤ moment.minute ∧ moment.minute ≤ 59
  second : 0 ≤ moment.second ∧ moment.second ≤ 59

/-- The seconds since the start of 1970. -/
def instant (moment : Moment) : Int :=
  86400 * moment.date.dayNumber + 3600 * moment.hour + 60 * moment.minute + moment.second

theorem Valid.unique {a b : Moment} (ha : a.Valid) (hb : b.Valid) (h : a.instant = b.instant) :
    a = b := by
  obtain ⟨date, hour, minute, second⟩ := a
  obtain ⟨date', hour', minute', second'⟩ := b
  have hha := ha.hour
  have hma := ha.minute
  have hsa := ha.second
  have hhb := hb.hour
  have hmb := hb.minute
  have hsb := hb.second
  simp only [instant] at h hha hma hsa hhb hmb hsb
  obtain rfl : date = date' := ha.date.unique hb.date (by show date.dayNumber = date'.dayNumber; omega)
  congr 1 <;> omega

end Moment
end FirebaseEmu.Lib
