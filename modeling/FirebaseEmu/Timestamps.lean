import FirebaseEmu.Lib.Calendar

namespace FirebaseEmu
open Lib

/-- What an `i64` operation gives, unless it overflows. -/
def i64 (x : Int) : Option Int :=
  if -9223372036854775808 ≤ x ∧ x < 9223372036854775808 then some x else none

theorem i64_some {x : Int} (h : -9223372036854775808 ≤ x ∧ x < 9223372036854775808) :
    i64 x = some x := if_pos h

/-- `{n:0width}`: the sign counts. -/
def padded (width : Nat) (n : Int) : String :=
  let digits := Nat.toDigits 10 n.natAbs
  if n < 0 then String.ofList ('-' :: (List.replicate (width - 1 - digits.length) '0' ++ digits))
  else String.ofList (List.replicate (width - digits.length) '0' ++ digits)

/-- The timestamp's text up to the fraction. -/
def Lib.Moment.text (moment : Moment) : String :=
  padded 4 moment.date.year ++ "-" ++ padded 2 moment.date.month ++ "-" ++
    padded 2 moment.date.day ++ "T" ++ padded 2 moment.hour ++ ":" ++ padded 2 moment.minute ++
    ":" ++ padded 2 moment.second

/-! The three functions share the civil-date arithmetic. `/` truncates. -/

def eraOf (z : Int) : Option Int := do
  let start ← if z ≥ 0 then some z else i64 (z - 146096)
  return start.tdiv 146097

def yearOfEra (dayOfEra : Int) : Option Int := do
  let a ← i64 (dayOfEra - dayOfEra.tdiv 1460)
  let b ← i64 (a + dayOfEra.tdiv 36524)
  let c ← i64 (b - dayOfEra.tdiv 146096)
  return c.tdiv 365

def dayOfYear (dayOfEra yearOfEra : Int) : Option Int := do
  let a ← i64 (365 * yearOfEra)
  let b ← i64 (a + yearOfEra.tdiv 4)
  let c ← i64 (b - yearOfEra.tdiv 100)
  i64 (dayOfEra - c)

/-- The month, with March as month 0, and the day of it. -/
def monthPrime (dayOfYear : Int) : Option (Int × Int) := do
  let a ← i64 (5 * dayOfYear)
  let b ← i64 (a + 2)
  let monthPrime := b.tdiv 153
  let c ← i64 (153 * monthPrime)
  let d ← i64 (c + 2)
  let e ← i64 (dayOfYear - d.tdiv 5)
  let day ← i64 (e + 1)
  return (monthPrime, day)

def civilDate (days : Int) : Option Date := do
  let z ← i64 (days + 719468)
  let era ← eraOf z
  let eraDays ← i64 (era * 146097)
  let dayOfEra ← i64 (z - eraDays)
  let yoe ← yearOfEra dayOfEra
  let eraYears ← i64 (era * 400)
  let year ← i64 (yoe + eraYears)
  let doy ← dayOfYear dayOfEra yoe
  let (mp, day) ← monthPrime doy
  let month ← i64 (mp + if mp < 10 then 3 else -9)
  let year ← i64 (year + if month ≤ 2 then 1 else 0)
  return ⟨year, month, day⟩

def momentOf (days daySeconds : Int) : Option Moment := do
  let date ← civilDate days
  return ⟨date, daySeconds.tdiv 3600, (daySeconds.tmod 3600).tdiv 60, daySeconds.tmod 60⟩

def Storage.moment (seconds : Int64) : Option Moment :=
  momentOf (seconds.toInt / 86400) (seconds.toInt % 86400)

def Storage.timestampFromUnix (seconds : Int64) : Option String :=
  (Storage.moment seconds).map fun moment => moment.text ++ ".000Z"

def Pubsub.moment (seconds : Int64) : Option Moment :=
  momentOf ((max seconds.toInt 0).tdiv 86400) ((max seconds.toInt 0).tmod 86400)

def Pubsub.timestampRfc3339 (seconds : Int64) (nanos : Int32) : Option String :=
  (Pubsub.moment seconds).map fun moment =>
    moment.text ++ "." ++ padded 3 ((max nanos.toInt 0).tdiv 1000000) ++ "Z"

def Functions.moment (seconds : Int64) : Option Moment :=
  momentOf (seconds.toInt / 86400) (seconds.toInt % 86400)

/-- `chrono_timestamp`, at a clock that reads `now` whole seconds. -/
def Functions.chronoTimestamp (now : UInt64) : Option String :=
  (Functions.moment now.toInt64).map fun moment => moment.text ++ ".000Z"

theorem eraOf_eq {z : Int} (h : -200000000000000 ≤ z ∧ z ≤ 200000000000000) :
    eraOf z = some (z / 146097) := by
  unfold eraOf
  by_cases hz : z ≥ 0
  · rw [if_pos hz]
    show some (z.tdiv 146097) = _
    rw [Int.tdiv_eq_ediv_of_nonneg hz]
  · have hneg : (z - 146096).tdiv 146097 = -((146096 - z) / 146097) := by
      rw [← Int.tdiv_eq_ediv_of_nonneg (by omega), ← Int.neg_tdiv]
      congr 1
      omega
    have hfloor : -((146096 - z) / 146097) = z / 146097 := by omega
    rw [if_neg hz, i64_some (by omega)]
    show some ((z - 146096).tdiv 146097) = _
    rw [hneg, hfloor]

/-- A day of an era by its century, its four-year cycle, its year and its day of that year,
which are counted from March. -/
theorem dayOfEra_parts {doe : Int} (h0 : 0 ≤ doe) (h1 : doe < 146097) :
    ∃ c q y t : Int, (0 ≤ c ∧ c ≤ 3) ∧ (0 ≤ q ∧ q ≤ 24) ∧ (0 ≤ y ∧ y ≤ 3) ∧
      (0 ≤ t ∧ t ≤ 364 ∨ t = 365 ∧ y = 3 ∧ (q < 24 ∨ c = 3)) ∧
      doe = 36524 * c + 1461 * q + 365 * y + t := by
  obtain ⟨c, hc⟩ : ∃ c, c = min (doe / 36524) 3 := ⟨_, rfl⟩
  obtain ⟨r, hr⟩ : ∃ r, r = doe - 36524 * c := ⟨_, rfl⟩
  obtain ⟨y, hy⟩ : ∃ y, y = min (r % 1461 / 365) 3 := ⟨_, rfl⟩
  exact ⟨c, r / 1461, y, r % 1461 - 365 * y, by omega⟩

theorem yearOfEra_eq {c q y t : Int} (hc : 0 ≤ c ∧ c ≤ 3) (hq : 0 ≤ q ∧ q ≤ 24)
    (hy : 0 ≤ y ∧ y ≤ 3) (ht : 0 ≤ t ∧ t ≤ 364 ∨ t = 365 ∧ y = 3 ∧ (q < 24 ∨ c = 3)) {doe : Int}
    (hdoe : doe = 36524 * c + 1461 * q + 365 * y + t) :
    yearOfEra doe = some (100 * c + 4 * q + y) := by
  have hs : 0 ≤ 1461 * q + 365 * y + t ∧ (1461 * q + 365 * y + t < 36524 ∨
      c = 3 ∧ 1461 * q + 365 * y + t = 36524) := by omega
  -- the last day of the era is in no fifth century
  have hcentury : doe / 36524 - doe / 146096 = c := by
    rcases hs.2 with h | ⟨h, h'⟩
    · have h1 : doe / 36524 = c := by omega
      have h2 : doe / 146096 = 0 := by omega
      omega
    · omega
  have hleap : doe / 1460 = 25 * c + q + (24 * c + q + 365 * y + t) / 1460 := by omega
  have hyear : (doe - doe / 1460 + doe / 36524 - doe / 146096) / 365 = 100 * c + 4 * q + y := by
    omega
  have hdoe0 : 0 ≤ doe := by omega
  unfold yearOfEra
  simp only [Int.tdiv_eq_ediv_of_nonneg hdoe0]
  rw [i64_some (by omega), Option.bind_eq_bind, Option.bind_some, i64_some (by omega),
    Option.bind_some, i64_some (by omega), Option.bind_some, Int.tdiv_eq_ediv_of_nonneg (by omega),
    hyear]
  rfl

theorem dayOfYear_eq {c q y t : Int} (hc : 0 ≤ c ∧ c ≤ 3) (hq : 0 ≤ q ∧ q ≤ 24)
    (hy : 0 ≤ y ∧ y ≤ 3) (ht : 0 ≤ t ∧ t ≤ 365) {doe : Int}
    (hdoe : doe = 36524 * c + 1461 * q + 365 * y + t) :
    dayOfYear doe (100 * c + 4 * q + y) = some t := by
  have hyoe : 0 ≤ 100 * c + 4 * q + y := by omega
  have hfour : (100 * c + 4 * q + y) / 4 = 25 * c + q := by omega
  have hhundred : (100 * c + 4 * q + y) / 100 = c := by omega
  unfold dayOfYear
  rw [Int.tdiv_eq_ediv_of_nonneg hyoe, Int.tdiv_eq_ediv_of_nonneg hyoe, hfour, hhundred,
    i64_some (by omega), Option.bind_eq_bind, Option.bind_some, i64_some (by omega),
    Option.bind_some, i64_some (by omega), Option.bind_some, i64_some (by omega)]
  congr 1
  omega

theorem monthPrime_eq {doy : Int} (h : 0 ≤ doy ∧ doy ≤ 365) :
    monthPrime doy =
      some ((5 * doy + 2) / 153, doy - (153 * ((5 * doy + 2) / 153) + 2) / 5 + 1) := by
  unfold monthPrime
  rw [i64_some (by omega), Option.bind_eq_bind, Option.bind_some, i64_some (by omega),
    Option.bind_some]
  simp only [Int.tdiv_eq_ediv_of_nonneg (show (0 : Int) ≤ 5 * doy + 2 by omega)]
  rw [i64_some (by omega), Option.bind_some, i64_some (by omega), Option.bind_some,
    Int.tdiv_eq_ediv_of_nonneg (by omega), i64_some (by omega), Option.bind_some,
    i64_some (by omega), Option.bind_some]
  rfl

/-- A day of a year that starts in March, as a date: the months from March on have the lengths
that `(153 * m + 2) / 5` counts, and January and February are of the next year. -/
theorem march_date {year doy mp month day : Int}
    (hdoy : 0 ≤ doy ∧ doy ≤ 364 ∨ doy = 365 ∧ isLeap (year + 1)) (hmp : mp = (5 * doy + 2) / 153)
    (hmonth : month = mp + if mp < 10 then 3 else -9)
    (hday : day = doy - (153 * mp + 2) / 5 + 1) :
    let date : Date := ⟨year + if month ≤ 2 then 1 else 0, month, day⟩
    date.Valid ∧
      date.dayNumber = 365 * year + year / 4 - year / 100 + year / 400 + doy - 719468 := by
  intro date
  have hstart : yearStart (year + 1) = 365 * year + year / 4 - year / 100 + year / 400 := by
    unfold yearStart
    rw [Int.add_sub_cancel]
  have hepoch : yearStart 1970 = 719162 := rfl
  by_cases hlate : mp < 10
  · rw [if_pos hlate] at hmonth
    have hyear : date = ⟨year, month, day⟩ := by
      show Date.mk _ _ _ = _
      rw [if_neg (by omega), Int.add_zero]
    have hfrom := monthStart_table year month (by omega)
    have hto := monthStart_table year (month + 1) (by omega)
    rw [if_neg (by omega)] at hfrom hto
    have hlength := monthStart_succ year (show 1 ≤ month by omega)
    have hnext := yearStart_succ year
    have hfirst : (153 * month - 457) / 5 = (153 * mp + 2) / 5 := by
      congr 1
      omega
    have hlast : doy + 1 ≤ (153 * (month + 1) - 457) / 5 := by omega
    rw [hyear]
    refine ⟨⟨by show 1 ≤ month ∧ month ≤ 12; omega, by show 1 ≤ day; omega, ?_⟩, ?_⟩
    · show day ≤ monthLength year month
      omega
    · show yearStart year + monthStart year month + (day - 1) - yearStart 1970 = _
      omega
  · rw [if_neg hlate] at hmonth
    have hyear : date = ⟨year + 1, month, day⟩ := by
      show Date.mk _ _ _ = _
      rw [if_pos (by omega)]
    have hfrom := monthStart_table (year + 1) month (by omega)
    rw [if_pos (by omega)] at hfrom
    rw [hyear]
    refine ⟨⟨by show 1 ≤ month ∧ month ≤ 12; omega, by show 1 ≤ day; omega, ?_⟩, ?_⟩
    · show day ≤ monthLength (year + 1) month
      unfold monthLength
      by_cases hfeb : month = 2
      · rw [if_pos hfeb]
        by_cases hleap : isLeap (year + 1)
        · rw [if_pos hleap]
          omega
        · rw [if_neg hleap]
          have hdoy : doy ≤ 364 := hdoy.elim And.right fun h => absurd h.2 hleap
          omega
      · rw [if_neg hfeb, if_neg (by omega)]
        omega
    · show yearStart (year + 1) + monthStart (year + 1) month + (day - 1) - yearStart 1970 = _
      omega

/-- The arithmetic does not overflow, and gives the date of the day. -/
theorem civilDate_spec {days : Int} (h : -110000000000000 ≤ days ∧ days ≤ 110000000000000) :
    ∃ date, civilDate days = some date ∧ date.Valid ∧ date.dayNumber = days := by
  obtain ⟨era, hera⟩ : ∃ era, era = (days + 719468) / 146097 := ⟨_, rfl⟩
  obtain ⟨doe, hdoe⟩ : ∃ doe, doe = days + 719468 - era * 146097 := ⟨_, rfl⟩
  obtain ⟨c, q, y, t, hc, hq, hy, ht, hparts⟩ := dayOfEra_parts (show 0 ≤ doe by omega) (by omega)
  obtain ⟨year, hyear⟩ : ∃ year, year = 100 * c + 4 * q + y + era * 400 := ⟨_, rfl⟩
  have htday : 0 ≤ t ∧ t ≤ 365 := by omega
  have hleap : 0 ≤ t ∧ t ≤ 364 ∨ t = 365 ∧ isLeap (year + 1) := by
    unfold isLeap
    omega
  have hdate := march_date hleap rfl rfl rfl
  refine ⟨_, ?_, hdate.1, ?_⟩
  · unfold civilDate
    rw [i64_some (by omega), Option.bind_eq_bind, Option.bind_some, eraOf_eq (by omega),
      Option.bind_some, ← hera, i64_some (by omega), Option.bind_some, ← hdoe,
      i64_some (by omega), Option.bind_some, yearOfEra_eq hc hq hy ht hparts, Option.bind_some,
      i64_some (by omega), Option.bind_some, ← hyear, i64_some (by omega), Option.bind_some,
      dayOfYear_eq hc hq hy htday hparts, Option.bind_some, monthPrime_eq htday]
    have hmp : 0 ≤ (5 * t + 2) / 153 ∧ (5 * t + 2) / 153 ≤ 11 := by omega
    show (i64 _).bind _ = _
    rw [i64_some (by split <;> omega), Option.bind_some]
    show (i64 _).bind _ = _
    rw [i64_some (by split <;> omega)]
    rfl
  · have hfour : year / 4 = 100 * era + 25 * c + q := by omega
    have hhundred : year / 100 = 4 * era + c := by omega
    have hfourhundred : year / 400 = era := by omega
    rw [hdate.2, hfour, hhundred, hfourhundred]
    omega

theorem moment_spec (s : Int64) :
    ∃ m, Storage.moment s = some m ∧ m.Valid ∧ m.instant = s.toInt := by
  have hlo := s.le_toInt
  have hhi := s.toInt_lt
  obtain ⟨date, hcivil, hvalid, hnumber⟩ := civilDate_spec
    (show -110000000000000 ≤ s.toInt / 86400 ∧ s.toInt / 86400 ≤ 110000000000000 by omega)
  have hday : 0 ≤ s.toInt % 86400 ∧ s.toInt % 86400 < 86400 := by omega
  refine ⟨⟨date, s.toInt % 86400 / 3600, s.toInt % 86400 % 3600 / 60, s.toInt % 86400 % 60⟩,
    ?_, ⟨hvalid, ?_, ?_, ?_⟩, ?_⟩
  · unfold Storage.moment momentOf
    rw [hcivil, Int.tdiv_eq_ediv_of_nonneg hday.1, Int.tmod_eq_emod_of_nonneg hday.1,
      Int.tmod_eq_emod_of_nonneg hday.1, Int.tdiv_eq_ediv_of_nonneg (by omega)]
    rfl
  · show 0 ≤ s.toInt % 86400 / 3600 ∧ s.toInt % 86400 / 3600 ≤ 23
    omega
  · show 0 ≤ s.toInt % 86400 % 3600 / 60 ∧ s.toInt % 86400 % 3600 / 60 ≤ 59
    omega
  · show 0 ≤ s.toInt % 86400 % 60 ∧ s.toInt % 86400 % 60 ≤ 59
    omega
  · show 86400 * date.dayNumber + 3600 * (s.toInt % 86400 / 3600) +
      60 * (s.toInt % 86400 % 3600 / 60) + s.toInt % 86400 % 60 = s.toInt
    rw [hnumber]
    omega

theorem pubsub_moment {s : Int64} (h : 0 ≤ s.toInt) : Pubsub.moment s = Storage.moment s := by
  unfold Pubsub.moment Storage.moment
  rw [Int.max_eq_left h, Int.tdiv_eq_ediv_of_nonneg h, Int.tmod_eq_emod_of_nonneg h]

/-- The timestamp of any second count is its date and time of day, the only one there is, and
the arithmetic never overflows; from 1970 on the three functions agree. -/
theorem timestamps_are_dates (s : Int64) :
    (∃ m, Storage.moment s = some m ∧ m.Valid ∧ m.instant = s.toInt ∧
      (∀ m' : Moment, m'.Valid → m'.instant = s.toInt → m' = m) ∧
      Storage.timestampFromUnix s = some (m.text ++ ".000Z")) ∧
    (0 ≤ s.toInt → Pubsub.moment s = Storage.moment s ∧ Functions.moment s = Storage.moment s) := by
  obtain ⟨m, hm, hvalid, hinstant⟩ := moment_spec s
  refine ⟨⟨m, hm, hvalid, hinstant, fun m' hvalid' hinstant' => ?_, ?_⟩, fun h => ?_⟩
  · exact hvalid'.unique hvalid (hinstant'.trans hinstant.symm)
  · rw [Storage.timestampFromUnix, hm, Option.map_some]
  · exact ⟨pubsub_moment h, rfl⟩

/-- The first second of 2024. -/
theorem timestamps_are_dates_2024 :
    Pubsub.moment 1704067200 = some ⟨⟨2024, 1, 1⟩, 0, 0, 0⟩ ∧
      Storage.timestampFromUnix 1704067200 = some "2024-01-01T00:00:00.000Z" := by
  obtain ⟨⟨m, hm, -, -, -, htext⟩, hsame⟩ := timestamps_are_dates 1704067200
  have hmoment : Storage.moment 1704067200 = some ⟨⟨2024, 1, 1⟩, 0, 0, 0⟩ := by decide
  obtain rfl := Option.some.inj (hm.symm.trans hmoment)
  exact ⟨(hsame (by decide)).1.trans hmoment, htext⟩

end FirebaseEmu
